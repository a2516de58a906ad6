import TileFusion.Build
import TileFusion.Command.Action
import TileFusion.Command.Options
import TileFusion.Description.Loading
import TileFusion.Description.Reader
import TileFusion.Source.Kernel
import TileFusion.Text.Quoted

/-!
# The command line

`commandWith` turns the arguments of a run, and the target that the surroundings suggest, into what
the run does. Only a compilation that succeeds to its end writes anything but messages.

How a description is written down is none of its business: the reader of descriptions is given to
it. `command` is the program with the reader of TOML files.
-/

namespace TileFusion

/-! ## Messages -/

/-- How `compile` is called. -/
def compileUsage : String :=
  "llk-fuse compile <pipeline.toml> [-o <file>] [--platform <p>]"

/-- How `formats` is called. -/
def formatsUsage : String :=
  "llk-fuse formats <in> <out> [--acc] [--unpack-to-dest] [--platform <p>]"

/-- Lines of text, each with its end. -/
def lines (texts : List String) : String :=
  String.join (texts.map (· ++ "\n"))

/-- What the program is for and how it is called. -/
def overview : String :=
  lines [
    "llk-fuse: fused LLK pipeline compiler",
    "",
    "Usage:",
    s!"  {compileUsage}",
    s!"  {formatsUsage}",
    "",
    "Subcommands:",
    "  compile   Validate a pipeline description and emit the fused kernel",
    "  formats   Print the resolved formats of one stage",
    "",
    "The platform comes from --platform, else the file, else CHIP_ARCH."]

/-- A reminder of how a command is called. -/
def usageLine (usage : String) : String :=
  s!"Usage: {usage}"

/-- What `compile` says about itself. -/
def compileHelp : String :=
  lines [
    usageLine compileUsage,
    "",
    "Compile a pipeline description into one fused kernel source file.",
    "",
    "Options:",
    "  -o, --out <FILE>     Output file (default: stdout)",
    "  --platform <P>       wormhole, blackhole or quasar"]

/-- What `formats` says about itself. -/
def formatsHelp : String :=
  lines [usageLine formatsUsage]

/-- A failed run with a message. -/
def refusal (message : String) : Outcome :=
  .failure (lines [s!"Error: {message}"])

/-- The outcome of a run that its arguments stop, for a command with the given usage and help. -/
def Stop.outcome (usage help : String) : Stop → Outcome
  | .help => .notice help
  | .incomplete => .failure (lines [usageLine usage])
  | .unexpected argument =>
    .failure (lines [s!"Unexpected argument: {argument}", usageLine usage])
  | .unknownPlatform unknown => refusal unknown.message
  | .unknownFormat unknown => refusal unknown.message

/-! ## Compiling -/

/-- Why a description does not become a kernel. -/
inductive CompileError where
  | unreadable (path : String) (error : FileError)
  | undescribed (path : String) (error : ReadError)
  /-- Nobody chooses a target. -/
  | noPlatform
  | invalid (fault : DescriptionFault)
  | unbuildable (errors : List BuildError)
  deriving DecidableEq, Repr

/-- Wording of why a text is not a description. -/
def ReadError.text : ReadError → String
  | .malformed => "not a TOML document"
  | .mismatched => "not a pipeline description"

/-- Wording of a failed compilation. -/
def CompileError.message : CompileError → String
  | .unreadable path error => s!"failed to read {quoted path}: {error.text}"
  | .undescribed path error => s!"failed to parse TOML {quoted path}: {error.text}"
  | .noPlatform => "no platform given (use --platform, the file's platform key, or CHIP_ARCH)"
  | .invalid fault => fault.message
  | .unbuildable errors => buildReport errors

/-- The target that a name suggests; a name that is not known suggests none. -/
def suggestedPlatform (name : Option String) : Option Platform :=
  name.bind fun name => (Platform.parse name).toOption

/-- The pipeline that a description stands for. -/
def Description.pipelineFor (d : Description) (platform : Platform) :
    Except CompileError Pipeline :=
  match (d.load platform).value with
  | .error fault => .error (.invalid fault)
  | .ok input =>
    (Pipeline.build input.registry input.specs input.settings).value.mapError .unbuildable

/-- The kernel file of a description. The target is the chosen one, else the one in the description,
else the suggested one. -/
def Description.kernel (d : Description) (chosen suggested : Option Platform) :
    Except CompileError String :=
  match chosen.or (d.pipeline.platform.or suggested) with
  | none => .error .noPlatform
  | some platform => (d.pipelineFor platform).map fun pipeline => pipeline.emit.value.file

/-- What makes a description of the text of a file, or says why it is none. -/
abbrev DescriptionReader := String → Except ReadError Description

/-- The kernel file for what was read from `path`. -/
def kernelOf (reader : DescriptionReader) (path : String) (chosen suggested : Option Platform)
    (contents : Except FileError String) : Except CompileError String :=
  match contents with
  | .error error => .error (.unreadable path error)
  | .ok text =>
    match reader text with
    | .error error => .error (.undescribed path error)
    | .ok d => d.kernel chosen suggested

/-- Delivers a kernel file. -/
def deliver (output : Option String) (kernel : String) : Action :=
  match output with
  | none => .finish (.success kernel)
  | some path =>
    .write path kernel fun
      | .error error => .finish (.failure (lines [s!"Error writing {path}: {error.text}"]))
      | .ok () => .finish (.notice (lines [s!"Generated {path}"]))

/-- Compiles a description. -/
def CompileOptions.action (options : CompileOptions) (reader : DescriptionReader)
    (suggested : Option Platform) : Action :=
  .read options.path fun contents =>
    match kernelOf reader options.path options.platform suggested contents with
    | .error error => .finish (refusal error.message)
    | .ok kernel => deliver options.output kernel

/-! ## Formats -/

/-- Lists the formats of one stage. -/
def FormatsOptions.outcome (options : FormatsOptions) (suggested : Option Platform) : Outcome :=
  let platform := (options.platform.or suggested).getD .blackhole
  let request : FormatRequest :=
    ⟨options.load, options.store, options.accumulate, options.unpackToDest, platform, none⟩
  match request.plan with
  | .error error => refusal error.message
  | .ok plan =>
    .success (lines [
      s!"platform:  {platform.name}",
      s!"unpack:    {plan.loadSource.name} -> {plan.loadTarget.name}",
      s!"math:      {plan.compute.name}",
      s!"pack:      {plan.storeSource.name} -> {plan.storeTarget.name}",
      s!"outlier:   {isOutlier options.load options.store options.accumulate}"])

/-! ## Runs -/

/-- Runs `compile`. -/
def compileCommand (reader : DescriptionReader) (chipArch : Option String)
    (arguments : List String) : Action :=
  match CompileOptions.parse arguments with
  | .error stop => .finish (stop.outcome compileUsage compileHelp)
  | .ok options => options.action reader (suggestedPlatform chipArch)

/-- Runs `formats`. -/
def formatsCommand (chipArch : Option String) (arguments : List String) : Action :=
  match FormatsOptions.parse arguments with
  | .error stop => .finish (stop.outcome formatsUsage formatsHelp)
  | .ok options => .finish (options.outcome (suggestedPlatform chipArch))

/-- Runs the program with a reader of descriptions. -/
def commandWith (reader : DescriptionReader) (chipArch : Option String) : List String → Action
  | [] => .finish (.notice overview)
  | name :: arguments =>
    if name == "compile" then compileCommand reader chipArch arguments
    else if name == "formats" then formatsCommand chipArch arguments
    else if asksForHelp name then .finish (.notice overview)
    else .finish (.failure (lines [s!"error: unknown subcommand '{name}'", ""] ++ overview))

/-- Runs the program on TOML files. -/
def command : Option String → List String → Action :=
  commandWith Description.read

end TileFusion
