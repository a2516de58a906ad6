import TileFusion.Format
import TileFusion.Platform

/-!
# Formats of one stage

Given what lies in memory and what has to land there, a stage needs a format for every hardware
unit in between. The unpacker, the accumulator and the packer each have conversion limits, and some
combinations need a 32-bit representation on the way. `FormatRequest.plan` settles all of them; the
one combination that no setting can realise is a narrow accumulator asked for 32-bit output.
-/

namespace TileFusion

/-- Formats that one unpacker is configured with. -/
structure LoadFormats where
  /-- Format in memory. -/
  source : DataFormat
  /-- Format written to the registers. -/
  target : DataFormat
  deriving DecidableEq, Repr

/-- Every format of one stage. -/
structure FormatPlan where
  /-- Format in memory of the first unpacker's operand. -/
  loadSource : DataFormat
  /-- Register format of the first unpacker. -/
  loadTarget : DataFormat
  /-- Second unpacker, for a stage that reads two operands from memory. -/
  secondary : Option LoadFormats
  compute : DataFormat
  /-- Format in which the packer reads the accumulator. -/
  storeSource : DataFormat
  /-- Format in memory of the output. -/
  storeTarget : DataFormat
  deriving DecidableEq, Repr

namespace FormatPlan

/-- Formats of the first unpacker. -/
def loadA (p : FormatPlan) : LoadFormats :=
  ⟨p.loadSource, p.loadTarget⟩

/-- Formats of the second unpacker, which repeats the first when there is no second operand. -/
def loadB (p : FormatPlan) : LoadFormats :=
  p.secondary.getD p.loadA

end FormatPlan

/-- What the formats of a stage depend on. -/
structure FormatRequest where
  /-- Format in memory of the first operand. -/
  load : DataFormat
  /-- Format in memory of the output. -/
  store : DataFormat
  /-- 32-bit accumulation is enabled. -/
  accumulate : Bool
  /-- The unpacker writes straight into the accumulator, past the source registers. -/
  unpackToDest : Bool
  platform : Platform
  /-- Format in memory of a second operand. -/
  secondary : Option DataFormat
  deriving DecidableEq, Repr

/-- A format combination that the platform cannot realise. -/
structure FormatError where
  platform : Platform
  load : DataFormat
  store : DataFormat
  deriving DecidableEq, Repr

namespace FormatError

/-- Why the combination is refused. -/
def reason (_ : FormatError) : String :=
  "a 16-bit accumulator cannot produce 32-bit output without 32-bit accumulation"

/-- Wording of the failure. -/
def message (e : FormatError) : String :=
  s!"{e.platform.name} cannot store {e.load.name} as {e.store.name}: {e.reason}"

end FormatError

/-- Register format of an unpacker that reads `source`. Micro-scaled data is only expanded through
`float16b`, and the source registers hold at most 19 bits of a 32-bit float. -/
def loadTarget (source store : DataFormat) (accumulate unpackToDest : Bool) : DataFormat :=
  if source.isMicroScaling then .float16b
  else if source == .float32 && !unpackToDest then
    if accumulate then .tf32
    else if store.hasWideExponent then .float16b
    else .float16
  else source

/-- Wide-exponent data stored as `float16` without 32-bit accumulation: the narrowing is only exact
out of a 32-bit accumulator. -/
def isOutlier (load store : DataFormat) (accumulate : Bool) : Bool :=
  load.hasWideExponent && store == .float16 && !accumulate

/-- The outlier hazard of either of two operands. -/
def isDualOutlier (load : DataFormat) (secondary : Option DataFormat) (store : DataFormat)
    (accumulate : Bool) : Bool :=
  isOutlier load store accumulate || secondary.any (isOutlier · store accumulate)

namespace FormatRequest

/-- Register format of the first unpacker. -/
def loadTarget (r : FormatRequest) : DataFormat :=
  TileFusion.loadTarget r.load r.store r.accumulate r.unpackToDest

/-- Formats of the second unpacker, when there is a second operand. -/
def secondaryFormats (r : FormatRequest) : Option LoadFormats :=
  r.secondary.map fun s => ⟨s, TileFusion.loadTarget s r.store r.accumulate r.unpackToDest⟩

/-- Format of the arithmetic: 32-bit as soon as anything in memory is, else as wide as the
accumulator, else the 16-bit float with the exponent class of the registers. -/
def compute (r : FormatRequest) : DataFormat :=
  if r.load.is32Bit || r.secondary.any DataFormat.is32Bit || r.store.is32Bit then .float32
  else if r.accumulate then .tf32
  else if r.loadTarget.hasWideExponent ||
      r.secondaryFormats.any (fun s => s.target.hasWideExponent) then .float16b
  else .float16

/-- Bits of the widest register format. -/
def widestLoaded (r : FormatRequest) : Nat :=
  max ((r.secondaryFormats.map fun s => s.target.bits).getD 0) r.loadTarget.bits

/-- The packer's input format on a platform whose accumulator can always widen. The rules are tried
in order:

* with 32-bit accumulation the oldest packer narrows to `float16` itself;
* 32-bit arithmetic behind the source registers is narrowed before the packer where that is exact;
* `float16` reaches `bfp8b` through `bfp8`, and the packer re-biases the exponent;
* an outlier stays 32-bit on the oldest platform and is stored directly on the others. -/
def wideStoreSource (r : FormatRequest) : DataFormat :=
  if r.platform == .wormhole && r.accumulate && r.store == .float16 then .float32
  else if r.compute == .float32 && !r.unpackToDest then
    if r.accumulate || (r.store.hasWideExponent && !r.store.is32Bit) then r.store else r.compute
  else if r.compute == .float16 && r.store == .bfp8b && !r.accumulate then .bfp8
  else if isDualOutlier r.load r.secondary r.store r.accumulate then
    if r.platform == .wormhole then .float32 else r.store
  else if r.accumulate then r.store
  else r.compute

/-- Whether a narrow accumulator would have to produce 32-bit output. -/
def isUnrealisable (r : FormatRequest) : Bool :=
  r.platform.hasNarrowAccumulator && !r.accumulate && r.store.is32Bit &&
    decide (r.widestLoaded ≤ 16)

/-- The packer's input format. -/
def storeSource (r : FormatRequest) : DataFormat :=
  if r.platform.hasNarrowAccumulator then
    if r.accumulate then r.store else r.compute
  else r.wideStoreSource

/-- Every format of the stage, or the reason why there is none. -/
def plan (r : FormatRequest) : Except FormatError FormatPlan :=
  if r.isUnrealisable then .error ⟨r.platform, r.load, r.store⟩
  else .ok {
    loadSource := r.load
    loadTarget := r.loadTarget
    secondary := r.secondaryFormats
    compute := r.compute
    storeSource := r.storeSource
    storeTarget := r.store }

end FormatRequest

end TileFusion
