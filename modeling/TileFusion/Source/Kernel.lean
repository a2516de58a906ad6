import TileFusion.Log
import TileFusion.Program.Lowering
import TileFusion.Source.Line

/-!
# Kernel files

The text of the three threads of a fused kernel, and the one file that holds them, each thread
behind its own guard.
-/

namespace TileFusion

/-- The text of one thread. -/
structure ThreadSource where
  /-- Headers, sorted. -/
  headers : List String
  /-- Body of the thread's function. -/
  body : String
  deriving DecidableEq, Repr

/-- The text of a kernel. -/
structure KernelSource where
  platform : Platform
  unpack : ThreadSource
  math : ThreadSource
  pack : ThreadSource
  deriving DecidableEq, Repr

/-- The text of a thread. -/
def KernelSource.thread (k : KernelSource) : Thread → ThreadSource
  | .unpack => k.unpack
  | .math => k.math
  | .pack => k.pack

/-- The text of a program. -/
def Program.source (p : Program) : KernelSource :=
  let text (thread : Thread) : ThreadSource :=
    ⟨(p.thread thread).headers, bodyText p.platform thread (p.thread thread).body⟩
  ⟨p.platform, text .unpack, text .math, text .pack⟩

/-- Emits the kernel of a pipeline. -/
def Pipeline.emit (p : Pipeline) : Logged KernelSource := do
  let source := p.lower.source
  Logged.note .info
    (s!"Emitted {p.stages.length} stage(s) for {source.platform.name}: " ++
      s!"{source.unpack.body.utf8ByteSize} unpack, {source.math.body.utf8ByteSize} math, " ++
      s!"{source.pack.body.utf8ByteSize} pack bytes")
  pure source

/-- A line that includes a header. -/
def includeLine (header : String) : String :=
  s!"#include \"{header}\"\n"

/-- What every kernel file starts with. -/
def preamble : String :=
  "#define FUSED_TEST\n" ++
    String.join (["ckernel.h", "llk_defs.h", "ckernel_debug.h", "ckernel_defs.h",
      "ckernel_sfpu.h", "tensix_types.h", "operand.h"].map includeLine) ++
    "\n" ++
    "std::uint32_t unp_cfg_context          = 0;\n" ++
    "std::uint32_t pack_sync_tile_dst_ptr   = 0;\n" ++
    "std::uint32_t math_sync_tile_dst_index = 0;\n" ++
    "\n" ++
    "#define UNUSED __attribute__((unused))\n"

/-- The part of a kernel file that belongs to one thread. -/
def guarded (thread : Thread) (source : ThreadSource) : String :=
  s!"\n#ifdef {thread.guard}\n\n" ++
    String.join (source.headers.map includeLine) ++
    "\nvoid run_kernel(const volatile struct RuntimeParams* params)\n\x7b\n" ++
    source.body ++
    "\x7d\n\n#endif\n"

/-- The whole kernel file. -/
def KernelSource.file (k : KernelSource) : String :=
  preamble ++ String.join (Thread.all.map fun thread => guarded thread (k.thread thread))

end TileFusion
