/-!
# Identifiers of a stage

All stages of a thread share one function body in the kernel, so every identifier that a stage
declares ends in the index of the stage.
-/

namespace TileFusion.StageNames

/-- Buffer that the first unpacker reads. -/
def bufferA (stage : Nat) : String := s!"buffer_A{stage}"

/-- Buffer that the second unpacker reads. -/
def bufferB (stage : Nat) : String := s!"buffer_B{stage}"

/-- Buffer that the packer writes. -/
def bufferResult (stage : Nat) : String := s!"buffer_Res{stage}"

/-- Format in memory behind the first unpacker. -/
def unpackSourceA (stage : Nat) : String := s!"unpack_a_src_format{stage}"

/-- Register format of the first unpacker. -/
def unpackTargetA (stage : Nat) : String := s!"unpack_a_dst_format{stage}"

/-- Format in memory behind the second unpacker. -/
def unpackSourceB (stage : Nat) : String := s!"unpack_b_src_format{stage}"

/-- Register format of the second unpacker. -/
def unpackTargetB (stage : Nat) : String := s!"unpack_b_dst_format{stage}"

/-- Format of the arithmetic. -/
def mathFormat (stage : Nat) : String := s!"math_format{stage}"

/-- Extent of a handoff. -/
def destSync (stage : Nat) : String := s!"dest_sync{stage}"

/-- Format in which the packer reads the accumulator. -/
def packSource (stage : Nat) : String := s!"pack_src_format{stage}"

/-- Format in memory behind the packer. -/
def packTarget (stage : Nat) : String := s!"pack_dst_format{stage}"

/-- Every identifier of a stage: buffers first, then formats in the order of the data. -/
def all (stage : Nat) : List String :=
  [bufferA stage, bufferB stage, bufferResult stage, unpackSourceA stage, unpackTargetA stage,
    unpackSourceB stage, unpackTargetB stage, mathFormat stage, destSync stage, packSource stage,
    packTarget stage]

end TileFusion.StageNames
