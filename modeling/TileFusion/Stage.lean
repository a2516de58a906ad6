import TileFusion.FormatPlan
import TileFusion.Stage.Arithmetic
import TileFusion.Stage.Loader
import TileFusion.Stage.Nonlinear

/-!
# Stages

A stage is one step of a fused pipeline: it loads, computes and stores. `StageSpec` is a stage as
the caller describes it; `Stage` is one that passed every check, with all that code emission needs.
-/

namespace TileFusion

/-- A stage as described, before any check. -/
structure StageSpec where
  loader : Loader
  arithmetic : Arithmetic
  /-- What runs on the accumulator afterwards, in order. -/
  nonlinear : List Nonlinear
  output : String
  outputFormat : DataFormat
  fidelity : Fidelity
  /-- The unpacker writes straight into the accumulator. -/
  unpackToDest : Bool
  deriving DecidableEq, Repr

/-- A checked stage. Operands are given by their ids in the pipeline's registry. -/
structure Stage where
  index : Nat
  spec : StageSpec
  sourceA : Nat
  sourceB : Option Nat
  output : Nat
  formats : FormatPlan
  /-- Tiles per accumulator batch, never more than the output has. -/
  batchSize : Nat
  /-- Tiles that the accumulator holds for one handoff. -/
  capacity : Nat
  /-- The accumulator holds 32-bit data. -/
  wideDest : Bool
  /-- Inner dimension in tiles for a matrix product, 1 otherwise. -/
  innerTiles : Nat
  deriving DecidableEq, Repr

/-- The fidelity that is programmed: sums and differences only run at the lowest. -/
def StageSpec.effectiveFidelity (s : StageSpec) : Fidelity :=
  match s.arithmetic with
  | .eltwise .add | .eltwise .sub => .lofi
  | _ => s.fidelity

end TileFusion
