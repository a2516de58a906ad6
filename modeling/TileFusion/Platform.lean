import TileFusion.Named

/-!
# Platforms

The hardware generations that a pipeline can be compiled for, and what sets their accumulators
apart.
-/

namespace TileFusion

/-- A hardware generation. -/
inductive Platform where
  | wormhole
  | blackhole
  | quasar
  deriving DecidableEq, Repr

namespace Platform

/-- Every platform, oldest first. -/
def all : List Platform :=
  [wormhole, blackhole, quasar]

/-- Lower-case name, as description files spell it. -/
def name : Platform → String
  | wormhole => "wormhole"
  | blackhole => "blackhole"
  | quasar => "quasar"

instance : Named Platform := ⟨all, name⟩

/-- Whether the accumulator holds 16-bit data unless 32-bit accumulation is asked for. -/
def hasNarrowAccumulator (p : Platform) : Bool :=
  p == quasar

/-- Tiles of 16-bit data that the whole accumulator holds. -/
def accumulatorTiles : Platform → Nat
  | wormhole | blackhole | quasar => 16

/-- A text that names no platform. -/
structure Unknown where
  /-- The text, in lower case. -/
  text : String
  deriving DecidableEq, Repr

/-- Wording of the failure. -/
def Unknown.message (u : Unknown) : String :=
  s!"unknown platform '{u.text}'"

/-- Reads a platform name; ASCII case does not matter, and the first generation's board revision
is accepted as a second name. -/
def parse (text : String) : Except Unknown Platform :=
  match text.toLower with
  | "wormhole" | "wormhole_b0" => .ok wormhole
  | "blackhole" => .ok blackhole
  | "quasar" => .ok quasar
  | other => .error ⟨other⟩

end Platform

end TileFusion
