import TileFusion.Registry

/-!
# Placement

Buffers with a requested address keep it and must not share memory. The others are taken in
declaration order, and each gets the lowest aligned address at or above `baseAddress` that meets
nothing placed before it. `Registry.allocate` does both.
-/

namespace TileFusion

/-- First address that placement hands out. -/
def baseAddress : Nat := 0x1A000

/-- Addresses that placement hands out are multiples of this. -/
def alignment : Nat := 16

/-- The least multiple of the alignment at or above an address, if the sum needed to find it fits
in a word. -/
def alignUp? (address : Nat) : Option Nat := do
  let padded ← word? (address + (alignment - 1))
  return padded / alignment * alignment

/-- Memory that an operand takes: the addresses from `start` up to, not including, `stop`. -/
structure Extent where
  start : Nat
  /-- First address after the buffer. -/
  stop : Nat
  /-- Id of the operand. -/
  owner : Nat
  name : String
  deriving DecidableEq, Repr

namespace Extent

/-- Order by start, then by stop, then by id. -/
def before (x y : Extent) : Bool :=
  x.start < y.start ||
    (x.start == y.start && (x.stop < y.stop || (x.stop == y.stop && x.owner ≤ y.owner)))

end Extent

/-- The memory an operand takes, once it is both settled and placed. -/
def Operand.extent? (o : Operand) : Option Extent := do
  let contents ← o.contents
  let address ← o.location.address?
  return ⟨address, address + contents.size, o.id, o.name⟩

/-- The first two neighbours of a sorted list that share memory. -/
def firstClash : List Extent → Option (Extent × Extent)
  | x :: y :: rest => if y.start < x.stop then some (x, y) else firstClash (y :: rest)
  | _ => none

/-- The lowest aligned address at or above `start` where `size` bytes fit between the extents, which
are sorted by start. `start` moves past each extent that is in the way. -/
def firstFit (size start : Nat) : List Extent → Option Nat
  | [] => do
    let _ ← word? (start + size)
    return start
  | x :: rest => do
    let stop ← word? (start + size)
    if stop ≤ x.start then return start
    else if start < x.stop then firstFit size (← alignUp? x.stop) rest
    else firstFit size start rest

/-- Adds an extent in front of the first one that starts no earlier. -/
def insertExtent (x : Extent) : List Extent → List Extent
  | [] => [x]
  | y :: rest => if y.start < x.start then y :: insertExtent x rest else x :: y :: rest

/-- A number in hexadecimal, with its mark. -/
def hexText (n : Nat) : String :=
  "0x" ++ String.ofList (Nat.toDigits 16 n)

/-- Places, in order, the operands that are settled but have no address. -/
def placeFloating (taken : List Extent) :
    List Operand → Logged (Except RegistryError (List Operand))
  | [] => pure (.ok [])
  | o :: rest =>
    match o.location, o.contents with
    | .floating, some contents =>
      match firstFit contents.size baseAddress taken with
      | none => pure (.error (.tooLarge o.name))
      | some start => do
        let stop := start + contents.size
        Logged.note .trace s!"operand '{o.name}' at {hexText start}..{hexText stop}"
        let placed ← placeFloating (insertExtent ⟨start, stop, o.id, o.name⟩ taken) rest
        pure (placed.map ({ o with location := .assigned start } :: ·))
    | _, _ => do
      let placed ← placeFloating taken rest
      pure (placed.map (o :: ·))

/-- The memory that is taken before any operand is placed, sorted. -/
def Registry.extents (r : Registry) : List Extent :=
  (r.operands.filterMap Operand.extent?).mergeSort Extent.before

/-- Gives every settled operand an address. -/
def Registry.allocate (r : Registry) : Logged (Except RegistryError Registry) :=
  match firstClash r.extents with
  | some (x, y) => pure (.error (.overlap y.name x.name))
  | none => do
    let placed ← placeFloating r.extents r.operands
    pure (placed.map Registry.mk)

end TileFusion
