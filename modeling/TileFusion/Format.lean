import TileFusion.Named

/-!
# Data formats

A data format says how one number of a tile is stored. All classification is a function of the
format, so there is no table that could get out of step with the list of formats.
-/

namespace TileFusion

/-- Rows, and also columns, of one hardware tile. -/
def tileSide : Nat := 32

/-- Rows, and also columns, of one face of a tile. -/
def faceSide : Nat := 16

/-- Faces of one tile. -/
def faceCount : Nat := 4

/-- Width class of the exponent field, for the float families that have one. -/
inductive Exponent where
  /-- Five exponent bits. -/
  | narrow
  /-- Eight exponent bits. -/
  | wide
  deriving DecidableEq, Repr

/-- The storage and compute formats of the device. -/
inductive DataFormat where
  | float32
  | tf32
  | float16
  | float16b
  | bfp8
  | bfp8b
  | int32
  | uint32
  | uint16
  | int8
  | uint8
  | mxfp8r
  | mxfp8p
  deriving DecidableEq, Repr

namespace DataFormat

/-- Every format, in the order of the device's own list. -/
def all : List DataFormat :=
  [float32, tf32, float16, float16b, bfp8, bfp8b, int32, uint32, uint16, int8, uint8, mxfp8r,
    mxfp8p]

/-- Name of the format on the device and in description files. -/
def name : DataFormat → String
  | float32 => "Float32"
  | tf32 => "Tf32"
  | float16 => "Float16"
  | float16b => "Float16_b"
  | bfp8 => "Bfp8"
  | bfp8b => "Bfp8_b"
  | int32 => "Int32"
  | uint32 => "UInt32"
  | uint16 => "UInt16"
  | int8 => "Int8"
  | uint8 => "UInt8"
  | mxfp8r => "MxFp8R"
  | mxfp8p => "MxFp8P"

instance : Named DataFormat := ⟨all, name⟩

/-- Storage width of one datum in bits; for block formats the mantissa only. -/
def bits : DataFormat → Nat
  | float32 | int32 | uint32 => 32
  | tf32 => 19
  | float16 | float16b | uint16 => 16
  | bfp8 | bfp8b | int8 | uint8 | mxfp8r | mxfp8p => 8

/-- The exponent class; integers and micro-scaling formats have none. -/
def exponent : DataFormat → Option Exponent
  | float16 | bfp8 => some .narrow
  | float32 | tf32 | float16b | bfp8b => some .wide
  | _ => none

/-- Whether the format has an eight-bit exponent. -/
def hasWideExponent (f : DataFormat) : Bool :=
  f.exponent == some .wide

/-- Whether one datum fills a 32-bit word. -/
def is32Bit : DataFormat → Bool
  | float32 | int32 | uint32 => true
  | _ => false

/-- Whether sixteen datums share one exponent. -/
def isBlockFloat : DataFormat → Bool
  | bfp8 | bfp8b => true
  | _ => false

/-- Whether thirty-two datums share one scale. -/
def isMicroScaling : DataFormat → Bool
  | mxfp8r | mxfp8p => true
  | _ => false

/-- Bytes of one datum's own bits over a whole tile. A 19-bit datum is stored in a 32-bit word. -/
def payloadBytes : DataFormat → Nat
  | tf32 => tileSide * tileSide * 4
  | f => tileSide * tileSide * f.bits / 8

/-- Bytes of the exponents or scales that the datums of one tile share. -/
def sharedBytes (f : DataFormat) : Nat :=
  if f.isBlockFloat then tileSide * tileSide / 16
  else if f.isMicroScaling then tileSide * tileSide / 32
  else 0

/-- Bytes that one tile takes in memory. -/
def tileBytes (f : DataFormat) : Nat :=
  f.payloadBytes + f.sharedBytes

/-- Tile size in the 16-byte words that the unpacker and the packer are configured with. -/
def tileWords (f : DataFormat) : Nat :=
  f.tileBytes / 16

/-- Place of the format in `all`. -/
def position (f : DataFormat) : Nat :=
  all.idxOf f

/-- A text that names no data format. -/
structure Unknown where
  /-- The text as it was given. -/
  text : String
  deriving DecidableEq, Repr

/-- Wording of the failure. -/
def Unknown.message (u : Unknown) : String :=
  s!"unknown data format '{u.text}'"

/-- Reads a format name; the case of ASCII letters does not matter. -/
def parse (text : String) : Except Unknown DataFormat :=
  match all.find? fun f => f.name.toLower == text.toLower with
  | some f => .ok f
  | none => .error ⟨text⟩

end DataFormat

end TileFusion
