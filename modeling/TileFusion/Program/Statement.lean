import TileFusion.Program.Batch
import TileFusion.Program.Call

/-!
# Thread programs

A fused kernel runs on three threads. The program of a thread is a list of statements around device
calls: declarations, batches of tiles and counted loops.
-/

namespace TileFusion

/-- The threads of a kernel, in the order in which data passes through them. -/
inductive Thread where
  /-- Memory to source registers. -/
  | unpack
  /-- Source registers to accumulator. -/
  | math
  /-- Accumulator to memory. -/
  | pack
  deriving DecidableEq, Repr

namespace Thread

/-- All threads. -/
def all : List Thread :=
  [unpack, math, pack]

/-- The symbol that selects the thread's part of a kernel file. -/
def guard : Thread → String
  | unpack => "LLK_TRISC_UNPACK"
  | math => "LLK_TRISC_MATH"
  | pack => "LLK_TRISC_PACK"

end Thread

/-- Declaration of an identifier. `unused` declarations may stay without a reader. -/
inductive Declaration where
  | buffer (name : String) (address tileBytes : Nat) (unused : Bool)
  | format (name : String) (format : DataFormat) (unused : Bool)
  | destSync (name : String) (sync : DestSync)
  deriving DecidableEq, Repr

/-- A statement of a thread. -/
inductive Stmt where
  | comment (text : String)
  | declare (declaration : Declaration)
  | call (call : Call)
  /-- Runs the body once per batch. -/
  | batched (shape : BatchShape) (body : List Stmt)
  /-- Runs the body for every tile of the batch around it; outside a batch, for one tile. -/
  | forEachTile (body : List Stmt)
  | loop (counter : String) (count : Nat) (body : List Stmt)
  | blank
  deriving Repr

/-- The program of one thread. -/
structure ThreadProgram where
  /-- Headers that the calls need, sorted and without repetition. -/
  headers : List String
  body : List Stmt

/-- Adds a header to a sorted list, unless it is there. -/
def insertHeader (header : String) : List String → List String
  | [] => [header]
  | h :: rest =>
    if header < h then header :: h :: rest
    else if header == h then h :: rest
    else h :: insertHeader header rest

/-- Headers sorted and without repetition. -/
def headerSet (headers : List String) : List String :=
  headers.foldr insertHeader []

/-- The program of all threads. -/
structure Program where
  platform : Platform
  unpack : ThreadProgram
  math : ThreadProgram
  pack : ThreadProgram

/-- The program of a thread. -/
def Program.thread (p : Program) : Thread → ThreadProgram
  | .unpack => p.unpack
  | .math => p.math
  | .pack => p.pack

end TileFusion
