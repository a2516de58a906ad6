/-!
# Files in memory

The command line reads one file and may write one. `Disk` holds the files of a working directory and
answers both operations the way an operating system does, so that a whole run can be followed
without leaving the logic. A directory exists exactly when a file lies below it; the working
directory, those above it and the root always do.
-/

namespace TileFusion

/-- Why a file cannot be read or written. -/
inductive FileError where
  /-- A directory on the way, or the file itself, does not exist. -/
  | notFound
  /-- A file stands where the path needs a directory. -/
  | notADirectory
  /-- The path leads to a directory. -/
  | isADirectory
  /-- A step of the path, or the whole of it, is too long. -/
  | nameTooLong
  /-- The contents are not a text. -/
  | notText
  /-- Anything else that the system reports. -/
  | other (text : String)
  deriving DecidableEq, Repr

/-- Wording of an error. -/
def FileError.text : FileError → String
  | notFound => "No such file or directory (os error 2)"
  | notADirectory => "Not a directory (os error 20)"
  | isADirectory => "Is a directory (os error 21)"
  | nameTooLong => "File name too long (os error 36)"
  | notText => "stream did not contain valid UTF-8"
  | other text => text

/-- What a file holds. -/
inductive FileContents where
  | text (text : String)
  | binary (bytes : List UInt8)
  deriving DecidableEq, Repr

/-- The contents that bytes amount to. -/
def FileContents.ofBytes (bytes : ByteArray) : FileContents :=
  match String.fromUTF8? bytes with
  | some decoded => .text decoded
  | none => .binary bytes.toList

/-- The contents as a text. -/
def FileContents.read : FileContents → Except FileError String
  | .text held => .ok held
  | .binary _ => .error .notText

/-- A place in the tree of directories: the steps that lead there from the working directory, none
of them `.`, and `..` only in front. A first step `/` is the root. -/
abbrev Place := List String

namespace Place

/-- The directory that holds a place. -/
def parent (place : Place) : Place :=
  match place.getLast? with
  | none => [".."]
  | some ".." => place ++ [".."]
  | some "/" => place
  | some _ => place.dropLast

/-- Whether a place is a directory whatever files there are. -/
def isFixed (place : Place) : Bool :=
  place == ["/"] || place.all (· == "..")

end Place

/-- A path, as it is given. -/
structure Path where
  start : Place
  /-- What it names, step by step. -/
  steps : List String
  /-- It ends in a slash, so that it has to name a directory. -/
  slashed : Bool
  deriving DecidableEq, Repr

namespace Path

/-- The longest name of one step, in bytes. -/
def maxStep : Nat := 255

/-- The longest path, in bytes. -/
def maxLength : Nat := 4095

/-- Reads a path. Slashes that follow each other count as one. -/
def parse (text : String) : Path where
  start := if text.toList.head? == some '/' then ["/"] else []
  steps := ((text.toList.splitOn '/').filter (!·.isEmpty)).map .ofList
  slashed := text.toList.getLast? == some '/'

end Path

/-- Files by place; of several entries for one place, the first counts. -/
structure Disk where
  files : List (Place × FileContents)
  deriving DecidableEq, Repr

/-- What a path leads to. -/
inductive Target where
  | directory
  | file (place : Place) (contents : FileContents)
  /-- A free name in a directory. -/
  | vacant (place : Place)
  deriving DecidableEq, Repr

namespace Disk

/-- The contents of the file at a place. -/
def file? (disk : Disk) (place : Place) : Option FileContents :=
  disk.files.lookup place

/-- Whether there is a directory at a place. -/
def isDirectory (disk : Disk) (place : Place) : Bool :=
  place.isFixed ||
    disk.files.any fun entry => place.isPrefixOf entry.1 && place.length < entry.1.length

/-- Follows steps from the directory `here`. -/
def follow (disk : Disk) (here : Place) : List String → Except FileError Target
  | [] => .ok .directory
  | step :: rest =>
    let place := here ++ [step]
    if step == "." then disk.follow here rest
    else if step == ".." then disk.follow here.parent rest
    else if Path.maxStep < step.utf8ByteSize then .error .nameTooLong
    else if disk.isDirectory place then disk.follow place rest
    else
      match disk.file? place, rest with
      | some contents, [] => .ok (.file place contents)
      | some _, _ :: _ => .error .notADirectory
      | none, [] => .ok (.vacant place)
      | none, _ :: _ => .error .notFound

/-- What a path leads to, whether it ends in a slash or not. The empty path leads nowhere. -/
def target (disk : Disk) (path : String) : Except FileError Target :=
  if path.isEmpty then .error .notFound
  else if Path.maxLength < path.utf8ByteSize then .error .nameTooLong
  else disk.follow (Path.parse path).start (Path.parse path).steps

/-- Reads the text of a file. -/
def read (disk : Disk) (path : String) : Except FileError String :=
  match disk.target path with
  | .error error => .error error
  | .ok .directory => .error .isADirectory
  | .ok (.vacant _) => .error .notFound
  | .ok (.file _ contents) =>
    if (Path.parse path).slashed then .error .notADirectory else contents.read

/-- Puts a file at a place. -/
def put (disk : Disk) (place : Place) (contents : FileContents) : Disk :=
  ⟨(place, contents) :: disk.files.filter fun entry => entry.1 != place⟩

theorem file?_put_self (disk : Disk) (place : Place) (contents : FileContents) :
    (disk.put place contents).file? place = some contents := by
  simp [file?, put]

/-- Dropping the entries of one place leaves what is found at another. -/
theorem lookup_filter_ne {α : Type} (files : List (Place × α)) {p q : Place} (h : p ≠ q) :
    (files.filter fun entry => entry.1 != q).lookup p = files.lookup p := by
  induction files with
  | nil => rfl
  | cons entry rest ih =>
    obtain ⟨place, value⟩ := entry
    by_cases hq : place = q
    · subst hq
      have hne : (p == place) = false := by simpa using h
      simp [List.lookup_cons, hne, ih]
    · simp [List.lookup_cons, hq, ih]

/-- A file at one place leaves the files at all others alone. -/
theorem file?_put_of_ne (disk : Disk) {place other : Place} (contents : FileContents)
    (h : other ≠ place) : (disk.put place contents).file? other = disk.file? other := by
  have hne : (other == place) = false := by simpa using h
  simp [file?, put, List.lookup_cons, hne, lookup_filter_ne _ h]

/-- Writes a text into a file, which is created if there is none. A write that fails leaves the disk
as it was. -/
def write (disk : Disk) (path text : String) : Except FileError Disk :=
  match disk.target path with
  | .error error => .error error
  | .ok .directory => .error .isADirectory
  | .ok (.vacant place) | .ok (.file place _) =>
    if (Path.parse path).slashed then .error .isADirectory
    else .ok (disk.put place (.text text))

/-- A disk with the given files and no other. -/
def ofFiles (files : List (String × FileContents)) : Disk :=
  ⟨files.map fun file => ((Path.parse file.1).steps, file.2)⟩

end Disk

end TileFusion
