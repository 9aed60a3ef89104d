import Lexis.Text.Utf8

/-!
# Files around a working directory

A path is walked from left to right, name by name, from the working directory or from the root.
What it reaches is a file, a directory, or nothing, and the first obstacle on the way decides the
error.
-/

namespace Lexis

inductive ReadError where
  | notFound
  | notADirectory
  | isADirectory
  | nameTooLong
  | nulInPath
  | notUtf8
  /-- Any other reason, in the words of the system. -/
  | system (message : String)
  deriving Repr, DecidableEq

def ReadError.message : ReadError → String
  | .notFound => "No such file or directory (os error 2)"
  | .notADirectory => "Not a directory (os error 20)"
  | .isADirectory => "Is a directory (os error 21)"
  | .nameTooLong => "File name too long (os error 36)"
  | .nulInPath => "file name contained an unexpected NUL byte"
  | .notUtf8 => "stream did not contain valid UTF-8"
  | .system message => message

abbrev FileReader := String → Except ReadError ByteArray

def FileReader.readText (read : FileReader) (path : String) : Except ReadError String :=
  match read path with
  | .error cause => .error cause
  | .ok bytes =>
      match String.fromUTF8? bytes with
      | some text => .ok text
      | none => .error .notUtf8

theorem FileReader.readText_of_toUTF8 {read : FileReader} {path text : String}
    (h : read path = .ok text.toUTF8) : read.readText path = .ok text := by
  simp only [readText, h, Text.fromUTF8?_toUTF8]

/-- Where the names of a place start: at the root of all files, or so many directories above the
working directory. The names by which the working directory itself is reached are not known. -/
inductive Base where
  | root
  | above (levels : Nat)
  deriving Repr, DecidableEq

structure Place where
  base : Base
  names : List String
  deriving Repr, DecidableEq

namespace Place

def root : Place := ⟨.root, []⟩

def working : Place := ⟨.above 0, []⟩

/-- The directory that holds a place; the root holds itself. -/
def parent : Place → Place
  | ⟨.root, []⟩ => root
  | ⟨.above levels, []⟩ => ⟨.above (levels + 1), []⟩
  | ⟨base, names⟩ => ⟨base, names.dropLast⟩

/-- Where a name leads; an empty name and a dot stay in place. -/
def step (place : Place) (name : String) : Place :=
  if name = "" ∨ name = "." then place
  else if name = ".." then place.parent
  else ⟨place.base, place.names ++ [name]⟩

/-- The places that names lead through, the last one first. -/
def trail (place : Place) (names : List String) : List Place :=
  (names.foldl (fun (here, passed) name => (here.step name, here.step name :: passed))
    (place, [])).2

def isWithin (place outer : Place) : Bool :=
  outer.base == place.base && outer.names.isPrefixOf place.names

example : working.trail ["..", "d", "..", "x"] =
    [⟨.above 1, ["x"]⟩, ⟨.above 1, []⟩, ⟨.above 1, ["d"]⟩, ⟨.above 1, []⟩] := by
  decide +kernel

end Place

/-- The files, and the directories that are there beside those the files need. -/
structure FileTree where
  directories : List Place
  files : List (Place × ByteArray)

namespace FileTree

inductive Entry where
  | directory
  | file (contents : ByteArray)

def empty : FileTree := ⟨[], []⟩

/-- The longest name and the longest path, in bytes. -/
def nameLimit : Nat := 255

def pathLimit : Nat := 4095

def namesOf (path : String) : List String := (path.toList.splitOn '/').map String.ofList

def startOf (path : String) : Place :=
  if path.toList.head? = some '/' then Place.root else Place.working

def addDirectory (tree : FileTree) (path : String) : FileTree :=
  { tree with directories := (startOf path).trail (namesOf path) ++ tree.directories }

/-- Makes a file and the directories on the way to it. It takes the place of an earlier file. -/
def addFile (tree : FileTree) (path : String) (contents : ByteArray) : FileTree where
  directories := (startOf path).trail (namesOf path).dropLast ++ tree.directories
  files := ((namesOf path).foldl Place.step (startOf path), contents) :: tree.files

/-- What stands at a place. The directories above the working directory and the root are always
there. -/
def entryAt? (tree : FileTree) (place : Place) : Option Entry :=
  match tree.files.lookup place with
  | some contents => some (.file contents)
  | none =>
      if place.names.isEmpty || tree.directories.any (·.isWithin place) ||
          tree.files.any (·.1.isWithin place) then
        some .directory
      else none

def walk (tree : FileTree) (place : Place) : List String → Except ReadError Entry
  | [] =>
      match tree.entryAt? place with
      | some entry => .ok entry
      | none => .error .notFound
  | name :: later =>
      match tree.entryAt? place with
      | none => .error .notFound
      | some (.file _) => .error .notADirectory
      | some .directory =>
          if nameLimit < name.utf8ByteSize then .error .nameTooLong
          else tree.walk (place.step name) later

def read (tree : FileTree) : FileReader := fun path =>
  if '\x00' ∈ path.toList then .error .nulInPath
  else if path = "" then .error .notFound
  else if pathLimit < path.utf8ByteSize then .error .nameTooLong
  else
    match tree.walk (startOf path) (namesOf path) with
    | .ok (.file contents) => .ok contents
    | .ok .directory => .error .isADirectory
    | .error cause => .error cause

end FileTree

end Lexis
