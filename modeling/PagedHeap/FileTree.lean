import PagedHeap.ByteFile
import PagedHeap.Path
import PagedHeap.Table

/-! A tree of directories and files. `FileTree.place` follows a path from the top of the tree and
tells what it leads to. A file is known by a number, and can be read and written by it even after it
was taken out of the tree. -/
namespace PagedHeap

/-- A place in a tree: the names on the way to it from the top, the last one first. -/
abbrev Location := List String

/-- What a path leads to. -/
inductive Place
  | file (location : Location) (number : Nat)
  | directory (location : Location)
  /-- Nothing, in a directory that is there. -/
  | free (location : Location)
  /-- Nothing, since a directory on the way is not there. -/
  | missing
  /-- Nothing can be there: the path or a part of it is too long, or a file is on the way. -/
  | blocked
  deriving DecidableEq, Repr

structure FileTree where
  directories : List Location := []
  entries : Table Location Nat := {}
  contents : Table Nat ByteFile := {}
  next : Nat := 0

namespace FileTree

/-- What one part of a path leads to from a directory. -/
def enter (t : FileTree) (here : Location) (part : String) : Place :=
  if part = "." then .directory here
  else if part = ".." then .directory here.tail
  else if Path.maxPartBytes < part.utf8ByteSize then .blocked
  else if t.directories.contains (part :: here) then .directory (part :: here)
  else match t.entries.find? (part :: here) with
    | some number => .file (part :: here) number
    | none => .free (part :: here)

/-- What the parts of a path lead to from a directory. -/
def walk (t : FileTree) : Location → List String → Place
  | here, [] => .directory here
  | here, [part] => t.enter here part
  | here, part :: rest =>
    match t.enter here part with
    | .directory there => t.walk there rest
    | .free _ | .missing => .missing
    | .file _ _ | .blocked => .blocked

/-- What a path leads to. A slash at its end asks for a directory, so that there is no place for a
file. -/
def place (t : FileTree) (path : String) : Place :=
  if !Path.passable path then .blocked
  else match t.walk [] (Path.parts path) with
    | .file location number => if Path.trailing path then .blocked else .file location number
    | .free location => if Path.trailing path then .missing else .free location
    | other => other

/-- Adds the directories on the way along the parts that are not there yet. A directory cannot be
added by a way that ends in dots for itself. -/
def addFrom (t : FileTree) : Location → List String → Option FileTree
  | _, [] => some t
  | here, part :: rest =>
    match t.enter here part with
    | .directory there => t.addFrom there rest
    | .free there =>
      if rest ≠ [] ∧ rest.all (· = ".") then none
      else addFrom { t with directories := there :: t.directories } there rest
    | _ => none

/-- Makes a path lead to a directory, adding those that are not there yet. -/
def addDirectories (t : FileTree) (path : String) : Option FileTree :=
  if Path.passable path then t.addFrom [] (Path.parts path) else none

def addFile (t : FileTree) (location : Location) (f : ByteFile) : FileTree :=
  { t with
    entries := t.entries.insert location t.next
    contents := t.contents.insert t.next f
    next := t.next + 1 }

def remove (t : FileTree) (location : Location) : FileTree :=
  { t with entries := t.entries.erase location }

def read (t : FileTree) (number : Nat) : ByteFile := (t.contents.find? number).getD {}

def write (t : FileTree) (number : Nat) (f : ByteFile) : FileTree :=
  { t with contents := t.contents.insert number f }

@[simp] theorem read_write (t : FileTree) (m n : Nat) (f : ByteFile) :
    (t.write m f).read n = if n = m then f else t.read n := by
  by_cases h : n = m <;> simp [read, write, Table.find?_insert, h]

@[simp] theorem enter_write (t : FileTree) (n : Nat) (f : ByteFile) (here : Location)
    (part : String) : (t.write n f).enter here part = t.enter here part := rfl

/-- One more part leads on from the directory to which the others lead. -/
theorem walk_append (t : FileTree) (here there : Location) (parts : List String) (part : String)
    (h : t.walk here parts = .directory there) :
    t.walk here (parts ++ [part]) = t.enter there part := by
  induction parts generalizing here with
  | nil =>
    simp only [walk, Place.directory.injEq] at h
    simp [walk, h]
  | cons p rest ih =>
    cases rest with
    | nil =>
      simp only [walk] at h
      simp [walk, h]
    | cons q rest =>
      simp only [walk] at h
      simp only [List.cons_append, walk]
      split at h
      · next there' _ => exact ih there' h
      all_goals contradiction

end FileTree
end PagedHeap
