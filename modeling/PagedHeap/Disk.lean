import PagedHeap.Error
import PagedHeap.FileTree

/-! The disk: the files of one directory, opened by name and then addressed by a file id and page
numbers. A name is a path from the directory, so that one file can have several names; an id is
bound to a name. It stays bound until the file is destroyed by that name, also while the file is
closed, and is never given to another name. A failing operation changes nothing. -/
namespace PagedHeap

structure OpenFile where
  name : String
  number : Nat
  /-- The number of pages, as counted when the file was opened and kept up since. -/
  pages : UInt32
  /-- How many more times it has been opened than closed. -/
  uses : UInt32
  deriving DecidableEq, Repr

/-- A directory in a tree of files, the ids bound to names, and the files that are open. -/
structure Disk where
  tree : FileTree := {}
  dir : String
  ids : Table String UInt32 := {}
  opened : Table UInt32 OpenFile := {}
  nextId : UInt32 := 0

namespace Disk

/-- The disk over the directory of a path, which is made if it is not there; nothing is open, and no
id bound. -/
def mount (dir : String) (tree : FileTree) : Except StoreError Disk :=
  match tree.addDirectories dir with
  | some tree => .ok { tree, dir }
  | none => .error (.io "create directory")

def path (d : Disk) (name : String) : String := Path.join d.dir name

def place (d : Disk) (name : String) : Place := d.tree.place (d.path name)

def create (d : Disk) (name : String) : Except StoreError Disk :=
  if Path.trailing (d.path name) then .error (.io "create")
  else match d.place name with
    | .free location => .ok { d with tree := d.tree.addFile location {} }
    | .file _ _ | .directory _ => .error (.fileExists name)
    | .missing | .blocked => .error (.io "create")

def entry (d : Disk) (name : String) : Except StoreError (Location × Nat) :=
  match d.place name with
  | .file location number => .ok (location, number)
  | .free _ | .missing => .error (.fileNotFound name)
  | .directory _ | .blocked => .error (.io "open")

/-- The id and the open file of a name, if it is open. -/
def openAs? (d : Disk) (name : String) : Option (UInt32 × OpenFile) := do
  let id ← d.ids.find? name
  return (id, ← d.opened.find? id)

def isOpen (d : Disk) (name : String) : Bool := (d.openAs? name).isSome

def handle (d : Disk) (id : UInt32) : Except StoreError OpenFile :=
  match d.opened.find? id with
  | some h => .ok h
  | none => .error (.fileNotOpen id)

/-- Opens a file, once more if it is open already, and gives its id: the one bound to its name, or
the next unused one. The highest id is never given, since the count of ids would not fit. -/
def openFile (d : Disk) (name : String) : Except StoreError (UInt32 × Disk) :=
  match d.openAs? name with
  | some (id, h) =>
    if h.uses.toNat + 1 < UInt32.size then
      .ok (id, { d with opened := d.opened.insert id { h with uses := h.uses + 1 } })
    else .error .countOverflow
  | none => do
    let (_, number) ← d.entry name
    let pages := UInt32.ofNat (d.tree.read number).pages
    let h : OpenFile := { name, number, pages, uses := 1 }
    match d.ids.find? name with
    | some id => return (id, { d with opened := d.opened.insert id h })
    | none =>
      if d.nextId.toNat + 1 < UInt32.size then
        let id := d.nextId
        return (id, { d with
          opened := d.opened.insert id h, ids := d.ids.insert name id, nextId := id + 1 })
      else throw .countOverflow

/-- Takes back one opening of a file; the last one closes it. -/
def closeFile (d : Disk) (id : UInt32) : Except StoreError Disk := do
  let h ← d.handle id
  if h.uses = 1 then return { d with opened := d.opened.erase id }
  else return { d with opened := d.opened.insert id { h with uses := h.uses - 1 } }

/-- Removes a file that is not open by this name, and unbinds the id of the name. -/
def destroy (d : Disk) (name : String) : Except StoreError Disk := do
  if d.isOpen name then throw (.fileOpen name)
  let (location, _) ← d.entry name
  return { d with tree := d.tree.remove location, ids := d.ids.erase name }

def fileName (d : Disk) (id : UInt32) : Except StoreError String := return (← d.handle id).name

def numPages (d : Disk) (id : UInt32) : Except StoreError UInt32 := return (← d.handle id).pages

def firstPage (d : Disk) (id : UInt32) : Except StoreError UInt32 := do
  if (← d.numPages id) = 0 then throw (.pageNotFound ⟨id, 0⟩)
  return 0

def contents (d : Disk) (h : OpenFile) : ByteFile := d.tree.read h.number

def readPage (d : Disk) (id : PageId) : Except StoreError Page := do
  let h ← d.handle id.file
  if h.pages ≤ id.page then throw (.pageNotFound id)
  match (d.contents h).readPage id.page.toNat with
  | some p => return p
  | none => throw (.io "read")

/-- Writes a page of an open file, making the file longer if it does not reach so far. The number of
pages would not fit into 32 bits with the page of the last number. -/
def writePage (d : Disk) (id : PageId) (p : Page) : Except StoreError Disk := do
  let h ← d.handle id.file
  if id.page = noPage then throw .countOverflow
  let pages := if h.pages ≤ id.page then id.page + 1 else h.pages
  return { d with
    tree := d.tree.write h.number ((d.contents h).writePage id.page.toNat p)
    opened := d.opened.insert id.file { h with pages } }

/-- Adds a page of zeros after the last page of an open file, and gives its number. -/
def allocPage (d : Disk) (file : UInt32) : Except StoreError (UInt32 × Disk) := do
  let h ← d.handle file
  return (h.pages, ← d.writePage ⟨file, h.pages⟩ Page.blank)

/-- Replaces the contents of a file from outside, or adds a file with them, if there is a place for
one. Whoever has it open sees the new contents, but keeps the number of pages known before. -/
def replace (d : Disk) (name : String) (f : ByteFile) : Option Disk :=
  match d.place name with
  | .file _ number => some { d with tree := d.tree.write number f }
  | .free location => some { d with tree := d.tree.addFile location f }
  | _ => none

def contentsOf (d : Disk) (name : String) : Option ByteFile :=
  match d.place name with
  | .file _ number => some (d.tree.read number)
  | _ => none

end Disk
end PagedHeap
