import PagedHeap.Proofs.Computation
import PagedHeap.Proofs.DiskAccess

/-! Operations of a disk step by step. Every step changes the disk in place, and what was done before a
failure stays done. In each operation the steps that can fail come first, so that it is done as a whole
or not at all: it is the operation on disks of the same name, committed in one step. -/
namespace PagedHeap

/-- Computations on a disk, which may fail and then keep what they have done so far. -/
abbrev DiskM := ExceptT StoreError (StateM Disk)

namespace DiskM
variable {α β : Type} {d : Disk} {name : String} {id : UInt32}

def look (question : Disk → Except StoreError α) : DiskM α := fun d => (question d, d)

/-- What is done in one step, or leaves the disk alone. -/
def commit (d : Disk) : Except StoreError (α × Disk) → Except StoreError α × Disk
  | .ok (a, d) => (.ok a, d)
  | .error e => (.error e, d)

def create (name : String) : DiskM Unit := do
  let d ← get
  if Path.trailing (d.path name) then throw (.io "create")
  match d.place name with
  | .free location => modify fun d => { d with tree := d.tree.addFile location {} }
  | .file _ _ | .directory _ => throw (.fileExists name)
  | .missing | .blocked => throw (.io "create")

def bindNext (name : String) : DiskM UInt32 := do
  let id := (← get).nextId
  if id.toNat + 1 < UInt32.size then
    modify fun d => { d with nextId := id + 1 }
    modify fun d => { d with ids := d.ids.insert name id }
    return id
  else throw .countOverflow

def idFor (name : String) : DiskM UInt32 := do
  match (← get).ids.find? name with
  | some id => return id
  | none => bindNext name

def openFile (name : String) : DiskM UInt32 := do
  match (← get).openAs? name with
  | some (id, h) =>
    if h.uses.toNat + 1 < UInt32.size then
      modify fun d => { d with opened := d.opened.insert id { h with uses := h.uses + 1 } }
      return id
    else throw .countOverflow
  | none =>
    let (_, number) ← look fun d => d.entry name
    let h := (← get).asOpened name number
    let id ← idFor name
    modify fun d => { d with opened := d.opened.insert id h }
    return id

/-- The count is lowered first, and an open file that it leaves unused is taken out then. -/
def closeFile (id : UInt32) : DiskM Unit := do
  let h ← look fun d => d.handle id
  modify fun d => { d with opened := d.opened.insert id { h with uses := h.uses - 1 } }
  if h.uses - 1 = 0 then modify fun d => { d with opened := d.opened.erase id }

def destroy (name : String) : DiskM Unit := do
  if (← get).isOpen name then throw (.fileOpen name)
  let (location, _) ← look fun d => d.entry name
  modify fun d => { d with tree := d.tree.remove location }
  modify fun d => { d with ids := d.ids.erase name }

def writePage (id : PageId) (p : Page) : DiskM Unit := do
  let h ← look fun d => d.handle id.file
  if id.page = noPage then throw .countOverflow
  modify fun d =>
    { d with tree := d.tree.write h.number ((d.contents h).writePage id.page.toNat p) }
  let pages := if h.pages ≤ id.page then id.page + 1 else h.pages
  modify fun d => { d with opened := d.opened.insert id.file { h with pages } }

def allocPage (file : UInt32) : DiskM UInt32 := do
  let h ← look fun d => d.handle file
  writePage ⟨file, h.pages⟩ Page.blank
  return h.pages

lemma look_bind (question : Disk → Except StoreError α) (f : α → DiskM β) : (look question >>= f) d =
    match question d with
    | .ok a => f a d
    | .error e => (.error e, d) := by
  rw [bind_apply, look]
  cases question d <;> rfl

lemma get_bind (f : Disk → DiskM β) : (get >>= f) d = f d d := rfl

theorem create_apply (name : String) :
    create name d = commit d ((d.create name).map fun d => ((), d)) := by
  unfold create Disk.create
  rw [get_bind]
  cases Path.trailing (d.path name) <;> cases d.place name <;> rfl

theorem idFor_apply (name : String) : idFor name d = commit d (match d.ids.find? name with
    | some id => .ok (id, d)
    | none =>
      if d.nextId.toNat + 1 < UInt32.size then
        .ok (d.nextId, { d with ids := d.ids.insert name d.nextId, nextId := d.nextId + 1 })
      else .error .countOverflow) := by
  unfold idFor
  rw [get_bind]
  cases d.ids.find? name with
  | some id => rfl
  | none =>
    dsimp only [bindNext]
    rw [get_bind]
    by_cases hroom : d.nextId.toNat + 1 < UInt32.size
    · rw [if_pos hroom, if_pos hroom]
      rfl
    · rw [if_neg hroom, if_neg hroom]
      rfl

theorem openFile_apply (name : String) : openFile name d = commit d (d.openFile name) := by
  unfold openFile Disk.openFile
  rw [get_bind]
  cases d.openAs? name with
  | some found =>
    dsimp only
    by_cases hfew : found.2.uses.toNat + 1 < UInt32.size
    · rw [if_pos hfew, if_pos hfew]
      rfl
    · rw [if_neg hfew, if_neg hfew]
      rfl
  | none =>
    dsimp only
    rw [look_bind]
    cases d.entry name with
    | error e => rfl
    | ok entry =>
      dsimp only
      rw [get_bind, bind_apply, idFor_apply]
      dsimp only [bind, Except.bind]
      cases d.ids.find? name with
      | some id => rfl
      | none =>
        by_cases hroom : d.nextId.toNat + 1 < UInt32.size
        · rw [if_pos hroom, if_pos hroom]
          rfl
        · rw [if_neg hroom, if_neg hroom]
          rfl

theorem closeFile_apply (id : UInt32) :
    closeFile id d = commit d ((d.closeFile id).map fun d => ((), d)) := by
  unfold closeFile Disk.closeFile
  rw [look_bind]
  cases d.handle id with
  | error e => rfl
  | ok h =>
    dsimp only [bind, Except.bind]
    have hlast : h.uses - 1 = 0 ↔ h.uses = 1 := by rw [UInt32.sub_eq_iff_eq_add, UInt32.zero_add]
    by_cases hone : h.uses = 1
    · rw [if_pos (hlast.mpr hone), if_pos hone,
        ← Table.erase_insert d.opened id { h with uses := h.uses - 1 }]
      rfl
    · rw [if_neg (mt hlast.mp hone), if_neg hone]
      rfl

theorem destroy_apply (name : String) :
    destroy name d = commit d ((d.destroy name).map fun d => ((), d)) := by
  unfold destroy Disk.destroy
  rw [get_bind]
  cases d.isOpen name with
  | true => rfl
  | false =>
    simp only [Bool.false_eq_true, if_false]
    rw [look_bind]
    cases d.entry name <;> rfl

theorem writePage_apply (id : PageId) (p : Page) :
    writePage id p d = commit d ((d.writePage id p).map fun d => ((), d)) := by
  unfold writePage Disk.writePage
  rw [look_bind]
  cases d.handle id.file with
  | error e => rfl
  | ok h =>
    dsimp only [bind, Except.bind]
    by_cases hlast : id.page = noPage
    · rw [if_pos hlast, if_pos hlast]
      rfl
    · rw [if_neg hlast, if_neg hlast]
      rfl

theorem allocPage_apply (file : UInt32) : allocPage file d = commit d (d.allocPage file) := by
  unfold allocPage Disk.allocPage
  rw [look_bind]
  cases d.handle file with
  | error e => rfl
  | ok h =>
    dsimp only
    rw [bind_apply, writePage_apply]
    dsimp only [bind, Except.bind]
    cases d.writePage ⟨file, h.pages⟩ Page.blank <;> rfl

end DiskM
end PagedHeap
