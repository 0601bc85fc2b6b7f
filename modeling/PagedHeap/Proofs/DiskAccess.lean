import Mathlib.Tactic.Common
import PagedHeap.Disk
import PagedHeap.Proofs.Bindings

/-! What it takes for an operation of the disk to succeed, and what becomes of the disk then. The
directory, the open files and the pages are looked at elsewhere, by way of these equivalences. -/
namespace PagedHeap.Disk
variable {d d' : Disk} {id : PageId} {file n : UInt32} {name : String} {h : OpenFile} {p : Page}

lemma handle_of_find? (hf : d.opened.find? file = some h) : d.handle file = .ok h := by
  simp [handle, hf]

lemma find?_of_handle (hh : d.handle file = .ok h) : d.opened.find? file = some h := by
  unfold handle at hh
  split at hh
  · next hf => cases hh; exact hf
  · cases hh

/-- The disk after a page of an open file was written. -/
def written (d : Disk) (h : OpenFile) (id : PageId) (p : Page) : Disk :=
  { d with
    tree := d.tree.write h.number ((d.contents h).writePage id.page.toNat p)
    opened := d.opened.insert id.file
      { h with pages := if h.pages ≤ id.page then id.page + 1 else h.pages } }

lemma writePage_of_open (hf : d.opened.find? id.file = some h) (hp : id.page ≠ noPage) :
    d.writePage id p = .ok (d.written h id p) := by
  simp [writePage, handle_of_find? hf, hp, written, bind, Except.bind, pure, Except.pure]

theorem writePage_eq_ok_iff : d.writePage id p = .ok d' ↔
    ∃ h, d.opened.find? id.file = some h ∧ id.page ≠ noPage ∧ d' = d.written h id p := by
  constructor
  · intro hw
    cases hh : d.handle id.file with
    | error e => simp [writePage, hh, bind, Except.bind] at hw
    | ok h =>
      have hf := find?_of_handle hh
      by_cases hp : id.page = noPage
      · simp [writePage, hh, hp, bind, Except.bind, throw, throwThe, MonadExceptOf.throw] at hw
      · rw [writePage_of_open hf hp] at hw
        cases hw
        exact ⟨h, hf, hp, rfl⟩
  · rintro ⟨h, hf, hp, rfl⟩
    exact writePage_of_open hf hp

theorem allocPage_eq_ok_iff : d.allocPage file = .ok (n, d') ↔
    ∃ h, d.opened.find? file = some h ∧ n = h.pages ∧ n ≠ noPage ∧
      d' = d.written h ⟨file, n⟩ Page.blank := by
  constructor
  · intro ha
    cases hh : d.handle file with
    | error e => simp [allocPage, hh, bind, Except.bind] at ha
    | ok h =>
      cases hw : d.writePage ⟨file, h.pages⟩ Page.blank with
      | error e => simp [allocPage, hh, hw, bind, Except.bind] at ha
      | ok d'' =>
        simp only [allocPage, hh, hw, bind, Except.bind, pure, Except.pure] at ha
        cases ha
        obtain ⟨h', hf, hp, rfl⟩ := writePage_eq_ok_iff.mp hw
        have hf' := find?_of_handle hh
        rw [hf'] at hf
        cases hf
        exact ⟨h, hf', rfl, hp, rfl⟩
  · rintro ⟨h, hf, rfl, hp, rfl⟩
    have hw : d.writePage ⟨file, h.pages⟩ Page.blank = .ok _ := writePage_of_open hf hp
    simp [allocPage, handle_of_find? hf, hw, bind, Except.bind, pure, Except.pure]

theorem readPage_eq_ok_iff : d.readPage id = .ok p ↔
    ∃ h, d.opened.find? id.file = some h ∧ id.page < h.pages ∧
      (d.contents h).readPage id.page.toNat = some p := by
  cases hh : d.handle id.file with
  | error e =>
    have hn : ∀ h, d.opened.find? id.file ≠ some h := fun h hf => by
      rw [handle_of_find? hf] at hh
      cases hh
    simp [readPage, hh, hn, bind, Except.bind]
  | ok h =>
    rw [find?_of_handle hh]
    by_cases hp : h.pages ≤ id.page
    · simp [readPage, hh, hp, bind, Except.bind, throw, throwThe, MonadExceptOf.throw,
        UInt32.not_lt.mpr hp]
    · cases hr : (d.contents h).readPage id.page.toNat <;>
        simp [readPage, hh, hp, hr, bind, Except.bind, throw, throwThe, MonadExceptOf.throw, pure,
          Except.pure, UInt32.not_le.mp hp]

lemma page_ne_noPage_of_lt {a b : UInt32} (h : a < b) : a ≠ noPage := by
  rintro rfl
  have hb := b.toNat_lt
  have := UInt32.lt_iff_toNat_lt.mp h
  simp only [noPage, UInt32.reduceToNat] at this
  omega

lemma openAs?_eq_some_iff : d.openAs? name = some (file, h) ↔
    d.ids.find? name = some file ∧ d.opened.find? file = some h := by
  simp only [openAs?, Option.bind_eq_bind, Option.bind_eq_some_iff, Option.pure_def,
    Option.some.injEq, Prod.mk.injEq]
  constructor
  · rintro ⟨_, hi, _, hf, rfl, rfl⟩
    exact ⟨hi, hf⟩
  · rintro ⟨hi, hf⟩
    exact ⟨file, hi, h, hf, rfl, rfl⟩

lemma opened_eq_none (hn : d.openAs? name = none) (hi : d.ids.find? name = some file) :
    d.opened.find? file = none := by
  cases hf : d.opened.find? file with
  | none => rfl
  | some g => rw [openAs?_eq_some_iff.mpr ⟨hi, hf⟩] at hn; cases hn

theorem mount_eq_ok_iff {dir : String} {tree : FileTree} : mount dir tree = .ok d ↔
    ∃ tree', tree.addDirectories dir = some tree' ∧ d = { tree := tree', dir } := by
  unfold mount
  cases tree.addDirectories dir <;> simp [eq_comm]

theorem create_eq_ok_iff : d.create name = .ok d' ↔ Path.trailing (d.path name) = false ∧
    ∃ l, d.place name = .free l ∧ d' = { d with tree := d.tree.addFile l {} } := by
  unfold create
  cases Path.trailing (d.path name) <;> cases d.place name <;> simp [eq_comm]

theorem entry_eq_ok_iff {l : Location} {k : Nat} :
    d.entry name = .ok (l, k) ↔ d.place name = .file l k := by
  unfold entry
  cases d.place name <;> simp

lemma toNat_add_one {n : UInt32} (hroom : n.toNat + 1 < UInt32.size) :
    (n + 1).toNat = n.toNat + 1 := by
  rw [UInt32.toNat_add]
  exact Nat.mod_eq_of_lt hroom

lemma toNat_sub_one {n : UInt32} (hn : n.toNat ≠ 0) : (n - 1).toNat = n.toNat - 1 :=
  UInt32.toNat_sub_of_le _ _ (UInt32.le_iff_toNat_le.mpr (Nat.pos_of_ne_zero hn))

/-- A file of the tree as it is when it is opened. -/
def asOpened (d : Disk) (name : String) (number : Nat) : OpenFile :=
  { name, number, pages := UInt32.ofNat (d.tree.read number).pages, uses := 1 }

/-- How a file is opened: once more, under the id that its name has, or under a new one. -/
inductive Opening (d : Disk) (name : String) : UInt32 → Disk → Prop
  | again {file : UInt32} {h : OpenFile} (bound : d.ids.find? name = some file)
      (here : d.opened.find? file = some h) (few : h.uses.toNat + 1 < UInt32.size) :
    Opening d name file { d with opened := d.opened.insert file { h with uses := h.uses + 1 } }
  | bound {file : UInt32} {l : Location} {k : Nat} (there : d.place name = .file l k)
      (closed : d.openAs? name = none) (bound : d.ids.find? name = some file) :
    Opening d name file { d with opened := d.opened.insert file (d.asOpened name k) }
  | new {l : Location} {k : Nat} (there : d.place name = .file l k)
      (closed : d.openAs? name = none) (unbound : d.ids.find? name = none)
      (room : d.nextId.toNat + 1 < UInt32.size) :
    Opening d name d.nextId { d with
      opened := d.opened.insert d.nextId (d.asOpened name k)
      ids := d.ids.insert name d.nextId
      nextId := d.nextId + 1 }

theorem openFile_eq_ok_iff : d.openFile name = .ok (file, d') ↔ d.Opening name file d' := by
  constructor
  · intro ho
    unfold openFile at ho
    cases ha : d.openAs? name with
    | some found =>
      obtain ⟨hi, hf⟩ := openAs?_eq_some_iff.mp ha
      rw [ha] at ho
      by_cases hfew : found.2.uses.toNat + 1 < UInt32.size
      · cases (if_pos hfew).symm.trans ho
        exact .again hi hf hfew
      · cases (if_neg hfew).symm.trans ho
    | none =>
      rw [ha] at ho
      cases he : d.entry name with
      | error e => simp [he, bind, Except.bind] at ho
      | ok entry =>
        have hp := entry_eq_ok_iff.mp he
        simp only [he, bind, Except.bind, pure, Except.pure] at ho
        cases hi : d.ids.find? name with
        | some i =>
          rw [hi] at ho
          cases ho
          exact .bound hp ha hi
        | none =>
          rw [hi] at ho
          by_cases hroom : d.nextId.toNat + 1 < UInt32.size
          · rw [if_pos hroom] at ho
            cases ho
            exact .new hp ha hi hroom
          · rw [if_neg hroom] at ho
            cases ho
  · intro ho
    unfold openFile
    cases ho with
    | again hi hf hfew =>
      rw [openAs?_eq_some_iff.mpr ⟨hi, hf⟩]
      exact if_pos hfew
    | bound hp ha hi =>
      simp [ha, entry_eq_ok_iff.mpr hp, hi, asOpened, bind, Except.bind, pure, Except.pure]
    | new hp ha hi hroom =>
      simp [ha, entry_eq_ok_iff.mpr hp, hi, hroom, asOpened, bind, Except.bind, pure, Except.pure]

/-- The disk after an opening of a file was taken back. -/
def closed (d : Disk) (file : UInt32) (h : OpenFile) : Disk :=
  { d with opened :=
      if h.uses = 1 then d.opened.erase file
      else d.opened.insert file { h with uses := h.uses - 1 } }

lemma find?_closed (other : UInt32) : (d.closed file h).opened.find? other =
    if other = file then if h.uses = 1 then none else some { h with uses := h.uses - 1 }
    else d.opened.find? other := by
  unfold closed
  split <;> simp only [Table.find?_erase, Table.find?_insert]

theorem closeFile_eq_ok_iff : d.closeFile file = .ok d' ↔
    ∃ h, d.opened.find? file = some h ∧ d' = d.closed file h := by
  unfold closeFile handle closed
  cases hf : d.opened.find? file with
  | none => simp [bind, Except.bind]
  | some h =>
    by_cases hone : h.uses = 1 <;> simp [hone, bind, Except.bind, pure, Except.pure, eq_comm]

theorem destroy_eq_ok_iff : d.destroy name = .ok d' ↔ d.isOpen name = false ∧
    ∃ l k, d.place name = .file l k ∧
      d' = { d with tree := d.tree.remove l, ids := d.ids.erase name } := by
  cases ho : d.isOpen name with
  | true => simp [destroy, ho, bind, Except.bind, throw, throwThe, MonadExceptOf.throw]
  | false =>
    cases he : d.entry name with
    | error e =>
      have hn : ∀ l k, d.place name ≠ .file l k := fun l k hp => by
        cases he.symm.trans (entry_eq_ok_iff.mpr hp)
      simp [destroy, ho, he, hn, bind, Except.bind]
    | ok found =>
      have hp := entry_eq_ok_iff.mp he
      simp [destroy, ho, he, hp, bind, Except.bind, pure, Except.pure, eq_comm]

/-- How many more times a file was opened than closed. -/
def uses (d : Disk) (file : UInt32) : Nat :=
  ((d.opened.find? file).map (·.uses.toNat)).getD 0

lemma uses_of_find? (hf : d.opened.find? file = some h) : d.uses file = h.uses.toNat := by
  rw [uses, hf]
  rfl

lemma uses_closed (hf : d.opened.find? file = some h) (hn : h.uses.toNat ≠ 0) (other : UInt32) :
    (d.closed file h).uses other = if other = file then d.uses file - 1 else d.uses other := by
  rw [uses, find?_closed, uses_of_find? hf]
  split
  · split
    · next hone => simp [hone]
    · exact toNat_sub_one hn
  · rfl

end PagedHeap.Disk
