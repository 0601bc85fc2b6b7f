import PagedHeap.Proofs.DiskFiles

/-! The pages of open files by their ids. A disk is `Regular` if the ids of open files are those of
different files that reach as far as they are taken to. Then a page that is written is written to the
file of its id alone, and what can be read is what was written. -/
namespace PagedHeap.Disk
variable {d : Disk} {id other : PageId} {file : UInt32} {h : OpenFile} {p : Page}

/-- Open files are told apart by their ids, and have the pages that they are taken to have. -/
structure Regular (d : Disk) : Prop where
  apart : ∀ {i j g h}, d.opened.find? i = some g → d.opened.find? j = some h →
    g.number = h.number → i = j
  reaches : ∀ {i h}, d.opened.find? i = some h →
    h.pages.toNat * pageSize ≤ (d.contents h).size

def count (d : Disk) (file : UInt32) : UInt32 := ((d.opened.find? file).map (·.pages)).getD 0

def saved (d : Disk) (id : PageId) : Page :=
  ((d.opened.find? id.file).map fun h => (d.contents h).page id.page.toNat).getD Page.blank

lemma lt_add_one_iff {a b : UInt32} (hb : b ≠ noPage) : a < b + 1 ↔ a ≤ b := by
  have hne : b.toNat ≠ 4294967295 := fun he => hb (UInt32.toNat_inj.mp he)
  have hlt := b.toNat_lt
  have hnext : (b + 1).toNat = b.toNat + 1 := by
    rw [UInt32.toNat_add]
    exact Nat.mod_eq_of_lt (by simp only [UInt32.reduceToNat]; omega)
  rw [UInt32.lt_iff_toNat_lt, UInt32.le_iff_toNat_le, hnext, Nat.lt_succ_iff]

lemma count_of_open (hf : d.opened.find? file = some h) : d.count file = h.pages := by
  simp [count, hf]

lemma open_of_lt_count (hlt : id.page < d.count id.file) :
    ∃ h, d.opened.find? id.file = some h ∧ id.page < h.pages := by
  cases hf : d.opened.find? id.file with
  | some h => exact ⟨h, rfl, count_of_open hf ▸ hlt⟩
  | none =>
    simp only [count, hf, Option.map_none, Option.getD_none] at hlt
    exact absurd hlt (UInt32.not_lt_zero)

/-- Files that have names of their own are told apart by their ids, too. -/
theorem regular_of_orderly {own : String → Prop} {opens : List (UInt32 × String)}
    (hd : Opened opens d) (ho : Orderly own d) : d.Regular where
  apart hg hh hn := by
    have hi := (hd.bound hg).1
    have hj := (hd.bound hh).1
    have hname := ho.number_inj (ho.bound hi).1 (ho.bound hj).1 (ho.opened hg).1
      (hn ▸ (ho.opened hh).1)
    rw [hname, hj] at hi
    exact (Option.some.inj hi).symm
  reaches hf := by
    obtain ⟨hk, hpages⟩ := ho.opened hf
    rw [hpages, contents]
    exact Nat.le_of_eq (ho.size (ho.bound (hd.bound hf).1).1 hk).1.symm

namespace Regular

lemma read_written (hr : d.Regular) (hf : d.opened.find? id.file = some h) {g : OpenFile}
    (hg : d.opened.find? file = some g) : (d.written h id p).tree.read g.number =
      if file = id.file then (d.contents h).writePage id.page.toNat p else d.contents g := by
  rw [written, FileTree.read_write]
  by_cases hfile : file = id.file
  · have hgh : g = h := by
      rw [hfile, hf] at hg
      exact (Option.some.inj hg).symm
    rw [if_pos hfile, if_pos (hgh ▸ rfl)]
  · rw [if_neg hfile, if_neg fun hn => hfile (hr.apart hg hf hn)]
    rfl

lemma find?_written (d : Disk) (h : OpenFile) (id : PageId) (p : Page) (file : UInt32) :
    (d.written h id p).opened.find? file = if file = id.file
      then some { h with pages := if h.pages ≤ id.page then id.page + 1 else h.pages }
      else d.opened.find? file := Table.find?_insert ..

theorem saved_written (hr : d.Regular) (hf : d.opened.find? id.file = some h) (other : PageId) :
    (d.written h id p).saved other = if other = id then p else d.saved other := by
  cases hg : d.opened.find? other.file with
  | none =>
    have hfile : other.file ≠ id.file := fun he => by
      rw [he, hf] at hg
      cases hg
    rw [if_neg fun ho => hfile (congrArg PageId.file ho), saved, find?_written,
      if_neg hfile, saved, hg]
    rfl
  | some g =>
    have hread := hr.read_written hf (p := p) hg
    rw [saved, find?_written, saved, hg]
    by_cases hfile : other.file = id.file
    · have hgh : g = h := by
        rw [hfile, hf] at hg
        exact (Option.some.inj hg).symm
      subst hgh
      rw [if_pos hfile] at hread
      rw [if_pos hfile]
      change ((d.written g id p).tree.read g.number).page other.page.toNat = _
      rw [hread, ByteFile.page_writePage]
      have hiff : other = id ↔ other.page.toNat = id.page.toNat := by
        rw [UInt32.toNat_inj]
        exact ⟨fun ho => congrArg PageId.page ho, fun hp => by cases other; cases id; simp_all⟩
      simp only [hiff]
      rfl
    · rw [if_neg hfile] at hread
      rw [if_neg hfile, if_neg fun ho => hfile (congrArg PageId.file ho)]
      change ((d.written h id p).tree.read g.number).page other.page.toNat = _
      rw [hread]
      rfl

lemma count_written (hf : d.opened.find? id.file = some h) (file : UInt32) :
    (d.written h id p).count file =
      if file = id.file ∧ h.pages ≤ id.page then id.page + 1 else d.count file := by
  rw [count, find?_written]
  by_cases hfile : file = id.file
  · subst hfile
    by_cases hle : h.pages ≤ id.page <;> simp [hle, count_of_open hf]
  · rw [if_neg hfile, if_neg fun h => hfile h.1]
    rfl

lemma count_extended (hf : d.opened.find? file = some h) (other : UInt32) :
    (d.written h ⟨file, d.count file⟩ p).count other =
      if other = file then d.count file + 1 else d.count other := by
  have hlast : d.opened.find? (PageId.mk file (d.count file)).file = some h := hf
  rw [count_written hlast, count_of_open hf]
  simp

theorem written (hr : d.Regular) (hf : d.opened.find? id.file = some h) (hp : id.page ≠ noPage) :
    (d.written h id p).Regular := by
  have hsame : ∀ {i g}, (d.written h id p).opened.find? i = some g →
      ∃ g₀, d.opened.find? i = some g₀ ∧ g.number = g₀.number ∧
        (i ≠ id.file → g.pages = g₀.pages) := by
    intro i g hg
    rw [find?_written] at hg
    split at hg
    · next hi =>
      cases hg
      exact ⟨h, hi ▸ hf, rfl, fun hne => absurd hi hne⟩
    · exact ⟨g, hg, rfl, fun _ => rfl⟩
  constructor
  · intro i j g g' hg hg' hn
    obtain ⟨g₀, hg₀, hnum, -⟩ := hsame hg
    obtain ⟨g₁, hg₁, hnum', -⟩ := hsame hg'
    exact hr.apart hg₀ hg₁ (by rw [← hnum, ← hnum', hn])
  · intro i g hg
    obtain ⟨g₀, hg₀, hnum, hpages⟩ := hsame hg
    rw [contents, hnum, hr.read_written hf hg₀]
    split
    · next hi =>
      rw [find?_written, if_pos hi] at hg
      cases hg
      have hreach := hr.reaches hf
      have hlt := id.page.toNat_lt
      have hpage : id.page.toNat ≠ 4294967295 := fun he => hp (UInt32.toNat_inj.mp he)
      have hnext : (id.page + 1).toNat = id.page.toNat + 1 := by
        rw [UInt32.toNat_add]
        exact Nat.mod_eq_of_lt (by simp only [UInt32.reduceToNat]; omega)
      rw [ByteFile.size_writePage]
      dsimp only
      split
      · rw [hnext]
        exact Nat.le_max_right ..
      · exact Nat.le_trans hreach (Nat.le_max_left ..)
    · next hi =>
      rw [hpages hi]
      exact hr.reaches hg₀

/-- A page of an open file can be read if there is such a page. -/
theorem readPage (hr : d.Regular) (hf : d.opened.find? id.file = some h) : d.readPage id =
    if d.count id.file ≤ id.page then .error (.pageNotFound id) else .ok (d.saved id) := by
  rw [count_of_open hf, Disk.readPage, handle_of_find? hf]
  by_cases hle : h.pages ≤ id.page
  · simp [hle, bind, Except.bind, throw, throwThe, MonadExceptOf.throw]
  · have hlt := UInt32.lt_iff_toNat_lt.mp (UInt32.not_le.mp hle)
    have hreach := hr.reaches hf
    have hfit : (id.page.toNat + 1) * pageSize ≤ (d.contents h).size :=
      Nat.le_trans (Nat.mul_le_mul_right _ hlt) hreach
    have hread : (d.contents h).readPage id.page.toNat =
        some ((d.contents h).page id.page.toNat) := if_pos hfit
    simp [hle, hread, saved, hf, bind, Except.bind, pure, Except.pure]

end Regular

/-- A page can be added to an open file unless its number of pages would not fit. -/
theorem allocPage_eq (hf : d.opened.find? file = some h) : d.allocPage file =
    if d.count file = noPage then .error .countOverflow
    else .ok (d.count file, d.written h ⟨file, d.count file⟩ Page.blank) := by
  rw [count_of_open hf, Disk.allocPage, handle_of_find? hf]
  by_cases hp : h.pages = noPage
  · simp [writePage, handle_of_find? hf, hp, bind, Except.bind, throw, throwThe,
      MonadExceptOf.throw]
  · rw [if_neg hp]
    have hw : d.writePage ⟨file, h.pages⟩ Page.blank = .ok _ := writePage_of_open hf hp
    simp [hw, bind, Except.bind, pure, Except.pure]

end PagedHeap.Disk
