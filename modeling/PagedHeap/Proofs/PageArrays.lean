import PagedHeap.Proofs.PageBytes
import PagedHeap.Proofs.Removal

/-! Files as arrays of pages. A file that is a whole number of pages, with nothing behind them, is an
array; and to write a page of it is to replace a page of the array, or to extend it with blank pages
up to the one that is written. The files of a disk stay like this whatever is done to them. -/
namespace PagedHeap

namespace PageArray
variable {ps : List Page} {p : Page} {n i : Nat}

/-- The array with another page at a number, filled up with blank pages if it does not reach there. -/
def put (ps : List Page) (n : Nat) (p : Page) : List Page :=
  (ps ++ List.replicate (n + 1 - ps.length) Page.blank).set n p

theorem getElem?_put (ps : List Page) (n i : Nat) (p : Page) : (put ps n p)[i]? =
    if i = n then some p else if i < n then some (ps[i]?.getD Page.blank) else ps[i]? := by
  rw [put, List.getElem?_set, List.length_append, List.length_replicate]
  by_cases hi : i = n
  · rw [if_pos hi, if_pos hi.symm, if_pos (by omega)]
  · rw [if_neg hi, if_neg (Ne.symm hi)]
    rcases Nat.lt_or_ge i ps.length with hlen | hlen
    · rw [List.getElem?_append_left hlen, List.getElem?_eq_getElem hlen, Option.getD_some, ite_self]
    · rw [List.getElem?_append_right hlen, List.getElem?_replicate,
        List.getElem?_eq_none hlen, Option.getD_none]
      exact if_congr (by omega) rfl rfl

lemma getD_put (ps : List Page) (n i : Nat) (p : Page) : (put ps n p)[i]?.getD Page.blank =
    if i = n then p else ps[i]?.getD Page.blank := by
  rw [getElem?_put]
  split
  · rfl
  · split <;> rfl

lemma put_length (ps : List Page) (p : Page) : put ps ps.length p = ps ++ [p] := by
  rw [put, Nat.add_sub_cancel_left, List.set_append_right _ _ (Nat.le_refl _), Nat.sub_self]
  rfl

end PageArray

namespace ByteFile
variable {f : ByteFile} {p : Page} {n : Nat}

def toPages (f : ByteFile) : List Page := (List.range f.pages).map f.page

@[simp] lemma length_toPages (f : ByteFile) : f.toPages.length = f.pages := by simp [toPages]

lemma getElem?_toPages (f : ByteFile) (n : Nat) :
    f.toPages[n]? = if n < f.pages then some (f.page n) else none := by
  by_cases h : n < f.pages <;> simp [toPages, h]

/-- The file is a whole number of pages, with nothing behind them. -/
structure Whole (f : ByteFile) : Prop where
  size : f.size = f.pages * pageSize
  blank : ∀ n, f.pages ≤ n → f.page n = Page.blank

lemma getD_toPages (h : f.Whole) (n : Nat) : f.toPages[n]?.getD Page.blank = f.page n := by
  rw [getElem?_toPages]
  split
  · rfl
  · next hn => exact (h.blank n (Nat.le_of_not_lt hn)).symm

namespace Whole

lemma empty : Whole {} := ⟨rfl, fun _ _ => rfl⟩

theorem writePage (h : f.Whole) (n : Nat) (p : Page) : (f.writePage n p).Whole := by
  obtain ⟨hpages, hsize⟩ := Orderly.pages_writePage (p := p) n h.size
  refine ⟨hsize, fun m hm => ?_⟩
  rw [hpages] at hm
  rw [page_writePage, if_neg (by omega), h.blank m (by omega)]

/-- To write a page is to put it into the array. -/
theorem toPages_writePage (h : f.Whole) (n : Nat) (p : Page) :
    (f.writePage n p).toPages = PageArray.put f.toPages n p := by
  have hpages := (Orderly.pages_writePage (p := p) n h.size).1
  refine List.ext_getElem? fun i => ?_
  rw [PageArray.getElem?_put, getD_toPages h, getElem?_toPages, getElem?_toPages, hpages,
    page_writePage]
  rcases Nat.lt_trichotomy i n with hlt | rfl | hlt
  · rw [if_pos (by omega), if_neg (Nat.ne_of_lt hlt), if_neg (Nat.ne_of_lt hlt), if_pos hlt]
  · rw [if_pos (by omega), if_pos rfl, if_pos rfl]
  · have hin : i < max f.pages (n + 1) ↔ i < f.pages := by omega
    simp only [hin, Nat.ne_of_gt hlt, Nat.not_lt_of_gt hlt, if_false]

/-- The pages that can be read are those of the array. -/
theorem readPage (h : f.Whole) (n : Nat) : f.readPage n = f.toPages[n]? := by
  have hin : (n + 1) * pageSize ≤ f.size ↔ n < f.pages := by
    have := h.size
    simp only [pageSize] at *
    omega
  rw [ByteFile.readPage, getElem?_toPages]
  simp only [hin]

/-- The bytes of the file are those of its pages, one after another. -/
theorem toBytes (h : f.Whole) : f.toBytes = f.toPages.flatMap Page.toBytes := by
  have hlen : (f.toPages.flatMap Page.toBytes).length = f.size := by
    rw [List.length_flatMap, List.map_congr_left (g := fun _ => pageSize) fun p _ =>
      Page.length_toBytes p, List.map_const', List.sum_replicate_nat, length_toPages, h.size]
  rw [ByteFile.toBytes, List.range_succ, List.flatMap_append, List.take_left']
  · rw [toPages, List.flatMap_map]
  · rw [← hlen, toPages, List.flatMap_map]

end Whole

end ByteFile

namespace Disk
variable {d d' : Disk} {id : PageId} {h : OpenFile} {p : Page} {name m : String}

/-- The array of pages that the file of a name is, if there is one. -/
def pagesOf (d : Disk) (name : String) : Option (List Page) :=
  (d.contentsOf name).map ByteFile.toPages

lemma contentsOf_congr (htree : d'.tree = d.tree) (hdir : d'.dir = d.dir) (name : String) :
    d'.contentsOf name = d.contentsOf name := by
  unfold contentsOf place path
  rw [htree, hdir]

/-- No other file is changed by writing a page, also none of another kind of name. -/
theorem contentsOf_written (hm : d.number? m ≠ some h.number) :
    (d.written h id p).contentsOf m = d.contentsOf m := by
  rw [contentsOf_eq, contentsOf_eq, number?_written]
  cases hk : d.number? m with
  | none => rfl
  | some k =>
    rw [Option.map_some, Option.map_some]
    refine congrArg some ((FileTree.read_write ..).trans (if_neg ?_))
    rintro rfl
    exact hm hk

end Disk

/-- The files of these names are in order, and whole. -/
structure Shelved (own : String → Prop) (d : Disk) : Prop where
  opened : ∃ opens, Opened opens d
  orderly : Orderly own d
  whole : ∀ {name f}, own name → d.contentsOf name = some f → f.Whole

namespace Shelved
variable {own : String → Prop} {d d' : Disk} {id : UInt32} {h : OpenFile} {name m : String}

lemma of_mount {dir : String} {tree : FileTree} (hd : Disk.mount dir tree = .ok d)
    (ho : Orderly own d) (hw : ∀ {name f}, own name → d.contentsOf name = some f → f.Whole) :
    Shelved own d := by
  obtain ⟨tree', -, rfl⟩ := Disk.mount_eq_ok_iff.mp hd
  exact ⟨⟨[], nofun, nofun, nofun, fun _ => rfl, nofun⟩, ho, hw⟩

lemma openFile (hs : Shelved own d) (hn : own name) (ho : d.openFile name = .ok (id, d')) :
    Shelved own d' ∧ ∀ m, d'.contentsOf m = d.contentsOf m := by
  obtain ⟨opens, hopened⟩ := hs.opened
  obtain ⟨horderly, htree, hdir, -⟩ := hs.orderly.openFile hn ho
  have hsame := Disk.contentsOf_congr htree hdir
  exact ⟨⟨⟨_, hopened.openFile ho⟩, horderly, fun hm hf => hs.whole hm (hsame _ ▸ hf)⟩, hsame⟩

lemma closeFile (hs : Shelved own d) (hc : d.closeFile id = .ok d') :
    Shelved own d' ∧ ∀ m, d'.contentsOf m = d.contentsOf m := by
  obtain ⟨opens, hopened⟩ := hs.opened
  obtain ⟨h, hf, hd⟩ := Disk.closeFile_eq_ok_iff.mp hc
  obtain ⟨rest, hperm⟩ := hopened.exists_perm hf
  obtain ⟨d₁, hd₁, hafter⟩ := (hopened.perm hperm).closeFile
  obtain rfl : d₁ = d' := Except.ok.inj (hd₁.symm.trans hc)
  obtain ⟨horderly, htree, hdir, -⟩ := hs.orderly.closeFile hc
  have hsame := Disk.contentsOf_congr htree hdir
  exact ⟨⟨⟨_, hafter⟩, horderly, fun hm hf => hs.whole hm (hsame _ ▸ hf)⟩, hsame⟩

lemma create (hs : Shelved own d) (hn : own name) (hc : d.create name = .ok d') :
    Shelved own d' ∧ ∀ m, own m →
      d'.contentsOf m = if m = name then some {} else d.contentsOf m := by
  obtain ⟨opens, hopened⟩ := hs.opened
  have hcreated := hs.orderly.created hn hc
  have hfiles : ∀ m, own m → d'.contentsOf m = if m = name then some {} else d.contentsOf m := by
    intro m hm
    split
    · next hname => exact hname ▸ hcreated.contentsOf_self
    · next hname => exact hcreated.contentsOf_other hs.orderly hm hname
  refine ⟨⟨⟨_, hopened.create hc⟩, hcreated.orderly hopened hs.orderly, fun {m f} hm hf => ?_⟩, hfiles⟩
  rw [hfiles m hm] at hf
  split at hf
  · cases hf
    exact .empty
  · exact hs.whole hm hf

lemma destroy (hs : Shelved own d) (hn : own name) (hr : d.destroy name = .ok d') :
    Shelved own d' ∧ ∀ m, own m →
      d'.contentsOf m = if m = name then none else d.contentsOf m := by
  obtain ⟨opens, hopened⟩ := hs.opened
  have hremoved := hs.orderly.removed hn hr
  have hfiles : ∀ m, own m → d'.contentsOf m = if m = name then none else d.contentsOf m := by
    intro m hm
    split
    · next hname => exact hname ▸ hremoved.contentsOf_self
    · next hname => exact hremoved.contentsOf_other hm hname
  refine ⟨⟨⟨_, hopened.destroy hr⟩, hremoved.orderly hopened hs.orderly, fun {m f} hm hf => ?_⟩,
    hfiles⟩
  rw [hfiles m hm] at hf
  split at hf
  · cases hf
  · exact hs.whole hm hf

/-- What is open is an array that is as long as the disk takes the file to be. -/
lemma exists_pages (hs : Shelved own d) (hf : d.opened.find? id = some h) :
    own h.name ∧ d.contentsOf h.name = some (d.contents h) ∧ (d.contents h).Whole ∧
      h.pages.toNat = (d.contents h).toPages.length := by
  obtain ⟨opens, hopened⟩ := hs.opened
  have hn := (hs.orderly.bound (hopened.bound hf).1).1
  obtain ⟨hk, hpages⟩ := hs.orderly.opened hf
  have hcontents : d.contentsOf h.name = some (d.contents h) := by
    rw [Disk.contentsOf_eq, hk]
    rfl
  exact ⟨hn, hcontents, hs.whole hn hcontents, hpages.trans (ByteFile.length_toPages _).symm⟩

/-- A page that is written is put into the array of its file. -/
theorem written (hs : Shelved own d) (page : PageId) (p : Page)
    (hf : d.opened.find? page.file = some h) (hp : page.page ≠ noPage) :
    Shelved own (d.written h page p) ∧ (d.written h page p).contentsOf h.name =
        some ((d.contents h).writePage page.page.toNat p) ∧
      ∀ m, own m → m ≠ h.name → (d.written h page p).contentsOf m = d.contentsOf m := by
  obtain ⟨opens, hopened⟩ := hs.opened
  obtain ⟨hn, hcontents, hwhole, -⟩ := hs.exists_pages hf
  have hk := (hs.orderly.opened hf).1
  have hself : (d.written h page p).contentsOf h.name =
      some ((d.contents h).writePage page.page.toNat p) := by
    rw [Disk.contentsOf_eq, Disk.number?_written, hk, Option.map_some]
    exact congrArg some ((FileTree.read_write ..).trans (if_pos rfl))
  have hother : ∀ m, own m → m ≠ h.name →
      (d.written h page p).contentsOf m = d.contentsOf m := fun m hm hne =>
    Disk.contentsOf_written fun hk' => hne (hs.orderly.number_inj hm hn hk' hk)
  refine ⟨⟨⟨_, hopened.written (.page .refl hf hp)⟩, hs.orderly.written hopened hf hp,
    fun {m f} hm hf' => ?_⟩, hself, hother⟩
  by_cases hname : m = h.name
  · rw [hname, hself] at hf'
    cases hf'
    exact hwhole.writePage ..
  · exact hs.whole hm (hother m hm hname ▸ hf')

end Shelved
end PagedHeap
