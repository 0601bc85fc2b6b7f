import PagedHeap.Proofs.FilePlaces
import PagedHeap.Proofs.OpenFiles

/-! The files on a disk. `Orderly own d` says that names of some kind lead to files of their own, with
as many whole pages as the disk takes them to have. Writing a page of an open file then changes that
page of the file of that name, and nothing else. -/
namespace PagedHeap

/-- Files of these names are apart from each other, and known for what they are. -/
structure Orderly (own : String → Prop) (d : Disk) : Prop where
  apart : ∀ {name other l}, own name → own other → d.spot? name = some l →
    d.spot? other = some l → name = other
  number_lt : ∀ {name k}, own name → d.number? name = some k → k < d.tree.next
  number_inj : ∀ {name other k}, own name → own other → d.number? name = some k →
    d.number? other = some k → name = other
  bound : ∀ {name id}, d.ids.find? name = some id → own name ∧ ∃ k, d.number? name = some k
  opened : ∀ {id h}, d.opened.find? id = some h → d.number? h.name = some h.number ∧
    h.pages.toNat = (d.tree.read h.number).pages
  size : ∀ {name k}, own name → d.number? name = some k →
    (d.tree.read k).size = (d.tree.read k).pages * pageSize ∧ (d.tree.read k).pages < UInt32.size

namespace Disk

def file (d : Disk) (name : String) : ByteFile := (d.contentsOf name).getD {}

/-- How many pages the file of a name has. -/
def extent (d : Disk) (name : String) : Nat := (d.file name).pages

def stored (d : Disk) (name : String) (n : UInt32) : Page := (d.file name).page n.toNat

variable {d : Disk} {id : PageId} {h : OpenFile} {p : Page} {name : String} {k : Nat}

lemma file_of_number (hk : d.number? name = some k) : d.file name = d.tree.read k := by
  rw [file, contentsOf_eq, hk]
  rfl

lemma place_written (d : Disk) (h : OpenFile) (id : PageId) (p : Page) (name : String) :
    (d.written h id p).place name = d.place name := by
  rw [place, place]
  simp only [written, path, FileTree.place_write]

lemma number?_written (d : Disk) (h : OpenFile) (id : PageId) (p : Page) (name : String) :
    (d.written h id p).number? name = d.number? name :=
  congrArg Place.number? (place_written ..)

lemma spot?_written (d : Disk) (h : OpenFile) (id : PageId) (p : Page) (name : String) :
    (d.written h id p).spot? name = d.spot? name :=
  congrArg Place.spot? (place_written ..)

end Disk

namespace Orderly
variable {own : String → Prop} {opens : List (UInt32 × String)} {d d' : Disk} {id : PageId}
  {h : OpenFile} {p : Page} {name : String} {n : UInt32}

lemma file_eq (ho : Orderly own d) (hf : d.opened.find? id.file = some h) :
    d.file h.name = d.contents h := Disk.file_of_number (ho.opened hf).1

lemma extent_eq (ho : Orderly own d) {file : UInt32} (hf : d.opened.find? file = some h) :
    d.extent h.name = h.pages.toNat := by
  rw [Disk.extent, Disk.file_of_number (ho.opened hf).1, (ho.opened hf).2]

theorem file_written (hd : Opened opens d) (ho : Orderly own d)
    (hf : d.opened.find? id.file = some h) (hn : own name) :
    (d.written h id p).file name =
      if name = h.name then (d.file name).writePage id.page.toNat p else d.file name := by
  have hown := (ho.bound (hd.bound hf).1).1
  have hk := (ho.opened hf).1
  rw [Disk.file, Disk.contentsOf_eq, Disk.number?_written]
  simp only [Disk.written]
  cases hm : d.number? name with
  | none =>
    rw [if_neg (fun hname => by rw [hname, hk] at hm; cases hm), Disk.file, Disk.contentsOf_eq, hm]
    rfl
  | some k =>
    simp only [Option.map_some, Option.getD_some, FileTree.read_write]
    rw [Disk.file_of_number hm]
    by_cases hname : name = h.name
    · rw [hname, hk] at hm
      cases hm
      rw [if_pos rfl, if_pos hname]
      rfl
    · rw [if_neg hname, if_neg]
      rintro rfl
      exact hname (ho.number_inj hn hown hm hk)

theorem stored_written (hd : Opened opens d) (ho : Orderly own d)
    (hf : d.opened.find? id.file = some h) (hn : own name) (n : UInt32) :
    (d.written h id p).stored name n =
      if name = h.name ∧ n = id.page then p else d.stored name n := by
  rw [Disk.stored, ho.file_written hd hf hn, Disk.stored]
  split
  · next hname =>
    rw [ByteFile.page_writePage]
    simp only [hname, true_and, UInt32.toNat_inj]
  · next hname => rw [if_neg fun h => hname h.1]

lemma pages_writePage {f : ByteFile} (m : Nat) (hsize : f.size = f.pages * pageSize) :
    (f.writePage m p).pages = max f.pages (m + 1) ∧
      (f.writePage m p).size = (f.writePage m p).pages * pageSize := by
  have hpages : (f.writePage m p).pages = max f.pages (m + 1) := by
    rw [ByteFile.pages, ByteFile.size_writePage, hsize]
    simp only [pageSize]
    omega
  refine ⟨hpages, ?_⟩
  rw [hpages, ByteFile.size_writePage, hsize]
  simp only [pageSize]
  omega

theorem extent_written (hd : Opened opens d) (ho : Orderly own d)
    (hf : d.opened.find? id.file = some h) (hle : id.page ≤ h.pages) (hn : own name) :
    (d.written h id p).extent name =
      if name = h.name ∧ id.page = h.pages then d.extent name + 1 else d.extent name := by
  rw [Disk.extent, ho.file_written hd hf hn, Disk.extent]
  split
  · next hname =>
    obtain ⟨hk, hpages⟩ := ho.opened hf
    have hsize := (ho.size hn (hname ▸ hk)).1
    have hle' := UInt32.le_iff_toNat_le.mp hle
    rw [hname, Disk.file_of_number hk, (pages_writePage _ hsize).1, ← hpages]
    simp only [true_and, ← UInt32.toNat_inj]
    split <;> omega
  · next hname => rw [if_neg fun h => hname h.1]

/-- Files that are open under different ids have different numbers. -/
lemma opened_inj (hd : Opened opens d) (ho : Orderly own d) {i j : UInt32} {g : OpenFile}
    (hg : d.opened.find? i = some g) (hf : d.opened.find? j = some h)
    (hnumber : g.number = h.number) : i = j := by
  obtain ⟨hgi, hfj⟩ := And.intro (hd.bound hg).1 (hd.bound hf).1
  have hgk := (ho.opened hg).1
  rw [hnumber] at hgk
  have hname := ho.number_inj (ho.bound hgi).1 (ho.bound hfj).1 hgk (ho.opened hf).1
  exact Option.some.inj (hgi.symm.trans (hname ▸ hfj))

lemma toNat_pages_written {pages n : UInt32} (hn : n ≠ noPage) :
    (if pages ≤ n then n + 1 else pages).toNat = max pages.toNat (n.toNat + 1) := by
  have hn' : n.toNat ≠ 4294967295 := fun hn' => hn (UInt32.toNat_inj.mp hn')
  have hlt := n.toNat_lt
  split
  · next hle =>
    have := UInt32.le_iff_toNat_le.mp hle
    rw [UInt32.toNat_add, Nat.mod_eq_of_lt (by simp only [UInt32.reduceToNat]; omega)]
    simp only [UInt32.reduceToNat]
    omega
  · next hle =>
    have : ¬ pages.toNat ≤ n.toNat := fun h => hle (UInt32.le_iff_toNat_le.mpr h)
    omega

/-- The files stay in order if a page is written. -/
theorem written (hd : Opened opens d) (ho : Orderly own d) (hf : d.opened.find? id.file = some h)
    (hp : id.page ≠ noPage) : Orderly own (d.written h id p) := by
  have hown := (ho.bound (hd.bound hf).1).1
  obtain ⟨hk, hpages⟩ := ho.opened hf
  have hsize := ho.size hown hk
  have hp' : id.page.toNat ≠ 4294967295 := fun hp' => hp (UInt32.toNat_inj.mp hp')
  have hlt := id.page.toNat_lt
  have hnew := pages_writePage (p := p) id.page.toNat hsize.1
  have hread : ∀ m, (d.written h id p).tree.read m = if m = h.number
      then (d.tree.read h.number).writePage id.page.toNat p else d.tree.read m :=
    fun m => FileTree.read_write ..
  constructor
  · intro name other l hn hother hl hl'
    rw [Disk.spot?_written] at hl hl'
    exact ho.apart hn hother hl hl'
  · intro name k hn hm
    rw [Disk.number?_written] at hm
    exact ho.number_lt hn hm
  · intro name other k hn hother hm hm'
    rw [Disk.number?_written] at hm hm'
    exact ho.number_inj hn hother hm hm'
  · intro name i hi
    rw [Disk.number?_written]
    exact ho.bound hi
  · intro i g hg
    rw [Disk.number?_written, hread]
    simp only [Disk.written, Table.find?_insert] at hg
    split at hg
    · cases hg
      refine ⟨hk, ?_⟩
      dsimp only
      rw [if_pos rfl, hnew.1, toNat_pages_written hp, hpages]
    · next hi =>
      obtain ⟨hgk, hgp⟩ := ho.opened hg
      refine ⟨hgk, ?_⟩
      rw [if_neg fun heq => hi (opened_inj hd ho hg hf heq)]
      exact hgp
  · intro name k hn hm
    rw [Disk.number?_written] at hm
    rw [hread]
    split
    · refine ⟨hnew.2, ?_⟩
      rw [hnew.1]
      have := hsize.2
      simp only [UInt32.size] at *
      omega
    · exact ho.size hn hm

lemma toNat_ofNat_pages (ho : Orderly own d) (hn : own name) {k : Nat}
    (hk : d.number? name = some k) :
    (UInt32.ofNat (d.tree.read k).pages).toNat = (d.tree.read k).pages := by
  rw [UInt32.toNat_ofNat']
  exact Nat.mod_eq_of_lt (ho.size hn hk).2

/-- What is opened is a file that is there, under the id that is bound to its name from then on. -/
theorem openFile {i : UInt32} (ho : Orderly own d) (hn : own name)
    (hopen : d.openFile name = .ok (i, d')) :
    Orderly own d' ∧ d'.tree = d.tree ∧ d'.dir = d.dir ∧ d'.ids.find? name = some i ∧
      (d'.ids = d.ids ∨ i = d.nextId ∧ d.ids.find? name = none ∧
        d'.ids = d.ids.insert name i) := by
  have hfresh : ∀ {l k ids next j}, d.place name = .file l k →
      (∀ {m j}, ids.find? m = some j → own m ∧ ∃ k, d.number? m = some k) →
      Orderly own { d with ids, opened := d.opened.insert j (d.asOpened name k), nextId := next } := by
    intro l k ids next j hp hids
    have hk : d.number? name = some k := by
      rw [Disk.number?, hp]
      rfl
    refine ⟨ho.apart, ho.number_lt, ho.number_inj, hids, fun {j' g} hg => ?_, ho.size⟩
    simp only [Table.find?_insert] at hg
    split at hg
    · cases hg
      exact ⟨hk, ho.toNat_ofNat_pages hn hk⟩
    · exact ho.opened hg
  cases Disk.openFile_eq_ok_iff.mp hopen with
  | again hi hf =>
    refine ⟨⟨ho.apart, ho.number_lt, ho.number_inj, ho.bound, fun {j g} hg => ?_, ho.size⟩, rfl,
      rfl, hi, Or.inl rfl⟩
    simp only [Table.find?_insert] at hg
    split at hg
    · cases hg
      have hold := ho.opened hf
      exact hold
    · exact ho.opened hg
  | bound hp _ hi => exact ⟨hfresh hp ho.bound, rfl, rfl, hi, Or.inl rfl⟩
  | @new _ k hp _ hi _ =>
    refine ⟨hfresh hp fun {m j} hm => ?_, rfl, rfl, by simp [Table.find?_insert],
      Or.inr ⟨rfl, hi, rfl⟩⟩
    rw [Table.find?_insert] at hm
    split at hm
    · next hname => exact ⟨hname ▸ hn, k, by rw [hname, Disk.number?, hp]; rfl⟩
    · exact ho.bound hm

theorem closeFile {i : UInt32} (ho : Orderly own d) (hc : d.closeFile i = .ok d') :
    Orderly own d' ∧ d'.tree = d.tree ∧ d'.dir = d.dir ∧ d'.ids = d.ids := by
  obtain ⟨h, hf, rfl⟩ := Disk.closeFile_eq_ok_iff.mp hc
  refine ⟨⟨ho.apart, ho.number_lt, ho.number_inj, ho.bound, fun {j g} hg => ?_, ho.size⟩, rfl, rfl,
    rfl⟩
  rw [Disk.find?_closed] at hg
  split at hg
  · split at hg
    · cases hg
    · cases hg
      have hold := ho.opened hf
      exact hold
  · exact ho.opened hg

/-- A name comes to lead to a new, empty file, and the others lead where they did. -/
structure Created (own : String → Prop) (name : String) (d d' : Disk) : Prop where
  unused : d.number? name = none
  number : d'.number? name = some d.tree.next
  others : ∀ {m}, own m → m ≠ name → d'.number? m = d.number? m
  spot : ∀ m, d'.spot? m = d.spot? m
  next : d'.tree.next = d.tree.next + 1
  read : ∀ k, d'.tree.read k = if k = d.tree.next then {} else d.tree.read k
  bindings : d'.ids = d.ids ∧ d'.opened = d.opened ∧ d'.nextId = d.nextId

lemma created (ho : Orderly own d) (hn : own name) (hc : d.create name = .ok d') :
    Created own name d d' := by
  obtain ⟨l, hp, hd⟩ := Disk.differs_create hc
  obtain ⟨-, l', hp', rfl⟩ := Disk.create_eq_ok_iff.mp hc
  obtain rfl : l = l' := Place.free.inj (hp.symm.trans hp')
  have hspot : d.spot? name = some l := congrArg Place.spot? hp
  refine ⟨congrArg Place.number? hp, (hp ▸ hd.place name).number?_filled, fun {m} hm hne => ?_,
    fun m => (hd.place m).spot?_eq, rfl, fun k => ?_, rfl, rfl, rfl⟩
  · exact (hd.place m).number?_eq fun hl => hne (ho.apart hm hn hl hspot)
  · simp only [FileTree.read, FileTree.addFile, Table.find?_insert]
    split <;> rfl

namespace Created

lemma read_other (h : Created own name d d') (ho : Orderly own d) {m : String} {k : Nat}
    (hm : own m) (hk : d.number? m = some k) : d'.tree.read k = d.tree.read k := by
  rw [h.read, if_neg (Nat.ne_of_lt (ho.number_lt hm hk))]

lemma ne_of_number (h : Created own name d d') {m : String} {k : Nat}
    (hk : d.number? m = some k) : m ≠ name := by
  rintro rfl
  cases h.unused.symm.trans hk

lemma number_cases (h : Created own name d d') {m : String} {k : Nat} (hm : own m)
    (hk : d'.number? m = some k) : m = name ∧ k = d.tree.next ∨ d.number? m = some k := by
  by_cases hname : m = name
  · rw [hname] at hk
    exact Or.inl ⟨hname, Option.some_inj.mp (hk.symm.trans h.number)⟩
  · exact Or.inr ((h.others hm hname).symm.trans hk)

theorem orderly (h : Created own name d d') (hd : Opened opens d) (ho : Orderly own d) :
    Orderly own d' where
  apart {m m' l} hm hm' hl hl' :=
    ho.apart hm hm' ((h.spot m).symm.trans hl) ((h.spot m').symm.trans hl')
  number_lt {m k} hm hk := by
    rw [h.next]
    rcases h.number_cases hm hk with ⟨-, rfl⟩ | hk
    · exact Nat.lt_succ_self _
    · exact Nat.lt_succ_of_lt (ho.number_lt hm hk)
  number_inj {m m' k} hm hm' hk hk' := by
    rcases h.number_cases hm hk with ⟨hname, rfl⟩ | hk
    · rcases h.number_cases hm' hk' with ⟨hname', -⟩ | hk'
      · exact hname.trans hname'.symm
      · exact absurd (ho.number_lt hm' hk') (Nat.lt_irrefl _)
    · rcases h.number_cases hm' hk' with ⟨-, rfl⟩ | hk'
      · exact absurd (ho.number_lt hm hk) (Nat.lt_irrefl _)
      · exact ho.number_inj hm hm' hk hk'
  bound {m i} hi := by
    rw [h.bindings.1] at hi
    obtain ⟨hm, k, hk⟩ := ho.bound hi
    exact ⟨hm, k, (h.others hm (h.ne_of_number hk)).trans hk⟩
  opened {i g} hg := by
    rw [h.bindings.2.1] at hg
    obtain ⟨hk, hpages⟩ := ho.opened hg
    have hm := (ho.bound (hd.bound hg).1).1
    rw [h.read_other ho hm hk]
    exact ⟨(h.others hm (h.ne_of_number hk)).trans hk, hpages⟩
  size {m k} hm hk := by
    rcases h.number_cases hm hk with ⟨-, rfl⟩ | hk
    · rw [h.read, if_pos rfl]
      exact ⟨rfl, by decide⟩
    · rw [h.read_other ho hm hk]
      exact ho.size hm hk

lemma contentsOf_self (h : Created own name d d') : d'.contentsOf name = some {} := by
  rw [Disk.contentsOf_eq, h.number, Option.map_some, h.read, if_pos rfl]

lemma contentsOf_other (h : Created own name d d') (ho : Orderly own d) {m : String} (hm : own m)
    (hne : m ≠ name) : d'.contentsOf m = d.contentsOf m := by
  rw [Disk.contentsOf_eq, Disk.contentsOf_eq, h.others hm hne]
  cases hk : d.number? m with
  | none => rfl
  | some k => rw [Option.map_some, Option.map_some, h.read_other ho hm hk]

end Created

end Orderly
end PagedHeap
