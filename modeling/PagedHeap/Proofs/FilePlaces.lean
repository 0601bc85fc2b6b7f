import PagedHeap.Proofs.DiskAccess

/-! Where names lead. A name that leads to a file, or to a place where one could be, leads to the same
place whatever is done to files; and a new file is found by the names that led to its place, and by
no others. -/
namespace PagedHeap

def Place.number? : Place → Option Nat
  | .file _ k => some k
  | _ => none

/-- Where the file is, or could be. -/
def Place.spot? : Place → Option Location
  | .file l _ | .free l => some l
  | _ => none

/-- What a place becomes when the file of number `k` is put at the location `l`. -/
inductive Place.Filled (l : Location) (k : Nat) : Place → Place → Prop
  /-- It was not the location. -/
  | same {p : Place} (h : p ≠ .free l) : Filled l k p p
  /-- It was the location. -/
  | filled : Filled l k (.free l) (.file l k)
  /-- The location is on the way. -/
  | behind : Filled l k .missing .blocked

lemma Place.Filled.spot?_eq {l : Location} {k : Nat} {p q : Place} (h : Place.Filled l k p q) :
    q.spot? = p.spot? := by
  cases h <;> rfl

lemma Place.Filled.number?_eq {l : Location} {k : Nat} {p q : Place} (h : Place.Filled l k p q)
    (hp : p.spot? ≠ some l) : q.number? = p.number? := by
  cases h with
  | filled => exact absurd rfl hp
  | same | behind => rfl

lemma Place.Filled.number?_filled {l : Location} {k : Nat} {q : Place}
    (h : Place.Filled l k (.free l) q) : q.number? = some k := by
  cases h with
  | same hne => exact absurd rfl hne
  | filled => rfl

/-- A name that stands for a place right in a directory. -/
structure Plain (name : String) : Prop where
  nonempty : name ≠ ""
  noSlash : '/' ∉ name.toList
  notHere : name ≠ "."
  notAbove : name ≠ ".."

namespace FileTree
variable {t t' : FileTree} {here there : Location} {part : String} {parts : List String}

lemma enter_directory (hd : t.directories ⊆ t'.directories)
    (h : t.enter here part = .directory there) : t'.enter here part = .directory there := by
  unfold enter at h ⊢
  by_cases hdot : part = "."
  · simpa [hdot] using h
  · by_cases hdots : part = ".."
    · simpa [hdots] using h
    · rw [if_neg hdot, if_neg hdots] at h ⊢
      split at h
      · cases h
      · next hlen =>
        rw [if_neg hlen]
        split at h
        · next hc =>
          have hmem : part :: here ∈ t'.directories := hd (by simpa using hc)
          rw [if_pos (by simpa using hmem)]
          exact h
        · split at h <;> cases h

/-- More directories and other files leave a way through directories as it is. -/
theorem walk_directory (hd : t.directories ⊆ t'.directories)
    (h : t.walk here parts = .directory there) : t'.walk here parts = .directory there := by
  induction parts generalizing here with
  | nil => exact h
  | cons part rest ih =>
    cases rest with
    | nil => exact enter_directory hd h
    | cons next rest =>
      rw [walk] at h ⊢
      · cases he : t.enter here part with
        | directory at' =>
          rw [he] at h
          rw [enter_directory hd he]
          exact ih h
        | file | free | missing | blocked => rw [he] at h; cases h
      · simp
      · simp

lemma addFrom_directories {parts : List String} (h : t.addFrom here parts = some t') :
    t.directories ⊆ t'.directories := by
  induction parts generalizing t here with
  | nil => cases h; exact List.Subset.refl _
  | cons part rest ih =>
    rw [addFrom] at h
    split at h
    · exact ih h
    · split at h
      · cases h
      · exact List.Subset.trans (List.subset_cons_self ..) (ih h)
    · cases h

lemma walk_cons {rest : List String} {last : Location}
    (he : t.enter here part = .directory there) (hw : t.walk there rest = .directory last) :
    t.walk here (part :: rest) = .directory last := by
  cases rest with
  | nil =>
    cases hw
    exact he
  | cons next rest =>
    rw [walk]
    · rw [he]
      exact hw
    · simp

lemma walk_cons_eq_directory {rest : List String}
    (h : t.walk here (part :: rest) = .directory there) :
    ∃ next, t.enter here part = .directory next ∧ t.walk next rest = .directory there := by
  cases rest with
  | nil => exact ⟨there, h, rfl⟩
  | cons next rest =>
    rw [walk] at h
    · cases he : t.enter here part with
      | directory at' => exact ⟨at', rfl, by rwa [he] at h⟩
      | file | free | missing | blocked => rw [he] at h; cases h
    · simp

/-- Nothing is added along a way through directories. -/
lemma addFrom_of_walk (h : t.walk here parts = .directory there) :
    t.addFrom here parts = some t := by
  induction parts generalizing here with
  | nil => rfl
  | cons part rest ih =>
    obtain ⟨next, he, hw⟩ := walk_cons_eq_directory h
    rw [addFrom, he]
    exact ih hw

/-- A part is free if it names neither a directory nor a file, and could. -/
lemma enter_eq_free_iff : t.enter here part = .free there ↔ there = part :: here ∧ part ≠ "." ∧
    part ≠ ".." ∧ part.utf8ByteSize ≤ Path.maxPartBytes ∧ part :: here ∉ t.directories ∧
      t.entries.find? (part :: here) = none := by
  unfold enter
  by_cases hdot : part = "."
  · simp [hdot]
  · by_cases hdots : part = ".."
    · simp [hdots]
    · by_cases hlen : Path.maxPartBytes < part.utf8ByteSize
      · simp [hdot, hdots, hlen, Nat.not_le.mpr hlen]
      · by_cases hc : part :: here ∈ t.directories
        · simp [hdot, hdots, hlen, hc]
        · cases hf : t.entries.find? (part :: here) <;>
            simp [hdot, hdots, hlen, hc, Nat.not_lt.mp hlen, eq_comm]

/-- Directories that were added lead on. -/
theorem walk_addFrom (h : t.addFrom here parts = some t') :
    ∃ there, t'.walk here parts = .directory there := by
  induction parts generalizing t here with
  | nil => exact ⟨here, rfl⟩
  | cons part rest ih =>
    rw [addFrom] at h
    split at h
    · next there he =>
      obtain ⟨last, hw⟩ := ih h
      exact ⟨last, walk_cons (enter_directory (addFrom_directories h) he) hw⟩
    · next there he =>
      split at h
      · cases h
      · obtain ⟨last, hw⟩ := ih h
        obtain ⟨rfl, hdot, hdots, hlen, -, -⟩ := enter_eq_free_iff.mp he
        have hmem : part :: here ∈ t'.directories :=
          addFrom_directories h List.mem_cons_self
        refine ⟨last, walk_cons ?_ hw⟩
        simp [enter, hdot, hdots, Nat.not_lt.mpr hlen, hmem]
    · cases h

lemma walk_addDirectories {path : String} (h : t.addDirectories path = some t') :
    ∃ there, t'.walk [] (Path.parts path) = .directory there := by
  unfold addDirectories at h
  split at h
  · exact walk_addFrom h
  · cases h

lemma walk_write (k : Nat) (f : ByteFile) :
    (t.write k f).walk here parts = t.walk here parts := by
  induction parts generalizing here with
  | nil => rfl
  | cons part rest ih =>
    cases rest with
    | nil => exact enter_write ..
    | cons next rest =>
      rw [walk, walk, enter_write]
      · simp only [ih]
      · simp
      · simp

lemma place_write (k : Nat) (f : ByteFile) (path : String) :
    (t.write k f).place path = t.place path := by
  rw [place, place, walk_write]

/-- A tree has the same directories and files as another one, and one file more. -/
structure Adds (t t' : FileTree) (l : Location) (k : Nat) : Prop where
  directories : t'.directories = t.directories
  free : t.entries.find? l = none
  entries : ∀ m, t'.entries.find? m = if m = l then some k else t.entries.find? m

lemma adds_addFile {l : Location} (f : ByteFile) (hl : t.entries.find? l = none) :
    t.Adds (t.addFile l f) l t.next where
  directories := rfl
  free := hl
  entries _ := Table.find?_insert ..

lemma adds_remove {l : Location} {k : Nat} (hl : t.entries.find? l = some k) :
    (t.remove l).Adds t l k where
  directories := rfl
  free := (Table.find?_erase ..).trans (if_pos rfl)
  entries m := by
    rw [remove, Table.find?_erase]
    split
    · next hm => rw [hm, hl]
    · rfl

section Adds
variable {l : Location} {k : Nat}

lemma Adds.enter (h : t.Adds t' l k) :
    Place.Filled l k (t.enter here part) (t'.enter here part) := by
  unfold FileTree.enter
  rw [h.entries, h.directories]
  by_cases hdot : part = "."
  · simpa only [if_pos hdot] using .same (by simp)
  · by_cases hdots : part = ".."
    · simpa only [if_neg hdot, if_pos hdots] using .same (by simp)
    · simp only [if_neg hdot, if_neg hdots]
      by_cases hlen : Path.maxPartBytes < part.utf8ByteSize
      · simpa only [if_pos hlen] using .same (by simp)
      · simp only [if_neg hlen]
        cases t.directories.contains (part :: here) with
        | true => exact .same (by simp)
        | false =>
          by_cases hm : part :: here = l
          · rw [if_pos hm, hm, h.free]
            exact .filled
          · rw [if_neg hm]
            cases t.entries.find? (part :: here) with
            | some _ => exact .same (by simp)
            | none => exact .same fun heq => hm (Place.free.inj heq)

lemma Adds.walk (h : t.Adds t' l k) :
    Place.Filled l k (t.walk here parts) (t'.walk here parts) := by
  induction parts generalizing here with
  | nil => exact .same (by simp [FileTree.walk])
  | cons part rest ih =>
    cases rest with
    | nil => exact h.enter
    | cons next rest =>
      rw [FileTree.walk, FileTree.walk]
      · generalize he : t.enter here part = p
        generalize he' : t'.enter here part = q
        have hpq : Place.Filled l k p q := he ▸ he' ▸ h.enter
        cases hpq with
        | same hne =>
          cases p with
          | directory there => exact ih
          | file | free | missing | blocked => exact .same (by simp)
        | filled => exact .behind
        | behind => exact .behind
      · simp
      · simp

/-- The file is what the paths lead to that lead to its place where it is not there. -/
theorem Adds.place (h : t.Adds t' l k) (path : String) :
    Place.Filled l k (t.place path) (t'.place path) := by
  unfold FileTree.place
  cases Path.passable path with
  | false => exact .same (by simp)
  | true =>
    generalize hp : t.walk [] (Path.parts path) = p
    generalize hq : t'.walk [] (Path.parts path) = q
    have hpq : Place.Filled l k p q := hp ▸ hq ▸ h.walk
    cases hpq with
    | same hne =>
      cases p with
      | free l' =>
        cases Path.trailing path with
        | false => exact .same hne
        | true => exact .same (by simp)
      | file l' k => cases Path.trailing path <;> exact .same (by simp)
      | directory | missing | blocked => exact .same (by simp)
    | filled =>
      cases Path.trailing path with
      | false => exact .filled
      | true => exact .behind
    | behind => exact .behind

end Adds

lemma enter_entry (h : (t.enter here part).spot? = some there) :
    t.entries.find? there = (t.enter here part).number? := by
  unfold FileTree.enter at h ⊢
  by_cases hdot : part = "."
  · simp [hdot, Place.spot?] at h
  · by_cases hdots : part = ".."
    · simp [hdots, Place.spot?] at h
    · rw [if_neg hdot, if_neg hdots] at h ⊢
      split at h
      · cases h
      · next hlen =>
        rw [if_neg hlen]
        split at h
        · cases h
        · next hdir =>
          rw [if_neg hdir]
          cases hf : t.entries.find? (part :: here) with
          | some k =>
            rw [hf] at h
            cases h
            exact hf
          | none =>
            rw [hf] at h
            cases h
            exact hf

lemma walk_entry (h : (t.walk here parts).spot? = some there) :
    t.entries.find? there = (t.walk here parts).number? := by
  induction parts generalizing here with
  | nil => cases h
  | cons part rest ih =>
    cases rest with
    | nil => exact enter_entry h
    | cons next rest =>
      rw [walk] at h ⊢
      · cases he : t.enter here part with
        | directory at' =>
          rw [he] at h
          exact ih h
        | file | free | missing | blocked => rw [he] at h; cases h
      · simp
      · simp

lemma place_entry {path : String} (h : (t.place path).spot? = some there) :
    t.entries.find? there = (t.place path).number? := by
  unfold place at h ⊢
  cases hp : Path.passable path with
  | false => simp [hp, Place.spot?] at h
  | true =>
    have hw : (t.walk [] (Path.parts path)).spot? = some there →
        t.entries.find? there = (t.walk [] (Path.parts path)).number? := walk_entry
    rw [hp] at h
    revert h hw
    generalize t.walk [] (Path.parts path) = q
    cases q <;> cases Path.trailing path <;> simp_all [Place.spot?]

end FileTree

namespace Disk
variable {d d' : Disk} {there l : Location} {k : Nat} {name : String}

def number? (d : Disk) (name : String) : Option Nat := (d.place name).number?

/-- Where the file of a name is, or could be. -/
def spot? (d : Disk) (name : String) : Option Location := (d.place name).spot?

lemma contentsOf_eq (d : Disk) (name : String) :
    d.contentsOf name = (d.number? name).map d.tree.read := by
  unfold contentsOf number?
  cases d.place name <;> rfl

lemma walk_path (hd : d.tree.walk [] (Path.parts d.dir) = .directory there) (hn : Plain name) :
    d.tree.walk [] (Path.parts (d.path name)) = d.tree.enter there name := by
  rw [path, Path.parts_join _ _ hn.noSlash hn.nonempty]
  exact FileTree.walk_append _ _ _ _ _ hd

/-- A plain name stands for the place of that name in the directory. -/
theorem spot?_of_plain (hd : d.tree.walk [] (Path.parts d.dir) = .directory there)
    (hn : Plain name) (h : d.spot? name = some l) : l = name :: there := by
  have hw := walk_path hd hn
  have hat : (d.tree.enter there name).spot? = some l := by
    unfold spot? place FileTree.place at h
    rw [hw] at h
    split at h
    · cases h
    · generalize d.tree.enter there name = p at h
      cases p <;> cases ht : Path.trailing (d.path name) <;> simp_all [Place.spot?]
  unfold FileTree.enter at hat
  rw [if_neg hn.notHere, if_neg hn.notAbove] at hat
  split at hat
  · cases hat
  · split at hat
    · cases hat
    · split at hat <;> exact (Option.some.inj hat).symm

/-- A disk differs from another one by a file at one place. -/
structure Differs (l : Location) (k : Nat) (d d' : Disk) : Prop where
  dir : d'.dir = d.dir
  tree : d.tree.Adds d'.tree l k

lemma differs_create (hc : d.create name = .ok d') :
    ∃ l, d.place name = .free l ∧ d.Differs l d.tree.next d' := by
  obtain ⟨-, l, hp, rfl⟩ := create_eq_ok_iff.mp hc
  have hspot : d.spot? name = some l := congrArg Place.spot? hp
  exact ⟨l, hp, rfl, FileTree.adds_addFile {}
    ((FileTree.place_entry hspot).trans (congrArg Place.number? hp))⟩

lemma differs_destroy (hr : d.destroy name = .ok d') :
    ∃ l k, d.place name = .file l k ∧ d'.Differs l k d := by
  obtain ⟨-, l, k, hp, rfl⟩ := destroy_eq_ok_iff.mp hr
  have hspot : d.spot? name = some l := congrArg Place.spot? hp
  exact ⟨l, k, hp, rfl, FileTree.adds_remove
    ((FileTree.place_entry hspot).trans (congrArg Place.number? hp))⟩

lemma Differs.place (h : d.Differs l k d') (name : String) :
    Place.Filled l k (d.place name) (d'.place name) := by
  rw [Disk.place, Disk.place, path, path, h.dir]
  exact h.tree.place _

/-- The directory of the disk is there. -/
structure Mounted (d : Disk) : Prop where
  passable : Path.passable d.dir = true
  there : ∃ there, d.tree.walk [] (Path.parts d.dir) = .directory there

namespace Mounted

lemma of_mount {dir : String} {tree : FileTree} (h : mount dir tree = .ok d) : d.Mounted := by
  obtain ⟨tree', ht, rfl⟩ := mount_eq_ok_iff.mp h
  refine ⟨?_, FileTree.walk_addDirectories ht⟩
  unfold FileTree.addDirectories at ht
  split at ht
  · next hp => exact hp
  · cases ht

theorem mount_eq (h : d.Mounted) : mount d.dir d.tree = .ok { tree := d.tree, dir := d.dir } := by
  obtain ⟨there, hw⟩ := h.there
  simp [mount, FileTree.addDirectories, h.passable, FileTree.addFrom_of_walk hw]

lemma mono (h : d.Mounted) (hdir : d'.dir = d.dir)
    (hsub : d.tree.directories ⊆ d'.tree.directories) : d'.Mounted := by
  obtain ⟨there, hw⟩ := h.there
  rw [← hdir] at hw
  exact ⟨hdir ▸ h.passable, there, FileTree.walk_directory hsub hw⟩

lemma openFile {id : UInt32} (h : d.Mounted) (ho : d.openFile name = .ok (id, d')) :
    d'.Mounted := by
  cases openFile_eq_ok_iff.mp ho <;> exact h.mono rfl (List.Subset.refl _)

lemma closeFile {id : UInt32} (h : d.Mounted) (hc : d.closeFile id = .ok d') : d'.Mounted := by
  obtain ⟨g, -, rfl⟩ := closeFile_eq_ok_iff.mp hc
  exact h.mono rfl (List.Subset.refl _)

lemma create (h : d.Mounted) (hc : d.create name = .ok d') : d'.Mounted := by
  obtain ⟨-, l, -, rfl⟩ := create_eq_ok_iff.mp hc
  exact h.mono rfl (List.Subset.refl _)

lemma destroy (h : d.Mounted) (hr : d.destroy name = .ok d') : d'.Mounted := by
  obtain ⟨-, l, k, -, rfl⟩ := destroy_eq_ok_iff.mp hr
  exact h.mono rfl (List.Subset.refl _)

end Mounted
end Disk
end PagedHeap
