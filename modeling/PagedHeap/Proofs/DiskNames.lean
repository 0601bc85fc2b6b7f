import PagedHeap.Proofs.DiskFiles

/-! Names on a disk. Operations of a disk are granted or refused by what there is of a name and whether
it is open. As time passes an id is bound to no other name than before, since those that are bound
anew were never in use. -/
namespace PagedHeap

def Place.occupied : Place → Bool
  | .file _ _ | .directory _ => true
  | _ => false

lemma Place.Filled.occupied {l : Location} {k : Nat} {p q : Place} (h : Place.Filled l k p q)
    (hp : p.occupied = true) : q.occupied = true := by
  cases h with
  | same => exact hp
  | filled => rfl
  | behind => cases hp

lemma Place.Filled.occupied_eq {l : Location} {k : Nat} {p q : Place} (h : Place.Filled l k p q)
    (hp : p.spot? ≠ some l) : q.occupied = p.occupied := by
  cases h with
  | filled => exact absurd rfl hp
  | same | behind => rfl

namespace Disk
variable {d d' d'' : Disk} {name other : String} {id : UInt32} {l : Location}

/-- A disk on which some time has passed. What is bound then was bound before, or is bound to an id
that was not in use. -/
structure Later (d d' : Disk) : Prop where
  next : d.nextId ≤ d'.nextId
  ids : ∀ {name id}, d'.ids.find? name = some id → d.ids.find? name = some id ∨ d.nextId ≤ id

namespace Later

lemma refl (d : Disk) : d.Later d := ⟨UInt32.le_refl _, Or.inl⟩

lemma trans (h : d.Later d') (h' : d'.Later d'') : d.Later d'' where
  next := UInt32.le_trans h.next h'.next
  ids hi := (h'.ids hi).elim h.ids fun hle => Or.inr (UInt32.le_trans h.next hle)

lemma of_ids (hids : d'.ids = d.ids) (hnext : d'.nextId = d.nextId) : d.Later d' where
  next := hnext ▸ UInt32.le_refl _
  ids hi := Or.inl (hids ▸ hi)

lemma openFile (ho : d.openFile name = .ok (id, d')) : d.Later d' := by
  cases openFile_eq_ok_iff.mp ho with
  | again | bound => exact of_ids rfl rfl
  | new _ _ _ hroom =>
    refine ⟨UInt32.le_iff_toNat_le.mpr ?_, fun hi => ?_⟩
    · rw [toNat_add_one hroom]
      exact Nat.le_succ _
    · rw [Table.find?_insert] at hi
      split at hi
      · cases hi
        exact Or.inr (UInt32.le_refl _)
      · exact Or.inl hi

lemma closeFile (hc : d.closeFile id = .ok d') : d.Later d' := by
  obtain ⟨h, -, rfl⟩ := closeFile_eq_ok_iff.mp hc
  exact of_ids rfl rfl

lemma create (hc : d.create name = .ok d') : d.Later d' := by
  obtain ⟨-, l, -, rfl⟩ := create_eq_ok_iff.mp hc
  exact of_ids rfl rfl

lemma destroy (hr : d.destroy name = .ok d') : d.Later d' := by
  obtain ⟨-, l, k, -, rfl⟩ := destroy_eq_ok_iff.mp hr
  refine ⟨UInt32.le_refl _, fun hi => Or.inl ?_⟩
  rw [Table.find?_erase] at hi
  split at hi
  · cases hi
  · exact hi

lemma written (hw : d.Written d') : d.Later d' := by
  induction hw with
  | refl => exact refl d
  | page _ _ _ ih => exact ih.trans (of_ids rfl rfl)

end Later

/-- Whether there is something of a name. -/
def present (d : Disk) (name : String) : Bool := (d.place name).occupied

lemma present_of_spot (hl : d.spot? name = some l) :
    d.present name = (d.tree.entries.find? l).isSome := by
  have hentry : d.tree.entries.find? l = (d.place name).number? := FileTree.place_entry hl
  rw [hentry, present]
  rw [spot?] at hl
  generalize d.place name = p at hl ⊢
  cases p <;> first | rfl | cases hl

lemma Written.present (hw : d.Written d') : d'.present name = d.present name := by
  induction hw with
  | refl => rfl
  | page _ _ _ ih => rw [Disk.present, place_written, ← ih, Disk.present]

lemma Mounted.written (h : d.Mounted) (hw : d.Written d') : d'.Mounted := by
  induction hw with
  | refl => exact h
  | page _ _ _ ih => exact ih.mono rfl (List.Subset.refl _)

/-- Different plain names stand for different places. -/
lemma Mounted.spot?_inj (hm : d.Mounted) (hn : Plain name) (ho : Plain other)
    (hl : d.spot? name = some l) (hl' : d.spot? other = some l) : name = other := by
  obtain ⟨there, hw⟩ := hm.there
  exact (List.cons.inj ((spot?_of_plain hw hn hl).symm.trans (spot?_of_plain hw ho hl'))).1

lemma opened_eq_none_iff : d.opened.find? id = none ↔ d.handle id = .error (.fileNotOpen id) := by
  unfold handle
  cases d.opened.find? id <;> simp

/-- Requests for pages are taken for files that are open, and for no others. -/
lemma requests_refused_iff (d : Disk) (id : PageId) (p : Page) :
    (d.readPage id = .error (.fileNotOpen id.file) ↔ d.opened.find? id.file = none) ∧
      (d.writePage id p = .error (.fileNotOpen id.file) ↔ d.opened.find? id.file = none) ∧
      (d.allocPage id.file = .error (.fileNotOpen id.file) ↔ d.opened.find? id.file = none) ∧
      (d.numPages id.file = .error (.fileNotOpen id.file) ↔ d.opened.find? id.file = none) := by
  cases hf : d.opened.find? id.file with
  | none =>
    have hh := opened_eq_none_iff.mp hf
    simp [readPage, writePage, allocPage, numPages, hh, bind, Except.bind]
  | some h =>
    have hh := handle_of_find? hf
    refine ⟨?_, ?_, ?_, ?_⟩
    · by_cases hp : h.pages ≤ id.page
      · simp [readPage, hh, hp, bind, Except.bind, throw, throwThe, MonadExceptOf.throw]
      · cases hr : (d.contents h).readPage id.page.toNat <;>
          simp [readPage, hh, hp, hr, bind, Except.bind, throw, throwThe, MonadExceptOf.throw, pure,
            Except.pure]
    · by_cases hp : id.page = noPage <;>
        simp [writePage, hh, hp, bind, Except.bind, throw, throwThe, MonadExceptOf.throw, pure,
          Except.pure]
    · by_cases hp : h.pages = noPage <;>
        simp [allocPage, writePage, hh, hp, bind, Except.bind, throw, throwThe,
          MonadExceptOf.throw, pure, Except.pure]
    · simp [numPages, hh, bind, Except.bind, pure, Except.pure]

lemma create_cases (hio : ∀ reason, d.create name ≠ .error (.io reason)) :
    d.present name = true ∧ d.create name = .error (.fileExists name) ∨
      d.present name = false ∧ ∃ d', d.create name = .ok d' := by
  unfold create at hio ⊢
  unfold present
  cases ht : Path.trailing (d.path name) with
  | true => exact absurd (by simp [ht]) (hio "create")
  | false =>
    simp only [ht] at hio ⊢
    cases hp : d.place name with
    | file | directory => simp [Place.occupied]
    | free => simp [Place.occupied]
    | missing | blocked => exact absurd (by simp [hp]) (hio "create")

lemma entry_cases (hio : ∀ reason, d.entry name ≠ .error (.io reason)) :
    d.present name = false ∧ d.entry name = .error (.fileNotFound name) ∨
      d.present name = true ∧ ∃ found, d.entry name = .ok found := by
  unfold entry at hio ⊢
  unfold present
  cases hp : d.place name with
  | file | free | missing => simp [Place.occupied]
  | directory | blocked => exact absurd (by simp [hp]) (hio "open")

/-- A file is opened if it is there, for as long as there are ids and its openings can be counted. -/
lemma openFile_cases (hio : ∀ reason, d.openFile name ≠ .error (.io reason))
    (hthere : d.isOpen name = true → d.present name = true) :
    d.present name = false ∧ d.openFile name = .error (.fileNotFound name) ∨
      d.present name = true ∧ ((∃ r, d.openFile name = .ok r) ∨
        d.openFile name = .error .countOverflow ∧ (¬ d.nextId.toNat + 1 < UInt32.size ∨
          ∃ id, d.ids.find? name = some id ∧ ¬ d.uses id + 1 < UInt32.size)) := by
  unfold isOpen at hthere
  unfold openFile at hio ⊢
  cases ha : d.openAs? name with
  | some found =>
    obtain ⟨hi, hf⟩ := openAs?_eq_some_iff.mp ha
    refine Or.inr ⟨hthere (by rw [ha]; rfl), ?_⟩
    by_cases hfew : found.2.uses.toNat + 1 < UInt32.size
    · exact Or.inl ⟨_, if_pos hfew⟩
    · exact Or.inr ⟨if_neg hfew, Or.inr ⟨_, hi, uses_of_find? hf ▸ hfew⟩⟩
  | none =>
    simp only [ha] at hio ⊢
    have hentry : ∀ reason, d.entry name ≠ .error (.io reason) := fun reason he =>
      hio reason (by simp [he, bind, Except.bind])
    rcases entry_cases hentry with ⟨hp, he⟩ | ⟨hp, found, he⟩
    · exact Or.inl ⟨hp, by simp [he, bind, Except.bind]⟩
    · refine Or.inr ⟨hp, ?_⟩
      cases hi : d.ids.find? name with
      | some i => simp [he, bind, Except.bind, pure, Except.pure]
      | none =>
        by_cases hroom : d.nextId.toNat + 1 < UInt32.size
        · simp [he, hroom, bind, Except.bind, pure, Except.pure]
        · simp [he, hroom, bind, Except.bind, throw, throwThe, MonadExceptOf.throw]

lemma destroy_cases (hio : ∀ reason, d.destroy name ≠ .error (.io reason)) :
    d.isOpen name = true ∧ d.destroy name = .error (.fileOpen name) ∨
      d.isOpen name = false ∧ (d.present name = false ∧ d.destroy name = .error (.fileNotFound name) ∨
        d.present name = true ∧ ∃ d', d.destroy name = .ok d') := by
  unfold destroy at hio ⊢
  cases ho : d.isOpen name with
  | true => simp [bind, Except.bind, throw, throwThe, MonadExceptOf.throw]
  | false =>
    have hentry : ∀ reason, d.entry name ≠ .error (.io reason) := fun reason he =>
      hio reason (by simp [ho, he, bind, Except.bind])
    rcases entry_cases hentry with ⟨hp, he⟩ | ⟨hp, found, he⟩
    · simp [hp, he, bind, Except.bind]
    · simp [hp, he, bind, Except.bind, pure, Except.pure]

end Disk

end PagedHeap
