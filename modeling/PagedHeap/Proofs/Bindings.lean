import Mathlib.Data.List.Nodup
import Mathlib.Data.List.Perm.Basic
import Mathlib.Tactic.Common
import PagedHeap.Table

/-! Tables that bind each key once. In such a table a binding is found exactly if it is there, and
taking one out leaves the others in their order. -/
namespace PagedHeap.Table
variable {κ β : Type} [DecidableEq κ] {t : Table κ β} {k l : κ} {v w : β}

/-- No key is bound twice. -/
def Distinct (t : Table κ β) : Prop := t.keys.Nodup

omit [DecidableEq κ] in
theorem distinct_empty : (⟨[]⟩ : Table κ β).Distinct := List.nodup_nil

lemma mem_of_find? (h : t.find? k = some v) : (k, v) ∈ t.entries := by
  obtain ⟨⟨l, w⟩, he, hw⟩ := Option.map_eq_some_iff.mp h
  have hk : l = k := by simpa using List.find?_some he
  subst hk
  cases hw
  exact List.mem_of_find?_eq_some he

lemma find?_eq_none_iff : t.find? k = none ↔ ∀ e ∈ t.entries, e.1 ≠ k := by
  simp [find?, List.find?_eq_none]

theorem Distinct.find?_eq_some_iff (ht : t.Distinct) :
    t.find? k = some v ↔ (k, v) ∈ t.entries := by
  refine ⟨mem_of_find?, fun h => ?_⟩
  cases hf : t.find? k with
  | none => exact absurd rfl (find?_eq_none_iff.mp hf _ h)
  | some w =>
    have hw := mem_of_find? hf
    have := List.inj_on_of_nodup_map ht h hw rfl
    simpa using (Prod.mk.inj this).2.symm

theorem Distinct.erase (ht : t.Distinct) (k : κ) : (t.erase k).Distinct :=
  ht.sublist (List.filter_sublist.map _)

lemma notMem_keys_erase (t : Table κ β) (k : κ) : k ∉ (t.erase k).keys := by
  simp [keys, Table.erase]

theorem Distinct.insert (ht : t.Distinct) (k : κ) (v : β) : (t.insert k v).Distinct :=
  List.nodup_cons.mpr ⟨notMem_keys_erase t k, ht.erase k⟩

lemma erase_insert (t : Table κ β) (k : κ) (v : β) : (t.insert k v).erase k = t.erase k := by
  simp [Table.erase, Table.insert]

lemma entries_erase_of_find?_eq_none (h : t.find? k = none) : (t.erase k).entries = t.entries :=
  List.filter_eq_self.mpr fun e he => by simpa using find?_eq_none_iff.mp h e he

/-- A table consists of one of its bindings and the rest. -/
theorem Distinct.entries_perm (ht : t.Distinct) (h : t.find? k = some v) :
    t.entries.Perm ((k, v) :: (t.erase k).entries) := by
  have hmem := mem_of_find? h
  have hout : (k, v) ∉ (t.erase k).entries := fun hk =>
    notMem_keys_erase t k (List.mem_map_of_mem hk)
  refine (List.perm_ext_iff_of_nodup (List.Nodup.of_map _ ht)
    (List.nodup_cons.mpr ⟨hout, List.Nodup.of_map _ (ht.erase k)⟩)).mpr fun e => ?_
  rw [List.mem_cons]
  constructor
  · intro he
    by_cases hk : e.1 = k
    · exact Or.inl (List.inj_on_of_nodup_map ht he hmem hk)
    · exact Or.inr (List.mem_filter.mpr ⟨he, by simpa using hk⟩)
  · rintro (rfl | he)
    · exact hmem
    · exact List.mem_of_mem_filter he

end PagedHeap.Table
