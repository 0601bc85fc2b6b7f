import PagedHeap.Proofs.Granted

/-! The chain of a heap file, in every state of every run: it starts at the first data page, its
numbers increase, it reaches the last data page after as many links as the header says, and it goes
on for one empty page at most. -/
namespace PagedHeap

namespace Heap
variable {t : Prop} {ps : List Page} {hd : FileHeader} {body : List UInt32} {spare : Option UInt32}
  {n m : UInt32} {ns : List UInt32}

/-- The page reached from a page by so many links. -/
def walk (ps : List Page) : Nat → UInt32 → Option UInt32
  | 0, n => some n
  | k+1, n => (next? ps n).bind (walk ps k)

lemma walk_succ (ps : List Page) (k : Nat) (n : UInt32) :
    walk ps (k + 1) n = (walk ps k n).bind (next? ps) := by
  induction k generalizing n with
  | zero => cases h : next? ps n <;> simp [walk, h]
  | succ k ih =>
    rw [walk, walk]
    cases next? ps n with
    | none => rfl
    | some m => exact ih m

/-- Where pages are linked one to the next, the links lead through them in order. -/
lemma walk_eq_getElem? (h : ns.IsChain fun a b => next? ps a = some b)
    (hlast : ∀ m, ns.getLast? = some m → next? ps m = none) (hhead : ns.head? = some n) (k : Nat) :
    walk ps k n = ns[k]? := by
  induction ns generalizing n k with
  | nil => cases hhead
  | cons a rest ih =>
    cases hhead
    cases k with
    | zero => rfl
    | succ k =>
      rw [walk, List.getElem?_cons_succ]
      cases rest with
      | nil => rw [hlast a rfl]; rfl
      | cons b rest =>
        obtain ⟨hab, hrest⟩ := List.isChain_cons_cons.mp h
        rw [hab, Option.bind_some]
        exact ih hrest (fun m hm => hlast m (by rw [List.getLast?_cons_cons, hm])) rfl k

/-- A file whose chain is in order. -/
structure Chained (torn : Prop) (ps : List Page) (hd : FileHeader) : Prop where
  header : header? ps = some hd
  visited : ∀ {n}, n ∈ chain ps ↔ ∃ k, walk ps k hd.first = some n
  increasing : ∀ {k n m}, walk ps k hd.first = some n → next? ps n = some m → n < m
  data : ∀ {k n}, walk ps k hd.first = some n →
    n ≠ 0 ∧ ∃ p, page? ps n = some p ∧ p.kind = .heapData ∧ p.number = n
  last : 2 ≤ hd.pages.toNat ∧ walk ps (hd.pages.toNat - 2) hd.first = some hd.last
  beyond : ∀ {n}, next? ps hd.last = some n →
    torn ∧ next? ps n = none ∧ ∀ s, content ps ⟨n, s⟩ = none
  ends : walk ps hd.pages.toNat hd.first = none

namespace Layout

lemma linked_all (h : Layout t ps hd body spare) :
    (body ++ spare.toList).IsChain fun a b => next? ps a = some b := by
  refine h.linked.append (by cases spare <;> simp) fun a ha b hb => ?_
  cases h.last.symm.trans ha
  rw [h.beyond]
  cases spare <;> simp_all

lemma next?_of_getLast? (h : Layout t ps hd body spare)
    (hm : (body ++ spare.toList).getLast? = some m) : next? ps m = none := by
  cases hs : spare with
  | none =>
    rw [hs, Option.toList_none, List.append_nil, h.last] at hm
    cases hm
    rw [h.beyond, hs]
  | some n =>
    rw [hs, Option.toList_some, List.getLast?_concat] at hm
    cases hm
    rw [next?, h.hangs hs, Option.bind_some, Page.next?_empty]

theorem walk_eq (h : Layout t ps hd body spare) (k : Nat) :
    walk ps k hd.first = (body ++ spare.toList)[k]? :=
  walk_eq_getElem? h.linked_all (fun _ => h.next?_of_getLast?)
    (by rw [List.head?_append, h.first]; rfl) k

theorem chained (h : Layout t ps hd body spare) : Chained t ps hd := by
  have hsorted := List.pairwise_cons.mp h.sorted
  have hpos : 0 < body.length := List.length_pos_of_mem h.first_mem
  have hcount := h.count
  refine ⟨h.header, fun {n} => ?_, fun {k n m} hn hm => ?_, fun {k n} hn => ?_, ⟨by omega, ?_⟩,
    fun {n} hn => ?_, ?_⟩
  · simp only [h.chain_eq, h.walk_eq, List.mem_iff_getElem?]
  · have hm' : (body ++ spare.toList)[k + 1]? = some m := by
      rw [← h.walk_eq, walk_succ, hn, Option.bind_some, hm]
    rw [h.walk_eq] at hn
    obtain ⟨hk, rfl⟩ := List.getElem?_eq_some_iff.mp hn
    obtain ⟨hk', rfl⟩ := List.getElem?_eq_some_iff.mp hm'
    exact List.pairwise_iff_getElem.mp hsorted.2 k (k + 1) hk hk' (Nat.lt_succ_self k)
  · rw [h.walk_eq] at hn
    have hmem := List.mem_of_getElem? hn
    have hdata : IsData ps n := by
      rcases List.mem_append.mp hmem with hb | hs
      · exact h.isData hb
      · exact h.isData_spare (Option.mem_toList.mp hs)
    obtain ⟨h0, p, hp, hw⟩ := hdata
    exact ⟨h0, p, hp, hw.kind, hw.number⟩
  · rw [h.walk_eq, List.getElem?_append_left (by omega), ← h.last, List.getLast?_eq_getElem?]
    congr 1
    omega
  · rw [h.beyond] at hn
    refine ⟨h.torn (by rw [hn]; exact Option.some_ne_none n), ?_, fun s => ?_⟩
    · rw [next?, h.hangs hn, Option.bind_some, Page.next?_empty]
    · have hpage := h.hangs hn
      rw [h.content_of_entry (h.isData_spare hn).1 hpage, Page.entry_empty]
  · rw [h.walk_eq, List.getElem?_eq_none]
    rw [List.length_append]
    cases spare <;> simp <;> omega

end Layout
end Heap

namespace Workspace
variable {own : String → Prop} {w : Workspace} {cache : Cache} {actions : List Action}

/-- There is a heap file of this name, and its chain is in order. -/
def Chained (w : Workspace) (name : String) : Prop :=
  ∃ ps hd, w.pages name = some ps ∧ Heap.Chained w.store.Torn ps hd

end Workspace
end PagedHeap
