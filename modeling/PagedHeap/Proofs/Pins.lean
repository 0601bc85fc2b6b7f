import PagedHeap.Proofs.CacheRequests

/-! Pins and the journal. A store is `Pinned` with a list of holds if the journal and the pool agree
with the list: on each page the pins granted are those dropped, those whose dropping was refused, and
those held. A refused drop leaves its pin in the pool for good, so that the page stays cached. -/
namespace PagedHeap

/-- A pin that somebody holds, and whether the page is to be marked dirty when it is given back. -/
structure Hold where
  id : PageId
  frame : Nat
  dirty : Bool := false
  deriving DecidableEq

namespace Event

def grants (id : PageId) : Event → Bool
  | allocated i | fetched i => i = id
  | _ => false

def drops (id : PageId) : Event → Bool
  | unpinned i => i = id
  | _ => false

/-- Whether dropping a pin of a page was asked for, and refused. -/
def refuses (id : PageId) : Event → Bool
  | failed (.unpin i _) => i = id
  | _ => false

end Event

namespace Store
variable {α : Type} {s : Store} {id : PageId}

def granted (s : Store) (id : PageId) : Nat := s.journal.countP (Event.grants id)

def dropped (s : Store) (id : PageId) : Nat := s.journal.countP (Event.drops id)

/-- How often it was asked for in vain to drop a pin of a page. -/
def refused (s : Store) (id : PageId) : Nat := s.journal.countP (Event.refuses id)

/-- How often it was asked for to drop a pin of a page. -/
def issued (s : Store) (id : PageId) : Nat := s.dropped id + s.refused id

section Request
variable {r : Request} {act : CacheM α} {event : α → Event} {e : StoreError}

lemma refusal_eq_none_iff : s.refusal r = none ↔ s.gate s.journal.length r = none ∧
    ∀ id ∈ s.wanted? r, s.cache.pool.pins id < Frame.maxPins := by
  have hlt : ∀ id, s.cache.pool.pins id < Frame.maxPins ↔ s.cache.pool.pins id ≠ Frame.maxPins :=
    fun id => ⟨Nat.ne_of_lt, Nat.lt_of_le_of_ne (Nat.le_pred_of_lt (s.cache.pool.pins_lt id))⟩
  simp only [refusal, hlt]
  cases s.gate s.journal.length r <;> simp

/-- Only the gate refuses a request that is for no pin. -/
lemma refusal_eq_gate (h : s.wanted? r = none) : s.refusal r = s.gate s.journal.length r := by
  unfold refusal
  split <;> simp_all

/-- What is not refused by the gate is refused for the pins of a page. -/
lemma refusal_eq_some (h : s.refusal r = some e) : s.gate s.journal.length r = some e ∨
    e = .countOverflow ∧ ∃ id ∈ s.wanted? r, s.cache.pool.pins id = Frame.maxPins := by
  unfold refusal at h
  split at h
  · next hg => exact Or.inl (hg.trans h)
  · split at h
    · next hcrowded => exact Or.inr ⟨(Option.some.inj h).symm, hcrowded⟩
    · cases h

lemma request_refused (h : s.refusal r = some e) :
    request r act event s = (.error e, { s with journal := .failed r :: s.journal }) := by
  simp [request, h]

lemma request_granted (h : s.refusal r = none) :
    request r act event s = ((act s.cache).1, { s with
      cache := (act s.cache).2
      journal := (match (act s.cache).1 with
        | .ok a => event a
        | .error _ => .failed r) :: s.journal }) := by
  simp only [request, h]
  rcases act s.cache with ⟨_ | _, _⟩ <;> rfl

end Request
end Store

/-- The holds on a page. -/
abbrev holdsOn (holds : List Hold) (id : PageId) : Nat := holds.countP (·.id = id)

/-- The journal and the pool agree with the pins that are held. -/
structure Pinned (holds : List Hold) (s : Store) : Prop where
  wf : s.cache.pool.Wf
  page : ∀ {id i}, s.cache.pool.find? id = some i → id.page ≠ noPage
  held : ∀ h ∈ holds, s.cache.pool.find? h.id = some h.frame
  pins : ∀ id, s.cache.pool.pins id + s.dropped id = s.granted id
  balance : ∀ id, s.granted id = s.issued id + holdsOn holds id

namespace Pinned
variable {s s' : Store} {holds holds' : List Hold} {id : PageId} {h : Hold}

/-- Every pin in the pool is held by somebody, or was not let go. -/
lemma pins_eq (hs : Pinned holds s) (id : PageId) :
    s.cache.pool.pins id = s.refused id + holdsOn holds id := by
  have := hs.pins id
  have := hs.balance id
  simp only [Store.issued] at this
  omega

lemma pins_ne_zero (hs : Pinned holds s) (hh : h ∈ holds) : s.cache.pool.pins h.id ≠ 0 := by
  have hpos : 0 < holdsOn holds h.id := List.countP_pos_iff.mpr ⟨h, hh, by simp⟩
  have := hs.pins_eq h.id
  omega

theorem perm (hp : holds.Perm holds') (hs : Pinned holds s) : Pinned holds' s where
  wf := hs.wf
  page := hs.page
  held h hh := hs.held h (hp.mem_iff.mpr hh)
  pins := hs.pins
  balance id := (hs.balance id).trans (by rw [holdsOn, holdsOn, hp.countP_eq])

/-- Only the pages held and their frames matter. -/
theorem mark (hs : Pinned (h :: holds) s) (dirty : Bool) :
    Pinned ({ h with dirty } :: holds) s where
  wf := hs.wf
  page := hs.page
  held h' hh' := by
    rcases List.mem_cons.mp hh' with rfl | hh'
    · exact hs.held h List.mem_cons_self
    · exact hs.held h' (List.mem_cons_of_mem _ hh')
  pins := hs.pins
  balance id := (hs.balance id).trans (by simp [holdsOn, List.countP_cons])

theorem congr (hs : Pinned holds s) (hwf : s'.cache.pool.Wf)
    (hfind : ∀ id, s'.cache.pool.find? id = s.cache.pool.find? id)
    (hpins : ∀ id, s'.cache.pool.pins id = s.cache.pool.pins id)
    (hjournal : ∀ id, s'.granted id = s.granted id ∧ s'.dropped id = s.dropped id ∧
      s'.refused id = s.refused id) : Pinned holds s' where
  wf := hwf
  page hi := hs.page (by rwa [hfind] at hi)
  held h hh := (hfind _).trans (hs.held h hh)
  pins id := by
    rw [hpins, (hjournal id).1, (hjournal id).2.1]
    exact hs.pins id
  balance id := by
    rw [Store.issued, (hjournal id).1, (hjournal id).2.1, (hjournal id).2.2]
    exact hs.balance id

end Pinned
end PagedHeap
