import PagedHeap.Pool
import PagedHeap.Proofs.Bindings
import PagedHeap.Proofs.ClockSweeps

/-! The structure of a pool. Each frame is unused or holds the one page that the table has it for.
`Pool.cached` is what a pool shows of a page, and each operation is described by what it does to
that: `Pool.Claimed` lists the ways in which a request for a frame can end. -/
namespace PagedHeap

lemma PageId.ne_unassigned {id : PageId} (h : id.page ≠ noPage) : id ≠ Frame.unassigned := by
  rintro rfl
  exact h rfl

namespace Pool
variable {σ : Type} {sink : Sink σ} {pool : Pool} {id other : PageId} {i j : Nat} {s : σ}
  {spare : List Nat}

/-- Each frame is spare, or holds the page that the table has it for; the clock is of the size of
the pool. -/
structure Shaped (pool : Pool) (spare : List Nat) : Prop where
  distinct : pool.table.Distinct
  bound : ∀ {id i}, pool.find? id = some i →
    i < pool.size ∧ (pool.frame i).bound = id ∧ id ≠ Frame.unassigned
  nodup : spare.Nodup
  lt : ∀ {i}, i ∈ spare → i < pool.size
  unbound : ∀ {i id}, i ∈ spare → pool.find? id ≠ some i
  covered : ∀ {i}, i < pool.size → i ∉ spare → pool.find? (pool.frame i).bound = some i
  marks : pool.clock.size = pool.size
  hand : 0 < pool.size → pool.clock.hand < pool.size

/-- The frames on the free list are those that hold no page. -/
abbrev Wf (pool : Pool) : Prop := pool.Shaped pool.free

lemma cached_eq_none_iff : pool.cached id = none ↔ pool.find? id = none := by simp [cached]

lemma cached_eq_some_iff {f : Frame} :
    pool.cached id = some (i, f) ↔ pool.find? id = some i ∧ pool.frame i = f := by
  simp [cached]

@[simp] lemma find?_modifyFrame (change : Frame → Frame) :
    (pool.modifyFrame i change).find? id = pool.find? id := rfl

theorem wf_ofSize (n : Nat) : (ofSize n).Wf where
  distinct := Table.distinct_empty
  bound h := by cases h
  nodup := List.nodup_range
  lt h := by simpa using List.mem_range.mp h
  unbound _ h := by cases h
  covered h hi := absurd (List.mem_range.mpr (by simpa using h)) hi
  marks := (Clock.size_ofSize n).trans (size_ofSize n).symm
  hand h := h

theorem Shaped.find?_inj (h : pool.Shaped spare) (hi : pool.find? id = some i)
    (ho : pool.find? other = some i) : id = other :=
  (h.bound hi).2.1.symm.trans (h.bound ho).2.1

/-- What the sweep of the clock of a pool comes to. -/
lemma Shaped.swept (h : pool.Shaped spare) (evictable : Nat → Bool) :
    pool.clock.Swept evictable (pool.clock.sweep evictable) :=
  Clock.sweep_swept evictable (by rw [h.marks]; exact h.hand)

theorem Shaped.congr {pool' : Pool} (h : pool.Shaped spare) (htable : pool'.table = pool.table)
    (hsize : pool'.size = pool.size) (hbound : ∀ i, (pool'.frame i).bound = (pool.frame i).bound)
    (hmarks : pool'.clock.size = pool.size)
    (hhand : 0 < pool.size → pool'.clock.hand < pool.size) : pool'.Shaped spare where
  distinct := htable ▸ h.distinct
  bound hi := by
    rw [hsize, hbound]
    exact h.bound (by simpa only [find?, htable] using hi)
  nodup := h.nodup
  lt hi := hsize ▸ h.lt hi
  unbound hi := by simpa only [find?, htable] using h.unbound hi
  covered hi hn := by
    rw [hbound, find?, htable]
    exact h.covered (hsize ▸ hi) hn
  marks := by rw [hmarks, hsize]
  hand := by simpa only [hsize] using hhand

theorem Shaped.modifyFrame (h : pool.Shaped spare) (i : Nat) (change : Frame → Frame)
    (hc : (change (pool.frame i)).bound = (pool.frame i).bound) :
    (pool.modifyFrame i change).Shaped spare := by
  refine h.congr rfl (size_modifyFrame ..) (fun j => ?_) h.marks h.hand
  rw [frame_modifyFrame]
  split
  · next hj => rw [← hj.1, hc]
  · rfl

/-- Changing the frame of a page changes what is shown of that page and of no other. -/
theorem Shaped.cached_modifyFrame (h : pool.Shaped spare) (hi : pool.find? id = some i)
    (change : Frame → Frame) (other : PageId) :
    (pool.modifyFrame i change).cached other =
      if other = id then some (i, change (pool.frame i)) else pool.cached other := by
  by_cases ho : other = id
  · subst ho
    simp [cached, hi, frame_modifyFrame, (h.bound hi).1]
  · rw [if_neg ho, cached, cached, find?_modifyFrame]
    cases hj : pool.find? other with
    | none => rfl
    | some j =>
      have hij : i ≠ j := fun hij => ho (h.find?_inj hj (hij ▸ hi))
      simp [frame_modifyFrame, hij]

theorem Shaped.pinFrame (h : pool.Shaped spare) (i : Nat) : (pool.pinFrame i).Shaped spare :=
  (h.modifyFrame i Frame.pin rfl).congr rfl rfl (fun _ => rfl)
    ((Clock.size_access ..).trans (h.marks.trans (size_modifyFrame ..).symm))
    (by simpa [Pool.pinFrame, Clock.access] using h.hand)

theorem Wf.fetch (h : pool.Wf) {pool' : Pool} (hf : pool.fetch id = some (i, pool')) :
    pool'.Wf ∧ ∃ f, pool.cached id = some (i, f) ∧
      ∀ other, pool'.cached other = if other = id then some (i, f.pin) else pool.cached other := by
  obtain ⟨j, hj, hp⟩ := Option.map_eq_some_iff.mp hf
  cases hp
  exact ⟨h.pinFrame i, _, by simp [cached, hj], h.cached_modifyFrame hj Frame.pin⟩

lemma fetch_eq_none_iff : pool.fetch id = none ↔ pool.cached id = none := by
  simp [fetch, cached]

lemma frame_place (hi : i < pool.size) (contents : Page) (j : Nat) :
    (pool.place i id contents).frame j =
      if i = j then (Frame.assign id contents).pin else pool.frame j := by
  change ((pool.modifyFrame i fun _ => Frame.assign id contents).modifyFrame i
    Frame.pin).frame j = _
  rw [frame_modifyFrame, frame_modifyFrame, size_modifyFrame]
  by_cases hij : i = j
  · subst hij
    simp [hi]
  · simp [hij]

@[simp] lemma size_place (contents : Page) : (pool.place i id contents).size = pool.size := by
  change ((pool.modifyFrame i fun _ => Frame.assign id contents).modifyFrame i
    Frame.pin).size = _
  simp

@[simp] lemma find?_place (contents : Page) (other : PageId) :
    (pool.place i id contents).find? other = if other = id then some i else pool.find? other :=
  Table.find?_insert ..

/-- A spare frame can be given to a page that is not cached. -/
theorem Shaped.place (h : pool.Shaped (i :: spare)) (hid : id ≠ Frame.unassigned)
    (hn : pool.find? id = none) (contents : Page) :
    (pool.place i id contents).Shaped spare := by
  have hi : i < pool.size := h.lt List.mem_cons_self
  have hnodup := List.nodup_cons.mp h.nodup
  have hbusy : ∀ {other j}, pool.find? other = some j → i ≠ j := by
    rintro other j hj rfl
    exact h.unbound List.mem_cons_self hj
  constructor
  · exact h.distinct.insert id i
  · intro other j hj
    rw [find?_place] at hj
    rw [size_place, frame_place hi]
    split at hj
    · next ho =>
      cases hj
      exact ⟨hi, by simp [Frame.assign, Frame.pin, ho], ho ▸ hid⟩
    · rw [if_neg (hbusy hj)]
      exact h.bound hj
  · exact hnodup.2
  · intro j hj
    rw [size_place]
    exact h.lt (List.mem_cons_of_mem _ hj)
  · intro j other hj
    rw [find?_place]
    split
    · rintro ⟨rfl⟩
      exact hnodup.1 hj
    · exact h.unbound (List.mem_cons_of_mem _ hj)
  · intro j hj hjf
    rw [frame_place hi, find?_place]
    by_cases hij : i = j
    · simp [hij, Frame.assign, Frame.pin]
    · rw [if_neg hij]
      have hb := h.covered (lt_of_lt_of_eq hj (size_place contents))
        (List.not_mem_cons_of_ne_of_not_mem (Ne.symm hij) hjf)
      have hne : (pool.frame j).bound ≠ id := fun hb' => by
        rw [hb', hn] at hb
        cases hb
      rw [if_neg hne, hb]
  · rw [size_place]
    exact (Clock.size_access ..).trans h.marks
  · rw [size_place]
    exact h.hand

end Pool
end PagedHeap
