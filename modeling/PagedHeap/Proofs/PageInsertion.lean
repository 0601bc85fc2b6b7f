import PagedHeap.Proofs.PageCompaction

/-! Inserting a record into a data page. The free space between the slots and the records suffices,
or the records are first moved together at the end of the page. Either way the page is laid out
properly afterwards, the record is in its slot, and the other slots hold what they held. -/
namespace PagedHeap.Page
variable {p q : Page} {n : UInt32} {s t : Nat} {r : Bytes}

/-- The search for a slot finds the first that is wanted, if there is one. -/
theorem findSlot_cases (hc : p.slotCount ≤ slotLimit) (wanted : Slot → Bool) (start : Nat) :
    (∃ s, p.findSlot wanted start = .ok (some s) ∧ start ≤ s ∧ s < p.slotCount ∧
      wanted (p.slot s) = true ∧ ∀ t, start ≤ t → t < s → wanted (p.slot t) = false) ∨
    (p.findSlot wanted start = .ok none ∧
      ∀ t, start ≤ t → t < p.slotCount → wanted (p.slot t) = false) := by
  have hmin : min p.slotCount slotLimit = p.slotCount := Nat.min_eq_left hc
  unfold findSlot
  dsimp only
  rw [hmin]
  cases hf : (List.range' start (p.slotCount - start)).find? fun s => wanted (p.slot s) with
  | some s =>
    obtain ⟨hw, hmem, hfirst⟩ := List.find?_range'_eq_some.mp hf
    simp only [List.mem_range'_1] at hmem
    refine Or.inl ⟨s, rfl, hmem.1, by omega, hw, fun t h₁ h₂ => ?_⟩
    simpa using hfirst t h₁ h₂
  | none =>
    refine Or.inr ⟨?_, fun t h₁ h₂ => ?_⟩
    · rw [if_neg (fun h => by omega)]
    · have := List.find?_eq_none.mp hf t (List.mem_range'_1.mpr ⟨h₁, by omega⟩)
      simpa using this

section Write
variable {start count : Nat}

/-- The page with a record written at a place, its slot, and new bounds of the free space. -/
def placed (p : Page) (s start : Nat) (r : Bytes) (count : Nat) : Page :=
  ((p.splice start r).setSlot s ⟨start, r.length⟩).setBounds count (16 + 4 * count) start

lemma write_eq_ok (h : p.freeStart = 16 + 4 * p.slotCount) (hw : p.write s r = .ok q) :
    s < slotLimit ∧ q = p.placed s (p.freeEnd - r.length) r
      (if s = p.slotCount then p.slotCount + 1 else p.slotCount) := by
  unfold write at hw
  split at hw
  · cases hw
  · next hbounds =>
    refine ⟨by omega, ?_⟩
    dsimp only at hw
    split at hw
    · next hs =>
      rw [if_neg hs, placed, ← h]
      exact (Except.ok.inj hw).symm
    · next hs =>
      split at hw
      · cases hw
      · have hstart : 16 + 4 * (p.slotCount + 1) = p.freeStart + slotSize := by
          simp only [slotSize, h]
          omega
        rw [if_pos (not_not.mp hs), placed, hstart]
        exact (Except.ok.inj hw).symm

lemma sameOn_placed {a b : Nat} (hs : s < count) (hstart : 16 + 4 * count ≤ start)
    (h : 8 ≤ a ∧ b ≤ 16 + 4 * s ∨ 16 + 4 * s + 4 ≤ a ∧ b ≤ start ∨ start + r.length ≤ a ∨ b ≤ 2) :
    SameOn (p.placed s start r count) p a b := by
  refine ((sameOn_setBounds ?_).trans (sameOn_setSlot ?_)).trans (sameOn_splice ?_) <;> omega

lemma slot_placed (hs : s < count) (hcount : count ≤ slotLimit) (hlen : start + r.length ≤ pageSize) :
    (p.placed s start r count).slot s = ⟨start, r.length⟩ := by
  have hsize : pageSize = 16384 := rfl
  rw [placed, slot_congr (sameOn_setBounds (by omega)), slot_setSlot (by omega) (by dsimp only; omega)
    (by dsimp only; omega)]

lemma slice_placed (hs : s < count) (hstart : 16 + 4 * count ≤ start)
    (hlen : start + r.length ≤ pageSize) :
    (p.placed s start r count).slice start r.length = r := by
  have hsame : SameOn (p.placed s start r count) (p.splice start r) start (start + r.length) :=
    (sameOn_setBounds (by omega)).trans (sameOn_setSlot (by omega))
  rw [slice_congr hsame, slice_splice hlen]

lemma bounds_placed (hcount : count ≤ slotLimit) (hlen : start + r.length ≤ pageSize) :
    (p.placed s start r count).slotCount = count ∧
      (p.placed s start r count).freeStart = 16 + 4 * count ∧
      (p.placed s start r count).freeEnd = start := by
  have hsize : pageSize = 16384 := rfl
  rw [slotLimit_eq] at hcount
  exact ⟨slotCount_setBounds (by omega), freeStart_setBounds (by omega), freeEnd_setBounds (by omega)⟩

/-- A record fits between the slots and the other records, with a slot that holds none. -/
structure Room (p : Page) (s start : Nat) (r : Bytes) (count : Nat) : Prop where
  slot : s < count
  dead : s < p.slotCount → (p.slot s).live = false
  grown : p.slotCount ≤ count
  limit : count ≤ slotLimit
  slots_le : 16 + 4 * count ≤ start
  stop : start + r.length = p.freeEnd
  old : ∀ {t}, t < count → t ≠ s → t < p.slotCount

namespace Room

lemma slot_of_ne (hr : p.Room s start r count) (ht : t < p.slotCount) (hts : t ≠ s) :
    (p.placed s start r count).slot t = p.slot t := by
  have hs := hr.slot
  have hgrown := hr.grown
  exact slot_congr (sameOn_placed hs hr.slots_le (by have := hr.slots_le; omega))

theorem wf (hr : p.Room s start r count) (h : p.Wf n) : (p.placed s start r count).Wf n := by
  have hbelow := h.below
  have hroom := hr.slots_le
  have hstop := hr.stop
  have hfit : start + r.length ≤ pageSize := by omega
  obtain ⟨hcount, hfs, hfe⟩ := bounds_placed (p := p) (s := s) (r := r) hr.limit hfit
  have hself : (p.placed s start r count).slot s = ⟨start, r.length⟩ :=
    slot_placed hr.slot hr.limit hfit
  constructor
  · exact (kind_congr (sameOn_placed hr.slot hroom (by omega))).trans h.kind
  · exact (number_congr (sameOn_placed hr.slot hroom (by omega))).trans h.number
  · rw [hcount]
    exact hr.limit
  · rw [hfs, hcount]
  · rw [hfs, hfe]
    exact hroom
  · rw [hfe]
    omega
  · intro t ht htl
    rw [hcount] at ht
    rw [hfe]
    by_cases hts : t = s
    · rw [hts, hself]
      exact ⟨Nat.le_refl _, hfit⟩
    · rw [hr.slot_of_ne (hr.old ht hts) hts] at htl ⊢
      have := h.inside (hr.old ht hts) htl
      omega
  · intro t u ht hu htl hul hne
    rw [hcount] at ht hu
    have hnew : ∀ {t}, t < p.slotCount → (p.slot t).live = true → start + r.length ≤
        (p.slot t).position := fun ht htl => hstop ▸ (h.inside ht htl).1
    by_cases hts : t = s
    · have hus : u ≠ s := fun hus => hne (hts.trans hus.symm)
      rw [hr.slot_of_ne (hr.old hu hus) hus] at hul ⊢
      rw [hts, hself]
      exact Or.inl (hnew (hr.old hu hus) hul)
    · rw [hr.slot_of_ne (hr.old ht hts) hts] at htl ⊢
      by_cases hus : u = s
      · rw [hus, hself]
        exact Or.inr (hnew (hr.old ht hts) htl)
      · rw [hr.slot_of_ne (hr.old hu hus) hus] at hul ⊢
        exact h.apart (hr.old ht hts) (hr.old hu hus) htl hul hne

lemma entry_eq_none (hr : p.Room s start r count) (h : p.Wf n) : p.entry s = none := by
  rw [h.entry_eq_none_iff]
  rintro ⟨hlt, hl⟩
  rw [hr.dead hlt] at hl
  cases hl

theorem entry_placed (hr : p.Room s start r count) (h : p.Wf n) (t : Nat) :
    (p.placed s start r count).entry t = if t = s then some r else p.entry t := by
  have hbelow := h.below
  have hroom := hr.slots_le
  have hstop := hr.stop
  have hgrown := hr.grown
  have hs := hr.slot
  have hfit : start + r.length ≤ pageSize := by omega
  have hcount := (bounds_placed (p := p) (s := s) (r := r) hr.limit hfit).1
  split
  · next hts =>
    subst hts
    rw [(hr.wf h).entry_eq_some_iff, hcount, slot_placed hs hr.limit hfit]
    refine ⟨hs, ?_, slice_placed hs hroom hfit⟩
    simp only [Slot.live, decide_eq_true_eq]
    omega
  · next hts =>
    refine h.entry_congr (hr.wf h) ?_ (fun ht => hr.slot_of_ne ht hts) fun ht htl =>
      slice_congr (sameOn_placed hs hroom (by have := h.inside ht htl; omega))
    rw [hcount]
    exact ⟨fun ht => hr.old ht hts, fun ht => by omega⟩

end Room

end Write

/-- A record is put below the others, into a slot without a record or into a new one. -/
theorem Wf.write (h : p.Wf n) (hs : s < p.slotCount ∧ (p.slot s).live = false ∧
      r.length ≤ p.freeSpace ∨ s = p.slotCount ∧ r.length + 4 ≤ p.freeSpace)
    (hw : p.write s r = .ok q) :
    q.Wf n ∧ q.next? = p.next? ∧ p.entry s = none ∧
      ∀ t, q.entry t = if t = s then some r else p.entry t := by
  obtain ⟨hlimit, rfl⟩ := write_eq_ok h.start hw
  have hcount := h.count
  have hbegin := h.start
  have habove := h.above
  simp only [freeSpace] at hs
  generalize hc : (if s = p.slotCount then p.slotCount + 1 else p.slotCount) = count
  have hroom : p.Room s (p.freeEnd - r.length) r count := by
    refine ⟨?_, fun hlt => ?_, ?_, ?_, ?_, ?_, fun ht hts => ?_⟩
    case refine_2 => exact hs.elim (fun hs => hs.2.1) fun hs => absurd hs.1 (Nat.ne_of_lt hlt)
    all_goals split at hc <;> omega
  exact ⟨hroom.wf h, next?_congr (sameOn_placed hroom.slot hroom.slots_le (by omega)),
    hroom.entry_eq_none h, hroom.entry_placed h⟩

/-- An insertion that succeeds puts the record into a slot that held none. -/
theorem Wf.insert (h : p.Wf n) (hi : p.insert r = .ok (s, q)) :
    q.Wf n ∧ q.next? = p.next? ∧ p.entry s = none ∧
      ∀ t, q.entry t = if t = s then some r else p.entry t := by
  have hlen : ¬ maxRecord < r.length := fun hlen => by
    simp [Page.insert, hlen, bind, Except.bind, throw, throwThe, MonadExceptOf.throw] at hi
  obtain ⟨-, habove, hbelow⟩ := h.space
  have key : ∀ reused : Option Nat, (∀ s ∈ reused, s < p.slotCount ∧ (p.slot s).live = false) →
      p.findSlot (fun e => !e.live) 0 = .ok reused →
      q.Wf n ∧ q.next? = p.next? ∧ p.entry s = none ∧
        ∀ t, q.entry t = if t = s then some r else p.entry t := by
    intro reused hreused hf
    generalize hneeded : (if reused.isSome then r.length else r.length + slotSize) = needed
    have hroom : ∀ q : Page, q.slotCount = p.slotCount →
        (∀ t < p.slotCount, (q.slot t).live = (p.slot t).live) → needed ≤ q.freeSpace →
        reused.getD p.slotCount < q.slotCount ∧ (q.slot (reused.getD p.slotCount)).live = false ∧
          r.length ≤ q.freeSpace ∨
        reused.getD p.slotCount = q.slotCount ∧ r.length + 4 ≤ q.freeSpace := by
      intro q hc hl hfree
      rw [← hneeded] at hfree
      cases reused with
      | none => exact Or.inr ⟨hc.symm, hfree⟩
      | some s =>
        obtain ⟨hs, hdead⟩ := hreused s rfl
        exact Or.inl ⟨hc ▸ hs, (hl s hs).trans hdead, hfree⟩
    simp only [Page.insert, hlen, if_false, hf, hneeded, bind, Except.bind, pure, Except.pure]
      at hi
    by_cases hfree : needed ≤ p.freeSpace
    · simp only [hfree, if_true] at hi
      cases hw : p.write (reused.getD p.slotCount) r with
      | error e => simp [hw] at hi
      | ok q' =>
        obtain ⟨rfl, rfl⟩ : reused.getD p.slotCount = s ∧ q' = q := by simpa [hw] using hi
        exact h.write (hroom p rfl (fun _ _ => rfl) hfree) hw
    · obtain ⟨c, hc, hcw, hnext, hcount, hstart, hend, hlive, hentry⟩ := h.compact
      simp only [hfree, if_false, h.usableSpace_eq, hc] at hi
      split at hi
      · next hfits =>
        cases hw : c.write (reused.getD p.slotCount) r with
        | error e => simp [hw] at hi
        | ok q' =>
          obtain ⟨rfl, rfl⟩ : reused.getD p.slotCount = s ∧ q' = q := by simpa [hw] using hi
          have hspace : needed ≤ c.freeSpace := by
            simp only [freeSpace, hstart, hend] at hfits ⊢
            omega
          obtain ⟨hq, hqn, hnone, hqe⟩ := hcw.write (hroom c hcount hlive hspace) hw
          refine ⟨hq, hqn.trans hnext, (hentry _).symm.trans hnone, fun t => ?_⟩
          rw [hqe, hentry]
      · simp [throw, throwThe, MonadExceptOf.throw] at hi
  rcases findSlot_cases h.count (fun e => !e.live) 0 with ⟨s', hf, -, hs', hd, -⟩ | ⟨hf, -⟩
  · exact key (some s') (fun _ he => by cases he; exact ⟨hs', by simpa using hd⟩) hf
  · exact key none (fun _ he => by cases he) hf

end PagedHeap.Page
