import PagedHeap.Proofs.PageBytes

/-! Data pages that are laid out as they should be: behind the header come the slots, then the free
space, then the records, each in a place of its own. `Page.entry` is what such a page holds in a
slot. A new page is laid out so, and linking a page, deleting and overwriting records keep it so. -/
namespace PagedHeap.Page
variable {p q : Page} {n : UInt32} {s t : Nat} {r : Bytes}

/-- A data page of this number, laid out properly. -/
structure Wf (n : UInt32) (p : Page) : Prop where
  kind : p.kind = .heapData
  number : p.number = n
  count : p.slotCount ≤ slotLimit
  start : p.freeStart = 16 + 4 * p.slotCount
  above : p.freeStart ≤ p.freeEnd
  below : p.freeEnd ≤ pageSize
  inside : ∀ {s}, s < p.slotCount → (p.slot s).live = true →
    p.freeEnd ≤ (p.slot s).position ∧ (p.slot s).position + (p.slot s).length ≤ pageSize
  apart : ∀ {s t}, s < p.slotCount → t < p.slotCount → (p.slot s).live = true →
    (p.slot t).live = true → s ≠ t →
    (p.slot s).position + (p.slot s).length ≤ (p.slot t).position ∨
      (p.slot t).position + (p.slot t).length ≤ (p.slot s).position

def entry (p : Page) (s : Nat) : Option Bytes := (p.record s).toOption

lemma entry_eq_some_iff : p.entry s = some r ↔ p.record s = .ok r := by
  rw [entry]
  cases p.record s <;> simp [Except.toOption]

lemma slotLimit_eq : slotLimit = 4092 := rfl

section Results
variable {e : StoreError} {r₀ : Bytes}

lemma delete_error (h : p.record s = .error e) : p.delete s = .error e := by
  rw [Page.delete, h]
  rfl

lemma delete_ok (h : p.record s = .ok r₀) : p.delete s = .ok (p.setSlot s ⟨0, 0⟩) := by
  rw [Page.delete, h]
  rfl

lemma update_error (h : p.record s = .error e) : p.update s r = .error e := by
  rw [Page.update, h]
  rfl

lemma update_full (h : p.record s = .ok r₀) (hlen : r₀.length < r.length) :
    p.update s r = .error .pageFull := by
  simp [Page.update, h, hlen, bind, Except.bind, throw, throwThe, MonadExceptOf.throw]

lemma update_ok (h : p.record s = .ok r₀) (hlen : r.length ≤ r₀.length) :
    p.update s r =
      .ok ((p.splice (p.slot s).position r).setSlot s ⟨(p.slot s).position, r.length⟩) := by
  simp [Page.update, h, Nat.not_lt.mpr hlen, bind, Except.bind, pure, Except.pure]

lemma delete_eq_ok_iff :
    p.delete s = .ok q ↔ ∃ r, p.record s = .ok r ∧ q = p.setSlot s ⟨0, 0⟩ := by
  cases hr : p.record s with
  | error e => simp [delete_error hr]
  | ok r => simp [delete_ok hr, eq_comm]

lemma update_eq_ok_iff : p.update s r = .ok q ↔ ∃ r₀, p.record s = .ok r₀ ∧ r.length ≤ r₀.length ∧
    q = (p.splice (p.slot s).position r).setSlot s ⟨(p.slot s).position, r.length⟩ := by
  cases hr : p.record s with
  | error e => simp [update_error hr]
  | ok r₀ =>
    by_cases hlen : r₀.length < r.length
    · simp [update_full hr hlen, Nat.not_le.mpr hlen]
    · simp [update_ok hr (Nat.le_of_not_lt hlen), Nat.le_of_not_lt hlen, eq_comm]

end Results

theorem Wf.record_eq_ok_iff (h : p.Wf n) : p.record s = .ok r ↔
    s < p.slotCount ∧ (p.slot s).live = true ∧
      p.slice (p.slot s).position (p.slot s).length = r := by
  have hcount := h.count
  unfold record
  by_cases hs : p.slotCount ≤ s
  · simp [hs, Nat.not_lt.mpr hs]
  · have hlimit : ¬ slotLimit ≤ s := by omega
    rw [if_neg hs, if_neg hlimit]
    cases hl : (p.slot s).live with
    | false => simp [hl]
    | true =>
      have := (h.inside (Nat.lt_of_not_le hs) hl).2
      simp [hl, Nat.lt_of_not_le hs, Nat.not_lt.mpr this]

theorem Wf.entry_eq_some_iff (h : p.Wf n) : p.entry s = some r ↔
    s < p.slotCount ∧ (p.slot s).live = true ∧
      p.slice (p.slot s).position (p.slot s).length = r :=
  Page.entry_eq_some_iff.trans h.record_eq_ok_iff

lemma Wf.exists_entry (h : p.Wf n) (hs : s < p.slotCount) (hl : (p.slot s).live = true) :
    ∃ r, p.entry s = some r := ⟨_, h.entry_eq_some_iff.mpr ⟨hs, hl, rfl⟩⟩

lemma Wf.entry_eq_none_iff (h : p.Wf n) :
    p.entry s = none ↔ ¬ (s < p.slotCount ∧ (p.slot s).live = true) := by
  cases he : p.entry s with
  | none =>
    simp only [true_iff]
    rintro ⟨hs, hl⟩
    obtain ⟨r, hr⟩ := h.exists_entry hs hl
    rw [he] at hr
    cases hr
  | some r =>
    obtain ⟨hs, hl, -⟩ := h.entry_eq_some_iff.mp he
    simp [hs, hl]

lemma Wf.lt_slotLimit (h : p.Wf n) (he : p.entry s = some r) : s < slotLimit :=
  Nat.lt_of_lt_of_le (h.entry_eq_some_iff.mp he).1 h.count

lemma Wf.entry_congr (hp : p.Wf n) (hq : q.Wf n) (hcount : t < q.slotCount ↔ t < p.slotCount)
    (hslot : t < p.slotCount → q.slot t = p.slot t)
    (hslice : t < p.slotCount → (p.slot t).live = true →
      q.slice (p.slot t).position (p.slot t).length =
        p.slice (p.slot t).position (p.slot t).length) : q.entry t = p.entry t := by
  refine Option.ext fun r => ?_
  rw [hq.entry_eq_some_iff, hp.entry_eq_some_iff, hcount]
  refine and_congr_right fun ht => ?_
  rw [hslot ht]
  refine and_congr_right fun hl => ?_
  rw [hslice ht hl]

section Header

lemma kind_congr (h : SameOn q p 0 2) : q.kind = p.kind := by
  rw [kind, kind, h 0 (by omega) (by omega)]

lemma number_congr (h : SameOn q p 8 12) : q.number = p.number := by
  rw [number, number, word32_congr h]

lemma next?_congr (h : SameOn q p 12 16) : q.next? = p.next? := by
  rw [next?, next?, word32_congr h]

lemma slotCount_congr (h : SameOn q p 2 4) : q.slotCount = p.slotCount := word16_congr h

lemma freeStart_congr (h : SameOn q p 4 6) : q.freeStart = p.freeStart := word16_congr h

lemma freeEnd_congr (h : SameOn q p 6 8) : q.freeEnd = p.freeEnd := word16_congr h

/-- Where the slots and the free space end is told by six bytes of the header. -/
lemma bounds_congr (h : SameOn q p 2 8) :
    q.slotCount = p.slotCount ∧ q.freeStart = p.freeStart ∧ q.freeEnd = p.freeEnd :=
  ⟨slotCount_congr (h.mono (by omega) (by omega)), freeStart_congr (h.mono (by omega) (by omega)),
    freeEnd_congr (h.mono (by omega) (by omega))⟩

end Header

/-- The layout depends on the header and the slots alone. -/
theorem Wf.congr (h : p.Wf n) (hsame : SameOn q p 0 12)
    (hslot : ∀ t < p.slotCount, q.slot t = p.slot t) : q.Wf n := by
  obtain ⟨hcount, hstart, hend⟩ := bounds_congr (hsame.mono (by omega) (by omega))
  constructor
  · exact (kind_congr (hsame.mono (by omega) (by omega))).trans h.kind
  · exact (number_congr (hsame.mono (by omega) (by omega))).trans h.number
  · rw [hcount]
    exact h.count
  · rw [hstart, hcount]
    exact h.start
  · rw [hstart, hend]
    exact h.above
  · rw [hend]
    exact h.below
  · intro s hs hl
    rw [hcount] at hs
    rw [hslot s hs] at hl ⊢
    rw [hend]
    exact h.inside hs hl
  · intro s t hs ht hls hlt hne
    rw [hcount] at hs ht
    rw [hslot s hs] at hls ⊢
    rw [hslot t ht] at hlt ⊢
    exact h.apart hs ht hls hlt hne

lemma Wf.slot_end_le (h : p.Wf n) (ht : t < p.slotCount) : 16 + 4 * t + 4 ≤ p.freeStart := by
  rw [h.start]
  omega

theorem Wf.setNext (h : p.Wf n) (next : Option UInt32) : (p.setNext next).Wf n :=
  h.congr (sameOn_setNext (by omega)) fun t _ => slot_congr (sameOn_setNext (by omega))

theorem Wf.entry_setNext (h : p.Wf n) (next : Option UInt32) :
    (p.setNext next).entry t = p.entry t := by
  refine h.entry_congr (h.setNext next) ?_ (fun _ => slot_congr (sameOn_setNext (by omega)))
    fun ht hl => slice_congr (sameOn_setNext ?_)
  · rw [slotCount_congr (sameOn_setNext (by omega))]
  · have := (h.inside ht hl).1
    have := h.above
    have := h.start
    omega

section Blank

lemma word16_blank (i : Nat) : blank.word16 i = 0 := by simp [word16]

lemma entry_blank (s : Nat) : blank.entry s = none := by
  have hcount : blank.slotCount = 0 := word16_blank 2
  simp [entry, record, hcount, Except.toOption]

lemma kind_blank : blank.kind ≠ .heapData := by
  rw [kind, byte_blank]
  decide

lemma word16_empty (n : UInt32) : (empty n).slotCount = 0 ∧ (empty n).freeStart = 16 ∧
    (empty n).freeEnd = pageSize := by
  have hsame : SameOn (empty n)
      ((blank.put 0 PageKind.heapData.toByte).setBounds 0 headerSize pageSize) 0 8 :=
    (sameOn_setNext (by omega)).trans (sameOn_setWord32 (by omega))
  obtain ⟨hcount, hstart, hend⟩ := bounds_congr (hsame.mono (by omega) (by omega))
  exact ⟨hcount.trans (slotCount_setBounds (by decide)),
    hstart.trans (freeStart_setBounds (by decide)), hend.trans (freeEnd_setBounds (by decide))⟩

theorem wf_empty (n : UInt32) : (empty n).Wf n := by
  obtain ⟨hcount, hstart, hend⟩ := word16_empty n
  constructor
  · have hsame : SameOn (empty n) (blank.put 0 PageKind.heapData.toByte) 0 2 :=
      ((sameOn_setNext (by omega)).trans (sameOn_setWord32 (by omega))).trans
        (sameOn_setBounds (by omega))
    rw [kind_congr hsame, kind, byte_put, if_pos ⟨rfl, by decide⟩, PageKind.ofByte_toByte]
  · exact (number_congr (sameOn_setNext (by omega))).trans (number_setWord32 n)
  · rw [hcount]
    exact Nat.zero_le _
  · rw [hstart, hcount]
  · rw [hstart, hend]
    decide
  · exact Nat.le_of_eq hend
  · intro s hs
    omega
  · intro s t hs
    omega

lemma entry_empty (n : UInt32) (s : Nat) : (empty n).entry s = none :=
  (wf_empty n).entry_eq_none_iff.mpr fun h => by
    rw [(word16_empty n).1] at h
    omega

lemma next?_empty (n : UInt32) : (empty n).next? = none := next?_setNext (by simp)

end Blank

section Slots

/-- A slot can be pointed to another place that is no other record's. -/
theorem Wf.setSlot (h : p.Wf n) {e : Slot} (hs : s < p.slotCount)
    (he : e.live = true → p.freeEnd ≤ e.position ∧ e.position + e.length ≤ pageSize)
    (hapart : e.live = true → ∀ t < p.slotCount, t ≠ s → (p.slot t).live = true →
      e.position + e.length ≤ (p.slot t).position ∨
        (p.slot t).position + (p.slot t).length ≤ e.position)
    (hp : e.position < 65536) (hl : e.length < 65536) : (p.setSlot s e).Wf n := by
  have hsame : SameOn (p.setSlot s e) p 0 16 := sameOn_setSlot (by omega)
  obtain ⟨hcount, hstart, hend⟩ := bounds_congr (hsame.mono (by omega) (by omega))
  have hself : (p.setSlot s e).slot s = e := slot_setSlot (Nat.lt_of_lt_of_le hs h.count) hp hl
  have hother : ∀ {t}, t ≠ s → (p.setSlot s e).slot t = p.slot t := slot_setSlot_of_ne
  constructor
  · exact (kind_congr (hsame.mono (by omega) (by omega))).trans h.kind
  · exact (number_congr (hsame.mono (by omega) (by omega))).trans h.number
  · rw [hcount]
    exact h.count
  · rw [hstart, hcount]
    exact h.start
  · rw [hstart, hend]
    exact h.above
  · rw [hend]
    exact h.below
  · intro t ht hlive
    rw [hcount] at ht
    rw [hend]
    by_cases hts : t = s
    · subst hts
      rw [hself] at hlive ⊢
      exact he hlive
    · rw [hother hts] at hlive ⊢
      exact h.inside ht hlive
  · intro t u ht hu htl hul hne
    rw [hcount] at ht hu
    by_cases hts : t = s
    · subst hts
      rw [hself] at htl ⊢
      rw [hother (Ne.symm hne)] at hul ⊢
      exact hapart htl u hu (Ne.symm hne) hul
    · rw [hother hts] at htl ⊢
      by_cases hus : u = s
      · subst hus
        rw [hself] at hul ⊢
        exact (hapart hul t ht hts htl).symm
      · rw [hother hus] at hul ⊢
        exact h.apart ht hu htl hul hne

lemma Wf.entry_setSlot_of_ne (h : p.Wf n) {e : Slot} (hw : (p.setSlot s e).Wf n)
    (hs : s < p.slotCount) (ht : t ≠ s) : (p.setSlot s e).entry t = p.entry t := by
  refine h.entry_congr hw ?_ (fun _ => slot_setSlot_of_ne ht) fun htc hl =>
    slice_congr (sameOn_setSlot ?_)
  · rw [slotCount_congr (sameOn_setSlot (by omega))]
  · have := (h.inside htc hl).1
    have := h.above
    have := h.slot_end_le hs
    omega

theorem Wf.delete (h : p.Wf n) (hd : p.delete s = .ok q) :
    q.Wf n ∧ q.next? = p.next? ∧ (∃ r, p.entry s = some r) ∧
      ∀ t, q.entry t = if t = s then none else p.entry t := by
  obtain ⟨r, hr, rfl⟩ := delete_eq_ok_iff.mp hd
  obtain ⟨hs, -, -⟩ := h.record_eq_ok_iff.mp hr
  have hw : (p.setSlot s ⟨0, 0⟩).Wf n :=
    h.setSlot hs (fun hl => by cases hl) (fun hl => by cases hl) (by decide) (by decide)
  refine ⟨hw, next?_congr (sameOn_setSlot (by omega)), ⟨r, Page.entry_eq_some_iff.mpr hr⟩,
    fun t => ?_⟩
  split
  · next ht =>
    rw [hw.entry_eq_none_iff, ht,
      slot_setSlot (Nat.lt_of_lt_of_le hs h.count) (by decide) (by decide)]
    simp [Slot.live]
  · next ht => exact h.entry_setSlot_of_ne hw hs ht

/-- Bytes behind the start of the records can be written over. -/
theorem Wf.splice (h : p.Wf n) {start : Nat} {bs : Bytes} (hs : p.freeStart ≤ start) :
    (p.splice start bs).Wf n := by
  have hstart := h.start
  exact h.congr (sameOn_splice (by omega)) fun t ht =>
    slot_congr (sameOn_splice (by have := h.slot_end_le ht; omega))

/-- A record can be written over by one that is no longer. No other record is touched, and the slot
can be given its length. -/
lemma Wf.overwrite (h : p.Wf n) (hs : s < p.slotCount) (hl : (p.slot s).live = true)
    (hlen : r.length ≤ (p.slot s).length) :
    (p.splice (p.slot s).position r).Wf n ∧
      SameOn (p.splice (p.slot s).position r) p 0 p.freeEnd ∧
      (∀ t < p.slotCount, (p.splice (p.slot s).position r).slot t = p.slot t) ∧
      ((p.splice (p.slot s).position r).setSlot s ⟨(p.slot s).position, r.length⟩).Wf n := by
  have hin := h.inside hs hl
  have habove := h.above
  have hstart := h.start
  have hsize : pageSize = 16384 := rfl
  have hw : (p.splice (p.slot s).position r).Wf n := h.splice (by omega)
  have hsame : SameOn (p.splice (p.slot s).position r) p 0 p.freeEnd := sameOn_splice (by omega)
  have hslots : ∀ t < p.slotCount, (p.splice (p.slot s).position r).slot t = p.slot t :=
    fun t ht => slot_congr (hsame.mono (by omega) (by have := h.slot_end_le ht; omega))
  obtain ⟨hcount, -, hend⟩ := bounds_congr (hsame.mono (by omega) (by omega))
  refine ⟨hw, hsame, hslots, hw.setSlot (hcount ▸ hs) (fun _ => ?_) (fun _ t ht hts htl => ?_) ?_ ?_⟩
  · rw [hend]
    dsimp only
    omega
  · rw [hcount] at ht
    rw [hslots t ht] at htl ⊢
    have := h.apart hs ht hl htl (Ne.symm hts)
    dsimp only
    omega
  · dsimp only
    omega
  · dsimp only
    omega

theorem Wf.update (h : p.Wf n) (hu : p.update s r = .ok q) :
    q.Wf n ∧ q.next? = p.next? ∧ (∃ r₀, p.entry s = some r₀) ∧
      ∀ t, q.entry t = if t = s then some r else p.entry t := by
  obtain ⟨r₀, hr, hlen, rfl⟩ := update_eq_ok_iff.mp hu
  obtain ⟨hs, hl, rfl⟩ := h.record_eq_ok_iff.mp hr
  rw [length_slice] at hlen
  have hin := h.inside hs hl
  have habove := h.above
  have hstart := h.start
  have hsize : pageSize = 16384 := rfl
  obtain ⟨hw₁, hsame, hslots, hw⟩ := h.overwrite hs hl hlen
  have hcount := slotCount_congr (hsame.mono (by omega) (by omega))
  refine ⟨hw, ?_, ⟨_, Page.entry_eq_some_iff.mpr hr⟩, fun t => ?_⟩
  · exact (next?_congr (sameOn_setSlot (by omega))).trans
      (next?_congr (hsame.mono (by omega) (by omega)))
  · split
    · next ht =>
      subst ht
      rw [hw.entry_eq_some_iff,
        slot_setSlot (Nat.lt_of_lt_of_le hs h.count) (by dsimp only; omega)
          (by dsimp only; omega), slotCount_congr (sameOn_setSlot (by omega)), hcount]
      refine ⟨hs, hl, ?_⟩
      rw [slice_congr (sameOn_setSlot (by have := h.slot_end_le hs; dsimp only; omega))]
      exact slice_splice (by omega)
    · next hts =>
      rw [hw₁.entry_setSlot_of_ne hw (hcount ▸ hs) hts]
      refine h.entry_congr hw₁ (by rw [hcount]) (hslots t) fun ht htl =>
        slice_congr (sameOn_splice ?_)
      have := h.apart hs ht hl htl (Ne.symm hts)
      omega

end Slots
end PagedHeap.Page
