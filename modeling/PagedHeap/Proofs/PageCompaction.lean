import Mathlib.Algebra.BigOperators.Group.Finset.Basic
import Mathlib.Algebra.GroupWithZero.Nat
import Mathlib.Order.Interval.Finset.Nat
import PagedHeap.Proofs.PageLayout

/-! Compaction of a data page. The records have places of their own, so that together they are no
longer than the space they lie in; stacked from the end of the page they leave all the rest free. -/
namespace PagedHeap.Page
variable {p q : Page} {n : UInt32} {s t : Nat} {r : Bytes}

def liveSlots (p : Page) : List Nat := (List.range p.slotCount).filter fun s => (p.slot s).live

def liveRecords (p : Page) : List (Nat × Bytes) :=
  p.liveSlots.map fun s => (s, p.slice (p.slot s).position (p.slot s).length)

def weight (xs : List (Nat × Bytes)) : Nat := (xs.map fun e => e.2.length).sum

lemma weight_cons (s : Nat) (r : Bytes) (xs : List (Nat × Bytes)) :
    weight ((s, r) :: xs) = r.length + weight xs := by simp [weight]

lemma mem_liveSlots : s ∈ p.liveSlots ↔ s < p.slotCount ∧ (p.slot s).live = true := by
  simp [liveSlots]

lemma nodup_liveSlots (p : Page) : p.liveSlots.Nodup := List.nodup_range.filter _

lemma nodup_liveRecords (p : Page) : (p.liveRecords.map Prod.fst).Nodup := by
  simpa [liveRecords, Function.comp_def] using nodup_liveSlots p

lemma lt_of_mem_liveRecords {e : Nat × Bytes} (he : e ∈ p.liveRecords) : e.1 < p.slotCount := by
  obtain ⟨s, hs, rfl⟩ := List.mem_map.mp he
  exact (mem_liveSlots.mp hs).1

lemma Wf.slots_eq (h : p.Wf n) : p.slots = .ok ((List.range p.slotCount).map p.slot) := by
  rw [slots, if_neg (Nat.not_lt.mpr h.count)]

lemma mapM_ok {α β : Type} {f : α → Except StoreError β} {g : α → β} {xs : List α}
    (h : ∀ x ∈ xs, f x = .ok (g x)) : xs.mapM f = .ok (xs.map g) := by
  induction xs with
  | nil => rfl
  | cons x xs ih =>
    rw [List.mapM_cons, h x List.mem_cons_self, ih fun y hy => h y (List.mem_cons_of_mem _ hy)]
    rfl

theorem Wf.records_eq (h : p.Wf n) : p.records = .ok p.liveRecords := by
  have hzip : (List.range p.slotCount).zip ((List.range p.slotCount).map p.slot) =
      (List.range p.slotCount).map fun s => (s, p.slot s) := by
    conv_lhs => rw [← List.map_id (List.range p.slotCount), List.map_map]
    exact List.zip_map'
  have hlive : ((List.range p.slotCount).map fun s => (s, p.slot s)).filter (fun e => e.2.live) =
      p.liveSlots.map fun s => (s, p.slot s) := List.filter_map ..
  rw [records, h.slots_eq]
  change List.mapM _ (List.filter _ (List.zip _ _)) = _
  rw [hzip, hlive, mapM_ok (g := fun e => (e.1, p.slice e.2.position e.2.length)), List.map_map]
  · rfl
  · intro e he
    obtain ⟨s, hs, rfl⟩ := List.mem_map.mp he
    obtain ⟨hlt, hl⟩ := mem_liveSlots.mp hs
    dsimp only
    rw [h.record_eq_ok_iff.mpr ⟨hlt, hl, rfl⟩]
    rfl

lemma Wf.recordBytes_eq (h : p.Wf n) : p.recordBytes = .ok (weight p.liveRecords) := by
  have hsum : ∀ xs : List Nat, ((xs.map p.slot).filter Slot.live).foldr
      (fun e total => e.length + total) 0 =
      weight ((xs.filter fun s => (p.slot s).live).map fun s =>
        (s, p.slice (p.slot s).position (p.slot s).length)) := by
    intro xs
    induction xs with
    | nil => rfl
    | cons s xs ih =>
      rw [List.map_cons, List.filter_cons, List.filter_cons]
      cases (p.slot s).live
      · exact ih
      · simp only [if_true, List.foldr_cons, ih, weight, List.map_cons, List.sum_cons, length_slice]
  rw [recordBytes, h.slots_eq]
  exact congrArg Except.ok (hsum _)

lemma Wf.reclaimableSpace_eq (h : p.Wf n) :
    p.reclaimableSpace = .ok (pageSize - p.freeEnd - weight p.liveRecords) := by
  rw [reclaimableSpace, h.recordBytes_eq]
  rfl

lemma Wf.usableSpace_eq (h : p.Wf n) :
    p.usableSpace = .ok (p.freeSpace + (pageSize - p.freeEnd - weight p.liveRecords)) := by
  rw [usableSpace, h.reclaimableSpace_eq]
  rfl

/-- Places that do not overlap are together no longer than what they lie in. -/
lemma sum_length_le {xs : List Nat} {f : Nat → Slot} {a b : Nat} (hn : xs.Nodup)
    (hin : ∀ s ∈ xs, a ≤ (f s).position ∧ (f s).position + (f s).length ≤ b)
    (hapart : ∀ s ∈ xs, ∀ t ∈ xs, s ≠ t → (f s).position + (f s).length ≤ (f t).position ∨
      (f t).position + (f t).length ≤ (f s).position) :
    (xs.map fun s => (f s).length).sum ≤ b - a := by
  let place (s : Nat) : Finset Nat := Finset.Ico (f s).position ((f s).position + (f s).length)
  have hcard : (xs.map fun s => (f s).length).sum = (xs.toFinset.biUnion place).card := by
    rw [Finset.card_biUnion, ← List.sum_toFinset _ hn]
    · exact Finset.sum_congr rfl fun s _ => by simp [place]
    · intro s hs t ht hne
      refine Finset.disjoint_left.mpr fun i => ?_
      intro hi hi'
      have := hapart s (List.mem_toFinset.mp hs) t (List.mem_toFinset.mp ht) hne
      simp only [place, Finset.mem_Ico] at hi hi'
      omega
  rw [hcard, ← Nat.card_Ico]
  refine Finset.card_le_card fun i hi => ?_
  obtain ⟨s, hs, hi⟩ := Finset.mem_biUnion.mp hi
  have := hin s (List.mem_toFinset.mp hs)
  simp only [place, Finset.mem_Ico] at hi ⊢
  omega

lemma weight_liveRecords (p : Page) :
    weight p.liveRecords = (p.liveSlots.map fun s => (p.slot s).length).sum := by
  simp [weight, liveRecords, Function.comp_def]

theorem Wf.weight_le (h : p.Wf n) : weight p.liveRecords ≤ pageSize - p.freeEnd := by
  rw [weight_liveRecords]
  refine sum_length_le (nodup_liveSlots p) (fun s hs => ?_) fun s hs t ht hne => ?_
  · obtain ⟨hlt, hl⟩ := mem_liveSlots.mp hs
    exact h.inside hlt hl
  · obtain ⟨hs, hsl⟩ := mem_liveSlots.mp hs
    obtain ⟨ht, htl⟩ := mem_liveSlots.mp ht
    exact h.apart hs ht hsl htl hne

/-- The slots, the free space and the records have room in the page. -/
lemma Wf.space (h : p.Wf n) : p.freeStart = 16 + 4 * p.slotCount ∧ p.freeStart ≤ p.freeEnd ∧
    p.freeEnd + weight p.liveRecords ≤ pageSize := by
  have hweight := h.weight_le
  have hbelow := h.below
  exact ⟨h.start, h.above, by omega⟩

/-- The records lie one below the other under `bottom`, and their slots point to them. -/
structure Stacked (xs : List (Nat × Bytes)) (count bottom : Nat) (p q : Page) : Prop where
  header : SameOn q p 0 16
  above : SameOn q p bottom pageSize
  others : ∀ t < count, t ∉ xs.map Prod.fst → q.slot t = p.slot t
  place : ∀ e ∈ xs, (q.slot e.1).length = e.2.length ∧ bottom - weight xs ≤ (q.slot e.1).position ∧
    (q.slot e.1).position + e.2.length ≤ bottom ∧ q.slice (q.slot e.1).position e.2.length = e.2
  apart : ∀ e ∈ xs, ∀ f ∈ xs, e.1 ≠ f.1 →
    (q.slot e.1).position + e.2.length ≤ (q.slot f.1).position ∨
      (q.slot f.1).position + f.2.length ≤ (q.slot e.1).position

theorem stack_ok (p : Page) {xs : List (Nat × Bytes)} {count : Nat} (bottom : Nat)
    (hn : (xs.map Prod.fst).Nodup) (hlt : ∀ e ∈ xs, e.1 < count) (hc : count ≤ slotLimit)
    (hroom : 16 + 4 * count + weight xs ≤ bottom) (hb : bottom ≤ pageSize) :
    ∃ q, stack xs p bottom = .ok (q, bottom - weight xs) ∧ Stacked xs count bottom p q := by
  have hsize : pageSize = 16384 := rfl
  rw [slotLimit_eq] at hc
  induction xs generalizing p bottom with
  | nil =>
    refine ⟨p, rfl, .refl p 0 16, .refl p _ _, fun _ _ _ => rfl, ?_, ?_⟩ <;>
      exact fun _ he => by cases he
  | cons e xs ih =>
    obtain ⟨s, r⟩ := e
    obtain ⟨hs, hn⟩ := List.nodup_cons.mp hn
    have hsc : s < count := hlt (s, r) List.mem_cons_self
    have hw := weight_cons s r xs
    rw [hw] at hroom ⊢
    obtain ⟨q, hq, h⟩ := ih ((p.splice (bottom - r.length) r).setSlot s
      ⟨bottom - r.length, r.length⟩) (bottom - r.length) hn
      (fun e he => hlt e (List.mem_cons_of_mem _ he)) (by omega) (by omega)
    have hslot : q.slot s = ⟨bottom - r.length, r.length⟩ := by
      rw [h.others s hsc hs, slot_setSlot (by rw [slotLimit_eq]; omega) (by dsimp only; omega)
        (by dsimp only; omega)]
    refine ⟨q, ?_, ?_, ?_, ?_, ?_, ?_⟩
    · rw [stack, if_neg (by omega), hq, Nat.sub_sub]
    · exact (h.header.trans (sameOn_setSlot (by omega))).trans (sameOn_splice (by omega))
    · refine (h.above.mono (by omega) (Nat.le_refl _)).trans ?_
      exact (sameOn_setSlot (by omega)).trans (sameOn_splice (by omega))
    · intro t ht hne
      simp only [List.map_cons, List.mem_cons, not_or] at hne
      rw [h.others t ht hne.2, slot_setSlot_of_ne hne.1, slot_congr (sameOn_splice (by omega))]
    · intro e he
      rw [hw]
      rcases List.mem_cons.mp he with rfl | he
      · have hsame : SameOn q (p.splice (bottom - r.length) r) (bottom - r.length)
            (bottom - r.length + r.length) :=
          (h.above.mono (Nat.le_refl _) (by omega)).trans (sameOn_setSlot (by omega))
        rw [hslot]
        refine ⟨rfl, by dsimp only; omega, by dsimp only; omega, ?_⟩
        rw [slice_congr hsame, slice_splice (by omega)]
      · obtain ⟨hlen, hlow, hhigh, hslice⟩ := h.place e he
        exact ⟨hlen, by omega, by omega, hslice⟩
    · intro e he f hf hne
      rcases List.mem_cons.mp he with rfl | he
      · rcases List.mem_cons.mp hf with rfl | hf
        · exact absurd rfl hne
        · have := (h.place f hf).2.2.1
          rw [hslot]
          exact Or.inr (by dsimp only; omega)
      · rcases List.mem_cons.mp hf with rfl | hf
        · have := (h.place e he).2.2.1
          rw [hslot]
          exact Or.inl (by dsimp only; omega)
        · exact h.apart e he f hf hne

section Compact

/-- What becomes of a page whose records were stacked from its end. -/
def restacked (p q : Page) : Page :=
  q.setBounds p.slotCount p.freeStart (pageSize - weight p.liveRecords)

lemma slot_restacked (p q : Page) (t : Nat) : (p.restacked q).slot t = q.slot t :=
  slot_congr (sameOn_setBounds (by omega))

lemma bounds_restacked (h : p.Wf n) (q : Page) : (p.restacked q).slotCount = p.slotCount ∧
    (p.restacked q).freeStart = p.freeStart ∧
    (p.restacked q).freeEnd = pageSize - weight p.liveRecords := by
  have hsize : pageSize = 16384 := rfl
  have hcount := h.count
  have hbegin := h.start
  rw [slotLimit_eq] at hcount
  exact ⟨slotCount_setBounds (by omega), freeStart_setBounds (by omega),
    freeEnd_setBounds (by omega)⟩

namespace Stacked

/-- The records are where their slots say, as they were. -/
lemma place_live (hs : Stacked p.liveRecords p.slotCount pageSize p q) (ht : t < p.slotCount)
    (hl : (p.slot t).live = true) :
    (q.slot t).length = (p.slot t).length ∧
      pageSize - weight p.liveRecords ≤ (q.slot t).position ∧
      (q.slot t).position + (p.slot t).length ≤ pageSize ∧
      q.slice (q.slot t).position (p.slot t).length =
        p.slice (p.slot t).position (p.slot t).length := by
  have := hs.place _ (List.mem_map_of_mem (mem_liveSlots.mpr ⟨ht, hl⟩))
  simpa using this

lemma live_eq (hs : Stacked p.liveRecords p.slotCount pageSize p q) (h : p.Wf n)
    (ht : t < p.slotCount) : (q.slot t).live = (p.slot t).live := by
  have hsize : pageSize = 16384 := rfl
  obtain ⟨hbegin, habove, hbelow⟩ := h.space
  cases hl : (p.slot t).live with
  | true =>
    have := (hs.place_live ht hl).2.1
    simp only [Slot.live, decide_eq_true_eq]
    omega
  | false =>
    have hout : t ∉ p.liveRecords.map Prod.fst := by simp [liveRecords, mem_liveSlots, hl]
    rw [hs.others t ht hout, hl]

theorem wf (hs : Stacked p.liveRecords p.slotCount pageSize p q) (h : p.Wf n) :
    (p.restacked q).Wf n := by
  have hsize : pageSize = 16384 := rfl
  obtain ⟨hbegin, habove, hbelow⟩ := h.space
  obtain ⟨hc, hfs, hfe⟩ := bounds_restacked h q
  constructor
  · exact ((kind_congr (sameOn_setBounds (by omega))).trans
      (kind_congr (hs.header.mono (by omega) (by omega)))).trans h.kind
  · exact ((number_congr (sameOn_setBounds (by omega))).trans
      (number_congr (hs.header.mono (by omega) (by omega)))).trans h.number
  · rw [hc]
    exact h.count
  · rw [hfs, hc]
    exact h.start
  · rw [hfs, hfe]
    omega
  · rw [hfe]
    omega
  · intro t ht hl
    rw [hc] at ht
    rw [slot_restacked, hs.live_eq h ht] at hl
    rw [slot_restacked, hfe]
    have := hs.place_live ht hl
    omega
  · intro t u ht hu htl hul hne
    rw [hc] at ht hu
    rw [slot_restacked, hs.live_eq h ht] at htl
    rw [slot_restacked, hs.live_eq h hu] at hul
    rw [slot_restacked, slot_restacked]
    have := hs.apart _ (List.mem_map_of_mem (mem_liveSlots.mpr ⟨ht, htl⟩)) _
      (List.mem_map_of_mem (mem_liveSlots.mpr ⟨hu, hul⟩)) hne
    simp only [length_slice] at this
    rw [(hs.place_live ht htl).1, (hs.place_live hu hul).1]
    exact this

theorem entry_eq (hs : Stacked p.liveRecords p.slotCount pageSize p q) (h : p.Wf n) (t : Nat) :
    (p.restacked q).entry t = p.entry t := by
  refine Option.ext fun r => ?_
  rw [(hs.wf h).entry_eq_some_iff, h.entry_eq_some_iff, (bounds_restacked h q).1, slot_restacked]
  refine and_congr_right fun ht => ?_
  rw [hs.live_eq h ht]
  refine and_congr_right fun hl => ?_
  obtain ⟨hlen, hlow, -, hslice⟩ := hs.place_live ht hl
  obtain ⟨hbegin, habove, hbelow⟩ := h.space
  rw [hlen, restacked, slice_congr (sameOn_setBounds (by omega)), hslice]

end Stacked

/-- The records of a page can be stacked from its end, which is all that compacting it takes. -/
lemma Wf.stack_ok (h : p.Wf n) : ∃ q,
    stack p.liveRecords p pageSize = .ok (q, pageSize - weight p.liveRecords) ∧
      Stacked p.liveRecords p.slotCount pageSize p q ∧ p.compact = .ok (p.restacked q) := by
  have hsize : pageSize = 16384 := rfl
  obtain ⟨hbegin, habove, hbelow⟩ := h.space
  obtain ⟨q, hq, hs⟩ := Page.stack_ok p pageSize (nodup_liveRecords p)
    (fun _ => lt_of_mem_liveRecords) h.count (by omega) (Nat.le_refl _)
  refine ⟨q, hq, hs, ?_⟩
  rw [Page.compact, h.records_eq]
  change (stack p.liveRecords p pageSize >>= fun x => _) = _
  rw [hq]
  rfl

/-- A compacted page holds what it held, and all the space that no record takes is free. -/
theorem Wf.compact (h : p.Wf n) : ∃ q, p.compact = .ok q ∧ q.Wf n ∧ q.next? = p.next? ∧
    q.slotCount = p.slotCount ∧ q.freeStart = p.freeStart ∧
    q.freeEnd = pageSize - weight p.liveRecords ∧
    (∀ t < p.slotCount, (q.slot t).live = (p.slot t).live) ∧ ∀ t, q.entry t = p.entry t := by
  obtain ⟨q, -, hs, hc⟩ := h.stack_ok
  obtain ⟨hcount, hfs, hfe⟩ := bounds_restacked h q
  refine ⟨p.restacked q, hc, hs.wf h, ?_, hcount, hfs, hfe, fun t ht => ?_, hs.entry_eq h⟩
  · exact (next?_congr (sameOn_setBounds (by omega))).trans
      (next?_congr (hs.header.mono (by omega) (by omega)))
  · rw [slot_restacked]
    exact hs.live_eq h ht

end Compact
end PagedHeap.Page
