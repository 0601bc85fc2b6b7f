import PagedHeap.Proofs.PageAccess

/-! What holds of a data page however it was edited. Its slots and its records lie where they should,
each record in a place of its own, and nothing that is done to the page reaches beyond it: no access
is out of bounds, no number outgrows its two bytes, and no difference falls below zero. -/
namespace PagedHeap
variable {t : SlotTable} {p : Page} {n : UInt32} {s : Nat} {r : Bytes}

/-- Tables refuse edits, but they have no bounds to leave. -/
lemma SlotTable.edit_ne_outOfPage (t : SlotTable) (e : PageEdit) :
    (t.edit e).1 ≠ .error .outOfPage := by
  have hrecord : ∀ s, t.record s ≠ .error .outOfPage := by
    intro s
    rw [record]
    split <;> simp
  cases e with
  | insert r =>
    simp only [edit, insert]
    split_ifs <;> simp
  | delete s =>
    have hs := hrecord s
    simp only [edit, delete]
    cases hr : t.record s with
    | ok r => simp [bind, Except.bind, pure, Except.pure]
    | error e => simpa [bind, Except.bind, hr] using hs
  | update s r =>
    have hs := hrecord s
    simp only [edit, update]
    cases hr : t.record s with
    | ok r₀ =>
      by_cases hlen : r₀.length < r.length
      · simp [bind, Except.bind, throw, throwThe, MonadExceptOf.throw, hlen]
      · simp [bind, Except.bind, pure, Except.pure, hlen]
    | error e => simpa [bind, Except.bind, hr] using hs
  | compact => simp [edit]
  | setNext next => simp [edit]

namespace Page

/-- The page has the slots of a table. They lie before the free space, and the records behind it, in
places that do not overlap. -/
structure Houses (p : Page) (t : SlotTable) : Prop where
  count : p.slotCount = t.entries.length
  start : p.freeStart = 16 + 4 * p.slotCount
  above : p.freeStart ≤ p.freeEnd
  below : p.freeEnd ≤ 16384
  deleted : ∀ {s}, t.entries[s]? = some none → (p.slot s).position = 0
  live : ∀ {s r}, t.entries[s]? = some (some r) →
    (p.slot s).position ≠ 0 ∧ (p.slot s).length = r.length
  inside : ∀ {s r}, t.entries[s]? = some (some r) →
    p.freeEnd ≤ (p.slot s).position ∧ (p.slot s).position + (p.slot s).length ≤ 16384
  apart : ∀ {s s' r r'}, t.entries[s]? = some (some r) → t.entries[s']? = some (some r') → s ≠ s' →
    (p.slot s).position + (p.slot s).length ≤ (p.slot s').position ∨
      (p.slot s').position + (p.slot s').length ≤ (p.slot s).position

/-- Whatever is done to the page in place stays within it and comes to what it should, by a table. -/
structure InBounds (p : Page) (t : SlotTable) : Prop where
  edit : ∀ e, PageM.edit e p = p.edit e ∧ (PageM.edit e p).1 = (t.edit e).1 ∧
    (PageM.edit e p).1 ≠ .error .outOfPage
  record : ∀ s, PageM.record s p = (t.record s, p) ∧ t.record s ≠ .error .outOfPage
  recordCount : PageM.recordCount p = (.ok t.count, p)
  firstRecord : PageM.firstRecord p = (.ok (t.firstFrom 0), p)
  nextRecord : ∀ s, PageM.nextRecord s p = (.ok (t.firstFrom (s + 1)), p)
  freeSpace : ∃ free, PageM.freeSpace p = (.ok free, p) ∧ p.freeStart + free = p.freeEnd
  reclaimableSpace : ∃ gaps, PageM.reclaimableSpace p = (.ok gaps, p) ∧
    p.freeEnd + t.bytes + gaps = 16384
  usableSpace : ∃ usable, PageM.usableSpace p = (.ok usable, p) ∧
    p.freeStart + t.bytes + usable = 16384

lemma Wf.getElem?_shown_some (h : p.Wf n) (hs : p.shown.entries[s]? = some (some r)) :
    s < p.slotCount ∧ (p.slot s).live = true ∧
      p.slice (p.slot s).position (p.slot s).length = r := by
  rw [getElem?_shown] at hs
  split at hs
  · exact h.entry_eq_some_iff.mp (Option.some.inj hs)
  · cases hs

theorem Wf.houses (h : p.Wf n) : p.Houses p.shown where
  count := (length_shown p).symm
  start := h.start
  above := h.above
  below := h.below
  deleted := by
    intro s hs
    rw [getElem?_shown] at hs
    split at hs
    · next hlt =>
      have hdead := h.live_iff hlt
      rw [Option.some.inj hs] at hdead
      simpa [Slot.live] using hdead
    · cases hs
  live := by
    intro s r hs
    obtain ⟨-, hl, rfl⟩ := h.getElem?_shown_some hs
    exact ⟨by simpa [Slot.live] using hl, (length_slice ..).symm⟩
  inside := by
    intro s r hs
    obtain ⟨hlt, hl, -⟩ := h.getElem?_shown_some hs
    exact h.inside hlt hl
  apart := by
    intro s s' r r' hs hs' hne
    obtain ⟨hlt, hl, -⟩ := h.getElem?_shown_some hs
    obtain ⟨hlt', hl', -⟩ := h.getElem?_shown_some hs'
    exact h.apart hlt hlt' hl hl' hne

theorem Wf.inBounds (h : p.Wf n) : p.InBounds p.shown where
  edit e := by
    rw [PageM.edit_eq h, (h.edit e).2.1]
    exact ⟨rfl, rfl, p.shown.edit_ne_outOfPage e⟩
  record s := by
    rw [PageM.record_eq h, h.record_shown, SlotTable.record]
    refine ⟨rfl, ?_⟩
    split <;> simp
  recordCount := by rw [PageM.recordCount_eq h.count, h.agrees.recordCount]
  firstRecord := (PageM.findSlot_eq h.count _ _).trans (congrArg (·, p) h.agrees.firstRecord)
  nextRecord s := (PageM.findSlot_eq h.count _ _).trans (congrArg (·, p) (h.agrees.nextRecord s))
  freeSpace := ⟨_, PageM.freeSpace_eq h, Nat.add_sub_cancel' h.above⟩
  reclaimableSpace := by
    have hsize : pageSize = 16384 := rfl
    obtain ⟨-, habove, hbelow⟩ := h.space
    refine ⟨_, (PageM.reclaimableSpace_eq h).trans (congrArg (·, p) h.reclaimableSpace_eq), ?_⟩
    rw [h.bytes_shown]
    omega
  usableSpace := by
    have hsize : pageSize = 16384 := rfl
    obtain ⟨-, habove, hbelow⟩ := h.space
    refine ⟨_, (PageM.usableSpace_eq h).trans (congrArg (·, p) h.usableSpace_eq), ?_⟩
    rw [h.bytes_shown, Page.freeSpace]
    omega

/-- A page that was set up and then edited in any way is laid out as its table says, and nothing done
to it leaves it. -/
theorem after_safe (p : Page) (n : UInt32) (es : List PageEdit) :
    (PageM.init n p).1 = .ok () ∧
      (PageM.after es (PageM.init n p).2).Houses (SlotTable.edits { number := n } es).2 ∧
      (PageM.after es (PageM.init n p).2).InBounds (SlotTable.edits { number := n } es).2 := by
  obtain ⟨hw, hshown⟩ := PageM.after_init p n es
  rw [← hshown]
  exact ⟨congrArg Prod.fst (PageM.init_eq p n), hw.houses, hw.inBounds⟩

end Page
end PagedHeap
