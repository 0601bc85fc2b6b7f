import PagedHeap.Proofs.PageFraming

/-! How the bytes of a data page are accounted for. The header, the slots, the records and the usable
space make up the page, whatever was done to it; what a deletion or a shorter record sets free can be
reclaimed, and compacting reclaims it all. The compacted records lie in the order of their slots without
gaps, so that compacting once more changes no byte. -/
namespace PagedHeap

/-- The bytes of the records in so many slots from the first. -/
def SlotTable.bytesUpTo (t : SlotTable) (k : Nat) : Nat :=
  ((t.entries.take k).map fun e => (e.getD []).length).sum

lemma SlotTable.bytes_set {t : SlotTable} {s : Nat} {e : Option Bytes} (h : t.entries[s]? = some e)
    (e' : Option Bytes) :
    SlotTable.bytes { t with entries := t.entries.set s e' } + (e.getD []).length =
      t.bytes + (e'.getD []).length := by
  obtain ⟨number, entries, next?⟩ := t
  simp only [bytes] at h ⊢
  induction entries generalizing s with
  | nil => cases h
  | cons x xs ih =>
    cases s with
    | zero =>
      obtain rfl := Option.some.inj h
      simp only [List.set_cons_zero, List.map_cons, List.sum_cons]
      omega
    | succ s =>
      have := ih h
      simp only [List.set_cons_succ, List.map_cons, List.sum_cons]
      omega

lemma SlotTable.record_ok {t : SlotTable} {s : Nat} {r : Bytes} (h : t.record s = .ok r) :
    t.entries[s]? = some (some r) := by
  rw [record] at h
  split at h
  · cases h
  · cases h
  · next he => rw [he, Except.ok.inj h]

namespace Page
variable {p q : Page} {n : UInt32} {s bottom : Nat} {r : Bytes} {xs : List (Nat × Bytes)}

section Packed

/-- The records lie without gaps one below the other under `bottom`, and their slots point to them. -/
def Packed (p : Page) : List (Nat × Bytes) → Nat → Prop
  | [], _ => True
  | (s, r) :: rest, bottom => r.length ≤ bottom ∧ p.slot s = ⟨bottom - r.length, r.length⟩ ∧
      p.slice (bottom - r.length) r.length = r ∧ p.Packed rest (bottom - r.length)

/-- Records that are packed already are stacked where they are. -/
lemma Packed.stack_self (h : p.Packed xs bottom) :
    stack xs p bottom = .ok (p, bottom - weight xs) := by
  induction xs generalizing bottom with
  | nil => rfl
  | cons e xs ih =>
    obtain ⟨s, r⟩ := e
    obtain ⟨hroom, hslot, hslice, hrest⟩ := h
    have hsplice := splice_slice p (bottom - r.length) r.length
    rw [hslice] at hsplice
    rw [stack, if_neg (Nat.not_lt.mpr hroom)]
    dsimp only
    rw [hsplice, ← hslot, setSlot_slot, ih hrest, weight_cons, Nat.sub_sub]

lemma Packed.congr (h : p.Packed xs bottom) (hslot : ∀ e ∈ xs, q.slot e.1 = p.slot e.1)
    (hsame : SameOn q p (bottom - weight xs) bottom) : q.Packed xs bottom := by
  induction xs generalizing bottom with
  | nil => trivial
  | cons e xs ih =>
    obtain ⟨s, r⟩ := e
    obtain ⟨hroom, hs, hslice, hrest⟩ := h
    rw [weight_cons] at hsame
    refine ⟨hroom, (hslot _ List.mem_cons_self).trans hs, ?_, ?_⟩
    · rw [slice_congr (hsame.mono (by omega) (by omega)), hslice]
    · exact ih hrest (fun e he => hslot e (List.mem_cons_of_mem _ he))
        (hsame.mono (by omega) (by omega))

lemma stack_packed {count b : Nat} (hn : (xs.map Prod.fst).Nodup) (hlt : ∀ e ∈ xs, e.1 < count)
    (hc : count ≤ slotLimit) (hroom : 16 + 4 * count + weight xs ≤ bottom)
    (hb : bottom ≤ pageSize) (hq : stack xs p bottom = .ok (q, b)) : q.Packed xs bottom := by
  have hsize : pageSize = 16384 := rfl
  have hlimit := slotLimit_eq
  induction xs generalizing p bottom with
  | nil => trivial
  | cons e xs ih =>
    obtain ⟨s, r⟩ := e
    rw [List.map_cons, List.nodup_cons] at hn
    obtain ⟨hs, hrest⟩ := List.forall_mem_cons.mp hlt
    rw [weight_cons] at hroom
    rw [stack, if_neg (by omega)] at hq
    obtain ⟨q', hq', hbelow⟩ := stack_ok ((p.splice (bottom - r.length) r).setSlot s
      ⟨bottom - r.length, r.length⟩) (bottom - r.length) hn.2 hrest hc (by omega) (by omega)
    obtain rfl : q' = q := (Prod.mk.inj (Except.ok.inj (hq'.symm.trans hq))).1
    refine ⟨by omega, ?_, ?_, ih hn.2 hrest (by omega) (by omega) hq⟩
    · rw [hbelow.others s hs hn.1, slot_setSlot (by omega) (by dsimp only; omega)
        (by dsimp only; omega)]
    · have hsame : SameOn q' (p.splice (bottom - r.length) r) (bottom - r.length)
          (bottom - r.length + r.length) :=
        (hbelow.above.mono (Nat.le_refl _) (by omega)).trans
          (sameOn_setSlot (by dsimp only at hs; omega))
      rw [slice_congr hsame, slice_splice (by omega)]

/-- A record lies as far below the bottom as it and the ones before it are long. -/
lemma Packed.slot_eq {before after : List (Nat × Bytes)}
    (h : p.Packed (before ++ (s, r) :: after) bottom) :
    weight before + r.length ≤ bottom ∧
      p.slot s = ⟨bottom - (weight before + r.length), r.length⟩ := by
  induction before generalizing bottom with
  | nil =>
    obtain ⟨hroom, hslot, -⟩ := h
    simpa [weight] using And.intro hroom hslot
  | cons e before ih =>
    obtain ⟨s', r'⟩ := e
    obtain ⟨hroom, -, -, hrest⟩ := h
    obtain ⟨hle, hslot⟩ := ih hrest
    rw [weight_cons]
    refine ⟨by omega, hslot.trans ?_⟩
    congr 1
    omega

end Packed

section Compacted

lemma bytesUpTo_shown (p : Page) {k : Nat} (hk : k ≤ p.slotCount) :
    p.shown.bytesUpTo k = weight (p.recordsIn (List.range k)) := by
  rw [weight_recordsIn, SlotTable.bytesUpTo, shown, ← List.map_take, List.take_range,
    Nat.min_eq_left hk]

lemma Wf.compact_packed (h : p.Wf n) (hc : p.compact = .ok q) : q.Packed p.liveRecords pageSize := by
  have hsize : pageSize = 16384 := rfl
  obtain ⟨hbegin, habove, hbelow⟩ := h.space
  obtain ⟨c, hstack, -, hcompact⟩ := h.stack_ok
  obtain rfl := Except.ok.inj (hcompact.symm.trans hc)
  have hpacked : c.Packed p.liveRecords pageSize :=
    stack_packed (nodup_liveRecords p) (fun _ => lt_of_mem_liveRecords) h.count (by omega)
      (Nat.le_refl _) hstack
  exact hpacked.congr (fun e _ => slot_restacked p c e.1) (sameOn_setBounds (by omega))

/-- In a compacted page, a record and all in lower slots reach to the end of the page. -/
lemma Wf.compact_slot (h : p.Wf n) (hc : p.compact = .ok q) (he : p.entry s = some r) :
    (q.slot s).length = r.length ∧ (q.slot s).position + p.shown.bytesUpTo (s + 1) = 16384 := by
  have hs := (h.entry_eq_some_iff.mp he).1
  obtain ⟨later, hsplit⟩ : ∃ later, p.liveRecords = p.recordsIn (List.range s) ++ (s, r) :: later := by
    obtain ⟨k, hk⟩ := Nat.exists_eq_add_of_lt hs
    rw [h.liveRecords_eq, hk, Nat.add_assoc, List.range_add, List.range_succ_eq_map, List.map_cons,
      recordsIn, List.filterMap_append, List.filterMap_cons, Nat.add_zero, he]
    exact ⟨_, rfl⟩
  have hpacked := h.compact_packed hc
  rw [hsplit] at hpacked
  obtain ⟨hle, hslot⟩ := hpacked.slot_eq
  have hupto : p.shown.bytesUpTo (s + 1) = weight (p.recordsIn (List.range s)) + r.length := by
    rw [bytesUpTo_shown p hs, weight_recordsIn, weight_recordsIn, List.range_succ, List.map_append,
      List.map_append, List.sum_append]
    simp [he]
  rw [hslot, hupto]
  exact ⟨rfl, Nat.sub_add_cancel hle⟩

/-- Compacting a compacted page changes no byte. -/
theorem Wf.compact_compact (h : p.Wf n) (hc : p.compact = .ok q) : q.compact = .ok q := by
  obtain ⟨c, hc', hq, -, hcount, -, hend, -, hentry⟩ := h.compact
  obtain rfl := Except.ok.inj (hc'.symm.trans hc)
  have hlive : c.liveRecords = p.liveRecords := by
    rw [hq.liveRecords_eq, h.liveRecords_eq, hcount]
    exact List.filterMap_congr fun s _ => by rw [hentry]
  have hstack := (h.compact_packed hc).stack_self
  rw [← hlive] at hstack hend
  rw [Page.compact, hq.records_eq]
  change (stack c.liveRecords c pageSize >>= fun x => _) = _
  rw [hstack]
  change Except.ok (c.setBounds c.slotCount c.freeStart (pageSize - weight c.liveRecords)) = _
  rw [← hend, setBounds_bounds]

end Compacted

section Accounts

/-- Where the space of a page goes, as the records of a table take it up. -/
structure Accounted (p : Page) (t : SlotTable) : Prop where
  usable : ∃ u, p.usableSpace = .ok u ∧ 16 + 4 * p.slotCount + t.bytes + u = 16384
  delete : ∀ {s r}, t.record s = .ok r → ∃ q gaps, p.delete s = .ok q ∧
    p.reclaimableSpace = .ok gaps ∧ q.reclaimableSpace = .ok (gaps + r.length) ∧
      q.freeSpace = p.freeSpace
  update : ∀ {s r r'}, t.record s = .ok r → r'.length ≤ r.length → ∃ q gaps,
    p.update s r' = .ok q ∧ p.reclaimableSpace = .ok gaps ∧
      q.reclaimableSpace = .ok (gaps + (r.length - r'.length)) ∧ q.freeSpace = p.freeSpace
  compact : ∃ q, p.compact = .ok q ∧ q.usableSpace = p.usableSpace ∧ q.slotCount = p.slotCount ∧
    (∀ s, q.record s = p.record s) ∧ q.reclaimableSpace = .ok 0 ∧ p.usableSpace = .ok q.freeSpace ∧
    (∀ {s r}, t.record s = .ok r →
      (q.slot s).length = r.length ∧ (q.slot s).position + t.bytesUpTo (s + 1) = 16384) ∧
    q.compact = .ok q

/-- What the records of a page no longer take up can be reclaimed. -/
lemma Wf.reclaimable_add {k : Nat} (h : p.Wf n) (hq : q.Wf n) (hend : q.freeEnd = p.freeEnd)
    (hbytes : q.shown.bytes + k = p.shown.bytes) : ∃ gaps, p.reclaimableSpace = .ok gaps ∧
      q.reclaimableSpace = .ok (gaps + k) := by
  have hweight := h.weight_le
  rw [h.bytes_shown, hq.bytes_shown] at hbytes
  refine ⟨_, h.reclaimableSpace_eq, hq.reclaimableSpace_eq.trans (congrArg _ ?_)⟩
  omega

lemma Wf.accounts_delete (h : p.Wf n) (hr : p.record s = .ok r) : ∃ q gaps, p.delete s = .ok q ∧
    p.reclaimableSpace = .ok gaps ∧ q.reclaimableSpace = .ok (gaps + r.length) ∧
      q.freeSpace = p.freeSpace := by
  have hd := delete_ok hr
  have hend : (p.setSlot s ⟨0, 0⟩).freeEnd = p.freeEnd :=
    freeEnd_congr (sameOn_delete hd (by omega))
  have hstart : (p.setSlot s ⟨0, 0⟩).freeStart = p.freeStart :=
    freeStart_congr (sameOn_delete hd (by omega))
  have hshown := h.shown_delete s
  have ht := hr
  rw [h.record_shown] at ht
  rw [hd, SlotTable.delete, ht] at hshown
  have hbytes : (p.setSlot s ⟨0, 0⟩).shown.bytes + r.length = p.shown.bytes := by
    rw [Except.ok.inj hshown]
    exact SlotTable.bytes_set (SlotTable.record_ok ht) none
  obtain ⟨gaps, hp, hq⟩ := h.reclaimable_add (h.delete hd).1 hend hbytes
  exact ⟨_, gaps, hd, hp, hq, by rw [freeSpace, hend, hstart, freeSpace]⟩

lemma Wf.accounts_update {r' : Bytes} (h : p.Wf n) (hr : p.record s = .ok r)
    (hlen : r'.length ≤ r.length) : ∃ q gaps, p.update s r' = .ok q ∧
      p.reclaimableSpace = .ok gaps ∧ q.reclaimableSpace = .ok (gaps + (r.length - r'.length)) ∧
        q.freeSpace = p.freeSpace := by
  have hbegin := h.start
  have habove := h.above
  have hu := update_ok hr hlen
  have hplace := (h.update_place hu).2
  generalize hq : (p.splice (p.slot s).position r').setSlot s ⟨(p.slot s).position, r'.length⟩ = q
    at hu
  have hend : q.freeEnd = p.freeEnd := freeEnd_congr (sameOn_update hu (by omega) (by omega))
  have hstart : q.freeStart = p.freeStart :=
    freeStart_congr (sameOn_update hu (by omega) (by omega))
  have hshown := h.shown_update s r'
  have ht := hr
  rw [h.record_shown] at ht
  have hs : s < p.shown.entries.length := by
    rw [length_shown]
    exact (h.record_eq_ok_iff.mp hr).1
  have hbytes : q.shown.bytes + (r.length - r'.length) = p.shown.bytes := by
    have hset := SlotTable.bytes_set (SlotTable.record_ok ht) (some r')
    have hput : q.shown = p.shown.put s r' := by
      rw [hu, SlotTable.update, ht] at hshown
      simpa [Nat.not_lt.mpr hlen, bind, Except.bind, pure, Except.pure, Except.map] using hshown
    rw [hput, SlotTable.put, if_pos hs]
    simp only [Option.getD_some] at hset
    omega
  obtain ⟨gaps, hp, hq'⟩ := h.reclaimable_add (h.update hu).1 hend hbytes
  exact ⟨q, gaps, hu, hp, hq', by rw [freeSpace, hend, hstart, freeSpace]⟩

theorem Wf.accounted (h : p.Wf n) : p.Accounted p.shown where
  usable := by
    have hsize : pageSize = 16384 := rfl
    obtain ⟨hbegin, habove, hbelow⟩ := h.space
    refine ⟨_, h.usableSpace_eq, ?_⟩
    rw [h.bytes_shown, freeSpace]
    omega
  delete hr := h.accounts_delete ((h.record_shown _).trans hr)
  update hr hlen := h.accounts_update ((h.record_shown _).trans hr) hlen
  compact := by
    have hsize : pageSize = 16384 := rfl
    obtain ⟨-, habove, hbelow⟩ := h.space
    obtain ⟨q, hc, hq, hnext, hcount, hstart, hend, -, hentry⟩ := h.compact
    have hshown := h.shown_compact
    rw [hc] at hshown
    have hshown := Except.ok.inj hshown
    have hbytes : weight q.liveRecords = weight p.liveRecords := by
      rw [← hq.bytes_shown, ← h.bytes_shown, hshown]
    refine ⟨q, hc, ?_, hcount, fun s => ?_, ?_, ?_, fun hr => ?_, h.compact_compact hc⟩
    · rw [hq.usableSpace_eq, h.usableSpace_eq, hbytes, freeSpace, freeSpace, hstart, hend]
      refine congrArg Except.ok ?_
      omega
    · rw [hq.record_shown, h.record_shown, hshown]
    · rw [hq.reclaimableSpace_eq, hbytes, hend]
      refine congrArg Except.ok ?_
      omega
    · rw [h.usableSpace_eq, freeSpace, freeSpace, hstart, hend]
      refine congrArg Except.ok ?_
      omega
    · exact h.compact_slot hc (Page.entry_eq_some_iff.mpr ((h.record_shown _).trans hr))

/-- The space of a page is accounted for by its slots and records, whatever was done to it since it was
set up. -/
theorem after_accounted (p : Page) (n : UInt32) (es : List PageEdit) :
    (PageM.after es (PageM.init n p).2).Accounted (SlotTable.edits { number := n } es).2 := by
  obtain ⟨hw, hshown⟩ := PageM.after_init p n es
  rw [← hshown]
  exact hw.accounted

end Accounts

end Page
end PagedHeap
