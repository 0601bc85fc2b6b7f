import PagedHeap.Proofs.PageInsertion

/-! A data page as a table of slots. `Page.shown` is the table that a page stands for, and whatever is
done to a page that is laid out properly gives what the same gives on its table, also where it fails:
a record is refused exactly if the records, the header and the slots would not fit into a page. -/
namespace PagedHeap

/-- The slots of a data page, each with its record or deleted, and its numbers. -/
structure SlotTable where
  number : UInt32
  entries : List (Option Bytes) := []
  next? : Option UInt32 := none

inductive PageEdit
  | insert (r : Bytes)
  | delete (s : Nat)
  | update (s : Nat) (r : Bytes)
  | compact
  | setNext (next : Option UInt32)

namespace SlotTable

def record (t : SlotTable) (s : Nat) : Except StoreError Bytes :=
  match t.entries[s]? with
  | none => .error (.recordNotFound (Slot.label s ++ " does not exist"))
  | some none => .error (.recordNotFound (Slot.label s ++ " is deleted"))
  | some (some r) => .ok r

def bytes (t : SlotTable) : Nat := (t.entries.map fun e => (e.getD []).length).sum

/-- The lowest deleted slot, or the one that would be next. -/
def vacancy (t : SlotTable) : Nat := t.entries.findIdx Option.isNone

/-- Puts a record into a slot, which may be one past the last. -/
def put (t : SlotTable) (s : Nat) (r : Bytes) : SlotTable :=
  { t with entries := if s < t.entries.length then t.entries.set s (some r)
      else t.entries ++ [some r] }

lemma length_put {t : SlotTable} {s : Nat} (hs : s ≤ t.entries.length) (r : Bytes) :
    (t.put s r).entries.length = max t.entries.length (s + 1) := by
  rw [put]
  dsimp only
  split
  · rw [List.length_set]
    omega
  · rw [List.length_append, List.length_singleton]
    omega

lemma vacancy_le (t : SlotTable) : t.vacancy ≤ t.entries.length := List.findIdx_le_length

/-- Puts a record into the lowest slot that can take it, if there is room in a page. -/
def insert (t : SlotTable) (r : Bytes) : Except StoreError (Nat × SlotTable) :=
  if Page.maxRecord < r.length then .error (.recordTooLong r.length Page.maxRecord)
  else
    let after := t.put t.vacancy r
    if 16 + 4 * after.entries.length + t.bytes + r.length ≤ 16384 then .ok (t.vacancy, after)
    else .error .pageFull

/-- Whether a page has room for a record more, in the slot that it would get. -/
def Fits (t : SlotTable) (r : Bytes) : Prop :=
  16 + 4 * (t.put t.vacancy r).entries.length + t.bytes + r.length ≤ 16384

instance (t : SlotTable) (r : Bytes) : Decidable (t.Fits r) := inferInstanceAs (Decidable (_ ≤ _))

lemma insert_eq (t : SlotTable) {r : Bytes} (hlen : r.length ≤ Page.maxRecord) : t.insert r =
    if t.Fits r then .ok (t.vacancy, t.put t.vacancy r) else .error .pageFull := by
  rw [insert, if_neg (Nat.not_lt.mpr hlen)]
  rfl

def delete (t : SlotTable) (s : Nat) : Except StoreError SlotTable := do
  let _ ← t.record s
  return { t with entries := t.entries.set s none }

def update (t : SlotTable) (s : Nat) (r : Bytes) : Except StoreError SlotTable := do
  if (← t.record s).length < r.length then throw .pageFull
  return t.put s r

/-- Sets the number of the next page. The highest number stands for none. -/
def setNext (t : SlotTable) (next : Option UInt32) : SlotTable :=
  { t with next? := next.filter (· ≠ noPage) }

def firstFrom (t : SlotTable) (start : Nat) : Option Nat :=
  (List.range' start (t.entries.length - start)).find? fun s => (t.entries[s]?.join).isSome

def count (t : SlotTable) : Nat := t.entries.countP Option.isSome

/-- What an edit gives, which is a slot if a record was inserted, and the table after it. -/
def edit (t : SlotTable) : PageEdit → Except StoreError (Option Nat) × SlotTable
  | .insert r => match t.insert r with
    | .ok (s, t) => (.ok (some s), t)
    | .error e => (.error e, t)
  | .delete s => match t.delete s with
    | .ok t => (.ok none, t)
    | .error e => (.error e, t)
  | .update s r => match t.update s r with
    | .ok t => (.ok none, t)
    | .error e => (.error e, t)
  | .compact => (.ok none, t)
  | .setNext next => (.ok none, t.setNext next)

/-- What some edits give, one after another, and the table after them. -/
def edits (t : SlotTable) : List PageEdit → List (Except StoreError (Option Nat)) × SlotTable
  | [] => ([], t)
  | e :: rest => ((t.edit e).1 :: ((t.edit e).2.edits rest).1, ((t.edit e).2.edits rest).2)

end SlotTable

namespace Page
variable {p q : Page} {n : UInt32} {s t : Nat} {r : Bytes}

/-- What an edit gives, which is a slot if a record was inserted, and the page after it. -/
def edit (p : Page) : PageEdit → Except StoreError (Option Nat) × Page
  | .insert r => match p.insert r with
    | .ok (s, q) => (.ok (some s), q)
    | .error e => (.error e, p)
  | .delete s => match p.delete s with
    | .ok q => (.ok none, q)
    | .error e => (.error e, p)
  | .update s r => match p.update s r with
    | .ok q => (.ok none, q)
    | .error e => (.error e, p)
  | .compact => match p.compact with
    | .ok q => (.ok none, q)
    | .error e => (.error e, p)
  | .setNext next => (.ok none, p.setNext next)

/-- What some edits give, one after another, and the page after them. -/
def edits (p : Page) : List PageEdit → List (Except StoreError (Option Nat)) × Page
  | [] => ([], p)
  | e :: rest => ((p.edit e).1 :: ((p.edit e).2.edits rest).1, ((p.edit e).2.edits rest).2)

/-- The table that a page stands for. -/
def shown (p : Page) : SlotTable where
  number := p.number
  entries := (List.range p.slotCount).map p.entry
  next? := p.next?

@[simp] lemma length_shown (p : Page) : p.shown.entries.length = p.slotCount := by simp [shown]

lemma getElem?_shown (p : Page) (s : Nat) :
    p.shown.entries[s]? = if s < p.slotCount then some (p.entry s) else none := by
  by_cases h : s < p.slotCount <;> simp [shown, h]

section Observations

theorem Wf.record_shown (h : p.Wf n) (s : Nat) : p.record s = p.shown.record s := by
  rw [SlotTable.record, getElem?_shown]
  have hcount := h.count
  by_cases hs : s < p.slotCount
  · rw [if_pos hs]
    cases he : p.entry s with
    | some r => exact Page.entry_eq_some_iff.mp he
    | none =>
      have hdead : (p.slot s).live = false :=
        Bool.eq_false_iff.mpr fun hl => h.entry_eq_none_iff.mp he ⟨hs, hl⟩
      rw [record, if_neg (by omega), if_neg (by omega)]
      simp [hdead]
  · rw [if_neg hs, record, if_pos (by omega)]

lemma Wf.live_iff (h : p.Wf n) (hs : s < p.slotCount) :
    (p.slot s).live = (p.entry s).isSome := by
  cases he : p.entry s with
  | some r => exact (h.entry_eq_some_iff.mp he).2.1
  | none => exact Bool.eq_false_iff.mpr fun hl => h.entry_eq_none_iff.mp he ⟨hs, hl⟩

lemma Wf.findSlot_shown (h : p.Wf n) (start : Nat) :
    p.findSlot Slot.live start = .ok (p.shown.firstFrom start) := by
  have hcount := h.count
  have hlive : ∀ s ∈ List.range' start (p.slotCount - start),
      (p.slot s).live = (p.shown.entries[s]?.join).isSome := by
    intro s hs
    have hlt : s < p.slotCount := by
      have := List.mem_range'_1.mp hs
      omega
    rw [h.live_iff hlt, getElem?_shown, if_pos hlt]
    rfl
  rw [findSlot, SlotTable.firstFrom, length_shown, Nat.min_eq_left hcount,
    ← List.head?_filter, ← List.head?_filter, List.filter_congr hlive]
  cases (List.filter (fun s => (p.shown.entries[s]?.join).isSome)
    (List.range' start (p.slotCount - start))).head? with
  | some s => rfl
  | none => exact if_neg fun h => by omega

/-- What a page shows is what its table does. -/
structure Agrees (p : Page) (t : SlotTable) : Prop where
  record : ∀ s, p.record s = t.record s
  slotCount : p.slotCount = t.entries.length
  recordCount : p.recordCount = .ok t.count
  firstRecord : p.firstRecord = .ok (t.firstFrom 0)
  nextRecord : ∀ s, p.nextRecord s = .ok (t.firstFrom (s + 1))
  number : p.number = t.number
  next? : p.next? = t.next?

theorem Wf.agrees (h : p.Wf n) : p.Agrees p.shown where
  record := h.record_shown
  slotCount := (length_shown p).symm
  recordCount := by
    rw [recordCount, h.slots_eq, SlotTable.count, shown]
    refine congrArg Except.ok ?_
    rw [List.countP_map, List.countP_map]
    exact List.countP_congr fun s hs => by
      rw [Function.comp, Function.comp, h.live_iff (List.mem_range.mp hs)]
  firstRecord := h.findSlot_shown 0
  nextRecord s := h.findSlot_shown (s + 1)
  number := rfl
  next? := rfl

end Observations

section Edits

/-- Pages show the same table if they agree on the slots and the numbers. -/
lemma shown_eq {t : SlotTable} (hn : q.number = t.number) (hnext : q.next? = t.next?)
    (hcount : q.slotCount = t.entries.length)
    (hentry : ∀ s < q.slotCount, t.entries[s]? = some (q.entry s)) : q.shown = t := by
  obtain ⟨number, entries, next?⟩ := t
  have hentries : q.shown.entries = entries := by
    refine List.ext_getElem? fun s => ?_
    rw [getElem?_shown]
    split
    · next hs => exact (hentry s hs).symm
    · next hs => exact (List.getElem?_eq_none (by rw [← hcount]; omega)).symm
  dsimp only at hn hnext
  rw [← hn, ← hnext, ← hentries]
  rfl

lemma Wf.shown_put (hp : p.Wf n) (hq : q.Wf n) (hnext : q.next? = p.next?)
    (hcount : q.slotCount = max p.slotCount (s + 1)) (hs : s ≤ p.slotCount)
    (hentry : ∀ t, q.entry t = if t = s then some r else p.entry t) :
    q.shown = p.shown.put s r := by
  refine shown_eq (hq.number.trans hp.number.symm) hnext ?_ fun t ht => ?_
  · rw [hcount, SlotTable.length_put (by rwa [length_shown]), length_shown]
  · rw [hcount] at ht
    rw [hentry, SlotTable.put, length_shown]
    dsimp only
    split
    · next hlt =>
      rw [List.getElem?_set, length_shown, getElem?_shown]
      by_cases hts : t = s
      · rw [if_pos hts.symm, if_pos (hts ▸ hlt), if_pos hts]
      · rw [if_neg (Ne.symm hts), if_neg hts, if_pos (by omega)]
    · next hlt =>
      rw [List.getElem?_append, length_shown]
      by_cases hts : t = s
      · rw [if_neg (by omega), if_pos hts, hts, show s - p.slotCount = 0 by omega]
        rfl
      · rw [if_pos (by omega), getElem?_shown, if_pos (by omega), if_neg hts]

def recordsIn (p : Page) (xs : List Nat) : List (Nat × Bytes) :=
  xs.filterMap fun s => (p.entry s).map (s, ·)

lemma Wf.liveRecords_eq (h : p.Wf n) : p.liveRecords = p.recordsIn (List.range p.slotCount) := by
  rw [liveRecords, liveSlots, recordsIn, ← List.filterMap_eq_map, List.filterMap_filter]
  refine List.filterMap_congr fun s hs => ?_
  have hlt := List.mem_range.mp hs
  rw [h.live_iff hlt]
  cases he : p.entry s with
  | none => rfl
  | some r =>
    obtain ⟨-, -, hslice⟩ := h.entry_eq_some_iff.mp he
    simp [hslice]

lemma weight_recordsIn (p : Page) (xs : List Nat) :
    weight (p.recordsIn xs) = ((xs.map p.entry).map fun e => (e.getD []).length).sum := by
  induction xs with
  | nil => rfl
  | cons s xs ih =>
    rw [List.map_cons, List.map_cons, List.sum_cons, ← ih, recordsIn, List.filterMap_cons]
    cases p.entry s with
    | none => simp [recordsIn]
    | some r => simp [recordsIn, weight_cons]

lemma Wf.bytes_shown (h : p.Wf n) : p.shown.bytes = weight p.liveRecords := by
  rw [h.liveRecords_eq, weight_recordsIn]
  rfl

/-- A write that has room is done, and adds a slot if it was one past the last. -/
lemma Wf.write_ok (h : p.Wf n) (hs : s < p.slotCount ∧ r.length ≤ p.freeSpace ∨
    s = p.slotCount ∧ r.length + 4 ≤ p.freeSpace) :
    ∃ q, p.write s r = .ok q ∧ q.slotCount = max p.slotCount (s + 1) := by
  have hcount := h.count
  have hstart := h.start
  have habove := h.above
  have hbelow := h.below
  have hsize : pageSize = 16384 := rfl
  have hsize' : UInt16.size = 65536 := rfl
  have hslot : slotSize = 4 := rfl
  simp only [freeSpace] at hs
  rw [slotLimit_eq] at hcount
  have hok : ∃ q, p.write s r = .ok q := by
    rw [Page.write, if_neg (by rw [slotLimit_eq]; omega)]
    dsimp only
    split
    · exact ⟨_, rfl⟩
    · rw [if_neg (by omega)]
      exact ⟨_, rfl⟩
  obtain ⟨q, hq⟩ := hok
  refine ⟨q, hq, ?_⟩
  obtain ⟨hlimit, rfl⟩ := write_eq_ok h.start hq
  rw [slotLimit_eq] at hlimit
  rw [(bounds_placed (by rw [slotLimit_eq]; split <;> omega) (by omega)).1]
  split <;> omega

/-- The slot for a new record is the lowest deleted one, or one past the last. -/
lemma Wf.findSlot_vacancy (h : p.Wf n) :
    (p.shown.vacancy < p.slotCount ∧ (p.slot p.shown.vacancy).live = false ∧
        p.findSlot (fun e => !e.live) 0 = .ok (some p.shown.vacancy)) ∨
      (p.shown.vacancy = p.slotCount ∧ p.findSlot (fun e => !e.live) 0 = .ok none) := by
  have hget : ∀ {s} (hs : s < p.shown.entries.length), p.shown.entries[s].isNone =
      !(p.slot s).live := by
    intro s hs
    have hs' := length_shown p ▸ hs
    have he : p.shown.entries[s] = p.entry s := by simp [shown]
    rw [he, h.live_iff hs']
    cases p.entry s <;> rfl
  rcases findSlot_cases h.count (fun e => !e.live) 0 with ⟨s, hf, -, hs, hdead, hfirst⟩ | ⟨hf, hnone⟩
  · have hs' : s < p.shown.entries.length := length_shown p ▸ hs
    have hv : p.shown.vacancy = s := by
      refine (List.findIdx_eq hs').mpr ⟨(hget hs').trans hdead, fun t ht => ?_⟩
      exact (hget (by omega)).trans (hfirst t (Nat.zero_le t) ht)
    rw [hv]
    exact Or.inl ⟨hs, by simpa using hdead, hf⟩
  · refine Or.inr ⟨?_, hf⟩
    rw [← length_shown p]
    refine List.findIdx_eq_length.mpr fun e he => ?_
    obtain ⟨s, hs, rfl⟩ := List.getElem_of_mem he
    exact (hget hs).trans (hnone s (Nat.zero_le s) (length_shown p ▸ hs))

/-- An insertion depends on the bytes that are needed for the record, and for its slot if that is a
new one. -/
lemma Wf.insert_eq (h : p.Wf n) (hlen : r.length ≤ maxRecord) : ∃ needed,
    16 + 4 * max p.slotCount (p.shown.vacancy + 1) + r.length = p.freeStart + needed ∧
    p.insert r = (if needed ≤ p.freeSpace then return (p.shown.vacancy, ← p.write p.shown.vacancy r)
      else if needed ≤ p.freeSpace + (pageSize - p.freeEnd - weight p.liveRecords) then
        return (p.shown.vacancy, ← (← p.compact).write p.shown.vacancy r)
      else throw .pageFull) ∧
    ∀ q : Page, q.slotCount = p.slotCount → needed ≤ q.freeSpace →
      p.shown.vacancy < q.slotCount ∧ r.length ≤ q.freeSpace ∨
        p.shown.vacancy = q.slotCount ∧ r.length + 4 ≤ q.freeSpace := by
  have hstart := h.start
  have hlen' : ¬ maxRecord < r.length := by omega
  rcases h.findSlot_vacancy with ⟨hv, -, hf⟩ | ⟨hv, hf⟩
  · refine ⟨r.length, by omega, ?_, fun q hq hroom => Or.inl ⟨by omega, hroom⟩⟩
    simp [Page.insert, hlen', hf, h.usableSpace_eq, bind, Except.bind]
  · refine ⟨r.length + slotSize, by simp only [slotSize]; omega, ?_,
      fun q hq hroom => Or.inr ⟨by omega, hroom⟩⟩
    simp [Page.insert, hlen', hf, h.usableSpace_eq, hv, bind, Except.bind]

/-- A record is inserted if it fits into the page together with the others and their slots. -/
lemma Wf.insert_ok (h : p.Wf n) (hlen : r.length ≤ maxRecord)
    (hfit : 16 + 4 * max p.slotCount (p.shown.vacancy + 1) + weight p.liveRecords + r.length ≤
      pageSize) :
    ∃ q, p.insert r = .ok (p.shown.vacancy, q) ∧
      q.slotCount = max p.slotCount (p.shown.vacancy + 1) := by
  obtain ⟨needed, hneeded, heq, hroom⟩ := h.insert_eq hlen
  obtain ⟨-, habove, hbelow⟩ := h.space
  rw [heq]
  by_cases hfree : needed ≤ p.freeSpace
  · obtain ⟨q, hq, hcount⟩ := h.write_ok (hroom p rfl hfree)
    rw [if_pos hfree, hq]
    exact ⟨q, rfl, hcount⟩
  · obtain ⟨c, hc, hcw, -, hcount, hstart, hend, -, -⟩ := h.compact
    have hspace : needed ≤ c.freeSpace := by
      simp only [freeSpace, hstart, hend]
      omega
    have hfits : needed ≤ p.freeSpace + (pageSize - p.freeEnd - weight p.liveRecords) := by
      simp only [freeSpace]
      omega
    obtain ⟨q, hq, hq'⟩ := hcw.write_ok (hroom c hcount hspace)
    rw [if_neg hfree, if_pos hfits, hc]
    change ∃ q', (c.write p.shown.vacancy r >>= fun q => pure (p.shown.vacancy, q)) = _ ∧ _
    rw [hq]
    exact ⟨q, rfl, by rw [hq', hcount]⟩

/-- It is refused if it does not, however the free bytes are spread over the page. -/
lemma Wf.insert_full (h : p.Wf n) (hlen : r.length ≤ maxRecord)
    (hfit : pageSize <
      16 + 4 * max p.slotCount (p.shown.vacancy + 1) + weight p.liveRecords + r.length) :
    p.insert r = .error .pageFull := by
  obtain ⟨needed, hneeded, heq, -⟩ := h.insert_eq hlen
  obtain ⟨-, habove, hbelow⟩ := h.space
  rw [heq, if_neg (by simp only [freeSpace]; omega), if_neg (by simp only [freeSpace]; omega)]
  rfl

theorem Wf.shown_insert (h : p.Wf n) (r : Bytes) :
    (p.insert r).map (fun e => (e.1, e.2.shown)) = p.shown.insert r := by
  have hvacancy : p.shown.vacancy ≤ p.slotCount := length_shown p ▸ p.shown.vacancy_le
  have hafter : (p.shown.put p.shown.vacancy r).entries.length =
      max p.slotCount (p.shown.vacancy + 1) := by
    rw [SlotTable.length_put p.shown.vacancy_le, length_shown]
  unfold SlotTable.insert
  by_cases hlen : maxRecord < r.length
  · have hi : p.insert r = .error (.recordTooLong r.length maxRecord) := by
      simp [Page.insert, hlen, bind, Except.bind, throw, throwThe, MonadExceptOf.throw]
    rw [hi, if_pos hlen]
    rfl
  · rw [if_neg hlen]
    dsimp only
    rw [hafter, h.bytes_shown]
    by_cases hfit : 16 + 4 * max p.slotCount (p.shown.vacancy + 1) + weight p.liveRecords +
        r.length ≤ 16384
    · obtain ⟨q, hi, hcount⟩ := h.insert_ok (by omega) hfit
      obtain ⟨hq, hnext, -, hentry⟩ := h.insert hi
      rw [hi, if_pos hfit, ← h.shown_put hq hnext hcount hvacancy hentry]
      rfl
    · rw [h.insert_full (by omega) (Nat.lt_of_not_le hfit), if_neg hfit]
      rfl

/-- A record that no page is too short for is inserted if it fits, and is refused if it does not. -/
theorem Wf.insert_cases (h : p.Wf n) (hlen : r.length ≤ maxRecord) :
    p.shown.Fits r ∧ (∃ q, p.insert r = .ok (p.shown.vacancy, q)) ∨
      ¬ p.shown.Fits r ∧ p.insert r = .error .pageFull := by
  have hshown := h.shown_insert r
  rw [p.shown.insert_eq hlen] at hshown
  by_cases hfit : p.shown.Fits r
  · rw [if_pos hfit] at hshown
    refine Or.inl ⟨hfit, ?_⟩
    cases hi : p.insert r with
    | error e =>
      rw [hi] at hshown
      cases hshown
    | ok found =>
      obtain ⟨slot, q⟩ := found
      rw [hi] at hshown
      obtain ⟨rfl, -⟩ := Prod.mk.inj (Except.ok.inj hshown)
      exact ⟨q, rfl⟩
  · rw [if_neg hfit] at hshown
    refine Or.inr ⟨hfit, ?_⟩
    cases hi : p.insert r with
    | error e =>
      rw [hi] at hshown
      exact congrArg Except.error (Except.error.inj hshown)
    | ok found =>
      rw [hi] at hshown
      cases hshown

/-- All slots below that of a new record are taken. -/
lemma Wf.entry_of_insert (h : p.Wf n) (hi : p.insert r = .ok (s, q)) (ht : t < s) :
    p.entry t ≠ none := by
  have hshown := h.shown_insert r
  rw [hi, SlotTable.insert] at hshown
  split at hshown
  · cases hshown
  · dsimp only at hshown
    split at hshown
    · obtain rfl : s = p.shown.vacancy := congrArg Prod.fst (Except.ok.inj hshown)
      have hlt : t < p.shown.entries.length := Nat.lt_of_lt_of_le ht p.shown.vacancy_le
      have hsome := List.not_of_lt_findIdx ht
      rw [show p.shown.entries[t] = p.entry t by simp [shown]] at hsome
      intro hnone
      rw [hnone] at hsome
      cases hsome
    · cases hshown

theorem Wf.shown_delete (h : p.Wf n) (s : Nat) :
    (p.delete s).map shown = p.shown.delete s := by
  rw [SlotTable.delete, ← h.record_shown]
  cases hr : p.record s with
  | error e =>
    rw [delete_error hr]
    rfl
  | ok r =>
    have hd := delete_ok hr
    have hcount : (p.setSlot s ⟨0, 0⟩).slotCount = p.slotCount :=
      slotCount_congr (sameOn_setSlot (by omega))
    obtain ⟨hq, hnext, -, hentry⟩ := h.delete hd
    rw [hd]
    refine congrArg Except.ok (shown_eq (hq.number.trans h.number.symm) hnext ?_ fun t ht => ?_)
    · rw [hcount, List.length_set, length_shown]
    · rw [hcount] at ht
      rw [List.getElem?_set, length_shown, getElem?_shown, if_pos ht, hentry]
      by_cases hts : t = s
      · rw [if_pos hts.symm, if_pos (hts ▸ ht), if_pos hts]
      · rw [if_neg (Ne.symm hts), if_neg hts]

theorem Wf.shown_update (h : p.Wf n) (s : Nat) (r : Bytes) :
    (p.update s r).map shown = p.shown.update s r := by
  rw [SlotTable.update, ← h.record_shown]
  cases hr : p.record s with
  | error e =>
    rw [update_error hr]
    rfl
  | ok r₀ =>
    obtain ⟨hs, hl, hr₀⟩ := h.record_eq_ok_iff.mp hr
    have hlength : r₀.length = (p.slot s).length := by rw [← hr₀, length_slice]
    by_cases hlen : r₀.length < r.length
    · rw [update_full hr hlen]
      simp [hlen, bind, Except.bind, throw, throwThe, MonadExceptOf.throw, Except.map]
    · have hu := update_ok hr (Nat.le_of_not_lt hlen)
      have hin := (h.inside hs hl).1
      have habove := h.above
      have hstart := h.start
      have hcount : ((p.splice (p.slot s).position r).setSlot s
          ⟨(p.slot s).position, r.length⟩).slotCount = p.slotCount :=
        (slotCount_congr (sameOn_setSlot (by omega))).trans
          (slotCount_congr (sameOn_splice (by omega)))
      obtain ⟨hq, hnext, -, hentry⟩ := h.update hu
      have hput := h.shown_put hq hnext (by omega) (Nat.le_of_lt hs) hentry
      rw [hu]
      simp [hlen, bind, Except.bind, pure, Except.pure, Except.map, hput]

theorem Wf.shown_compact (h : p.Wf n) : p.compact.map shown = .ok p.shown := by
  obtain ⟨q, hc, hq, hnext, hcount, -, -, -, hentry⟩ := h.compact
  rw [hc]
  refine congrArg Except.ok (shown_eq (hq.number.trans h.number.symm) hnext ?_ fun t ht => ?_)
  · rw [hcount, length_shown]
  · rw [getElem?_shown, if_pos (hcount ▸ ht), hentry]

theorem Wf.shown_setNext (h : p.Wf n) (next : Option UInt32) :
    (p.setNext next).shown = p.shown.setNext next := by
  have hcount : (p.setNext next).slotCount = p.slotCount :=
    slotCount_congr (sameOn_setNext (by omega))
  refine shown_eq ((h.setNext next).number.trans h.number.symm) ?_ ?_ fun t ht => ?_
  · rw [SlotTable.setNext]
    dsimp only
    by_cases hn : next = some noPage
    · have hsame : p.setNext next = p.setNext none := by rw [hn]; rfl
      rw [hsame, next?_setNext (by simp), hn]
      rfl
    · rw [next?_setNext hn]
      cases next with
      | none => rfl
      | some m =>
        have hm : m ≠ noPage := fun hm => hn (congrArg some hm)
        simp [Option.filter, hm]
  · exact hcount.trans (length_shown p).symm
  · rw [hcount] at ht
    rw [h.entry_setNext]
    exact (getElem?_shown p t).trans (if_pos ht)

/-- An edit gives what it gives on the table that the page stands for. -/
theorem Wf.edit (h : p.Wf n) (e : PageEdit) : (p.edit e).2.Wf n ∧
    (p.edit e).1 = (p.shown.edit e).1 ∧ (p.edit e).2.shown = (p.shown.edit e).2 := by
  cases e with
  | insert r =>
    simp only [Page.edit, SlotTable.edit, ← h.shown_insert]
    cases hi : p.insert r with
    | error e => exact ⟨h, rfl, rfl⟩
    | ok found => exact ⟨(h.insert hi).1, rfl, rfl⟩
  | delete s =>
    simp only [Page.edit, SlotTable.edit, ← h.shown_delete]
    cases hd : p.delete s with
    | error e => exact ⟨h, rfl, rfl⟩
    | ok q => exact ⟨(h.delete hd).1, rfl, rfl⟩
  | update s r =>
    simp only [Page.edit, SlotTable.edit, ← h.shown_update]
    cases hu : p.update s r with
    | error e => exact ⟨h, rfl, rfl⟩
    | ok q => exact ⟨(h.update hu).1, rfl, rfl⟩
  | compact =>
    obtain ⟨q, hc, hq, -⟩ := h.compact
    have hshown := h.shown_compact
    rw [hc] at hshown
    simp only [Page.edit, SlotTable.edit, hc]
    exact ⟨hq, trivial, Except.ok.inj hshown⟩
  | setNext next => exact ⟨h.setNext next, rfl, h.shown_setNext next⟩

lemma Wf.edits (h : p.Wf n) (es : List PageEdit) : (p.edits es).2.Wf n ∧
    (p.edits es).1 = (p.shown.edits es).1 ∧ (p.edits es).2.shown = (p.shown.edits es).2 := by
  induction es generalizing p with
  | nil => exact ⟨h, rfl, rfl⟩
  | cons e rest ih =>
    obtain ⟨hw, hresult, hshown⟩ := h.edit e
    obtain ⟨hw', hresults, hshown'⟩ := ih hw
    simp only [Page.edits, SlotTable.edits]
    rw [hresult, hresults, hshown', hshown]
    exact ⟨hw', rfl, rfl⟩

lemma shown_empty (n : UInt32) : (empty n).shown = { number := n } := by
  have hcount := (word16_empty n).1
  exact shown_eq (wf_empty n).number (next?_empty n) hcount fun s hs => by omega

/-- The longest record takes all of a new page. -/
lemma fits_empty (n : UInt32) (hlen : r.length ≤ maxRecord) : (empty n).shown.Fits r := by
  have hmax : maxRecord = 16364 := rfl
  rw [shown_empty]
  simp only [SlotTable.Fits, SlotTable.put, SlotTable.vacancy, SlotTable.bytes, List.findIdx_nil,
    List.length_nil, List.map_nil, List.sum_nil, Nat.lt_irrefl, if_false, List.nil_append,
    List.length_singleton]
  omega

/-- Any edits of a new page give what they give on a table without slots, and the page shows what the
table does. -/
theorem edits_refine (n : UInt32) (es : List PageEdit) :
    ((empty n).edits es).1 = (SlotTable.edits { number := n } es).1 ∧
      ((empty n).edits es).2.Agrees (SlotTable.edits { number := n } es).2 := by
  obtain ⟨hw, hresults, hshown⟩ := (wf_empty n).edits es
  rw [shown_empty] at hresults hshown
  exact ⟨hresults, hshown ▸ hw.agrees⟩

end Edits
end Page
end PagedHeap
