import PagedHeap.Proofs.Computation
import PagedHeap.Proofs.SlotTable

/-! Data pages worked on in place, one access to the bytes after the other. Each access has to lie in
the page, each number that is written has to fit into its two bytes, and no difference may fall below
zero; otherwise the computation fails with `outOfPage`, and the page keeps what was written until
then. On a page that is laid out properly none of this ever happens, and each operation comes to what
`Page.edit` says. -/
namespace PagedHeap

/-- Computations on a page in place. They may fail, and then the page keeps what was written. -/
abbrev PageM := ExceptT StoreError (StateM Page)

namespace PageM

def load (start n : Nat) : PageM Bytes := fun p =>
  (if start + n ≤ pageSize then .ok (p.slice start n) else .error .outOfPage, p)

def store (start : Nat) (bs : Bytes) : PageM Unit := fun p =>
  if start + bs.length ≤ pageSize then (.ok (), p.splice start bs) else (.error .outOfPage, p)

/-- A number that has to fit into two bytes. -/
def fit (n : Nat) : PageM Nat := if n < UInt16.size then return n else throw .outOfPage

/-- A difference that must not fall below zero. -/
def minus (a b : Nat) : PageM Nat := if b ≤ a then return a - b else throw .outOfPage

def load16 (i : Nat) : PageM Nat := return Bytes.value (← load i 2)

def store16 (i n : Nat) : PageM Unit := do store i (Bytes.littleEndian 2 (← fit n))

structure Bounds where
  count : Nat
  start : Nat
  stop : Nat

def bounds : PageM Bounds := do
  let count ← load16 2
  let start ← load16 4
  let stop ← load16 6
  return ⟨count, start, stop⟩

def setBounds (b : Bounds) : PageM Unit := do
  store16 2 b.count
  store16 4 b.start
  store16 6 b.stop

def slot (s : Nat) : PageM Slot := do
  let position ← load16 (Page.headerSize + Page.slotSize * s)
  let length ← load16 (Page.headerSize + Page.slotSize * s + 2)
  return ⟨position, length⟩

def setSlot (s : Nat) (e : Slot) : PageM Unit := do
  store16 (Page.headerSize + Page.slotSize * s) e.position
  store16 (Page.headerSize + Page.slotSize * s + 2) e.length

/-- So many slots from one on. -/
def slotsFrom : Nat → Nat → PageM (List Slot)
  | _, 0 => return []
  | s, k+1 => do
    let e ← slot s
    return e :: (← slotsFrom (s + 1) k)

def slots : PageM (List Slot) := do slotsFrom 0 (← bounds).count

/-- The first that is as wanted among so many slots from one on. -/
def search (wanted : Slot → Bool) : Nat → Nat → PageM (Option Nat)
  | _, 0 => return none
  | s, k+1 => do if wanted (← slot s) then return some s else search wanted (s + 1) k

def findSlot (wanted : Slot → Bool) (start : Nat) : PageM (Option Nat) := do
  search wanted start ((← bounds).count - start)

def firstRecord : PageM (Option Nat) := findSlot Slot.live 0

def nextRecord (after : Nat) : PageM (Option Nat) := findSlot Slot.live (after + 1)

def recordCount : PageM Nat := return (← slots).countP Slot.live

def freeSpace : PageM Nat := do
  let b ← bounds
  minus b.stop b.start

def reclaimableSpace : PageM Nat := do
  let b ← bounds
  let live := ((← slots).filter Slot.live).foldr (fun e total => e.length + total) 0
  minus (← minus pageSize b.stop) live

def usableSpace : PageM Nat := return (← freeSpace) + (← reclaimableSpace)

def record (s : Nat) : PageM Bytes := do
  if (← bounds).count ≤ s then throw (.recordNotFound (Slot.label s ++ " does not exist"))
  let e ← slot s
  if !e.live then throw (.recordNotFound (Slot.label s ++ " is deleted"))
  load e.position e.length

/-- The records in so many slots from one on. Slots without a record are passed over. -/
def recordsFrom : Nat → Nat → PageM (List (Nat × Bytes))
  | _, 0 => return []
  | s, k+1 => do
    let found ← tryCatch (do return some (s, ← record s)) fun e =>
      if e = .outOfPage then throw e else return none
    return found.toList ++ (← recordsFrom (s + 1) k)

/-- Writes records one below the other and sets their slots; gives where the last one starts. -/
def stack : List (Nat × Bytes) → Nat → PageM Nat
  | [], bottom => return bottom
  | (s, r) :: rest, bottom => do
    let start ← minus bottom r.length
    store start r
    setSlot s ⟨start, r.length⟩
    stack rest start

def compact : PageM Unit := do
  let b ← bounds
  let records ← recordsFrom 0 b.count
  let bottom ← stack records pageSize
  setBounds { b with stop := bottom }

/-- Writes a record below the others, into a slot that is there or into a new one. -/
def place (reused : Option Nat) (r : Bytes) : PageM Nat := do
  let b ← bounds
  let start ← minus b.stop r.length
  store start r
  match reused with
  | some s =>
    setSlot s ⟨start, r.length⟩
    setBounds { b with stop := start }
    return s
  | none =>
    let count ← fit (b.count + 1)
    let stop ← fit (b.start + Page.slotSize)
    setSlot b.count ⟨start, r.length⟩
    setBounds ⟨count, stop, start⟩
    return b.count

/-- Compacts the page if only that makes so many bytes free. -/
def makeRoom (needed : Nat) : PageM Unit := do
  if (← freeSpace) < needed then
    if (← usableSpace) < needed then throw .pageFull
    compact

def insert (r : Bytes) : PageM Nat := do
  if Page.maxRecord < r.length then throw (.recordTooLong r.length Page.maxRecord)
  let reused ← findSlot (fun e => !e.live) 0
  makeRoom (if reused.isSome then r.length else r.length + Page.slotSize)
  place reused r

def delete (s : Nat) : PageM Unit := do
  let _ ← record s
  setSlot s ⟨0, 0⟩

def update (s : Nat) (r : Bytes) : PageM Unit := do
  if (← record s).length < r.length then throw .pageFull
  let e ← slot s
  store e.position r
  setSlot s ⟨e.position, r.length⟩

def setNext (next : Option UInt32) : PageM Unit :=
  store 12 (Bytes.littleEndian 4 (next.getD noPage).toNat)

def edit : PageEdit → PageM (Option Nat)
  | .insert r => do return some (← insert r)
  | .delete s => do delete s; return none
  | .update s r => do update s r; return none
  | .compact => do compact; return none
  | .setNext next => do setNext next; return none

def init (number : UInt32) : PageM Unit := do
  store 0 (List.replicate pageSize 0)
  store 0 [PageKind.heapData.toByte]
  setBounds ⟨0, Page.headerSize, pageSize⟩
  store 8 (Bytes.littleEndian 4 number.toNat)
  setNext none

/-- The page after some edits in place, of which any may fail. -/
def after (es : List PageEdit) (p : Page) : Page := es.foldl (fun p e => (edit e p).2) p

variable {α β : Type} {p q : Page} {x : PageM α} {a : α} {e : StoreError} {i n s k : Nat}
  {bs r : Bytes}

section Steps

lemma ok_bind (h : x p = (.ok a, q)) (f : α → PageM β) : (x >>= f) p = f a q := by
  rw [bind_apply, h]

lemma error_bind (h : x p = (.error e, q)) (f : α → PageM β) : (x >>= f) p = (.error e, q) := by
  rw [bind_apply, h]

lemma load_eq (h : i + n ≤ pageSize) : load i n p = (.ok (p.slice i n), p) := by
  rw [load, if_pos h]

lemma store_eq (h : i + bs.length ≤ pageSize) : store i bs p = (.ok (), p.splice i bs) := by
  rw [store, if_pos h]

lemma fit_eq (h : n < 65536) : fit n p = (.ok n, p) := by
  rw [fit, if_pos h]
  rfl

lemma minus_eq (h : n ≤ i) : minus i n p = (.ok (i - n), p) := by
  rw [minus, if_pos h]
  rfl

lemma load16_eq (h : i + 2 ≤ pageSize) : load16 i p = (.ok (p.word16 i), p) := by
  have hvalue : Bytes.value (p.slice i 2) = p.word16 i := by
    simp [Page.slice, Page.word16, Bytes.value, List.range_succ]
  rw [load16, ok_bind (load_eq h), hvalue]
  rfl

lemma store16_eq (h : i + 2 ≤ pageSize) (hn : n < 65536) :
    store16 i n p = (.ok (), p.setWord16 i n) := by
  rw [store16, ok_bind (fit_eq hn), store_eq (by simpa using h)]
  rfl

lemma bounds_eq (p : Page) : bounds p = (.ok ⟨p.slotCount, p.freeStart, p.freeEnd⟩, p) := by
  rw [bounds, ok_bind (load16_eq (by decide)), ok_bind (load16_eq (by decide)),
    ok_bind (load16_eq (by decide))]
  rfl

lemma setBounds_eq {b : Bounds} (hc : b.count < 65536) (hstart : b.start < 65536)
    (hstop : b.stop < 65536) :
    setBounds b p = (.ok (), p.setBounds b.count b.start b.stop) := by
  rw [setBounds, ok_bind (store16_eq (by decide) hc), ok_bind (store16_eq (by decide) hstart),
    store16_eq (by decide) hstop]
  rfl

lemma slot_end_le (h : s < Page.slotLimit) :
    Page.headerSize + Page.slotSize * s + 2 + 2 ≤ pageSize := by
  have : Page.slotLimit = 4092 := rfl
  simp only [Page.headerSize, Page.slotSize, pageSize]
  omega

lemma slot_eq (h : s < Page.slotLimit) : slot s p = (.ok (p.slot s), p) := by
  have := slot_end_le h
  rw [slot, ok_bind (load16_eq (by omega)), ok_bind (load16_eq this)]
  rfl

lemma setSlot_eq {e : Slot} (h : s < Page.slotLimit) (hp : e.position < 65536)
    (hl : e.length < 65536) : setSlot s e p = (.ok (), p.setSlot s e) := by
  have := slot_end_le h
  rw [setSlot, ok_bind (store16_eq (by omega) hp), store16_eq this hl]
  rfl

lemma splice_littleEndian (p : Page) (i m : Nat) :
    p.splice i (Bytes.littleEndian 4 m) = p.setWord32 i m := by
  simp only [Bytes.littleEndian, Page.splice, Page.setWord32, Page.setWord16,
    Nat.div_div_eq_div_mul]

lemma setNext_eq (next : Option UInt32) : setNext next p = (.ok (), p.setNext next) := by
  rw [setNext, store_eq (by rw [Bytes.length_littleEndian]; decide), splice_littleEndian]
  rfl

lemma splice_zeros (p : Page) : p.splice 0 (List.replicate pageSize 0) = Page.blank := by
  apply Page.ext_byte
  intro i hi
  rw [Page.byte_splice, if_pos (by rw [List.length_replicate]; omega), Page.byte_blank,
    List.getElem?_replicate]
  split <;> rfl

lemma init_eq (p : Page) (number : UInt32) : init number p = (.ok (), Page.empty number) := by
  rw [init, ok_bind (store_eq (by rw [List.length_replicate]; decide)), splice_zeros,
    ok_bind (store_eq (by decide)), ok_bind (setBounds_eq (by decide) (by decide) (by decide)),
    ok_bind (store_eq (by rw [Bytes.length_littleEndian]; decide)), splice_littleEndian,
    setNext_eq]
  rfl

end Steps

section Looks

lemma slotsFrom_eq (h : s + k ≤ Page.slotLimit) :
    slotsFrom s k p = (.ok ((List.range' s k).map p.slot), p) := by
  induction k generalizing s with
  | zero => rfl
  | succ k ih =>
    rw [slotsFrom, ok_bind (slot_eq (by omega)), ok_bind (ih (by omega))]
    rfl

lemma search_eq (wanted : Slot → Bool) (h : k = 0 ∨ s + k ≤ Page.slotLimit) :
    search wanted s k p = (.ok ((List.range' s k).find? fun t => wanted (p.slot t)), p) := by
  induction k generalizing s with
  | zero => rfl
  | succ k ih =>
    rw [search, ok_bind (slot_eq (by omega)), List.range'_succ, List.find?_cons]
    cases wanted (p.slot s)
    · exact ih (by omega)
    · rfl

variable (hc : p.slotCount ≤ Page.slotLimit)
include hc

lemma slots_eq : slots p = (p.slots, p) := by
  rw [slots, ok_bind (bounds_eq p), slotsFrom_eq (by dsimp only; omega), Page.slots,
    if_neg (by omega), List.range_eq_range']

lemma findSlot_eq (wanted : Slot → Bool) (start : Nat) :
    findSlot wanted start p = (p.findSlot wanted start, p) := by
  have hnone : ¬ (start < p.slotCount ∧ Page.slotLimit < p.slotCount) := by omega
  rw [findSlot, ok_bind (bounds_eq p), search_eq wanted (by dsimp only; omega), Page.findSlot,
    Nat.min_eq_left hc]
  dsimp only
  rw [if_neg hnone]
  cases (List.range' start (p.slotCount - start)).find? fun s => wanted (p.slot s) <;> rfl

lemma recordCount_eq : recordCount p = (p.recordCount, p) := by
  rw [recordCount, Page.recordCount, bind_apply, slots_eq hc]
  cases p.slots <;> rfl

end Looks

section Laid
variable {m : UInt32} (h : p.Wf m)
include h

lemma freeSpace_eq : freeSpace p = (.ok p.freeSpace, p) := by
  rw [freeSpace, ok_bind (bounds_eq p), minus_eq h.above]
  rfl

/-- No difference falls below zero, since the records lie apart behind the free space. -/
lemma reclaimableSpace_eq : reclaimableSpace p = (p.reclaimableSpace, p) := by
  have hbytes := h.recordBytes_eq
  rw [Page.recordBytes, h.slots_eq] at hbytes
  rw [reclaimableSpace, ok_bind (bounds_eq p),
    ok_bind ((slots_eq h.count).trans (congrArg (·, p) h.slots_eq)), ok_bind (minus_eq h.below),
    minus_eq (Except.ok.inj hbytes ▸ h.weight_le), h.reclaimableSpace_eq]
  exact congrArg (fun bytes => (Except.ok (pageSize - p.freeEnd - bytes), p)) (Except.ok.inj hbytes)

lemma usableSpace_eq : usableSpace p = (p.usableSpace, p) := by
  rw [usableSpace, ok_bind (freeSpace_eq h), bind_apply, reclaimableSpace_eq h, Page.usableSpace]
  cases p.reclaimableSpace <;> rfl

lemma record_eq (s : Nat) : record s p = (p.record s, p) := by
  have hcount := h.count
  rw [record, ok_bind (bounds_eq p), Page.record]
  dsimp only
  by_cases hs : p.slotCount ≤ s
  · rw [if_pos hs, if_pos hs]
    rfl
  · have hlimit : s < Page.slotLimit := by omega
    rw [if_neg hs, if_neg hs, if_neg (by omega), ok_bind (slot_eq hlimit)]
    cases hl : (p.slot s).live with
    | false => rfl
    | true =>
      have hin := (h.inside (Nat.lt_of_not_le hs) hl).2
      rw [if_neg (by simp), if_neg (by simp), if_neg (Nat.not_lt.mpr hin), load_eq hin]

lemma recordsFrom_eq (hk : s + k ≤ p.slotCount) : recordsFrom s k p =
    (.ok (((List.range' s k).filter fun t => (p.slot t).live).map fun t =>
      (t, p.slice (p.slot t).position (p.slot t).length)), p) := by
  have hcount := h.count
  induction k generalizing s with
  | zero => rfl
  | succ k ih =>
    have hs : s < p.slotCount := by omega
    rw [recordsFrom, List.range'_succ, List.filter_cons]
    cases hl : (p.slot s).live with
    | true =>
      have hr : record s p = (.ok (p.slice (p.slot s).position (p.slot s).length), p) := by
        rw [record_eq h, h.record_eq_ok_iff.mpr ⟨hs, hl, rfl⟩]
      rw [ok_bind (by rw [tryCatch_apply, ok_bind hr]; rfl), ok_bind (ih (by omega))]
      rfl
    | false =>
      have hr : record s p =
          (.error (.recordNotFound (Slot.label s ++ " is deleted")), p) := by
        rw [record_eq h, Page.record, if_neg (by omega), if_neg (by omega)]
        dsimp only
        rw [hl]
        rfl
      rw [ok_bind (by rw [tryCatch_apply, error_bind hr]; rfl), ok_bind (ih (by omega))]
      rfl

end Laid

section Changes

lemma stack_eq {xs : List (Nat × Bytes)} {bottom b : Nat} (hlt : ∀ e ∈ xs, e.1 < Page.slotLimit)
    (hb : bottom ≤ pageSize) (hx : Page.stack xs p bottom = .ok (q, b)) :
    stack xs bottom p = (.ok b, q) := by
  have hsize : pageSize = 16384 := rfl
  induction xs generalizing p bottom with
  | nil =>
    obtain ⟨rfl, rfl⟩ := Prod.mk.inj (Except.ok.inj hx)
    rfl
  | cons e xs ih =>
    obtain ⟨s, r⟩ := e
    obtain ⟨hs, hrest⟩ := List.forall_mem_cons.mp hlt
    rw [Page.stack] at hx
    split at hx
    · cases hx
    · next hr =>
      rw [stack, ok_bind (minus_eq (by omega)), ok_bind (store_eq (by omega)),
        ok_bind (setSlot_eq hs (by dsimp only; omega) (by dsimp only; omega))]
      exact ih hrest (by omega) hx

variable {m : UInt32} (h : p.Wf m)
include h

/-- Compacting a page in place writes where records were, but only after all of them were read. -/
lemma compact_eq (hc : p.compact = .ok q) : compact p = (.ok (), q) := by
  have hsize : pageSize = 16384 := rfl
  have hcount := h.count
  have hbegin := h.start
  obtain ⟨c, hstack, -, hcompact⟩ := h.stack_ok
  obtain rfl : p.restacked c = q := Except.ok.inj (hcompact.symm.trans hc)
  have hrecords : recordsFrom 0 p.slotCount p = (.ok p.liveRecords, p) := by
    rw [recordsFrom_eq h (by omega), ← List.range_eq_range']
    rfl
  have hlt : ∀ e ∈ p.liveRecords, e.1 < Page.slotLimit :=
    fun e he => Nat.lt_of_lt_of_le (Page.lt_of_mem_liveRecords he) h.count
  rw [Page.slotLimit_eq] at hcount
  rw [compact, ok_bind (bounds_eq p), ok_bind hrecords,
    ok_bind (stack_eq hlt (Nat.le_refl _) hstack),
    setBounds_eq (by dsimp only; omega) (by dsimp only; omega) (by dsimp only; omega)]
  rfl

lemma place_eq {reused : Option Nat} (hreused : ∀ s ∈ reused, s < p.slotCount)
    (hw : p.write (reused.getD p.slotCount) r = .ok q) :
    place reused r p = (.ok (reused.getD p.slotCount), q) := by
  have hsize : pageSize = 16384 := rfl
  have hslot : Page.slotSize = 4 := rfl
  have hcount := h.count
  have hbegin := h.start
  have hbelow := h.below
  rw [Page.slotLimit_eq] at hcount
  rw [Page.write] at hw
  split at hw
  · cases hw
  · next hroom =>
    have hlimit : reused.getD p.slotCount < Page.slotLimit := by omega
    rw [place, ok_bind (bounds_eq p), ok_bind (minus_eq (by dsimp only; omega)),
      ok_bind (store_eq (by dsimp only; omega))]
    cases reused with
    | some s =>
      simp only [Option.getD_some] at hw hlimit ⊢
      rw [if_pos (Nat.ne_of_lt (hreused s rfl))] at hw
      rw [ok_bind (setSlot_eq hlimit (by dsimp only; omega) (by dsimp only; omega)),
        ok_bind (setBounds_eq (by dsimp only; omega) (by dsimp only; omega) (by dsimp only; omega)),
        ← Except.ok.inj hw]
      rfl
    | none =>
      simp only [Option.getD_none, ne_eq, not_true_eq_false, if_false] at hw hlimit ⊢
      split at hw
      · cases hw
      · rw [ok_bind (fit_eq (by omega)), ok_bind (fit_eq (by omega)),
          ok_bind (setSlot_eq hlimit (by dsimp only; omega) (by dsimp only; omega)),
          ok_bind (setBounds_eq (by dsimp only; omega) (by dsimp only; omega)
            (by dsimp only; omega)), ← Except.ok.inj hw]
        rfl

/-- The page is compacted only if that frees enough. -/
lemma makeRoom_eq (needed : Nat) (hc : p.compact = .ok q) : makeRoom needed p =
    if needed ≤ p.freeSpace then (.ok (), p)
    else if needed ≤ p.freeSpace + (pageSize - p.freeEnd - Page.weight p.liveRecords) then
      (.ok (), q)
    else (.error .pageFull, p) := by
  rw [makeRoom, ok_bind (freeSpace_eq h)]
  by_cases hfree : needed ≤ p.freeSpace
  · rw [if_pos hfree, if_neg (Nat.not_lt.mpr hfree)]
    rfl
  · rw [if_neg hfree, if_pos (Nat.lt_of_not_le hfree),
      ok_bind ((usableSpace_eq h).trans (congrArg (·, p) h.usableSpace_eq))]
    split
    · next hfits =>
      rw [if_neg (Nat.not_le.mpr hfits)]
      rfl
    · next hfits =>
      rw [if_pos (Nat.le_of_not_lt hfits)]
      exact compact_eq h hc

lemma insert_eq (r : Bytes) : insert r p = match p.insert r with
    | .ok (s, q) => (.ok s, q)
    | .error e => (.error e, p) := by
  by_cases hlen : Page.maxRecord < r.length
  · rw [insert, if_pos hlen, Page.insert, if_pos hlen]
    rfl
  obtain ⟨reused, hf, hreused⟩ : ∃ reused, p.findSlot (fun e => !e.live) 0 = .ok reused ∧
      ∀ s ∈ reused, s < p.slotCount := by
    rcases h.findSlot_vacancy with ⟨hv, -, hf⟩ | ⟨-, hf⟩
    · exact ⟨_, hf, by simpa using hv⟩
    · exact ⟨_, hf, by simp⟩
  generalize hneeded : (if reused.isSome then r.length else r.length + Page.slotSize) = needed
  have hplace : ∀ c : Page, c.Wf m → c.slotCount = p.slotCount → needed ≤ c.freeSpace →
      ∃ q, c.write (reused.getD p.slotCount) r = .ok q ∧
        place reused r c = (.ok (reused.getD p.slotCount), q) := by
    intro c hc hcount hfree
    rw [← hneeded] at hfree
    rw [← hcount] at hreused ⊢
    have hroom : reused.getD c.slotCount < c.slotCount ∧ r.length ≤ c.freeSpace ∨
        reused.getD c.slotCount = c.slotCount ∧ r.length + 4 ≤ c.freeSpace := by
      cases reused with
      | none => exact Or.inr ⟨rfl, hfree⟩
      | some s => exact Or.inl ⟨hreused s rfl, hfree⟩
    obtain ⟨q, hw, -⟩ := hc.write_ok hroom
    exact ⟨q, hw, place_eq hc hreused hw⟩
  obtain ⟨c, hc, hcw, -, hcount, hstart, hend, -⟩ := h.compact
  obtain ⟨-, habove, hbelow⟩ := h.space
  have hroom := makeRoom_eq h needed hc
  rw [insert, if_neg hlen]
  change (findSlot _ 0 >>= fun reused => _) p = _
  rw [ok_bind ((findSlot_eq h.count _ 0).trans (congrArg (·, p) hf)), hneeded]
  simp only [Page.insert, hlen, if_false, hf, hneeded, h.usableSpace_eq, hc, bind, Except.bind]
  by_cases hfree : needed ≤ p.freeSpace
  · obtain ⟨q, hw, hp⟩ := hplace p h rfl hfree
    rw [if_pos hfree] at hroom ⊢
    rw [hw]
    exact (ok_bind hroom _).trans hp
  · rw [if_neg hfree] at hroom ⊢
    split at hroom
    · next hfits =>
      have hspace : needed ≤ c.freeSpace := by
        simp only [Page.freeSpace, hstart, hend] at hfits ⊢
        omega
      obtain ⟨q, hw, hp⟩ := hplace c hcw hcount hspace
      rw [if_pos hfits, hw]
      exact (ok_bind hroom _).trans hp
    · next hfits =>
      rw [if_neg hfits]
      exact error_bind hroom _

lemma delete_eq (s : Nat) : delete s p = match p.delete s with
    | .ok q => (.ok (), q)
    | .error e => (.error e, p) := by
  have hrecord := record_eq h s
  cases hr : p.record s with
  | error e =>
    rw [hr] at hrecord
    rw [Page.delete_error hr]
    exact error_bind hrecord _
  | ok r =>
    have hs := Nat.lt_of_lt_of_le (h.record_eq_ok_iff.mp hr).1 h.count
    rw [hr] at hrecord
    rw [Page.delete_ok hr, delete, ok_bind hrecord, setSlot_eq hs (by decide) (by decide)]

lemma update_eq (s : Nat) (r : Bytes) : update s r p = match p.update s r with
    | .ok q => (.ok (), q)
    | .error e => (.error e, p) := by
  have hsize : pageSize = 16384 := rfl
  have hrecord := record_eq h s
  cases hr : p.record s with
  | error e =>
    rw [hr] at hrecord
    rw [Page.update_error hr]
    exact error_bind hrecord _
  | ok r₀ =>
    obtain ⟨hs, hl, rfl⟩ := h.record_eq_ok_iff.mp hr
    have hlimit := Nat.lt_of_lt_of_le hs h.count
    have hin := (h.inside hs hl).2
    rw [hr] at hrecord
    rw [update, ok_bind hrecord]
    by_cases hlen : (p.slice (p.slot s).position (p.slot s).length).length < r.length
    · rw [if_pos hlen, Page.update_full hr hlen]
      rfl
    · rw [if_neg hlen, Page.update_ok hr (Nat.le_of_not_lt hlen)]
      rw [Page.length_slice] at hlen
      change (slot s >>= fun e => _) p = _
      rw [ok_bind (slot_eq hlimit), ok_bind (store_eq (by omega)),
        setSlot_eq hlimit (by dsimp only; omega) (by dsimp only; omega)]

/-- Each edit of a page in place comes to what it should, and none leaves the page. -/
theorem edit_eq (e : PageEdit) : edit e p = p.edit e := by
  cases e with
  | insert r =>
    rw [edit, Page.edit, bind_apply, insert_eq h]
    cases p.insert r <;> rfl
  | delete s =>
    rw [edit, Page.edit, bind_apply, delete_eq h]
    cases p.delete s <;> rfl
  | update s r =>
    rw [edit, Page.edit, bind_apply, update_eq h]
    cases p.update s r <;> rfl
  | compact =>
    obtain ⟨q, hc, -⟩ := h.compact
    rw [edit, Page.edit, ok_bind (compact_eq h hc), hc]
    rfl
  | setNext next => exact ok_bind (setNext_eq next) _

end Changes

lemma after_eq {m : UInt32} (h : p.Wf m) (es : List PageEdit) : after es p = (p.edits es).2 := by
  induction es generalizing p with
  | nil => rfl
  | cons e es ih =>
    rw [after, List.foldl_cons, edit_eq h]
    exact ih (h.edit e).1

/-- A page that was set up and edited in place is laid out properly, and shows what a table does
after the same edits. -/
theorem after_init (p : Page) (m : UInt32) (es : List PageEdit) :
    (after es (init m p).2).Wf m ∧
      (after es (init m p).2).shown = (SlotTable.edits { number := m } es).2 := by
  obtain ⟨hw, -, hshown⟩ := (Page.wf_empty m).edits es
  rw [init_eq, after_eq (Page.wf_empty m), hshown, Page.shown_empty]
  exact ⟨hw, rfl⟩

end PageM
end PagedHeap
