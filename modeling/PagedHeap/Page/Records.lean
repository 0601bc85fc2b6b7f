import PagedHeap.Page.Slots

/-! Records in a data page: reading, inserting, deleting and overwriting them, and closing the gaps
between them. Records keep their slots for as long as they live. An operation that fails changes
nothing, and one whose header or slots point outside the page fails with `outOfPage`. -/
namespace PagedHeap.Page

def record (p : Page) (s : Nat) : Except StoreError Bytes :=
  if p.slotCount ≤ s then .error (.recordNotFound (Slot.label s ++ " does not exist"))
  else if slotLimit ≤ s then .error .outOfPage
  else
    let e := p.slot s
    if !e.live then .error (.recordNotFound (Slot.label s ++ " is deleted"))
    else if pageSize < e.position + e.length then .error .outOfPage
    else .ok (p.slice e.position e.length)

def records (p : Page) : Except StoreError (List (Nat × Bytes)) := do
  let live := (List.range p.slotCount).zip (← p.slots) |>.filter fun e => e.2.live
  live.mapM fun e => return (e.1, ← p.record e.1)

/-- Puts records one below the other, the first of them below a given position, and sets their
slots; gives where the last one starts. -/
def stack : List (Nat × Bytes) → Page → Nat → Except StoreError (Page × Nat)
  | [], p, bottom => .ok (p, bottom)
  | (s, r) :: rest, p, bottom =>
    if bottom < r.length then .error .outOfPage
    else
      let start := bottom - r.length
      stack rest ((p.splice start r).setSlot s ⟨start, r.length⟩) start

/-- Moves the records to the end of the page, without gaps and in the order of their slots. -/
def compact (p : Page) : Except StoreError Page := do
  let (q, bottom) ← stack (← p.records) p pageSize
  return q.setBounds p.slotCount p.freeStart bottom

/-- Writes a record below the others and sets its slot, which may be one past the last. -/
def write (p : Page) (s : Nat) (r : Bytes) : Except StoreError Page :=
  if pageSize < p.freeEnd ∨ p.freeEnd < r.length ∨ slotLimit ≤ s then .error .outOfPage
  else
    let start := p.freeEnd - r.length
    let q := (p.splice start r).setSlot s ⟨start, r.length⟩
    if s ≠ p.slotCount then .ok (q.setBounds p.slotCount p.freeStart start)
    else if UInt16.size ≤ p.freeStart + slotSize then .error .outOfPage
    else .ok (q.setBounds (p.slotCount + 1) (p.freeStart + slotSize) start)

/-- Inserts a record into the first deleted slot, or into a new one if there is none; gives its
slot. The page is compacted first if only that makes room. -/
def insert (p : Page) (r : Bytes) : Except StoreError (Nat × Page) := do
  if maxRecord < r.length then throw (.recordTooLong r.length maxRecord)
  let reused ← p.findSlot (fun e => !e.live) 0
  let needed := if reused.isSome then r.length else r.length + slotSize
  let s := reused.getD p.slotCount
  if needed ≤ p.freeSpace then return (s, ← p.write s r)
  else if needed ≤ (← p.usableSpace) then return (s, ← (← p.compact).write s r)
  else throw .pageFull

def delete (p : Page) (s : Nat) : Except StoreError Page := do
  let _ ← p.record s
  return p.setSlot s ⟨0, 0⟩

/-- Overwrites the record in a slot by one that is not longer. -/
def update (p : Page) (s : Nat) (r : Bytes) : Except StoreError Page := do
  if (← p.record s).length < r.length then throw .pageFull
  let start := (p.slot s).position
  return (p.splice start r).setSlot s ⟨start, r.length⟩

end PagedHeap.Page
