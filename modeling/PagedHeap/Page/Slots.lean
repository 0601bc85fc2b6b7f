import PagedHeap.Error
import PagedHeap.Page

/-! The layout of a data page. A header of 16 bytes is followed by the slots, which grow upward, and
the records are put at the end of the page, growing downward:

    0      kind of the page        4..5   end of the slots       8..11   number of the page
    2..3   number of slots         6..7   start of the records   12..15  number of the next page

A slot is the position and the length of a record, each in two bytes. No record can lie at position
0, so that position marks a slot whose record was deleted; its slot may be used again. -/
namespace PagedHeap

structure Slot where
  position : Nat
  length : Nat
  deriving DecidableEq, Repr

def Slot.label (slot : Nat) : String := "slot:" ++ toString slot

def Slot.live (e : Slot) : Bool := e.position ≠ 0

namespace Page

def headerSize : Nat := 16

def slotSize : Nat := 4

def slotLimit : Nat := (pageSize - headerSize) / slotSize

/-- The longest record that fits into a page. -/
def maxRecord : Nat := pageSize - headerSize - slotSize

def kind (p : Page) : PageKind := PageKind.ofByte (p.byte 0)

/-- The number of slots, also of those whose records were deleted. -/
def slotCount (p : Page) : Nat := p.word16 2

def freeStart (p : Page) : Nat := p.word16 4

def freeEnd (p : Page) : Nat := p.word16 6

/-- The number that the page was set up with. -/
def number (p : Page) : UInt32 := UInt32.ofNat (p.word32 8)

/-- The number of the page that follows in the chain, if one does. -/
def next? (p : Page) : Option UInt32 :=
  let n := UInt32.ofNat (p.word32 12)
  if n = noPage then none else some n

def freeSpace (p : Page) : Nat := p.freeEnd - p.freeStart

def slot (p : Page) (s : Nat) : Slot :=
  let start := headerSize + slotSize * s
  ⟨p.word16 start, p.word16 (start + 2)⟩

def setSlot (p : Page) (s : Nat) (e : Slot) : Page :=
  let start := headerSize + slotSize * s
  (p.setWord16 start e.position).setWord16 (start + 2) e.length

/-- Writes the number of slots and the bounds of the free space. -/
def setBounds (p : Page) (count start stop : Nat) : Page :=
  ((p.setWord16 2 count).setWord16 4 start).setWord16 6 stop

/-- Links the page to the one that follows it, or makes it the last. -/
def setNext (p : Page) (next : Option UInt32) : Page := p.setWord32 12 (next.getD noPage).toNat

/-- The data page of a number, without records and without a next page. -/
def empty (number : UInt32) : Page :=
  (((blank.put 0 PageKind.heapData.toByte).setBounds 0 headerSize pageSize).setWord32 8
    number.toNat).setNext none

/-- All slots in order. There are none to tell if they do not lie within the page. -/
def slots (p : Page) : Except StoreError (List Slot) :=
  if slotLimit < p.slotCount then .error .outOfPage
  else .ok ((List.range p.slotCount).map p.slot)

/-- The first slot from a number on that is as wanted. The search fails if it leaves the page. -/
def findSlot (p : Page) (wanted : Slot → Bool) (start : Nat) : Except StoreError (Option Nat) :=
  let stop := min p.slotCount slotLimit
  match (List.range' start (stop - start)).find? fun s => wanted (p.slot s) with
  | some s => .ok (some s)
  | none =>
    if start < p.slotCount ∧ slotLimit < p.slotCount then .error .outOfPage else .ok none

def firstRecord (p : Page) : Except StoreError (Option Nat) := p.findSlot Slot.live 0

/-- The next slot with a record after a given one, whether that still has a record or not. -/
def nextRecord (p : Page) (after : Nat) : Except StoreError (Option Nat) :=
  p.findSlot Slot.live (after + 1)

def recordCount (p : Page) : Except StoreError Nat := return (← p.slots).countP Slot.live

def recordBytes (p : Page) : Except StoreError Nat :=
  return ((← p.slots).filter Slot.live).foldr (fun e total => e.length + total) 0

/-- The bytes behind the free space that belong to no record. -/
def reclaimableSpace (p : Page) : Except StoreError Nat :=
  return pageSize - p.freeEnd - (← p.recordBytes)

/-- The bytes that records could take if there were no gaps between them. -/
def usableSpace (p : Page) : Except StoreError Nat := return p.freeSpace + (← p.reclaimableSpace)

end Page
end PagedHeap
