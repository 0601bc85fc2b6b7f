/-! Choice of a victim by the clock rule. Every access marks its frame. A hand goes round the
frames: one that may not be taken is passed over, a marked one loses its mark and is passed over,
and the first that is neither is taken. Two rounds are enough, since the first clears the marks. -/
namespace PagedHeap

structure Clock where
  marks : Array Bool
  hand : Nat := 0
  deriving DecidableEq, Repr

namespace Clock

/-- The clock of `n` frames, none of them marked. -/
def ofSize (n : Nat) : Clock := ⟨Array.replicate n false, 0⟩

def size (c : Clock) : Nat := c.marks.size

def marked (c : Clock) (i : Nat) : Bool := c.marks[i]?.getD false

/-- Marks a frame. A number that is no frame's is ignored. -/
def access (c : Clock) (i : Nat) : Clock := { c with marks := c.marks.setIfInBounds i true }

def clear (c : Clock) (i : Nat) : Clock := { c with marks := c.marks.setIfInBounds i false }

/-- Moves the hand to the next frame, and from the last to the first. -/
def advance (c : Clock) : Clock := { c with hand := (c.hand + 1) % c.size }

/-- What came of going round: the frame taken, those looked at in order, and the clock after. -/
structure Sweep where
  victim : Option Nat
  asked : List Nat
  clock : Clock
  deriving DecidableEq, Repr

/-- Looks at one more frame, for at most the given number of times. -/
def sweepFrom (evictable : Nat → Bool) : Nat → Clock → Sweep
  | 0, c => ⟨none, [], c⟩
  | k+1, c =>
    let i := c.hand
    if evictable i && !c.marked i then ⟨some i, [i], c.advance⟩
    else
      let c := if evictable i then c.clear i else c
      let rest := sweepFrom evictable k c.advance
      { rest with asked := i :: rest.asked }

/-- Goes round twice at most, looking for a frame that may be taken. -/
def sweep (evictable : Nat → Bool) (c : Clock) : Sweep := sweepFrom evictable (2 * c.size) c

/-- What came of going round, with the frames by their ids. An id has 32 bits, and is the number of
its frame without the upper ones. -/
structure Eviction where
  victim : Option UInt32
  asked : List UInt32
  clock : Clock

def Sweep.byIds (swept : Sweep) : Eviction :=
  ⟨swept.victim.map UInt32.ofNat, swept.asked.map UInt32.ofNat, swept.clock⟩

/-- Chooses a frame, asking about frames by their ids. -/
def evict (canEvict : UInt32 → Bool) (c : Clock) : Eviction :=
  (c.sweep fun i => canEvict (UInt32.ofNat i)).byIds

@[simp] theorem size_ofSize (n : Nat) : (ofSize n).size = n := by simp [ofSize, size]

@[simp] theorem size_access (c : Clock) (i : Nat) : (c.access i).size = c.size := by
  simp [access, size]

@[simp] theorem size_clear (c : Clock) (i : Nat) : (c.clear i).size = c.size := by
  simp [clear, size]

@[simp] theorem size_advance (c : Clock) : c.advance.size = c.size := rfl

example :
    ((ofSize 2).access 0 |>.sweep fun _ => true) = ⟨some 1, [0, 1], ⟨#[false, false], 0⟩⟩ := by
  decide

example : ((ofSize 1).access 0 |>.sweep fun _ => true) = ⟨some 0, [0, 0], ⟨#[false], 0⟩⟩ := by
  decide

end Clock
end PagedHeap
