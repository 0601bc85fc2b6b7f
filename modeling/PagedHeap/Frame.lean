import PagedHeap.Page
import PagedHeap.PageId

/-! Frames: the places of a pool that hold one page each. A frame counts the pins of those who use
its page, and remembers by a dirty mark that its contents are to be written back. Writing the
contents does not set the mark; whoever wrote reports it on releasing a pin. Pins are counted in 32
bits and round: one more than can be counted leaves none. -/
namespace PagedHeap

structure Frame where
  /-- The page bound to the frame; `Frame.unassigned` if there is none. -/
  bound : PageId := ⟨noPage, noPage⟩
  count : UInt32 := 0
  dirty : Bool := false
  contents : Page := Page.blank
  deriving DecidableEq

namespace Frame

instance : Inhabited Frame := ⟨{}⟩

/-- The id that a frame without a page carries. A page of this very id cannot be told from it. -/
def unassigned : PageId := ⟨noPage, noPage⟩

def page? (f : Frame) : Option PageId := if f.bound = unassigned then none else some f.bound

/-- The most pins that can be counted. -/
def maxPins : Nat := UInt32.size - 1

def pins (f : Frame) : Nat := f.count.toNat

def pinned (f : Frame) : Bool := f.pins ≠ 0

def pin (f : Frame) : Frame := { f with count := f.count + 1 }

def drop (f : Frame) (dirty : Bool) : Frame :=
  { f with count := f.count - 1, dirty := f.dirty || dirty }

/-- Drops a pin, marking the frame dirty first if asked to. A frame without pins has none to drop
and keeps its mark as it is. -/
def release (f : Frame) (dirty : Bool) : Option Frame :=
  if f.pins = 0 then none else some (f.drop dirty)

def clean (f : Frame) : Frame := { f with dirty := false }

/-- Binds the frame, unpinned and clean, to a page with the given contents. -/
def assign (id : PageId) (contents : Page) : Frame := { bound := id, contents }

def debugText (number : Nat) (f : Frame) : String :=
  let held := match f.page? with
    | none => "None"
    | some id => "Some(" ++ id.debugText ++ ")"
  "BufferFrame \x7b id: FrameId(" ++ toString number ++ "), page_id: " ++ held ++
    ", pins: " ++ toString f.pins ++ ", dirty: " ++ toString f.dirty ++ " \x7d"

def label (number : Nat) : String := "frame:" ++ toString number

theorem pins_lt (f : Frame) : f.pins < UInt32.size := f.count.toNat_lt

theorem pins_pin (f : Frame) : f.pin.pins = (f.pins + 1) % UInt32.size := UInt32.toNat_add ..

theorem pins_pin_of_lt {f : Frame} (h : f.pins < maxPins) : f.pin.pins = f.pins + 1 := by
  rw [pins_pin, Nat.mod_eq_of_lt (Nat.add_lt_of_lt_sub h)]

theorem pins_drop {f : Frame} (h : f.pins ≠ 0) (dirty : Bool) :
    (f.drop dirty).pins = f.pins - 1 := by
  have hle : (1 : UInt32) ≤ f.count := UInt32.le_iff_toNat_le.mpr (Nat.pos_of_ne_zero h)
  exact UInt32.toNat_sub_of_le _ _ hle

@[simp] theorem dirty_drop (f : Frame) (dirty : Bool) :
    (f.drop dirty).dirty = (f.dirty || dirty) := rfl

@[simp] theorem pins_pin_assign (id : PageId) (contents : Page) :
    (assign id contents).pin.pins = 1 := rfl

theorem page?_eq_some_iff (f : Frame) (id : PageId) :
    f.page? = some id ↔ f.bound = id ∧ id ≠ unassigned := by
  unfold page?
  split
  · next h => simp only [reduceCtorEq, false_iff, not_and]; rintro rfl; simp [h]
  · next h => simp only [Option.some.injEq, iff_self_and]; rintro rfl; exact h

end Frame
end PagedHeap
