import PagedHeap.Clock
import PagedHeap.Error
import PagedHeap.Frame
import PagedHeap.Table

/-! The pool: a fixed number of frames that cache pages. It finds the frame of a page by a table,
takes frames for new pages from a free list and then from the clock, and hands the contents of dirty
pages to a `Sink` before it gives them up. It reads and writes no file itself. -/
namespace PagedHeap

/-- Where contents of pages are written to. A write is granted or fails, and either may change what
lies behind the sink. -/
abbrev Sink (σ : Type) := PageId → Page → σ → Except StoreError Unit × σ

structure Pool where
  frames : Array Frame
  table : Table PageId Nat := {}
  /-- The frames that were never used, in the order in which they will be. -/
  free : List Nat
  clock : Clock

namespace Pool
variable {σ : Type}

def ofSize (n : Nat) : Pool :=
  { frames := Array.replicate n {}, free := List.range n, clock := Clock.ofSize n }

def size (pool : Pool) : Nat := pool.frames.size

def frame (pool : Pool) (i : Nat) : Frame := pool.frames[i]?.getD {}

def modifyFrame (pool : Pool) (i : Nat) (change : Frame → Frame) : Pool :=
  { pool with frames := pool.frames.modify i change }

def find? (pool : Pool) (id : PageId) : Option Nat := pool.table.find? id

def contains (pool : Pool) (id : PageId) : Bool := pool.table.contains id

def cached (pool : Pool) (id : PageId) : Option (Nat × Frame) :=
  (pool.find? id).map fun i => (i, pool.frame i)

/-- The pins of a page; there are none of a page that is not cached. -/
def pins (pool : Pool) (id : PageId) : Nat := ((pool.cached id).map fun e => e.2.pins).getD 0

/-- Adds a pin to a frame and marks it as accessed. -/
def pinFrame (pool : Pool) (i : Nat) : Pool :=
  { pool.modifyFrame i Frame.pin with clock := pool.clock.access i }

def forget (pool : Pool) (id : PageId) : Pool := { pool with table := pool.table.erase id }

/-- Binds a frame to a page, pinned once and marked as accessed. -/
def place (pool : Pool) (i : Nat) (id : PageId) (contents : Page) : Pool :=
  let pool := (pool.modifyFrame i fun _ => Frame.assign id contents).pinFrame i
  { pool with table := pool.table.insert id i }

def fetch (pool : Pool) (id : PageId) : Option (Nat × Pool) :=
  (pool.find? id).map fun i => (i, pool.pinFrame i)

/-- Makes a frame available: an unused one if there is one, otherwise the unpinned one that the
clock chooses. Its page leaves the pool, after its contents went to the sink if they are dirty; if
that fails it stays as it is. -/
def vacate (sink : Sink σ) (pool : Pool) (s : σ) : Except StoreError Nat × Pool × σ :=
  match pool.free with
  | i :: rest => (.ok i, { pool with free := rest }, s)
  | [] =>
    let swept := pool.clock.sweep fun i => !(pool.frame i).pinned
    let pool := { pool with clock := swept.clock }
    match swept.victim with
    | none => (.error .poolFull, pool, s)
    | some i =>
      let victim := pool.frame i
      match victim.page? with
      | none => (.ok i, pool, s)
      | some old =>
        if victim.dirty then
          match sink old victim.contents s with
          | (.error e, s) => (.error e, pool, s)
          | (.ok _, s) => (.ok i, (pool.modifyFrame i Frame.clean).forget old, s)
        else (.ok i, pool.forget old, s)

/-- Pins a page and gives its frame. A page that is not cached is given a frame, with the contents
given; a page that is cached keeps its own. -/
def claim (sink : Sink σ) (id : PageId) (contents : Page) (pool : Pool) (s : σ) :
    Except StoreError Nat × Pool × σ :=
  match pool.fetch id with
  | some (i, pool) => (.ok i, pool, s)
  | none =>
    match pool.vacate sink s with
    | (.error e, pool, s) => (.error e, pool, s)
    | (.ok i, pool, s) => (.ok i, pool.place i id contents, s)

def unpin (pool : Pool) (id : PageId) (dirty : Bool) : Except StoreError Pool :=
  match pool.find? id with
  | none => .error (.pageNotPinned id)
  | some i =>
    match (pool.frame i).release dirty with
    | none => .error (.pageNotPinned id)
    | some released => .ok (pool.modifyFrame i fun _ => released)

/-- Writes out the contents of the given frames in order and clears their marks. Stops at the first
write that fails; otherwise gives the number of writes. -/
def flushEach (sink : Sink σ) : List (PageId × Nat) → Pool → σ → Except StoreError Nat × Pool × σ
  | [], pool, s => (.ok 0, pool, s)
  | (id, i) :: rest, pool, s =>
    match sink id (pool.frame i).contents s with
    | (.error e, s) => (.error e, pool, s)
    | (.ok _, s) =>
      let (written, pool, s) := flushEach sink rest (pool.modifyFrame i Frame.clean) s
      (written.map (· + 1), pool, s)

/-- The cached dirty pages among those selected, with their frames, in the order of their ids. -/
def dirtyPages (pool : Pool) (select : PageId → Bool) : List (PageId × Nat) :=
  (pool.table.entries.filter fun e => select e.1 && (pool.frame e.2).dirty).mergeSort
    fun a b => a.1.packed ≤ b.1.packed

/-- Writes out the dirty pages among those selected, in the order of their ids. -/
def flush (sink : Sink σ) (select : PageId → Bool) (pool : Pool) (s : σ) :
    Except StoreError Nat × Pool × σ :=
  flushEach sink (pool.dirtyPages select) pool s

/-- Writes out one page if it is cached and dirty, and tells whether it was. -/
def flushPage (sink : Sink σ) (id : PageId) (pool : Pool) (s : σ) :
    Except StoreError Bool × Pool × σ :=
  let (written, pool, s) := pool.flush sink (fun other => other = id) s
  (written.map (· ≠ 0), pool, s)

structure Stats where
  total : Nat
  free : Nat
  used : Nat
  pinned : Nat
  dirty : Nat
  deriving DecidableEq, Repr

/-- How many frames there are, are unused, hold a page, are pinned and are dirty. -/
def stats (pool : Pool) : Stats where
  total := pool.size
  free := pool.free.length
  used := pool.table.size
  pinned := pool.table.entries.countP fun e => (pool.frame e.2).pinned
  dirty := pool.table.entries.countP fun e => (pool.frame e.2).dirty

@[simp] theorem size_ofSize (n : Nat) : (ofSize n).size = n := by simp [ofSize, size]

@[simp] theorem size_modifyFrame (pool : Pool) (i : Nat) (change : Frame → Frame) :
    (pool.modifyFrame i change).size = pool.size := by simp [modifyFrame, size]

theorem frame_modifyFrame (pool : Pool) (i j : Nat) (change : Frame → Frame) :
    (pool.modifyFrame i change).frame j =
      if i = j ∧ j < pool.size then change (pool.frame j) else pool.frame j := by
  by_cases hj : j < pool.size
  · have hj' : j < pool.frames.size := hj
    simp only [frame, modifyFrame, Array.getElem?_modify, Array.getElem?_eq_getElem hj']
    by_cases hij : i = j <;> simp [hij, hj]
  · have hj' : pool.frames.size ≤ j := Nat.le_of_not_lt hj
    simp [frame, modifyFrame, Array.getElem?_modify, Array.getElem?_eq_none hj', hj]

end Pool
end PagedHeap
