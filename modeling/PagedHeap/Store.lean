import PagedHeap.Cache

/-! The store: a cache behind a gate. Heap files ask for pages by requests. The gate may refuse any
request, which then reaches nothing, and a journal keeps what came of each. Since pins are counted
round, a pin too many on a page is refused too. -/
namespace PagedHeap

inductive Request
  | alloc (file : UInt32)
  | read (id : PageId)
  | unpin (id : PageId) (dirty : Bool)
  | flush (file : UInt32)
  deriving DecidableEq, Repr

/-- What came of a request. -/
inductive Event
  | allocated (id : PageId)
  | fetched (id : PageId)
  | unpinned (id : PageId)
  | flushed (file : UInt32)
  /-- The request was refused or failed. -/
  | failed (request : Request)
  deriving DecidableEq, Repr

/-- Decides on a request by its number and contents: the failure of a refused one. -/
abbrev Gate := Nat → Request → Option StoreError

/-- A cache, the gate before it, and the events so far with the latest first. -/
structure Store where
  cache : Cache
  gate : Gate := fun _ _ => none
  journal : List Event := []

/-- Computations on a store, which may fail and then keep what they have done so far. -/
abbrev StoreM := ExceptT StoreError (StateM Store)

namespace Store
variable {α : Type}

def pins (s : Store) : Nat :=
  s.journal.countP fun | .allocated _ | .fetched _ => true | _ => false

def unpins (s : Store) : Nat := s.journal.countP fun | .unpinned _ => true | _ => false

/-- Runs a computation on the cache, past the gate. -/
def direct (act : CacheM α) : StoreM α := fun s =>
  let (result, cache) := act s.cache
  (result, { s with cache })

/-- The page that a request is to pin. -/
def wanted? (s : Store) : Request → Option PageId
  | .alloc file => (s.cache.disk.opened.find? file).map fun h => ⟨file, h.pages⟩
  | .read id => some id
  | .unpin .. | .flush _ => none

/-- Why a request does not reach the cache: the gate refuses it, or the page has as many pins as can
be counted. -/
def refusal (s : Store) (r : Request) : Option StoreError :=
  match s.gate s.journal.length r with
  | some e => some e
  | none =>
    if ∃ id ∈ s.wanted? r, s.cache.pool.pins id = Frame.maxPins then some .countOverflow else none

/-- Runs the computation on the cache if the request is let through, and enters what came of it into
the journal. -/
def request (r : Request) (act : CacheM α) (event : α → Event) : StoreM α := fun s =>
  match s.refusal r with
  | some e => (.error e, { s with journal := .failed r :: s.journal })
  | none =>
    match act s.cache with
    | (.ok a, cache) => (.ok a, { s with cache, journal := event a :: s.journal })
    | (.error e, cache) => (.error e, { s with cache, journal := .failed r :: s.journal })

/-- Adds a page of zeros to a file and pins it; gives its number and its frame. -/
def allocPage (file : UInt32) : StoreM (UInt32 × Nat) :=
  request (.alloc file) (Cache.alloc file) fun (number, _) => .allocated ⟨file, number⟩

def readPage (id : PageId) : StoreM Nat :=
  request (.read id) (Cache.read id) fun _ => .fetched id

def unpinPage (id : PageId) (dirty : Bool) : StoreM Unit :=
  request (.unpin id dirty) (Cache.unpin id dirty) fun _ => .unpinned id

def flushFile (file : UInt32) : StoreM Unit :=
  request (.flush file) (Cache.flushFile file) fun _ => .flushed file

def onDisk (operation : Disk → Except StoreError (α × Disk)) : StoreM α :=
  direct (Cache.onDisk operation)

def updateDisk (operation : Disk → Except StoreError Disk) : StoreM Unit :=
  direct (Cache.updateDisk operation)

def createFile (name : String) : StoreM Unit := updateDisk fun d => d.create name

def openFile (name : String) : StoreM UInt32 := onDisk fun d => d.openFile name

def closeFile (file : UInt32) : StoreM Unit := updateDisk fun d => d.closeFile file

def destroyFile (name : String) : StoreM Unit := updateDisk fun d => d.destroy name

def contents (s : Store) (frame : Nat) : Page := s.cache.contents frame

def setContents (frame : Nat) (page : Page) : StoreM Unit :=
  modify fun s => { s with cache := s.cache.setContents frame page }

/-- Runs a computation for its effect; its failure is not reported. -/
def attempt (act : StoreM Unit) : StoreM Unit := tryCatch act fun _ => pure ()

end Store
end PagedHeap
