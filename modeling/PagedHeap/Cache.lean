import PagedHeap.Config
import PagedHeap.Disk
import PagedHeap.Pool

/-! The cache: a pool of frames over a disk. Pages that are not cached are read from the disk, and
dirty pages are written back to it when they are evicted or flushed. -/
namespace PagedHeap

structure Cache where
  pool : Pool
  disk : Disk

/-- Computations on a cache, which may fail and then keep what they have done so far. -/
abbrev CacheM := ExceptT StoreError (StateM Cache)

namespace Cache

/-- The cache that settings ask for, over a tree of files. -/
def ofConfig (config : Config) (tree : FileTree) : Except StoreError Cache := do
  config.validate
  return { pool := Pool.ofSize config.frames, disk := ← Disk.mount config.dataDir tree }

def onDisk {α : Type} (operation : Disk → Except StoreError (α × Disk)) : CacheM α := fun c =>
  match operation c.disk with
  | .ok (a, disk) => (.ok a, { c with disk })
  | .error e => (.error e, c)

def updateDisk (operation : Disk → Except StoreError Disk) : CacheM Unit :=
  onDisk fun d => return ((), ← operation d)

def writeBack : Sink Disk := fun id page disk =>
  match disk.writePage id page with
  | .ok disk => (.ok (), disk)
  | .error e => (.error e, disk)

def onPool {α : Type} (operation : Pool → Disk → Except StoreError α × Pool × Disk) : CacheM α :=
  fun c =>
    let (result, pool, disk) := operation c.pool c.disk
    (result, { pool, disk })

/-- Adds a page of zeros to a file and pins it. -/
def alloc (file : UInt32) : CacheM (UInt32 × Nat) := do
  let number ← onDisk fun d => d.allocPage file
  let frame ← onPool (Pool.claim writeBack ⟨file, number⟩ Page.blank)
  return (number, frame)

/-- Pins a page, reading it from the disk if it is not cached. -/
def read (id : PageId) : CacheM Nat := do
  match (← get).pool.fetch id with
  | some (frame, pool) =>
    modify fun c => { c with pool }
    return frame
  | none =>
    let page ← onDisk fun d => return (← d.readPage id, d)
    onPool (Pool.claim writeBack id page)

def unpin (id : PageId) (dirty : Bool) : CacheM Unit := fun c =>
  match c.pool.unpin id dirty with
  | .ok pool => (.ok (), { c with pool })
  | .error e => (.error e, c)

def flushFile (file : UInt32) : CacheM Unit := do
  let _ ← onPool (Pool.flush writeBack fun id => id.file = file)

def flushAll : CacheM Nat := onPool (Pool.flush writeBack fun _ => true)

def contents (c : Cache) (frame : Nat) : Page := (c.pool.frame frame).contents

def setContents (c : Cache) (frame : Nat) (page : Page) : Cache :=
  { c with pool := c.pool.modifyFrame frame fun f => { f with contents := page } }

/-- Pins a page, edits it and unpins it again, dirty or not. The pin is dropped also if the edit
fails, and then the page is as it was. -/
def edit {α : Type} (id : PageId) (dirty : Bool) (change : Page → Except StoreError (α × Page)) :
    CacheM α := do
  let frame ← read id
  let result := change ((← get).contents frame)
  if let .ok (_, page) := result then modify fun c => c.setContents frame page
  unpin id dirty
  return (← result).1

end Cache
end PagedHeap
