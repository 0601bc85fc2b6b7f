import PagedHeap.Error
import PagedHeap.Page

/-! The settings of a store: where its files live, how many pages it caches, and whether writes are
forced to stable storage. -/
namespace PagedHeap

structure Config where
  dataDir : String := "./data"
  frames : Nat := 1024
  fsync : Bool := true
  deriving DecidableEq, Repr

namespace Config

/-- The bytes taken by the cached pages, if their number fits into 64 bits. -/
def poolBytes (c : Config) : Option Nat :=
  if c.frames * pageSize < UInt64.size then some (c.frames * pageSize) else none

/-- Refuses settings under which no store can work: no frame at all, or no directory. -/
def validate (c : Config) : Except StoreError Unit :=
  if c.frames = 0 then .error (.badConfig "buffer_pool_frames must be at least 1")
  else if c.dataDir.isEmpty then .error (.badConfig "data_dir is empty")
  else .ok ()

end Config
end PagedHeap
