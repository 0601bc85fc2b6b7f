import PagedHeap.PageId

/-! The ways in which a storage operation can fail, and the text of each. -/
namespace PagedHeap

inductive StoreError
  /-- The file system refused or cut short an access. -/
  | io (reason : String)
  | fileExists (name : String)
  | fileNotFound (name : String)
  | fileNotOpen (file : UInt32)
  | fileOpen (name : String)
  | openFailed (name reason : String)
  | pageNotFound (id : PageId)
  | pageNotPinned (id : PageId)
  /-- Every frame of the pool holds a pinned page. -/
  | poolFull
  | pageCorrupted (id : PageId) (reason : String)
  | pageFull
  | recordNotFound (which : String)
  | noCurrentRecord
  | recordTooLong (length limit : Nat)
  | badScanParameter (reason : String)
  | badConfig (reason : String)
  | internal (reason : String)
  /-- The header or a slot of a page points outside the page, so there is nothing to answer. -/
  | outOfPage
  /-- A count of pages or records is as high as it can get. -/
  | countOverflow
  /-- A chain of pages came back to where it had been, so that a search along it has no end. -/
  | endlessChain
  deriving DecidableEq, Repr

namespace StoreError

def message : StoreError → String
  | io reason => "I/O error: " ++ reason
  | fileExists name => "File already exists: " ++ name
  | fileNotFound name => "File not found: " ++ name
  | fileNotOpen file => "File not open: " ++ toString file
  | fileOpen name => "File is open: " ++ name
  | openFailed name reason => "Open of heap file " ++ name ++ " failed: " ++ reason
  | pageNotFound id => "Page not found: " ++ toString id.packed
  | pageNotPinned id => "Page not pinned: " ++ toString id.packed
  | poolFull => "Buffer pool full, unable to allocate frame"
  | pageCorrupted id reason => "Page corrupted: " ++ toString id.packed ++ ", reason: " ++ reason
  | pageFull => "Page full, unable to insert record"
  | recordNotFound which => "Record not found: " ++ which
  | noCurrentRecord => "No current record under the scan cursor"
  | recordTooLong length limit =>
    "Invalid record length: " ++ toString length ++ " bytes (max " ++ toString limit ++ ")"
  | badScanParameter reason => "Bad scan parameter: " ++ reason
  | badConfig reason => "Configuration error: " ++ reason
  | internal reason => "Internal error: " ++ reason
  | outOfPage => "Page layout points outside the page"
  | countOverflow => "Count of pages or records is at its limit"
  | endlessChain => "Page chain has no end"

end StoreError
end PagedHeap
