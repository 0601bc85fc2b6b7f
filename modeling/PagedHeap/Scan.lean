import PagedHeap.HeapFile
import PagedHeap.Predicate

/-! Scans: a heap file read forward, page by page along the chain and slot by slot in each page,
with a filter on the records that are shown. The scan stands on the record of the file's cursor, if
that is on the current page; it can be marked, and set back to its mark. -/
namespace PagedHeap

structure Mark where
  page : Option UInt32
  cursor : Option RecordId := none
  finished : Bool := false
  deriving DecidableEq, Repr

structure Scan where
  file : HeapFile
  filter : Option Predicate := none
  mark : Mark
  /-- Whether the end of the chain was reached, or the scan was ended. -/
  finished : Bool := false

abbrev ScanM := HandleM Scan

namespace Scan
open HandleM

def onFile {α : Type} (act : FileM α) : ScanM α :=
  onPart Scan.file (fun scan file => { scan with file }) act

def position (scan : Scan) : Mark := ⟨scan.file.currentPage, scan.file.cursor, scan.finished⟩

/-- The record under the cursor, if it is on the current page. -/
def currentId : ScanM RecordId := do
  let file := (← held).file
  match file.cursor with
  | some r => if file.currentPage = some r.page then return r else throw .noCurrentRecord
  | none => throw .noCurrentRecord

/-- Sets the filter with these parameters, or removes it if there is no value to compare with. -/
def start (offset length : Nat) (type : FieldType) (value : Option Bytes)
    (comparison : Comparison) : ScanM Unit := do
  match value with
  | none => change fun scan => { scan with filter := none }
  | some value =>
    let filter ← Predicate.new offset length type value comparison
    change fun scan => { scan with filter := some filter }

inductive Step
  | onward
  /-- The search has ended at a record, or at the end of the chain. -/
  | done (found : Option RecordId)

/-- Goes to the next record on the current page, or else to the next page. -/
def step : ScanM Step := do
  let scan ← held
  match scan.file.current with
  | none => if scan.finished then return .done none else throw .noCurrentRecord
  | some p =>
    let page ← contents p.frame
    let candidate ← match scan.file.cursor with
      | none => page.firstRecord
      | some r => page.nextRecord r.slot
    match candidate with
    | some slot =>
      let record ← page.record slot
      let r : RecordId := ⟨p.number, slot⟩
      hold { scan with file := { scan.file with cursor := some r } }
      if scan.filter.all fun f => f.holds record then return .done (some r) else return .onward
    | none =>
      onFile HeapFile.releaseCurrent
      onFile (change fun f => { f with cursor := none })
      match page.next? with
      | none =>
        change fun scan => { scan with finished := true }
        return .done none
      | some number =>
        onFile (HeapFile.pinCurrent number)
        return .onward

/-- Repeats steps, at most so many, until the search has ended. -/
def steps : Nat → ScanM (Option RecordId)
  | 0 => throw .endlessChain
  | k+1 => do
    match ← step with
    | .done found => return found
    | .onward => steps k

/-- A bound on the pages that a walk along a chain can visit without coming back: those that the
file has on the disk, and those that are cached, each as it is in its frame and as it is on the
disk. -/
def pageBound (scan : Scan) (s : Store) : Nat :=
  match s.cache.disk.numPages scan.file.id with
  | .ok pages => 2 * (pages.toNat + s.cache.pool.size + 1)
  | .error _ => 2 * (s.cache.pool.size + 1)

/-- Advances to the next record that passes the filter; there is none at the end of the chain. On
each page a search takes at most one step for each slot, and one to leave it. -/
def next : ScanM (Option RecordId) := fun scan s =>
  steps (scan.pageBound s * 65537) scan s

/-- The record under the cursor. -/
def current : ScanM Bytes := do
  let r ← currentId
  onFile (HeapFile.readCurrent r.slot)

def setMark : ScanM Unit := change fun scan => { scan with mark := scan.position }

/-- Goes back to the mark. If that is on another page, the current page is released first. -/
def reset : ScanM Unit := do
  let scan ← held
  if scan.mark.page ≠ scan.file.currentPage then
    onFile HeapFile.releaseCurrent
    match scan.mark.page with
    | none => pure ()
    | some number => onFile (HeapFile.pinCurrent number)
  change fun scan => { scan with
    file := { scan.file with cursor := scan.mark.cursor }, finished := scan.mark.finished }

def delete : ScanM Unit := do
  let r ← currentId
  onFile do
    HeapFile.editCurrent fun page => return ((), ← page.delete r.slot)
    HeapFile.editHeader fun h => .ok h.dropRecord

/-- Overwrites the record under the cursor by one that is not longer. -/
def update (record : Bytes) : ScanM Unit := do
  let r ← currentId
  onFile (HeapFile.editCurrent fun page => return ((), ← page.update r.slot record))

/-- Releases the current page and ends the scan. -/
def stop : ScanM Unit := do
  change fun scan => { scan with finished := true }
  onFile HeapFile.releaseCurrent

/-- Reads a record and moves the cursor to it, so that the scan goes on from there. -/
def readRecord (r : RecordId) : ScanM Bytes := do
  let record ← onFile (HeapFile.readRecord r)
  change fun scan => { scan with finished := false }
  return record

/-- The next records that pass the filter with their contents, at most so many. -/
def collect : Nat → ScanM (List (RecordId × Bytes))
  | 0 => return []
  | k+1 => do
    match ← next with
    | none => return []
    | some r =>
      let record ← current
      return (r, record) :: (← collect k)

def close : ScanM Unit := onFile HeapFile.shutdown

end Scan

/-- Opens a heap file for scanning, before its first record. -/
def Store.openScan (name : String) : StoreM Scan := do
  let file ← openHeap name
  return { file, mark := { page := file.currentPage } }

end PagedHeap
