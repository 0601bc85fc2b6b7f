import PagedHeap.HeapFile

/-! Insertion. Records are put into the last page of the chain. When it is full a new page is linked
behind it, and the record goes there. Others may have appended pages since this handle last looked,
so that each insertion first asks the header which page is the last. -/
namespace PagedHeap
namespace HeapFile
open HandleM

def seekLast : FileM Unit := fun f s =>
  let last := f.lastPage s
  if f.currentPage = some last then ((.ok (), f), s) else switchTo last f s

/-- Inserts a record into the last page, and counts it. -/
def insertLast (r : Bytes) : FileM RecordId := do
  seekLast
  let slot ← editCurrent fun page => page.insert r
  let f ← held
  match f.current with
  | none => throw .noCurrentRecord
  | some p =>
    let id : RecordId := ⟨p.number, slot⟩
    hold { f with cursor := some id }
    editHeader FileHeader.addRecord
    return id

/-- Links a new page behind the current one and makes it current. If no page is to be had nothing
has changed; what was done before a later failure stays. -/
def appendPage : FileM Unit := do
  let f ← held
  match f.current with
  | none => throw (.internal "no current page to link a new page to")
  | some old =>
    let (number, frame) ← Store.allocPage f.id
    Store.setContents frame (Page.empty number)
    Store.setContents old.frame ((← contents old.frame).setNext (some number))
    hold { f with current := some { number, frame, dirty := true }, cursor := none }
    Store.unpinPage ⟨f.id, old.number⟩ true
    editHeader fun h => h.addPage number

def insert (r : Bytes) : FileM RecordId := do
  if Page.maxRecord < r.length then throw (.recordTooLong r.length Page.maxRecord)
  tryCatch (insertLast r) fun e => do
    if e = .pageFull then
      appendPage
      insertLast r
    else throw e

/-- Closes a file opened for insertion. Its current page counts as changed. -/
def closeInsertion : FileM Unit := do
  markDirty
  shutdown

end HeapFile

/-- Opens a heap file for insertion, with its last page as the current one. -/
def Store.openInsertion (name : String) : StoreM HeapFile := do
  let f ← openHeap name
  HandleM.finish (do
    tryCatch HeapFile.seekLast fun e => do
      HandleM.attempt HeapFile.closeInsertion
      throw e
    HandleM.held) f

end PagedHeap
