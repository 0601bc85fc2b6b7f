import PagedHeap.FileHeader
import PagedHeap.Page.Records
import PagedHeap.RecordId
import PagedHeap.Store

/-! Heap files: records in the data pages of a file, chained behind a header page. An open heap file
keeps its header page pinned, and at most one data page, its current page. Every pin it takes is
given back exactly once. What the header says is always read from the header page, so that all who
have the file open see what the others changed. -/
namespace PagedHeap

/-- A page pinned by an open heap file, and whether it is to be marked dirty when it is released. -/
structure PinnedPage where
  number : UInt32
  frame : Nat
  dirty : Bool := false
  deriving DecidableEq, Repr

structure HeapFile where
  id : UInt32
  name : String
  header : Option PinnedPage
  current : Option PinnedPage
  /-- The record visited or inserted last. -/
  cursor : Option RecordId := none
  isOpen : Bool := true
  deriving DecidableEq, Repr

/-- Computations on something held open and on the store. They may fail, and then both keep what was
done so far. -/
abbrev HandleM (σ : Type) := ExceptT StoreError (StateT σ (StateM Store))

namespace HandleM
variable {σ τ α : Type}

def ofStore (act : StoreM α) : HandleM σ α := fun h s =>
  let (result, s) := act s
  ((result, h), s)

instance : MonadLift StoreM (HandleM σ) := ⟨ofStore⟩

def held : HandleM σ σ := fun h s => ((.ok h, h), s)

def hold (h : σ) : HandleM σ Unit := fun _ s => ((.ok (), h), s)

def change (f : σ → σ) : HandleM σ Unit := fun h s => ((.ok (), f h), s)

def contents (frame : Nat) : HandleM σ Page := fun h s => ((.ok (s.contents frame), h), s)

/-- A computation on a part of what is held open. -/
def onPart (part : σ → τ) (replace : σ → τ → σ) (act : HandleM τ α) : HandleM σ α := fun h s =>
  let ((result, t), s) := act (part h) s
  ((result, replace h t), s)

/-- Runs a computation and then lets go of what was held open. -/
def finish (act : HandleM σ α) (h : σ) : StoreM α := fun s =>
  let ((result, _), s) := act h s
  (result, s)

/-- Runs a computation for its effect; its failure is not reported. -/
def attempt (act : HandleM σ Unit) : HandleM σ Unit := tryCatch act fun _ => pure ()

/-- Runs all steps, also after failures, and then reports the first failure. -/
def settle : List (HandleM σ Unit) → HandleM σ Unit
  | [] => pure ()
  | step :: rest => fun h s =>
    match step h s with
    | ((.ok _, h), s) => settle rest h s
    | ((.error e, h), s) =>
      let ((_, h), s) := settle rest h s
      ((.error e, h), s)

end HandleM

abbrev FileM := HandleM HeapFile

namespace HeapFile
open HandleM

def currentPage (f : HeapFile) : Option UInt32 := f.current.map (·.number)

/-- What the header page holds; nothing once the file is closed, or if the page is no header. -/
def fileHeader (f : HeapFile) (s : Store) : Option FileHeader := do
  FileHeader.ofPage (s.contents (← f.header).frame)

def recordCount (f : HeapFile) (s : Store) : UInt32 := ((f.fileHeader s).map (·.records)).getD 0

/-- The number of pages by the header, the header page included. -/
def pageCount (f : HeapFile) (s : Store) : UInt32 := ((f.fileHeader s).map (·.pages)).getD 0

def firstPage (f : HeapFile) (s : Store) : UInt32 := ((f.fileHeader s).map (·.first)).getD 0

def lastPage (f : HeapFile) (s : Store) : UInt32 := ((f.fileHeader s).map (·.last)).getD 0

/-- Gives back the pin of the current page, if there is one. -/
def releaseCurrent : FileM Unit := do
  let f ← held
  match f.current with
  | none => pure ()
  | some p =>
    hold { f with current := none }
    Store.unpinPage ⟨f.id, p.number⟩ p.dirty

def releaseHeader : FileM Unit := do
  let f ← held
  match f.header with
  | none => pure ()
  | some p =>
    hold { f with header := none }
    Store.unpinPage ⟨f.id, p.number⟩ p.dirty

def pinCurrent (number : UInt32) : FileM Unit := do
  let f ← held
  let frame ← Store.readPage ⟨f.id, number⟩
  hold { f with current := some { number, frame } }

/-- Makes a page the current one, in place of another. -/
def switchTo (number : UInt32) : FileM Unit := do
  releaseCurrent
  pinCurrent number

def readCurrent (slot : Nat) : FileM Bytes := do
  let f ← held
  match f.current with
  | none => throw .noCurrentRecord
  | some p =>
    let page ← contents p.frame
    if page.kind ≠ .heapData then
      throw (.pageCorrupted ⟨f.id, p.number⟩ "not a heap data page")
    page.record slot

/-- Changes the current page and marks it dirty. If the change fails the page stays as it is. -/
def editCurrent {α : Type} (edit : Page → Except StoreError (α × Page)) : FileM α := do
  let f ← held
  match f.current with
  | none => throw .noCurrentRecord
  | some p =>
    let (a, page) ← edit (← contents p.frame)
    Store.setContents p.frame page
    hold { f with current := some { p with dirty := true } }
    return a

/-- Changes the header and marks its page dirty. If the change fails the header stays as it is. -/
def editHeader (edit : FileHeader → Except StoreError FileHeader) : FileM Unit := do
  let f ← held
  match f.header with
  | none => throw (.fileNotOpen f.id)
  | some p =>
    let page ← contents p.frame
    match FileHeader.ofPage page with
    | none => throw (.pageCorrupted ⟨f.id, p.number⟩ "not a heap file header")
    | some h =>
      Store.setContents p.frame ((← edit h).toPage page)
      hold { f with header := some { p with dirty := true } }

def markDirty : FileM Unit :=
  change fun f => { f with current := f.current.map fun p => { p with dirty := true } }

/-- Gives back both pins, writes the dirty pages of the file and closes it, each also if another
fails; the first failure is reported. A file that is closed already stays as it is. -/
def shutdown : FileM Unit := do
  let f ← held
  if f.isOpen then
    hold { f with isOpen := false }
    settle [releaseCurrent, releaseHeader, Store.flushFile f.id, Store.closeFile f.id]

def close (f : HeapFile) : StoreM Unit := finish shutdown f

/-- Reads a record. The page of the record becomes the current one, unless the record cannot be read
from it; then it stays current only if it was before. -/
def readRecord (r : RecordId) : FileM Bytes := do
  let f ← held
  if f.header.map (·.number) = some r.page then
    throw (.recordNotFound ("page " ++ toString r.page ++ " is the header page"))
  let switched := f.currentPage ≠ some r.page
  if switched then switchTo r.page
  let bs ← tryCatch (readCurrent r.slot) fun e => do
    if switched then attempt releaseCurrent
    throw e
  change fun f => { f with cursor := some r }
  return bs

end HeapFile

namespace Store
open HandleM

/-- Pins the header page of an open file and the first data page that it names. If that fails no pin
is kept. -/
def pinFirst (file : UInt32) : StoreM (PinnedPage × PinnedPage) := do
  let number ← onDisk fun d => return (← d.firstPage file, d)
  let frame ← readPage ⟨file, number⟩
  match FileHeader.ofPage ((← get).contents frame) with
  | none =>
    Store.attempt (unpinPage ⟨file, number⟩ false)
    throw (.pageCorrupted ⟨file, number⟩ "not a heap file header")
  | some h =>
    let first ← tryCatch (readPage ⟨file, h.first⟩) fun e => do
      Store.attempt (unpinPage ⟨file, number⟩ false)
      throw e
    return ({ number, frame }, { number := h.first, frame := first })

/-- Opens a heap file, with its first data page as the current one. -/
def openHeap (name : String) : StoreM HeapFile := do
  let id ← tryCatch (openFile name) fun e => throw (.openFailed name e.message)
  let (header, current) ← tryCatch (pinFirst id) fun e => do
    Store.attempt (closeFile id)
    throw e
  return { id, name, header := some header, current := some current }

/-- Sets up the header page and the first data page of a new heap file. -/
def formatHeap (file : UInt32) (name : String) : HandleM Unit Unit := do
  let (header, headerFrame) ← allocPage file
  let (data, dataFrame) ← tryCatch (allocPage file) fun e => do
    Store.attempt (unpinPage ⟨file, header⟩ false)
    throw e
  setContents dataFrame (Page.empty data)
  setContents headerFrame ((FileHeader.new name data).toPage (← HandleM.contents headerFrame))
  settle [unpinPage ⟨file, data⟩ true, unpinPage ⟨file, header⟩ true]

/-- Creates a heap file without records. The file is closed again also if setting it up fails. -/
def createHeap (name : String) : StoreM Unit := do
  createFile name
  let file ← openFile name
  finish (settle [formatHeap file name >>= fun _ => flushFile file, closeFile file]) ()

def destroyHeap (name : String) : StoreM Unit := destroyFile name

end Store
end PagedHeap
