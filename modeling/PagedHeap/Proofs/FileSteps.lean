import PagedHeap.HeapFile.Insert
import PagedHeap.Proofs.Computation
import PagedHeap.Scan

/-! What the single steps of an open heap file come to: each is one request to the store, or one
change of a page in its frame, together with a change of what is held open. -/
namespace PagedHeap

/-- The store after the contents of a frame were replaced. -/
def Store.overwrite (s : Store) (frame : Nat) (page : Page) : Store :=
  { s with cache := s.cache.setContents frame page }

lemma Store.setContents_apply (frame : Nat) (page : Page) (s : Store) :
    Store.setContents frame page s = (.ok (), s.overwrite frame page) := rfl

namespace HeapFile
open HandleM
variable {f : HeapFile} {s : Store} {p : PinnedPage} {α : Type}

lemma releaseCurrent_none (h : f.current = none) : releaseCurrent f s = ((.ok (), f), s) := by
  rw [releaseCurrent, held_bind, h]
  rfl

lemma releaseCurrent_some (h : f.current = some p) : releaseCurrent f s =
    (((Store.unpinPage ⟨f.id, p.number⟩ p.dirty s).1, { f with current := none }),
      (Store.unpinPage ⟨f.id, p.number⟩ p.dirty s).2) := by
  rw [releaseCurrent, held_bind, h]
  rfl

lemma pinCurrent_apply (n : UInt32) : pinCurrent n f s =
    match Store.readPage ⟨f.id, n⟩ s with
    | (.ok i, s') => ((.ok (), { f with current := some { number := n, frame := i } }), s')
    | (.error e, s') => ((.error e, f), s') := by
  rw [pinCurrent, held_bind, lift_store_bind]
  rcases Store.readPage ⟨f.id, n⟩ s with ⟨_ | _, _⟩ <;> rfl

lemma readCurrent_none (slot : Nat) (h : f.current = none) :
    readCurrent slot f s = ((.error .noCurrentRecord, f), s) := by
  rw [readCurrent, held_bind, h]
  rfl

lemma readCurrent_some (slot : Nat) (h : f.current = some p) : readCurrent slot f s =
    ((if (s.contents p.frame).kind ≠ .heapData
        then .error (.pageCorrupted ⟨f.id, p.number⟩ "not a heap data page")
        else (s.contents p.frame).record slot, f), s) := by
  rw [readCurrent, held_bind, h]
  dsimp only
  rw [contents_bind]
  split
  · rfl
  · exact lift_except ..

lemma editCurrent_none (edit : Page → Except StoreError (α × Page)) (h : f.current = none) :
    editCurrent edit f s = ((.error .noCurrentRecord, f), s) := by
  rw [editCurrent, held_bind, h]
  rfl

lemma editCurrent_some (edit : Page → Except StoreError (α × Page)) (h : f.current = some p) :
    editCurrent edit f s = match edit (s.contents p.frame) with
      | .error e => ((.error e, f), s)
      | .ok (a, page) => ((.ok a, { f with current := some { p with dirty := true } }),
          s.overwrite p.frame page) := by
  rw [editCurrent, held_bind, h]
  dsimp only
  rw [contents_bind, lift_except_bind]
  cases edit (s.contents p.frame) <;> rfl

lemma editHeader_some (edit : FileHeader → Except StoreError FileHeader)
    (h : f.header = some p) : editHeader edit f s =
      match FileHeader.ofPage (s.contents p.frame) with
      | none => ((.error (.pageCorrupted ⟨f.id, p.number⟩ "not a heap file header"), f), s)
      | some hd => match edit hd with
        | .error e => ((.error e, f), s)
        | .ok hd' => ((.ok (), { f with header := some { p with dirty := true } }),
            s.overwrite p.frame (hd'.toPage (s.contents p.frame))) := by
  rw [editHeader, held_bind, h]
  dsimp only
  rw [contents_bind]
  cases FileHeader.ofPage (s.contents p.frame) with
  | none => rfl
  | some hd =>
    dsimp only
    rw [lift_except_bind]
    cases edit hd <;> rfl

lemma appendPage_none (h : f.current = none) : appendPage f s =
    ((.error (.internal "no current page to link a new page to"), f), s) := by
  rw [appendPage, held_bind, h]
  rfl

/-- The store after a new page was set up and linked behind another. -/
def linked (s : Store) (old : PinnedPage) (n : UInt32) (frame : Nat) : Store :=
  (s.overwrite frame (Page.empty n)).overwrite old.frame
    (((s.overwrite frame (Page.empty n)).contents old.frame).setNext (some n))

lemma appendPage_some {old : PinnedPage} (h : f.current = some old) : appendPage f s =
    match Store.allocPage f.id s with
    | (.error e, s') => ((.error e, f), s')
    | (.ok (n, i), s') =>
      let g := { f with current := some { number := n, frame := i, dirty := true }, cursor := none }
      match Store.unpinPage ⟨f.id, old.number⟩ true (linked s' old n i) with
      | (.error e, s'') => ((.error e, g), s'')
      | (.ok _, s'') => editHeader (fun hd => hd.addPage n) g s'' := by
  rw [appendPage, held_bind, h]
  dsimp only
  rw [lift_store_bind]
  rcases Store.allocPage f.id s with ⟨_ | ⟨n, i⟩, s'⟩
  · rfl
  · dsimp only
    rw [lift_store_bind, Store.setContents_apply]
    dsimp only
    rw [contents_bind, lift_store_bind, Store.setContents_apply]
    dsimp only
    rw [hold_bind, lift_store_bind]
    split
    · next hu => simp only [linked, hu]
    · next hu => simp only [linked, hu]

lemma shutdown_open (h : f.isOpen = true) : shutdown f s =
    settle [releaseCurrent, releaseHeader, Store.flushFile f.id, Store.closeFile f.id]
      { f with isOpen := false } s := by
  rw [shutdown, held_bind, h]
  rfl

end HeapFile

namespace HandleM
variable {σ : Type}

lemma settle_nil (h : σ) (s : Store) : settle [] h s = ((.ok (), h), s) := rfl

/-- Further steps are made after a failure as they are after a success. -/
lemma settle_cons (step : HandleM σ Unit) (rest : List (HandleM σ Unit)) (h : σ) (s : Store) :
    settle (step :: rest) h s =
      let after := settle rest (step h s).1.2 (step h s).2
      (((step h s).1.1.bind fun _ => after.1.1, after.1.2), after.2) := by
  rw [settle]
  beta_reduce
  rcases step h s with ⟨⟨_ | _, _⟩, _⟩ <;> rfl

end HandleM

namespace Scan
open HandleM
variable {scan : Scan} {s : Store} {p : PinnedPage} {α : Type}

lemma onFile_apply (act : FileM α) : onFile act scan s =
    (((act scan.file s).1.1, { scan with file := (act scan.file s).1.2 }),
      (act scan.file s).2) := rfl

/-- The record under the cursor, if it is on the current page. -/
def under (scan : Scan) : Except StoreError RecordId :=
  match scan.file.cursor with
  | some r => if scan.file.currentPage = some r.page then .ok r else .error .noCurrentRecord
  | none => .error .noCurrentRecord

lemma currentId_apply : currentId scan s = ((scan.under, scan), s) := by
  simp only [currentId, HandleM.bind_apply, HandleM.held, under]
  cases scan.file.cursor with
  | none => rfl
  | some r => dsimp only; split <;> rfl

/-- The slot of a page at which a search goes on. -/
def candidate (page : Page) (cursor : Option RecordId) : Except StoreError (Option Nat) :=
  match cursor with
  | none => page.firstRecord
  | some r => page.nextRecord r.slot

/-- Leaves the current page for the next one, if there is one. -/
def leave (next? : Option UInt32) : ScanM Step := do
  onFile HeapFile.releaseCurrent
  onFile (change fun f => { f with cursor := none })
  match next? with
  | none =>
    change fun scan => { scan with finished := true }
    return .done none
  | some number =>
    onFile (HeapFile.pinCurrent number)
    return .onward

lemma step_none (h : scan.file.current = none) : step scan s =
    ((if scan.finished then .ok (.done none) else .error .noCurrentRecord, scan), s) := by
  rw [step, held_bind, h]
  dsimp only
  split <;> rfl

lemma step_some (h : scan.file.current = some p) : step scan s =
    match candidate (s.contents p.frame) scan.file.cursor with
    | .error e => ((.error e, scan), s)
    | .ok (some slot) =>
      match (s.contents p.frame).record slot with
      | .error e => ((.error e, scan), s)
      | .ok record =>
        ((.ok (if scan.filter.all fun f => f.holds record
            then .done (some ⟨p.number, slot⟩) else .onward),
          { scan with file := { scan.file with cursor := some ⟨p.number, slot⟩ } }), s)
    | .ok none => leave (s.contents p.frame).next? scan s := by
  rw [step, held_bind, h]
  dsimp only
  rw [contents_bind]
  cases scan.file.cursor
  all_goals
    dsimp only [candidate]
    rw [lift_except_bind]
    split
    · next c hc =>
      rw [hc]
      cases c with
      | none => rfl
      | some slot =>
        dsimp only
        rw [lift_except_bind]
        cases (s.contents p.frame).record slot with
        | error e => rfl
        | ok record =>
          dsimp only
          rw [hold_bind]
          split <;> rfl
    · next e he => rw [he]

end Scan
end PagedHeap
