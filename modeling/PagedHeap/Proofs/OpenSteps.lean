import PagedHeap.Proofs.FileSteps
import PagedHeap.Proofs.HeaderPage
import PagedHeap.Proofs.Pins

/-! What opening, creating and closing a heap file come to, as requests to the store one after
another. -/
namespace PagedHeap

def PinnedPage.hold (p : PinnedPage) (file : UInt32) : Hold := ⟨⟨file, p.number⟩, p.frame, p.dirty⟩

namespace Store
variable {s : Store} {file : UInt32} {name : String}

/-- Runs all steps, also after failures, and then reports the first failure. -/
def settle : List (StoreM Unit) → StoreM Unit
  | [] => pure ()
  | step :: rest => fun s =>
    ((step s).1.bind fun _ => (settle rest (step s).2).1, (settle rest (step s).2).2)

lemma settle_append (xs ys : List (StoreM Unit)) (s : Store) :
    settle (xs ++ ys) s =
      ((settle xs s).1.bind fun _ => (settle ys (settle xs s).2).1,
        (settle ys (settle xs s).2).2) := by
  induction xs generalizing s with
  | nil => rfl
  | cons x xs ih =>
    simp only [List.cons_append, settle, ih]
    cases (x s).1 <;> rfl

def giveBack (h : Hold) : StoreM Unit := unpinPage h.id h.dirty

lemma attempt_apply (act : StoreM Unit) (s : Store) :
    Store.attempt act s = (.ok (), (act s).2) := by
  rw [Store.attempt, tryCatch_apply]
  rcases act s with ⟨_ | _, _⟩ <;> rfl

lemma pinFirst_apply : pinFirst file s =
    match s.cache.disk.firstPage file with
    | .error e => (.error e, s)
    | .ok n => match readPage ⟨file, n⟩ s with
      | (.error e, s') => (.error e, s')
      | (.ok i, s') => match FileHeader.ofPage (s'.contents i) with
        | none => (.error (.pageCorrupted ⟨file, n⟩ "not a heap file header"),
            (unpinPage ⟨file, n⟩ false s').2)
        | some hd => match readPage ⟨file, hd.first⟩ s' with
          | (.error e, s'') => (.error e, (unpinPage ⟨file, n⟩ false s'').2)
          | (.ok j, s'') =>
            (.ok ({ number := n, frame := i }, { number := hd.first, frame := j }), s'') := by
  have hdisk : onDisk (fun d => return (← d.firstPage file, d)) s =
      (s.cache.disk.firstPage file, s) := by
    simp only [onDisk, direct, Cache.onDisk]
    cases s.cache.disk.firstPage file <;> rfl
  rw [pinFirst, bind_apply, hdisk]
  cases s.cache.disk.firstPage file with
  | error e => rfl
  | ok n =>
    dsimp only
    rw [bind_apply]
    rcases readPage ⟨file, n⟩ s with ⟨e | i, s'⟩
    · rfl
    · dsimp only
      rw [bind_apply, show (get : StoreM Store) s' = (.ok s', s') from rfl]
      dsimp only
      cases FileHeader.ofPage (s'.contents i) with
      | none =>
        dsimp only
        rw [bind_apply, attempt_apply]
        rfl
      | some hd =>
        dsimp only
        rw [bind_apply, tryCatch_apply]
        rcases readPage ⟨file, hd.first⟩ s' with ⟨e | j, s''⟩
        · dsimp only
          rw [bind_apply, attempt_apply]
          rfl
        · rfl

lemma openHeap_apply : openHeap name s =
    match openFile name s with
    | (.error e, s') => (.error (.openFailed name e.message), s')
    | (.ok file, s') => match pinFirst file s' with
      | (.error e, s'') => (.error e, (closeFile file s'').2)
      | (.ok (header, current), s'') =>
        (.ok { id := file, name, header := some header, current := some current }, s'') := by
  rw [openHeap, bind_apply, tryCatch_apply]
  rcases openFile name s with ⟨e | file, s'⟩
  · rfl
  · dsimp only
    rw [bind_apply, tryCatch_apply]
    rcases pinFirst file s' with ⟨e | ⟨header, current⟩, s''⟩
    · dsimp only
      rw [bind_apply, attempt_apply]
      rfl
    · rfl

/-- The store after the first two pages of a heap file were pinned. -/
def opening (name : String) (file first : UInt32) (s : Store) : Store :=
  (readPage ⟨file, first⟩ (readPage ⟨file, 0⟩ (openFile name s).2).2).2

lemma openHeap_eq {hd : FileHeader} {p : Page} {i j : Nat}
    (ho : (openFile name s).1 = .ok file)
    (hn : (openFile name s).2.cache.disk.firstPage file = .ok 0)
    (hr : (readPage ⟨file, 0⟩ (openFile name s).2).1 = .ok i)
    (hh : (readPage ⟨file, 0⟩ (openFile name s).2).2.contents i = hd.toPage p)
    (hr' : (readPage ⟨file, hd.first⟩ (readPage ⟨file, 0⟩ (openFile name s).2).2).1 = .ok j) :
    openHeap name s = (.ok { id := file, name, header := some { number := 0, frame := i },
                             current := some { number := hd.first, frame := j } },
      opening name file hd.first s) := by
  rw [openHeap_apply, opening]
  obtain ⟨s₁, h₁⟩ : ∃ s₁, openFile name s = (.ok file, s₁) := ⟨_, Prod.ext ho rfl⟩
  rw [h₁] at hn hr hh hr' ⊢
  dsimp only at hn hr hh hr' ⊢
  obtain ⟨s₂, h₂⟩ : ∃ s₂, readPage ⟨file, 0⟩ s₁ = (.ok i, s₂) := ⟨_, Prod.ext hr rfl⟩
  rw [h₂] at hh hr' ⊢
  dsimp only at hh hr' ⊢
  obtain ⟨s₃, h₃⟩ : ∃ s₃, readPage ⟨file, hd.first⟩ s₂ = (.ok j, s₃) := ⟨_, Prod.ext hr' rfl⟩
  rw [pinFirst_apply, hn]
  dsimp only
  rw [h₂]
  dsimp only
  rw [hh, FileHeader.ofPage_toPage]
  dsimp only [FileHeader.kept]
  rw [h₃]

lemma finish_apply {σ α : Type} (act : HandleM σ α) (h : σ) :
    HandleM.finish act h s = ((act h s).1.1, (act h s).2) := rfl

lemma openInsertion_apply : openInsertion name s =
    match openHeap name s with
    | (.error e, s') => (.error e, s')
    | (.ok f, s') => match HeapFile.seekLast f s' with
      | ((.ok _, g), s'') => (.ok g, s'')
      | ((.error e, g), s'') => (.error e, (HeapFile.closeInsertion g s'').2) := by
  rw [openInsertion, bind_apply]
  rcases openHeap name s with ⟨e | f, s'⟩
  · rfl
  · dsimp only
    rw [finish_apply, HandleM.bind_apply, HandleM.tryCatch_apply]
    rcases HeapFile.seekLast f s' with ⟨⟨e | _, g⟩, s''⟩
    · dsimp only
      rw [HandleM.bind_apply, HandleM.attempt, HandleM.tryCatch_apply]
      rcases HeapFile.closeInsertion g s'' with ⟨⟨_ | _, _⟩, _⟩ <;> rfl
    · rfl

/-- The store after the two first pages of a heap file were set up. -/
def formatted (s : Store) (name : String) (data : UInt32) (headerFrame dataFrame : Nat) : Store :=
  (s.overwrite dataFrame (Page.empty data)).overwrite headerFrame
    ((FileHeader.new name data).toPage
      ((s.overwrite dataFrame (Page.empty data)).contents headerFrame))

lemma formatHeap_apply : formatHeap file name () s =
    match allocPage file s with
    | (.error e, s') => ((.error e, ()), s')
    | (.ok (header, i), s') => match allocPage file s' with
      | (.error e, s'') => ((.error e, ()), (unpinPage ⟨file, header⟩ false s'').2)
      | (.ok (data, j), s'') =>
        let r := settle [unpinPage ⟨file, data⟩ true, unpinPage ⟨file, header⟩ true]
          (formatted s'' name data i j)
        ((r.1, ()), r.2) := by
  rw [formatHeap, HandleM.lift_store_bind]
  rcases allocPage file s with ⟨e | ⟨header, i⟩, s'⟩
  · rfl
  · dsimp only
    rw [HandleM.bind_apply, HandleM.tryCatch_apply, HandleM.lift_store]
    rcases allocPage file s' with ⟨e | ⟨data, j⟩, s''⟩
    · dsimp only
      rw [HandleM.lift_store_bind, attempt_apply]
      rfl
    · dsimp only
      rw [HandleM.lift_store_bind, setContents_apply]
      dsimp only
      rw [HandleM.contents_bind, HandleM.lift_store_bind, setContents_apply]
      dsimp only
      rw [HandleM.settle_cons, HandleM.settle_cons, HandleM.settle_nil]
      rfl

/-- Sets up a new heap file that is open, and writes its pages. -/
def fill (file : UInt32) (name : String) : StoreM Unit := fun s =>
  match formatHeap file name () s with
  | ((.ok _, _), s') => flushFile file s'
  | ((.error e, _), s') => (.error e, s')

lemma createHeap_apply : createHeap name s =
    match createFile name s with
    | (.error e, s') => (.error e, s')
    | (.ok _, s') => match openFile name s' with
      | (.error e, s'') => (.error e, s'')
      | (.ok file, s'') => settle [fill file name, closeFile file] s'' := by
  rw [createHeap, bind_apply]
  rcases createFile name s with ⟨e | _, s'⟩
  · rfl
  · dsimp only
    rw [bind_apply]
    rcases openFile name s' with ⟨e | file, s''⟩
    · rfl
    · dsimp only
      rw [finish_apply, HandleM.settle_cons, HandleM.settle_cons, HandleM.settle_nil,
        HandleM.bind_apply]
      simp only [settle, fill]
      rcases formatHeap file name () s'' with ⟨⟨_ | _, _⟩, _⟩ <;> rfl

end Store

namespace HeapFile
variable {f : HeapFile} {s : Store}

def holds (f : HeapFile) : List Hold :=
  (f.current.toList ++ f.header.toList).map (·.hold f.id)

/-- What is done to close an open heap file. -/
def teardown (f : HeapFile) : List (StoreM Unit) :=
  f.holds.map Store.giveBack ++ [Store.flushFile f.id, Store.closeFile f.id]

/-- Closing makes all steps of the teardown, and tells of the first that failed. -/
lemma shutdown_apply (h : f.isOpen = true) : shutdown f s =
    (((Store.settle f.teardown s).1,
      { f with current := none, header := none, isOpen := false }),
      (Store.settle f.teardown s).2) := by
  obtain ⟨id, name, header, current, cursor, isOpen⟩ := f
  cases h
  rw [shutdown_open rfl]
  simp only [HandleM.settle_cons, HandleM.settle_nil]
  cases current <;> cases header <;> rfl

end HeapFile
end PagedHeap
