import PagedHeap.Proofs.FilePages

/-! How a record is read by its id: from the current page if that is its page, and otherwise from its
page after that was made the current one. What is left behind depends on where it fails. -/
namespace PagedHeap.HeapFile
open HandleM
variable {f : HeapFile} {s : Store} {r : RecordId} {p : PinnedPage}

/-- What a data page gives for a slot. -/
def recordOn (id : PageId) (page : Page) (slot : Nat) : Except StoreError Bytes :=
  if page.kind ≠ .heapData then .error (.pageCorrupted id "not a heap data page")
  else page.record slot

lemma readCurrent_eq (slot : Nat) (h : f.current = some p) : readCurrent slot f s =
    ((recordOn ⟨f.id, p.number⟩ (s.contents p.frame) slot, f), s) := readCurrent_some slot h

section Cases

lemma readRecord_header (h : f.header.map (·.number) = some r.page) : readRecord r f s =
    ((.error (.recordNotFound ("page " ++ toString r.page ++ " is the header page")), f), s) := by
  rw [readRecord, held_bind, if_pos h]
  rfl

lemma readRecord_here (hheader : f.header.map (·.number) ≠ some r.page)
    (h : f.currentPage = some r.page) : readRecord r f s =
      match readCurrent r.slot f s with
      | ((.ok b, g), s') => ((.ok b, { g with cursor := some r }), s')
      | ((.error e, g), s') => ((.error e, g), s') := by
  rw [readRecord, held_bind, if_neg hheader]
  dsimp only
  rw [if_neg (not_not.mpr h), HandleM.bind_apply, HandleM.tryCatch_apply]
  rcases readCurrent r.slot f s with ⟨⟨e | b, g⟩, s'⟩
  · dsimp only
    rw [if_neg (not_not.mpr h)]
    rfl
  · rfl

/-- A record of another page is read after a switch to that page, which does not stay current if
the record cannot be read. -/
lemma readRecord_there (hheader : f.header.map (·.number) ≠ some r.page)
    (h : f.currentPage ≠ some r.page) : readRecord r f s =
      match switchTo r.page f s with
      | ((.error e, g), s') => ((.error e, g), s')
      | ((.ok _, g), s') =>
        match readCurrent r.slot g s' with
        | ((.ok b, g), s') => ((.ok b, { g with cursor := some r }), s')
        | ((.error e, g), s') =>
          ((.error e, (releaseCurrent g s').1.2), (releaseCurrent g s').2) := by
  rw [readRecord, held_bind, if_neg hheader]
  dsimp only
  rw [if_pos h, HandleM.bind_apply]
  rcases switchTo r.page f s with ⟨⟨e | u, g⟩, s'⟩
  · rfl
  · dsimp only
    rw [HandleM.bind_apply, HandleM.tryCatch_apply]
    rcases readCurrent r.slot g s' with ⟨⟨e | b, g⟩, s'⟩
    · dsimp only
      rw [if_pos h, HandleM.bind_apply, attempt, HandleM.tryCatch_apply]
      rcases releaseCurrent g s' with ⟨⟨e | _, g⟩, s'⟩ <;> rfl
    · rfl

end Cases

/-- After a release there is no current page, also if the release failed. -/
lemma releaseCurrent_left (f : HeapFile) (s : Store) :
    (releaseCurrent f s).1.2 = { f with current := none } := by
  cases hc : f.current with
  | none =>
    rw [releaseCurrent_none hc, ← hc]
  | some p => rw [releaseCurrent_some hc]

/-- What is left of an open file after a record was read: it stands on the record, or where it was,
or has no current page. -/
theorem readRecord_cases (r : RecordId) (f : HeapFile) (s : Store) :
    match (readRecord r f s).1 with
    | (.ok _, g) => g.currentPage = some r.page ∧ g.cursor = some r
    | (.error _, g) => g.cursor = f.cursor ∧ (g.currentPage = f.currentPage ∨ g.current = none) := by
  by_cases hheader : f.header.map (·.number) = some r.page
  · rw [readRecord_header hheader]
    exact ⟨rfl, .inl rfl⟩
  by_cases hcur : f.currentPage = some r.page
  · obtain ⟨p, hp, -⟩ := currentPage_eq_some_iff.mp hcur
    rw [readRecord_here hheader hcur, readCurrent_eq r.slot hp]
    cases recordOn ⟨f.id, p.number⟩ (s.contents p.frame) r.slot with
    | error e => exact ⟨rfl, .inl rfl⟩
    | ok b => exact ⟨hcur, rfl⟩
  · rw [readRecord_there hheader hcur]
    obtain ⟨hcases, hcursor⟩ := switchTo_cases r.page f s
    rcases hswitch : switchTo r.page f s with ⟨⟨e | u, g⟩, s'⟩ <;> rw [hswitch] at hcases hcursor
    · obtain ⟨hok, -⟩ | ⟨-, hnone⟩ := hcases
      · cases hok
      · exact ⟨hcursor, .inr hnone⟩
    · obtain ⟨-, hpage⟩ | ⟨⟨e, he⟩, -⟩ := hcases
      · obtain ⟨p, hp, -⟩ := currentPage_eq_some_iff.mp hpage
        dsimp only at hp ⊢
        rw [readCurrent_eq r.slot hp]
        cases recordOn ⟨g.id, p.number⟩ (s'.contents p.frame) r.slot with
        | error e =>
          dsimp only
          rw [releaseCurrent_left]
          exact ⟨hcursor, .inr rfl⟩
        | ok b => exact ⟨hpage, rfl⟩
      · cases he

end PagedHeap.HeapFile
