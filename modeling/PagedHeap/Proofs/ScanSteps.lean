import PagedHeap.Proofs.FilePages

/-! The steps of a search. A search reads the data pages in order and the slots of each in order, so
that at every step the records are divided into those behind and those ahead of the scan. A step
passes no record by, unless the search ends there. -/
namespace PagedHeap

namespace Event

def isFailed : Event → Bool
  | failed _ => true
  | _ => false

end Event

namespace Store
variable {s : Store} {α : Type}

def failures (s : Store) : Nat := s.journal.countP Event.isFailed

lemma request_cases (r : Request) (act : CacheM α) {event : α → Event}
    (h : ∀ a, (event a).isFailed = false) (s : Store) :
    (∃ a s', request r act event s = (.ok a, s') ∧ s'.failures = s.failures) ∨
    ∃ e s', request r act event s = (.error e, s') ∧ s'.failures = s.failures + 1 := by
  have hfailed : ∀ c, failures { s with cache := c, journal := .failed r :: s.journal } =
      s.failures + 1 := fun c => List.countP_cons_of_pos rfl
  unfold request
  cases s.refusal r with
  | some e => exact Or.inr ⟨e, _, rfl, hfailed _⟩
  | none =>
    dsimp only
    rcases act s.cache with ⟨e | a, c⟩
    · exact Or.inr ⟨e, _, rfl, hfailed _⟩
    · refine Or.inl ⟨a, _, rfl, List.countP_cons_of_neg ?_⟩
      rw [h]
      exact Bool.false_ne_true

lemma readPage_cases (id : PageId) (s : Store) :
    (∃ i s', readPage id s = (.ok i, s') ∧ s'.failures = s.failures) ∨
    ∃ e s', readPage id s = (.error e, s') ∧ s'.failures = s.failures + 1 :=
  request_cases _ _ (fun _ => rfl) s

lemma unpinPage_cases (id : PageId) (dirty : Bool) (s : Store) :
    (∃ u s', unpinPage id dirty s = (.ok u, s') ∧ s'.failures = s.failures) ∨
    ∃ e s', unpinPage id dirty s = (.error e, s') ∧ s'.failures = s.failures + 1 :=
  request_cases _ _ (fun _ => rfl) s

end Store

namespace Scan
open HandleM HeapFile Heap
variable {c : Site} {t : Prop} {ps : List Page} {hd : FileHeader} {scan scan' : Scan} {s : Store}
  {r : RecordId} {b : Bytes} {body : List UInt32} {spare : Option UInt32} {n : UInt32}

/-- The first slot of the current page that the search has not come to. -/
def nextSlot (scan : Scan) : Nat := (scan.file.cursor.map (·.slot + 1)).getD 0

def shows (scan : Scan) (b : Bytes) : Bool := scan.filter.all fun f => f.holds b

/-- The search has not come to the record yet. -/
def Ahead (scan : Scan) (r : RecordId) : Prop :=
  ∃ n, scan.file.currentPage = some n ∧ (n < r.page ∨ n = r.page ∧ scan.nextSlot ≤ r.slot)

/-- The search is past the record, if it goes on at all. -/
def Behind (scan : Scan) (r : RecordId) : Prop :=
  ∀ n, scan.file.currentPage = some n → r.page < n ∨ r.page = n ∧ r.slot < scan.nextSlot

lemma Behind.lt {r r' : RecordId} (h : scan.Behind r) (h' : scan.Ahead r') : r < r' := by
  obtain ⟨n, hn, hr'⟩ := h'
  rw [RecordId.lt_iff]
  rcases h n hn with hr | ⟨hpage, hr⟩ <;> rcases hr' with hr' | ⟨hpage', hr'⟩
  · exact Or.inl (UInt32.lt_trans hr hr')
  · exact Or.inl (hpage' ▸ hr)
  · exact Or.inl (hpage ▸ hr')
  · exact Or.inr ⟨hpage.trans hpage', Nat.lt_of_lt_of_le hr hr'⟩

section Candidates

/-- The search for the next record of a data page finds it, if there is one. -/
theorem candidate_cases {p : Page} (hw : p.Wf n) (cursor : Option RecordId) :
    let start := (cursor.map (·.slot + 1)).getD 0
    (∃ slot b, candidate p cursor = .ok (some slot) ∧ p.record slot = .ok b ∧ start ≤ slot ∧
      ∀ k, start ≤ k → k < slot → p.entry k = none) ∨
    (candidate p cursor = .ok none ∧ ∀ k, start ≤ k → p.entry k = none) := by
  intro start
  have hc : candidate p cursor = p.findSlot Slot.live start := by cases cursor <;> rfl
  rw [hc]
  rcases Page.findSlot_cases hw.count Slot.live start with
    ⟨slot, hf, hle, hlt, hlive, hbefore⟩ | ⟨hf, hnone⟩
  · obtain ⟨b, hb⟩ := hw.exists_entry hlt hlive
    refine Or.inl ⟨slot, b, hf, Page.entry_eq_some_iff.mp hb, hle, fun k hk hks => ?_⟩
    refine hw.entry_eq_none_iff.mpr fun h => ?_
    rw [hbefore k hk hks] at h
    exact absurd h.2 (by simp)
  · refine Or.inr ⟨hf, fun k hk => hw.entry_eq_none_iff.mpr fun h => ?_⟩
    rw [hnone k hk h.1] at h
    exact absurd h.2 (by simp)

end Candidates

/-- The scan with another current page, and before the first record there. -/
def turned (scan : Scan) (p : Option PinnedPage) : Scan :=
  { scan with file := { scan.file with current := p, cursor := none } }

/-- Where a search can come to when it leaves a page: to the next page, to the end, or to a
failure. -/
theorem leave_cases {p : PinnedPage} (h : scan.file.current = some p) (next? : Option UInt32)
    (s : Store) : ∃ res scan' s', leave next? scan s = ((res, scan'), s') ∧
      ((∃ e, res = .error e ∧ scan'.file.current = none ∧ scan'.finished = scan.finished ∧
        scan'.filter = scan.filter ∧ scan'.mark = scan.mark ∧ s.failures < s'.failures) ∨
      s'.failures = s.failures ∧
        ((next? = none ∧ res = .ok (.done none) ∧ scan' = { scan.turned none with finished := true }) ∨
        ∃ m i, next? = some m ∧ res = .ok .onward ∧
          scan' = scan.turned (some { number := m, frame := i }))) := by
  unfold leave
  rw [HandleM.bind_apply, onFile_apply, releaseCurrent_some h]
  rcases Store.unpinPage_cases ⟨scan.file.id, p.number⟩ p.dirty s with
    ⟨_, s', hu, hs'⟩ | ⟨e, s', hu, hs'⟩
  swap
  · rw [hu]
    exact ⟨_, _, _, rfl, Or.inl ⟨e, rfl, rfl, rfl, rfl, rfl, hs' ▸ Nat.lt_succ_self _⟩⟩
  rw [hu]
  dsimp only
  rw [HandleM.bind_apply, onFile_apply]
  cases next? with
  | none => exact ⟨_, _, _, rfl, Or.inr ⟨hs', Or.inl ⟨rfl, rfl, rfl⟩⟩⟩
  | some m =>
    dsimp only [change]
    rw [HandleM.bind_apply, onFile_apply, pinCurrent_apply]
    dsimp only
    rcases Store.readPage_cases ⟨scan.file.id, m⟩ s' with ⟨i, s'', hr, hs''⟩ | ⟨e, s'', hr, hs''⟩
    · rw [hr]
      exact ⟨_, _, _, rfl, Or.inr ⟨hs''.trans hs', Or.inr ⟨m, i, rfl, rfl, rfl⟩⟩⟩
    · rw [hr]
      refine ⟨_, _, _, rfl, Or.inl ⟨e, rfl, rfl, rfl, rfl, rfl, ?_⟩⟩
      rw [hs'', hs']
      exact Nat.lt_succ_self _

/-- A step stops at the next record of the current page, or leaves the page. -/
theorem step_on (hl : Layout t ps hd body spare) (hf : Site.OnDataPage ps scan.file)
    (h : c.On t ps scan.file s) {p : PinnedPage} (hp : scan.file.current = some p) :
    (∃ slot b, content ps ⟨p.number, slot⟩ = some b ∧ scan.nextSlot ≤ slot ∧
      (∀ k, scan.nextSlot ≤ k → k < slot → content ps ⟨p.number, k⟩ = none) ∧
      step scan s = ((.ok (if scan.shows b then .done (some ⟨p.number, slot⟩) else .onward),
        { scan with file := { scan.file with cursor := some ⟨p.number, slot⟩ } }), s)) ∨
    ((∀ k, scan.nextSlot ≤ k → content ps ⟨p.number, k⟩ = none) ∧
      step scan s = leave (Heap.next? ps p.number) scan s) := by
  have hpage := h.current hp
  obtain ⟨h0, q, hq, hw⟩ := hf p.number (by rw [currentPage, hp]; rfl)
  cases hpage.symm.trans hq
  have hcontent := hl.content_of_entry h0 hpage
  rw [step_some hp]
  rcases candidate_cases hw scan.file.cursor with
    ⟨slot, b, hcand, hrec, hle, hbefore⟩ | ⟨hcand, hnone⟩
  · refine Or.inl ⟨slot, b, ?_, hle, fun k hk hks => (hcontent k).trans (hbefore k hk hks), ?_⟩
    · rw [hcontent]
      exact Page.entry_eq_some_iff.mpr hrec
    · rw [hcand]
      dsimp only
      rw [hrec]
      rfl
  · refine Or.inr ⟨fun k hk => (hcontent k).trans (hnone k hk), ?_⟩
    rw [hcand, Heap.next?, hpage]
    rfl

end Scan
end PagedHeap
