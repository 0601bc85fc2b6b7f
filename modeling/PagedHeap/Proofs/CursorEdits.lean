import PagedHeap.Proofs.ScanTurns

/-! What is done to the record under the cursor of a scan. It is read, deleted or overwritten just
where the cursor is; if there is no record there, or one that is too short, nothing is changed. -/
namespace PagedHeap

namespace Scan
open HandleM HeapFile Heap
variable {c : Site} {t : Prop} {ps : List Page} {hd : FileHeader} {scan : Scan} {s : Store}
  {r : RecordId} {b b₀ : Bytes} {body : List UInt32} {spare : Option UInt32} {α : Type}

lemma under_of_none (h : scan.file.current = none ∨ scan.file.cursor = none) :
    scan.under = .error .noCurrentRecord := by
  cases hu : scan.under with
  | ok r =>
    obtain ⟨hcursor, hcur⟩ := under_eq_ok_iff.mp hu
    rcases h with h | h
    · rw [currentPage, h] at hcur
      cases hcur
    · cases h.symm.trans hcursor
  | error e =>
    unfold under at hu
    split at hu
    · split at hu
      · cases hu
      · exact congrArg Except.error (Except.error.inj hu).symm
    · exact congrArg Except.error (Except.error.inj hu).symm

lemma currentId_error {e : StoreError} (h : scan.under = .error e) (f : RecordId → ScanM α) :
    (currentId >>= f) scan s = ((.error e, scan), s) := by
  rw [HandleM.bind_apply, currentId_apply, h]

lemma currentId_ok (h : scan.under = .ok r) (f : RecordId → ScanM α) :
    (currentId >>= f) scan s = f r scan s := by
  rw [HandleM.bind_apply, currentId_apply, h]

section On
variable (hl : Layout t ps hd body spare) (hf : Site.OnDataPage ps scan.file)
  (h : c.On t ps scan.file s) (hu : scan.under = .ok r)
include hl hf h hu

lemma page_under : ∃ p, scan.file.current = some p ∧ p.number = r.page ∧
    (s.contents p.frame).Wf r.page ∧ (s.contents p.frame).entry r.slot = content ps r := by
  obtain ⟨-, hcur⟩ := under_eq_ok_iff.mp hu
  obtain ⟨p, hp, hn⟩ := currentPage_eq_some_iff.mp hcur
  have hpage := h.current hp
  obtain ⟨h0, q, hq, hw⟩ := hf _ hcur
  rw [hn] at hpage
  cases hpage.symm.trans hq
  exact ⟨p, hp, hn, hw, (hl.content_of_entry h0 hpage r.slot).symm⟩

lemma current_eq_ok_iff : (current scan s).1.1 = .ok b ↔ content ps r = some b := by
  obtain ⟨p, hp, -, hw, hentry⟩ := page_under hl hf h hu
  rw [← hentry, Page.entry_eq_some_iff, current, currentId_ok hu, onFile_apply,
    readCurrent_some r.slot hp, if_neg (not_not.mpr hw.kind)]

lemma delete_eq_ok_iff : (delete scan s).1.1 = .ok () ↔ ∃ b, content ps r = some b := by
  constructor
  · intro hok
    have hdone := (delete_on hl hf h).2
    rcases hr : delete scan s with ⟨⟨e | _, scan'⟩, s'⟩ <;> rw [hr] at hdone hok
    · cases hok
    · obtain ⟨r', b, hu', hb, -⟩ := hdone
      cases hu.symm.trans hu'
      exact ⟨b, hb⟩
  · rintro ⟨b, hb⟩
    obtain ⟨p, hp, -, hw, hentry⟩ := page_under hl hf h hu
    have hrec := Page.entry_eq_some_iff.mp (hentry.trans hb)
    have hcur := (under_eq_ok_iff.mp hu).2
    have hchange := changeCurrent_on hl hf h hcur (fun page => page.delete r.slot)
      (x := none) fun hw hd => hw.delete hd
    have hedit : (editCurrent (fun page => do return ((), ← page.delete r.slot)) scan.file s).1.1 =
        .ok () := by
      rw [editCurrent_some _ hp, Page.delete_ok hrec]
      rfl
    rw [delete, currentId_ok hu, onFile_apply, HandleM.bind_apply]
    rcases he : editCurrent (fun page => do return ((), ← page.delete r.slot)) scan.file s
      with ⟨⟨e | _, g⟩, s'⟩ <;> rw [he] at hchange hedit
    · cases hedit
    · obtain ⟨-, -, -, qs, hon, hl', -⟩ := hchange
      obtain ⟨g', s'', rs, hd', heq, -⟩ :=
        recount_on hl' hon (fun h => .ok h.dropRecord) rfl rfl rfl rfl
      dsimp only
      rw [heq]

/-- The record under the cursor is overwritten if it is there and not shorter. -/
lemma update_eq_ok_iff : (Scan.update b scan s).1.1 = .ok () ↔
    ∃ b₀, content ps r = some b₀ ∧ b.length ≤ b₀.length := by
  obtain ⟨p, hp, -, hw, hentry⟩ := page_under hl hf h hu
  rw [← hentry, Scan.update, currentId_ok hu, onFile_apply, editCurrent_some _ hp]
  cases hrec : (s.contents p.frame).record r.slot with
  | error e =>
    rw [Page.update_error hrec]
    refine ⟨fun hok => (nomatch hok), fun ⟨b₀, hb, _⟩ => ?_⟩
    cases hrec.symm.trans (Page.entry_eq_some_iff.mp hb)
  | ok b₀ =>
    rcases Nat.lt_or_ge b₀.length b.length with hlt | hle
    · rw [Page.update_full hrec hlt]
      refine ⟨fun hok => (nomatch hok), fun ⟨b₁, hb, hle⟩ => ?_⟩
      cases hrec.symm.trans (Page.entry_eq_some_iff.mp hb)
      omega
    · rw [Page.update_ok hrec hle]
      exact ⟨fun _ => ⟨b₀, Page.entry_eq_some_iff.mpr hrec, hle⟩, fun _ => rfl⟩

end On
end Scan
/-- The action is about the record under the cursor of a scan. -/
def Action.AtCursor (key : String) : Action → Prop
  | .current k | .delete k | .update k _ => k = key
  | _ => False

namespace Workspace
open Scan
variable {own : String → Prop} {w w' : Workspace} {key : String} {a : Action} {scan : Scan}
  {r : RecordId} {α : Type}

/-- The store and all handles are as they were. -/
structure Untouched (w w' : Workspace) : Prop where
  store : w'.store = w.store
  handles : ∀ key, w'.handles.find? key = w.handles.find? key

lemma Untouched.of_onScan {act : ScanM α} (hf : w.handles.find? key = some (.scan scan))
    (hscan : (act scan w.store).1.2 = scan) (hstore : (act scan w.store).2 = w.store) :
    Untouched w (onScan key act w).2 := by
  rw [onScan_apply, hf]
  refine ⟨hstore, fun key' => ?_⟩
  show (w.handles.insert key (.scan (act scan w.store).1.2)).find? key' = _
  rw [Table.find?_insert, hscan]
  split
  · next he => rw [he, hf]
  · rfl

/-- An action sets a record, and no other one, if that can be done; otherwise it does nothing. -/
inductive Attempt (own : String → Prop) (w : Workspace) (a : Action) (name : String) (r : RecordId)
    (x : Option Bytes) (possible : Prop) : Prop
  | done (hok : (perform a w).1 = .ok (.answer .done)) (hpossible : possible)
      (hsets : Sets own w (perform a w).2 name r x)
  | refused (herror : ∃ e, (perform a w).1 = .error e) (hnot : ¬ possible)
      (huntouched : Untouched w (perform a w).2)

/-- What the actions at the cursor of a scan come to. -/
structure Exact (own : String → Prop) (name key : String) (w : Workspace) (scan : Scan) : Prop where
  /-- Without a current page, or before the first record there, they fail and do nothing. -/
  astray : scan.file.current = none ∨ scan.file.cursor = none → ∀ a, a.AtCursor key →
    (perform a w).1 = .error .noCurrentRecord ∧ Untouched w (perform a w).2
  /-- The record in the slot of the cursor is read, and nothing else happens. -/
  current : ∀ p r, scan.file.current = some p → scan.file.cursor = some r →
    Untouched w (perform (.current key) w).2 ∧ ∀ b,
      (perform (.current key) w).1 = .ok (.answer (.record b)) ↔
        w.content name ⟨p.number, r.slot⟩ = some b
  /-- It is deleted, if there is one. -/
  delete : ∀ p r, scan.file.current = some p → scan.file.cursor = some r →
    Attempt own w (.delete key) name ⟨p.number, r.slot⟩ none
      (∃ b, w.content name ⟨p.number, r.slot⟩ = some b)
  /-- It is overwritten, if there is one that is as long. -/
  update : ∀ p r b, scan.file.current = some p → scan.file.cursor = some r →
    Attempt own w (.update key b) name ⟨p.number, r.slot⟩ (some b)
      (∃ b₀, w.content name ⟨p.number, r.slot⟩ = some b₀ ∧ b.length ≤ b₀.length)

/-- Nothing is done at the cursor where there is no record under it. -/
lemma untouched_of_under {act : ScanM α} {f : α → Answer} {g : RecordId → ScanM α}
    (hf : w.handles.find? key = some (.scan scan)) (hu : scan.under = .error .noCurrentRecord)
    (ha : perform a w = (do return (← onScan key act).map f : WorkM (Reply Answer)) w)
    (hact : act = (currentId >>= g)) :
    (perform a w).1 = .error .noCurrentRecord ∧ Untouched w (perform a w).2 := by
  have hnone := currentId_error (s := w.store) hu g
  rw [← hact] at hnone
  obtain ⟨hres, hafter⟩ := perform_of_onScan hf ha
  rw [hres, hafter]
  refine ⟨?_, .of_onScan hf ?_ ?_⟩ <;> rw [hnone]
  rfl

/-- A change at the cursor, from when it is possible and what it then does. -/
lemma Attempt.of_onScan {act : ScanM Unit} {name : String} {x : Option Bytes} {possible : Prop}
    {P : Scan → Store → Prop} (hf : w.handles.find? key = some (.scan scan))
    (ha : perform a w = (do return (← onScan key act).map fun _ => .done : WorkM (Reply Answer)) w)
    (hok : (act scan w.store).1.1 = .ok () ↔ possible)
    (hsets : ∀ answer, (perform a w).1 = .ok (.answer answer) → Sets own w (perform a w).2 name r x)
    (hdone : match act scan w.store with
      | ((.ok _, scan'), s') => P scan' s'
      | ((.error _, scan'), s') => scan' = scan ∧ s' = w.store) :
    Attempt own w a name r x possible := by
  obtain ⟨hres, hafter⟩ := perform_of_onScan hf ha
  rcases hr : act scan w.store with ⟨⟨e | u, scan'⟩, s'⟩ <;> rw [hr] at hdone hok hres
  · obtain ⟨hscan, hstore⟩ := hdone
    refine .refused ⟨e, hres⟩ (fun hpossible => nomatch hok.mpr hpossible)
      (hafter ▸ .of_onScan hf ?_ ?_)
    · rw [hr, hscan]
    · rw [hr, hstore]
  · exact .done hres (hok.mp rfl) (hsets .done hres)

/-- The actions at the cursor are about its slot of the current page. -/
theorem exact_of_find (h : Standing own w) (hf : w.handles.find? key = some (.scan scan))
    (hpage : ∀ p r, scan.file.current = some p → scan.file.cursor = some r → r.page = p.number) :
    Exact own scan.file.name key w scan := by
  obtain ⟨ps, hd, body, spare, hps, hl, hs, hon⟩ := h.on hf
  have hcontent : w.content scan.file.name = Heap.content ps := content_of_pages hps
  have hunder : ∀ {p r}, scan.file.current = some p → scan.file.cursor = some r →
      scan.under = .ok ⟨p.number, r.slot⟩ := by
    intro p r hp hr
    have hr' : r = ⟨p.number, r.slot⟩ := by rw [← hpage p r hp hr]
    rw [under_eq_ok_iff, ← hr', hr, HeapFile.currentPage, hp]
    exact ⟨rfl, congrArg some (hpage p r hp hr).symm⟩
  have hsets : ∀ {x r} {scan' : Scan} {r' w'}, scan.under = .ok r →
      w.handles.find? key = some (.scan scan') → scan'.under = .ok r' →
      Sets own w w' scan'.file.name r' x → Sets own w w' scan.file.name r x := by
    intro x r scan' r' w' hu hf' hu' hsets
    cases hf.symm.trans hf'
    cases hu.symm.trans hu'
    exact hsets
  refine ⟨fun hnone a ha => ?_, fun p r hp hr => ?_, fun p r hp hr => ?_, fun p r b hp hr => ?_⟩
  · have hu := under_of_none hnone
    cases a with
    | current k =>
      cases ha
      exact untouched_of_under hf hu rfl rfl
    | delete k =>
      cases ha
      exact untouched_of_under hf hu rfl rfl
    | update k b =>
      cases ha
      exact untouched_of_under hf hu rfl rfl
    | _ => exact ha.elim
  · obtain ⟨hstore, hscan, -⟩ := Scan.current_on hl hs.1 hon
    obtain ⟨hres, hafter⟩ := perform_of_onScan (a := .current key) hf rfl
    rw [hres, hafter, hcontent]
    refine ⟨.of_onScan hf hscan hstore, fun b => ?_⟩
    rw [← current_eq_ok_iff hl hs.1 hon (hunder hp hr)]
    cases (Scan.current scan w.store).1.1 <;> simp [Except.map]
  · have hiff := delete_eq_ok_iff hl hs.1 hon (hunder hp hr)
    rw [← hcontent] at hiff
    refine .of_onScan hf rfl hiff (fun answer hans => ?_) (Scan.delete_on hl hs.1 hon).2
    obtain ⟨k, b, hins, -⟩ | heffect := (delete_outcome h key).effect
    · cases hins
    · rw [hans] at heffect
      obtain ⟨scan', r', b, hf', hu', -, hset⟩ := heffect
      exact hsets (hunder hp hr) hf' hu' hset
  · have hiff := update_eq_ok_iff (b := b) hl hs.1 hon (hunder hp hr)
    rw [← hcontent] at hiff
    refine .of_onScan hf rfl hiff (fun answer hans => ?_) (Scan.update_on hl hs.1 hon b).2
    obtain ⟨k, b, hins, -⟩ | heffect := (update_outcome h key b).effect
    · cases hins
    · rw [hans] at heffect
      obtain ⟨scan', r', b₀, hf', hu', -, hset⟩ := heffect
      exact hsets (hunder hp hr) hf' hu' hset

end Workspace
end PagedHeap
