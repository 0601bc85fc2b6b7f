import PagedHeap.Proofs.Effects
import PagedHeap.Proofs.RecordReads

/-! Where scans go. `Scan.Turn` says for each action through a scan and each result of it where the
scan stands then: a search comes to the end only where the links of the chain do, and what fails
leaves the scan in its place, or without a page. -/
namespace PagedHeap

namespace Heap

/-- What comes first along the links from a slot of a page on: a record that is shown, or the end of
the chain. -/
inductive Leads (ps : List Page) (shows : Bytes → Bool) : UInt32 → Nat → Option RecordId → Prop
  | here {n start slot b}
      (hfree : ∀ k b, start ≤ k → k < slot → content ps ⟨n, k⟩ = some b → shows b = false)
      (hle : start ≤ slot) (hb : content ps ⟨n, slot⟩ = some b) (hv : shows b = true) :
      Leads ps shows n start (some ⟨n, slot⟩)
  | last {n start} (hfree : ∀ k b, start ≤ k → content ps ⟨n, k⟩ = some b → shows b = false)
      (hend : next? ps n = none) : Leads ps shows n start none
  | onward {n m start found}
      (hfree : ∀ k b, start ≤ k → content ps ⟨n, k⟩ = some b → shows b = false)
      (hnext : next? ps n = some m) (hrest : Leads ps shows m 0 found) :
      Leads ps shows n start found

variable {ps : List Page} {shows : Bytes → Bool} {n m : UInt32} {start slot : Nat} {b : Bytes}
  {found found' : Option RecordId}

/-- Slots that show nothing can be put before. -/
lemma Leads.widen (h : Leads ps shows n slot found) (hle : start ≤ slot)
    (hfree : ∀ k b, start ≤ k → k < slot → content ps ⟨n, k⟩ = some b → shows b = false) :
    Leads ps shows n start found := by
  have hall : ∀ {top : Nat}, (∀ k b, slot ≤ k → k < top → content ps ⟨n, k⟩ = some b →
      shows b = false) → ∀ k b, start ≤ k → k < top → content ps ⟨n, k⟩ = some b →
      shows b = false := by
    intro top hrest k b hk htop hb
    rcases Nat.lt_or_ge k slot with hlt | hge
    · exact hfree k b hk hlt hb
    · exact hrest k b hge htop hb
  cases h with
  | here hrest hle' hb hv => exact .here (hall hrest) (hle.trans hle') hb hv
  | last hrest hend =>
    exact .last (fun k b hk => hall (fun k b hk _ => hrest k b hk) k b hk k.lt_succ_self) hend
  | onward hrest hnext htail =>
    exact .onward (fun k b hk => hall (fun k b hk _ => hrest k b hk) k b hk k.lt_succ_self) hnext
      htail

/-- Only one thing comes first. -/
theorem Leads.unique (h : Leads ps shows n start found) (h' : Leads ps shows n start found') :
    found = found' := by
  induction h with
  | here hfree hle hb hv =>
    cases h' with
    | here hfree' hle' hb' hv' =>
      rename_i slot b slot' b'
      rcases Nat.lt_trichotomy slot slot' with hlt | rfl | hlt
      · exact absurd hv (by rw [hfree' slot b hle hlt hb]; exact Bool.false_ne_true)
      · rfl
      · exact absurd hv' (by rw [hfree slot' b' hle' hlt hb']; exact Bool.false_ne_true)
    | last hfree' | onward hfree' =>
      exact absurd hv (by rw [hfree' _ _ hle hb]; exact Bool.false_ne_true)
  | last hfree hend =>
    cases h' with
    | here _ hle' hb' hv' =>
      exact absurd hv' (by rw [hfree _ _ hle' hb']; exact Bool.false_ne_true)
    | last => rfl
    | onward _ hnext' => cases hend.symm.trans hnext'
  | onward hfree hnext _ ih =>
    cases h' with
    | here _ hle' hb' hv' =>
      exact absurd hv' (by rw [hfree _ _ hle' hb']; exact Bool.false_ne_true)
    | last _ hend' => cases hend'.symm.trans hnext
    | onward _ hnext' htail' =>
      cases hnext.symm.trans hnext'
      exact ih htail'

end Heap

namespace Scan
open HandleM HeapFile Heap
variable {c : Site} {t : Prop} {ps : List Page} {hd : FileHeader} {scan scan' : Scan} {s : Store}
  {body : List UInt32} {spare : Option UInt32} {p : PinnedPage}

/-- A search gives what comes first. -/
theorem steps_leads {found : Option RecordId} (hl : Layout t ps hd body spare) (fuel : Nat)
    (h : c.On t ps scan.file s) (hf : Site.OnDataPage ps scan.file) (hp : scan.file.current = some p)
    (hok : (steps fuel scan s).1.1 = .ok found) :
    Leads ps scan.shows p.number scan.nextSlot found := by
  induction fuel generalizing scan s p with
  | zero => cases hok
  | succ k ih =>
    have hkeep := step_keeps (c.lasting t ps) scan s h
    unfold steps at hok
    rw [HandleM.bind_apply] at hok
    rcases step_on hl hf h hp with ⟨slot, b, hb, hle, hfree, hstep⟩ | ⟨hfree, hstep⟩
    · rw [hstep] at hok hkeep
      have hbefore : ∀ k b', scan.nextSlot ≤ k → k < slot → content ps ⟨p.number, k⟩ = some b' →
          scan.shows b' = false := fun k b' hk hlt hb' => by cases (hfree k hk hlt).symm.trans hb'
      by_cases hv : scan.shows b = true
      · rw [if_pos hv] at hok
        cases hok
        exact .here hbefore hle hb hv
      · rw [if_neg hv] at hok
        have hrest : Leads ps scan.shows p.number (slot + 1) found := ih hkeep hf hp hok
        refine hrest.widen (Nat.le_succ_of_le hle) fun k b' hk hlt hb' => ?_
        rcases Nat.lt_or_eq_of_le (Nat.le_of_lt_succ hlt) with hlt | rfl
        · exact hbefore k b' hk hlt hb'
        · cases hb.symm.trans hb'
          exact Bool.eq_false_iff.mpr hv
    · have hnone : ∀ k b, scan.nextSlot ≤ k → content ps ⟨p.number, k⟩ = some b →
          scan.shows b = false := fun k b hk hb => by cases (hfree k hk).symm.trans hb
      rw [hstep] at hok hkeep
      obtain ⟨res, scan', s', heq, hcases⟩ := leave_cases hp (Heap.next? ps p.number) s
      rw [heq] at hok hkeep
      rcases hcases with ⟨e, rfl, -⟩ | ⟨-, ⟨hnext, rfl, rfl⟩ | ⟨m, i, hm, rfl, rfl⟩⟩
      · cases hok
      · cases hok
        exact .last hnone hnext
      · have hdata := hf p.number (by rw [currentPage, hp]; rfl)
        have hmem := (hl.next_spec (hl.mem_of_next hdata hm) hm).2.1
        refine .onward hnone hm (ih hkeep (fun n hn => ?_) rfl hok)
        cases hn
        exact hmem.elim hl.isData hl.isData_spare

/-- There is nothing more to be found: the scan has ended, or the chain does. -/
def AtEnd (ps : List Page) (scan : Scan) : Prop :=
  scan.file.current = none ∧ scan.finished = true ∨
    ∃ p, scan.file.current = some p ∧ Leads ps scan.shows p.number scan.nextSlot none

/-- Where a scan stands after an action through it with this result. -/
def Turn (ps : List Page) (scan scan' : Scan) :
    Action → Except StoreError (Reply Answer) → Prop
  | .next _, .ok (.answer (.found (some r))) =>
    scan.file.current ≠ none ∧ scan'.position = ⟨some r.page, some r, scan.finished⟩
  | .next _, .ok (.answer (.found none)) =>
    (scan'.file.current = none ∧ scan'.finished = true) ∧ scan.AtEnd ps
  | .readRecord _ r, .ok _ => scan'.position = ⟨some r.page, some r, false⟩
  | .reset _, .ok _ => scan'.position = scan.mark
  | .stop _, _ => scan'.position = ⟨none, scan.file.cursor, true⟩
  | .next _, .error _ | .readRecord _ _, .error _ | .reset _, .error _ =>
    scan'.position = scan.position ∨
      scan'.file.current = none ∧ scan'.finished = scan.finished
  | _, _ => scan'.position = scan.position

section Reset

/-- The scan on another file, with the cursor and the end of the mark. -/
def restored (scan : Scan) (f : HeapFile) : Scan :=
  { scan with file := { f with cursor := scan.mark.cursor }, finished := scan.mark.finished }

/-- On the page of the mark nothing is asked of the store. -/
lemma reset_here (h : scan.mark.page = scan.file.currentPage) :
    reset scan s = ((.ok (), scan.restored scan.file), s) := by
  rw [reset, held_bind]
  dsimp only
  rw [if_neg (not_not.mpr h)]
  rfl

/-- From another page the scan goes to that of the mark, or to none. -/
lemma reset_there (h : scan.mark.page ≠ scan.file.currentPage) : reset scan s =
    match releaseCurrent scan.file s with
    | ((.error e, g), s') => ((.error e, { scan with file := g }), s')
    | ((.ok _, g), s') =>
      match scan.mark.page with
      | none => ((.ok (), scan.restored g), s')
      | some n =>
        match pinCurrent n g s' with
        | ((.error e, g), s') => ((.error e, { scan with file := g }), s')
        | ((.ok _, g), s') => ((.ok (), scan.restored g), s') := by
  rw [reset, held_bind]
  dsimp only
  rw [if_pos h, HandleM.bind_apply, onFile_apply]
  rcases releaseCurrent scan.file s with ⟨⟨e | u, g⟩, s'⟩
  · rfl
  · dsimp only
    cases scan.mark.page with
    | none => rfl
    | some n =>
      dsimp only
      rw [HandleM.bind_apply, onFile_apply]
      dsimp only
      rcases pinCurrent n g s' with ⟨⟨e | _, g⟩, s'⟩ <;> rfl

/-- Going back ends at the mark, or without a page. -/
theorem reset_cases (scan : Scan) (s : Store) :
    match (reset scan s).1 with
    | (.ok _, scan') => scan'.position = scan.mark
    | (.error _, scan') => scan'.file.current = none ∧ scan'.finished = scan.finished := by
  by_cases h : scan.mark.page = scan.file.currentPage
  · rw [reset_here h]
    exact congrArg (fun n => Mark.mk n scan.mark.cursor scan.mark.finished) h.symm
  rw [reset_there h]
  have hleft := releaseCurrent_left scan.file s
  rcases hr : releaseCurrent scan.file s with ⟨⟨e | u, g⟩, s'⟩ <;> rw [hr] at hleft
  · obtain rfl : g = _ := hleft
    exact ⟨rfl, rfl⟩
  · obtain rfl : g = _ := hleft
    dsimp only
    cases hm : scan.mark.page with
    | none =>
      refine congrArg (fun n => Mark.mk n scan.mark.cursor scan.mark.finished) ?_
      rw [hm]
      rfl
    | some n =>
      dsimp only
      rw [pinCurrent_apply]
      rcases Store.readPage ⟨scan.file.id, n⟩ s' with ⟨e | i, s''⟩
      · exact ⟨rfl, rfl⟩
      · refine congrArg (fun n => Mark.mk n scan.mark.cursor scan.mark.finished) ?_
        rw [hm]
        rfl

end Reset

lemma next_of_none (h : scan.file.current = none) : next scan s =
    ((if scan.finished then .ok none else .error .noCurrentRecord, scan), s) := by
  have hpos : 0 < scan.pageBound s := by
    unfold pageBound
    split <;> omega
  obtain ⟨k, hk⟩ := Nat.exists_eq_succ_of_ne_zero (Nat.mul_pos hpos (by omega : 0 < 65537)).ne'
  rw [next, hk, steps, HandleM.bind_apply, step_none h]
  cases scan.finished <;> rfl

lemma next_turn (hl : Layout t ps hd body spare) (h : c.On t ps scan.file s)
    (hf : Site.OnDataPage ps scan.file) (key : String) :
    scan.Turn ps (next scan s).1.2 (.next key)
      ((next scan s).1.1.map fun r => .answer (.found r)) := by
  have hsearch := next_on hl h hf
  rcases hr : (next scan s).1.1 with e | _ | r
  · obtain ⟨hcur, hfin, -⟩ := hsearch.failed e hr
    exact .inr ⟨hcur, hfin⟩
  · refine ⟨hsearch.ended hr, ?_⟩
    cases hc : scan.file.current with
    | none =>
      rw [next_of_none hc] at hr
      by_cases hfin : scan.finished = true
      · exact .inl ⟨hc, hfin⟩
      · rw [if_neg hfin] at hr
        cases hr
    | some p => exact .inr ⟨p, hc, steps_leads hl _ h hf hc hr⟩
  · obtain ⟨⟨n, hn, -⟩, -, hpos⟩ := hsearch.found r hr
    obtain ⟨p, hp, -⟩ := currentPage_eq_some_iff.mp hn
    exact ⟨fun hnone => (nomatch hp.symm.trans hnone), hpos⟩

lemma readRecord_turn (ps : List Page) (key : String) (r : RecordId) (scan : Scan) (s : Store) :
    scan.Turn ps (Scan.readRecord r scan s).1.2 (.readRecord key r)
        ((Scan.readRecord r scan s).1.1.map fun b => .answer (.record b)) ∧
      (Scan.readRecord r scan s).1.2.mark = scan.mark ∧
      (Scan.readRecord r scan s).1.2.filter = scan.filter := by
  have hcases := HeapFile.readRecord_cases r scan.file s
  unfold Scan.readRecord
  rw [HandleM.bind_apply, onFile_apply]
  rcases hr : HeapFile.readRecord r scan.file s with ⟨⟨e | b, g⟩, s'⟩ <;> rw [hr] at hcases
  · refine ⟨?_, rfl, rfl⟩
    obtain ⟨hcursor, hpage | hnone⟩ := hcases
    · refine .inl ?_
      show Mark.mk g.currentPage g.cursor scan.finished = _
      rw [hpage, hcursor]
      rfl
    · exact .inr ⟨hnone, rfl⟩
  · obtain ⟨hpage, hcursor⟩ := hcases
    refine ⟨?_, rfl, rfl⟩
    show Mark.mk g.currentPage g.cursor false = _
    rw [hpage, hcursor]

lemma reset_turn (key : String) (scan : Scan) (s : Store) :
    scan.Turn ps (reset scan s).1.2 (.reset key) ((reset scan s).1.1.map fun _ => .answer .done) := by
  have hcases := reset_cases scan s
  rcases hr : reset scan s with ⟨⟨e | u, scan'⟩, s'⟩ <;> rw [hr] at hcases
  · exact .inr hcases
  · exact hcases

lemma reset_mark (scan : Scan) (s : Store) :
    (reset scan s).1.2.mark = scan.mark ∧ (reset scan s).1.2.filter = scan.filter := by
  by_cases h : scan.mark.page = scan.file.currentPage
  · rw [reset_here h]
    exact ⟨rfl, rfl⟩
  · rw [reset_there h]
    rcases releaseCurrent scan.file s with ⟨⟨e | u, g⟩, s'⟩
    · exact ⟨rfl, rfl⟩
    · dsimp only
      split
      · exact ⟨rfl, rfl⟩
      · next n hm =>
        rcases pinCurrent n g s' with ⟨⟨e | _, g⟩, s'⟩ <;> exact ⟨rfl, rfl⟩

lemma stop_turn (scan : Scan) (s : Store) :
    (stop scan s).1.2.position = ⟨none, scan.file.cursor, true⟩ ∧
      (stop scan s).1.2.mark = scan.mark ∧ (stop scan s).1.2.filter = scan.filter := by
  unfold stop
  rw [change_bind, onFile_apply]
  refine ⟨?_, rfl, rfl⟩
  show Mark.mk (releaseCurrent scan.file s).1.2.currentPage
    (releaseCurrent scan.file s).1.2.cursor true = _
  rw [releaseCurrent_left]
  rfl

end Scan

/-- The action sets the filter of a scan. -/
def Action.Filters (key : String) : Action → Prop
  | .start k .. => k = key
  | _ => False

/-- The action puts something else under a key, or nothing. -/
def Action.Replaces (key : String) : Action → Prop
  | .openReader k _ | .openInserter k _ | .openScan k _ | .close k | .drop k => k = key
  | _ => False

namespace Workspace
variable {own : String → Prop} {w : Workspace} {key : String} {a : Action} {scan scan' : Scan}
  {ps : List Page} {α : Type}

lemma onScan_held (hf : w.handles.find? key = some (.scan scan)) (act : ScanM α) :
    (onScan key act w).1 = (act scan w.store).1.1.map .answer ∧
      (onScan key act w).2.handles.find? key = some (.scan (act scan w.store).1.2) := by
  rw [onScan_apply, hf]
  refine ⟨rfl, ?_⟩
  show (w.handles.insert key _).find? key = _
  rw [Table.find?_insert, if_pos rfl]

lemma store_onScan (hf : w.handles.find? key = some (.scan scan)) (act : ScanM α) :
    (onScan key act w).2.store = (act scan w.store).2 := by
  rw [onScan_apply, hf]
  rfl

/-- What an action on a scan gives, and what it leaves. -/
lemma perform_of_onScan {act : ScanM α} {f : α → Answer}
    (hf : w.handles.find? key = some (.scan scan))
    (ha : perform a w = (do return (← onScan key act).map f : WorkM (Reply Answer)) w) :
    (perform a w).1 = (act scan w.store).1.1.map (fun x => .answer (f x)) ∧
      (perform a w).2 = (onScan key act w).2 := by
  rw [map_apply] at ha
  rw [ha, (onScan_held hf act).1]
  refine ⟨?_, rfl⟩
  cases (act scan w.store).1.1 <;> rfl

lemma perform_insert_scan (hf : w.handles.find? key = some (.scan scan)) (b : Bytes) :
    perform (.insert key b) w = (.ok .wrongHandle, w) := by
  rw [perform, map_apply, insert_apply, hf]
  rfl

lemma perform_readRecord_scan (hf : w.handles.find? key = some (.scan scan)) (r : RecordId) :
    perform (.readRecord key r) w =
      (do return (← onScan key (Scan.readRecord r)).map .record : WorkM (Reply Answer)) w := by
  have hread : readRecord key r w = onScan key (Scan.readRecord r) w := by
    rw [readRecord_apply, onScan_apply, hf]
  rw [perform, map_apply, map_apply, hread]

/-- The scan under a key after an action through it. -/
structure Turned (ps : List Page) (key : String) (w : Workspace) (a : Action) (scan scan' : Scan) :
    Prop where
  held : (perform a w).2.handles.find? key = some (.scan scan')
  turn : scan.Turn ps scan' a (perform a w).1
  mark : scan'.mark = if a = .mark key then scan.position else scan.mark
  file : scan'.file.name = scan.file.name
  filter : ¬ a.Filters key → scan'.filter = scan.filter

lemma Turned.of_onScan {act : ScanM α} {f : α → Answer}
    (hf : w.handles.find? key = some (.scan scan))
    (ha : perform a w = (do return (← onScan key act).map f : WorkM (Reply Answer)) w)
    (hturn : scan.Turn ps (act scan w.store).1.2 a
      ((act scan w.store).1.1.map fun x => .answer (f x)))
    (hmark : (act scan w.store).1.2.mark = if a = .mark key then scan.position else scan.mark)
    (hfile : (act scan w.store).1.2.file.name = scan.file.name)
    (hfilter : ¬ a.Filters key → (act scan w.store).1.2.filter = scan.filter) :
    Turned ps key w a scan (act scan w.store).1.2 := by
  obtain ⟨hres, hafter⟩ := perform_of_onScan hf ha
  refine ⟨?_, hres ▸ hturn, hmark, hfile, hfilter⟩
  rw [hafter]
  exact (onScan_held hf act).2

lemma Turned.of_still {act : ScanM Unit} (hf : w.handles.find? key = some (.scan scan))
    (ha : perform a w = (do return (← onScan key act).map fun _ => .done : WorkM (Reply Answer)) w)
    (hstill : scan.Still (act scan w.store).1.2) (hnot : a ≠ .mark key)
    (hturn : ∀ scan' res, scan'.position = scan.position → scan.Turn ps scan' a res) :
    Turned ps key w a scan (act scan w.store).1.2 :=
  .of_onScan hf ha (hturn _ _ hstill.position) (hstill.mark.trans (if_neg hnot).symm) hstill.file
    fun _ => hstill.filter

/-- Where an action through a scan leaves it. -/
theorem perform_turn (h : Standing own w) (hf : w.handles.find? key = some (.scan scan))
    (hps : w.pages scan.file.name = some ps) (hkey : a.handle? = some key)
    (hstays : ¬ a.Replaces key) : ∃ scan', Turned ps key w a scan scan' := by
  obtain ⟨qs, hd, body, spare, hqs, hl, hs, hon⟩ := h.on hf
  cases hps.symm.trans hqs
  cases a with
  | create | destroy => cases hkey
  | openReader | openInserter | openScan | close | drop =>
    exact (hstays (Option.some_inj.mp hkey)).elim
  | insert k b =>
    cases hkey
    refine ⟨scan, ?_, rfl, (if_neg nofun).symm, rfl, fun _ => rfl⟩
    rw [perform_insert_scan hf b]
    exact hf
  | next k =>
    cases hkey
    have hsearch := Scan.next_on hl hon hs.1
    exact ⟨_, .of_onScan hf rfl (Scan.next_turn hl hon hs.1 key)
      (hsearch.mark.trans (if_neg nofun).symm)
      (Scan.next_keeps (Site.lasting ..) scan w.store hon).name_eq fun _ => hsearch.filter⟩
  | readRecord k r =>
    cases hkey
    obtain ⟨hturn, hmark, hfilter⟩ := Scan.readRecord_turn ps key r scan w.store
    exact ⟨_, .of_onScan hf (perform_readRecord_scan hf r) hturn
      (hmark.trans (if_neg nofun).symm)
      (Scan.readRecord_keeps (Site.lasting ..) r scan w.store hon).name_eq fun _ => hfilter⟩
  | reset k =>
    cases hkey
    obtain ⟨hmark, hfilter⟩ := Scan.reset_mark scan w.store
    exact ⟨_, .of_onScan hf rfl (Scan.reset_turn key scan w.store)
      (hmark.trans (if_neg nofun).symm)
      (Scan.reset_keeps (Site.lasting ..) scan w.store hon).name_eq fun _ => hfilter⟩
  | stop k =>
    cases hkey
    obtain ⟨hturn, hmark, hfilter⟩ := Scan.stop_turn scan w.store
    exact ⟨_, .of_onScan hf rfl hturn (hmark.trans (if_neg nofun).symm)
      (Scan.stop_keeps (Site.lasting ..) scan w.store hon).name_eq fun _ => hfilter⟩
  | start k offset length type value comparison =>
    cases hkey
    obtain ⟨hpos, hfile, hmark⟩ := Scan.start_still offset length type value comparison scan w.store
    exact ⟨_, .of_onScan hf rfl hpos (hmark.trans (if_neg nofun).symm)
      (congrArg HeapFile.name hfile) fun hn => (hn rfl).elim⟩
  | current k =>
    cases hkey
    have hsame := (Scan.current_on hl hs.1 hon).2.1
    exact ⟨_, .of_onScan hf rfl (congrArg Scan.position hsame)
      ((congrArg Scan.mark hsame).trans (if_neg nofun).symm)
      (congrArg (fun scan => scan.file.name) hsame) fun _ => congrArg Scan.filter hsame⟩
  | mark k =>
    cases hkey
    have hset : perform (.mark key) w =
        (do return (← onScan key Scan.setMark).map fun _ => .done : WorkM (Reply Answer)) w := rfl
    exact ⟨_, .of_onScan hf hset rfl (if_pos rfl).symm rfl fun _ => rfl⟩
  | delete k =>
    cases hkey
    exact ⟨_, .of_still hf rfl (Scan.delete_on hl hs.1 hon).1 nofun fun _ _ hpos => hpos⟩
  | update k b =>
    cases hkey
    exact ⟨_, .of_still hf rfl (Scan.update_on hl hs.1 hon b).1 nofun fun _ _ hpos => hpos⟩
  | markDirty k =>
    cases hkey
    exact ⟨_, .of_still hf rfl (Scan.markDirty_still scan w.store) nofun fun _ _ hpos => hpos⟩

/-- A scan that is opened stands before the first record, and so does its mark. -/
structure AtStart (t : Prop) (pages : Option (List Page)) (scan : Scan) : Prop where
  cursor : scan.file.cursor = none
  finished : scan.finished = false
  filter : scan.filter = none
  mark : scan.mark = scan.position
  first : ∃ ps hd body spare, pages = some ps ∧ Heap.Layout t ps hd body spare ∧
    scan.file.currentPage = some hd.first

lemma held_openScan {name : String} {reply : Reply Answer} (h : Standing own w) (hn : own name)
    (hok : (perform (.openScan key name) w).1 = .ok reply) :
    ∃ scan, (perform (.openScan key name) w).2.handles.find? key = some (.scan scan) ∧
      scan.file.name = name ∧ AtStart w.store.Torn (w.pages name) scan := by
  rw [perform, map_apply] at hok ⊢
  unfold openAs at hok ⊢
  rcases ho : (do return .scan (← Store.openScan name) : StoreM Handle) w.store
    with ⟨e | new, s⟩ <;> rw [ho] at hok
  · cases hok
  · obtain ⟨scan, hscan, rfl⟩ := map_opening ho
    obtain ⟨⟨hcursor, hfilter, hfinished⟩, hname, ps, hd, body, spare, hps, hl, hcur, -⟩ :=
      openScan_placed h hn hscan
    refine ⟨scan, ?_, hname, hcursor, hfinished, hfilter, ?_, ps, hd, body, spare, hps, hl, hcur⟩
    · show (w.handles.insert key _).find? key = _
      rw [Table.find?_insert, if_pos rfl]
    · have hmark : scan.mark = { page := scan.file.currentPage } := by
        unfold Store.openScan at hscan
        rw [bind_apply] at hscan
        rcases hf : Store.openHeap name w.store with ⟨e | f, s'⟩ <;> rw [hf] at hscan <;> cases hscan
        rfl
      rw [hmark, Scan.position, hcursor, hfinished]

end Workspace
end PagedHeap
