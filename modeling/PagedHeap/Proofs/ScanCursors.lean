import PagedHeap.Proofs.CursorEdits
import PagedHeap.Proofs.Removal
import PagedHeap.Proofs.ScanRuns

/-! The cursor of a scan in runs. It is on the current page, if there is one; what is done at the
cursor is done there; and a search tells the end only after the chain has ended or the scan has been
stopped. A scan that lost its page in a switch does not look like one that has ended. -/
namespace PagedHeap

/-- The cursor is on the page, and at the end there is no page. -/
structure Mark.Coherent (m : Mark) : Prop where
  cursor : ∀ n r, m.page = some n → m.cursor = some r → r.page = n
  ended : m.finished = true → m.page = none

lemma Mark.coherent_at (r : RecordId) : (Mark.mk (some r.page) (some r) false).Coherent :=
  ⟨fun n r' hn hr => by cases hn; cases hr; rfl, fun h => nomatch h⟩

namespace Scan
variable {ps : List Page} {scan scan' : Scan} {a : Action} {key : String}
  {res : Except StoreError (Reply Answer)}

/-- The scan and its mark are where they can be. -/
structure Coherent (scan : Scan) : Prop where
  position : scan.position.Coherent
  mark : scan.mark.Coherent

/-- The scan has no page and has not ended: it does not know where to go on. -/
def Lost (scan : Scan) : Prop := scan.file.current = none ∧ scan.finished = false

lemma page_position : scan.position.page = none ↔ scan.file.current = none := Option.map_eq_none_iff

lemma coherent_of_failed (h : scan.position.Coherent) (ht : scan'.position = scan.position ∨
    scan'.file.current = none ∧ scan'.finished = scan.finished) : scan'.position.Coherent := by
  rcases ht with hpos | ⟨hnone, -⟩
  · exact hpos ▸ h
  · have hpage := page_position.mpr hnone
    exact ⟨fun n r hn => (nomatch hpage.symm.trans hn), fun _ => hpage⟩

lemma Turn.next_finished (ht : scan.Turn ps scan' (.next key) res) :
    scan'.finished = scan.finished ∨
      res = .ok (.answer (.found none)) ∧ scan'.file.current = none ∧ scan.AtEnd ps := by
  match res, ht with
  | .ok (.answer (.found (some _))), ht => exact .inl (congrArg Mark.finished ht.2)
  | .ok (.answer (.found none)), ht => exact .inr ⟨rfl, ht.1.1, ht.2⟩
  | .error _, ht => exact .inl (ht.elim (congrArg Mark.finished) And.right)
  | .ok .noHandle, ht | .ok .wrongHandle, ht | .ok (.answer .done), ht
  | .ok (.answer (.record _)), ht | .ok (.answer (.inserted _)), ht =>
    exact .inl (congrArg Mark.finished ht)

/-- The cursor remains on the page. -/
theorem Turn.coherent (ht : scan.Turn ps scan' a res) (h : scan.Coherent) :
    scan'.position.Coherent := by
  unfold Turn at ht
  split at ht
  · next r =>
    obtain ⟨hcur, hpos⟩ := ht
    have hfin : scan.finished = false :=
      Bool.eq_false_iff.mpr fun hfin => hcur (page_position.mp (h.position.ended hfin))
    rw [hpos, hfin]
    exact Mark.coherent_at r
  · have hpage := page_position.mpr ht.1.1
    exact ⟨fun n r hn => (nomatch hpage.symm.trans hn), fun _ => hpage⟩
  · rw [ht]
    exact Mark.coherent_at _
  · rw [ht]
    exact h.mark
  · rw [ht]
    exact ⟨nofun, fun _ => rfl⟩
  · exact coherent_of_failed h.position ht
  · exact coherent_of_failed h.position ht
  · exact coherent_of_failed h.position ht
  · exact ht ▸ h.position

end Scan

namespace Workspace
open Scan
variable {own : String → Prop} {w w' : Workspace} {cache : Cache} {key name : String} {a : Action}
  {actions : List Action} {scan scan' : Scan} {ps : List Page}

/-- A search through the scan under a key ends with the chain. -/
def ReachesEnd (w : Workspace) (key : String) : Prop :=
  (perform (.next key) w).1 = .ok (.answer (.found none)) ∧
    ∃ scan ps p, w.handles.find? key = some (.scan scan) ∧ w.pages scan.file.name = some ps ∧
      scan.file.current = some p ∧ Heap.Leads ps scan.shows p.number scan.nextSlot none

/-- Whether a scan has come to an end. -/
structure Past where
  /-- Since it was last set somewhere, the end of the chain was reached or the scan was stopped; or
  where it was set, it had come to an end. -/
  ended : Prop
  /-- It had come to an end when it was marked. -/
  marked : Prop

/-- What an action adds to that. -/
def Past.after (key : String) (w : Workspace) (past : Past) (a : Action) : Past :=
  if a.handle? = some key then
    match a, (perform a w).1 with
    | .next _, _ => { past with ended := past.ended ∨ w.ReachesEnd key }
    | .stop _, _ => { past with ended := True }
    | .mark _, _ => { past with marked := past.ended }
    | .reset _, .ok _ => { past with ended := past.marked }
    | .readRecord _ _, .ok _ => { past with ended := False }
    | _, _ => past
  else past

/-- Whether the scan under a key has come to an end in a run. -/
def history (key : String) : Workspace → Past → List Action → Past
  | _, past, [] => past
  | w, past, a :: rest => history key (perform a w).2 (past.after key w a) rest

/-- The action sets a scan somewhere, or ends it. -/
def Recovers (key : String) (w : Workspace) (a : Action) : Prop :=
  match a, (perform a w).1 with
  | .readRecord k _, .ok _ | .reset k, .ok _ | .stop k, _ => k = key
  | _, _ => False

/-- What is known of a scan that says it has come to its end. -/
structure Recalled (past : Past) (scan : Scan) : Prop where
  ended : scan.finished = true → past.ended
  marked : scan.mark.finished = true → past.marked

variable {past : Past}

lemma Recalled.of_finished (hr : Recalled past scan) (hfin : scan'.finished = scan.finished)
    (hmark : scan'.mark = scan.mark) : Recalled past scan' :=
  ⟨fun h => hr.ended (hfin ▸ h), fun h => hr.marked (hmark ▸ h)⟩

/-- What is known of a scan after an action through it. -/
lemma Turned.recalled (ht : Turned ps key w a scan scan')
    (hf : w.handles.find? key = some (.scan scan)) (hps : w.pages scan.file.name = some ps)
    (hkey : a.handle? = some key) (hr : Recalled past scan) :
    Recalled (past.after key w a) scan' := by
  have hturn := ht.turn
  have hmark := ht.mark
  unfold Past.after
  rw [if_pos hkey]
  cases a with
  | next k =>
    cases hkey
    rw [if_neg nofun] at hmark
    refine ⟨fun hfin => ?_, fun h => hr.marked (hmark ▸ h)⟩
    rcases hturn.next_finished with hsame | ⟨hres, -, ⟨-, hended⟩ | ⟨p, hp, hout⟩⟩
    · exact .inl (hr.ended (hsame.symm.trans hfin))
    · exact .inl (hr.ended hended)
    · exact .inr ⟨hres, scan, ps, p, hf, hps, hp, hout⟩
  | stop k =>
    rw [if_neg nofun] at hmark
    exact ⟨fun _ => trivial, fun h => hr.marked (hmark ▸ h)⟩
  | mark k =>
    cases hkey
    rw [if_pos rfl] at hmark
    refine ⟨fun h => hr.ended ((congrArg Mark.finished hturn).symm.trans h), fun h => hr.ended ?_⟩
    exact (congrArg Mark.finished hmark).symm.trans h
  | reset k =>
    rw [if_neg nofun] at hmark
    cases hres : (perform (.reset k) w).1 with
    | error e =>
      rw [hres] at hturn
      exact hr.of_finished (hturn.elim (congrArg Mark.finished) And.right) hmark
    | ok reply =>
      rw [hres] at hturn
      refine ⟨fun h => hr.marked ?_, fun h => hr.marked (hmark ▸ h)⟩
      exact (congrArg Mark.finished hturn).symm.trans h
  | readRecord k r =>
    rw [if_neg nofun] at hmark
    cases hres : (perform (.readRecord k r) w).1 with
    | error e =>
      rw [hres] at hturn
      exact hr.of_finished (hturn.elim (congrArg Mark.finished) And.right) hmark
    | ok reply =>
      rw [hres] at hturn
      refine ⟨fun h => ?_, fun h => hr.marked (hmark ▸ h)⟩
      cases (congrArg Mark.finished hturn).symm.trans h
  | _ =>
    rw [if_neg nofun] at hmark
    exact hr.of_finished (congrArg Mark.finished hturn) hmark

lemma next_of_lost (hf : w.handles.find? key = some (.scan scan)) (hlost : scan.Lost) :
    (perform (.next key) w).1 = .error .noCurrentRecord ∧ Untouched w (perform (.next key) w).2 := by
  have hnext := next_of_none (s := w.store) hlost.1
  rw [hlost.2] at hnext
  obtain ⟨hres, hafter⟩ := perform_of_onScan (a := .next key) hf rfl
  rw [hres, hafter]
  refine ⟨?_, .of_onScan hf ?_ ?_⟩ <;> rw [hnext]
  rfl

/-- A lost scan remains so until it is set somewhere or stopped. -/
lemma Turned.lost (ht : Turned ps key w a scan scan') (hkey : a.handle? = some key)
    (hf : w.handles.find? key = some (.scan scan)) (hlost : scan.Lost)
    (hnot : ¬ w.Recovers key a) : scan'.Lost := by
  have hturn := ht.turn
  have hstill : scan'.position = scan.position → scan'.Lost := fun hpos =>
    ⟨page_position.mp ((congrArg Mark.page hpos).trans (page_position.mpr hlost.1)),
      (congrArg Mark.finished hpos).trans hlost.2⟩
  have hfailed : scan'.position = scan.position ∨
      scan'.file.current = none ∧ scan'.finished = scan.finished → scan'.Lost :=
    fun h => h.elim hstill fun h => ⟨h.1, h.2.trans hlost.2⟩
  cases a with
  | next k =>
    cases hkey
    have hheld := ht.held
    rw [(next_of_lost hf hlost).2.handles key, hf] at hheld
    cases hheld
    exact hlost
  | stop k => exact (hnot (Option.some_inj.mp hkey)).elim
  | reset k =>
    unfold Recovers at hnot
    cases hres : (perform (.reset k) w).1 with
    | error e =>
      rw [hres] at hturn
      exact hfailed hturn
    | ok reply =>
      rw [hres] at hnot
      exact (hnot (Option.some_inj.mp hkey)).elim
  | readRecord k r =>
    unfold Recovers at hnot
    cases hres : (perform (.readRecord k r) w).1 with
    | error e =>
      rw [hres] at hturn
      exact hfailed hturn
    | ok reply =>
      rw [hres] at hnot
      exact (hnot (Option.some_inj.mp hkey)).elim
  | _ => exact hstill hturn

/-- The scan under a key, and what is remembered of it. -/
structure Tracked (key name : String) (w : Workspace) (past : Past) (scan : Scan) : Prop where
  held : w.handles.find? key = some (.scan scan)
  file : scan.file.name = name
  coherent : scan.Coherent
  recalled : Recalled past scan

/-- One action, through this scan or not. -/
theorem Tracked.step (ht : Tracked key name w past scan) (h : Standing own w)
    (hstays : ¬ a.Replaces key) :
    ∃ scan', Tracked key name (perform a w).2 (past.after key w a) scan' ∧
      (scan.Lost → ¬ w.Recovers key a → scan'.Lost) := by
  by_cases hkey : a.handle? = some key
  · obtain ⟨ps, -, -, -, hps, -⟩ := h.on ht.held
    obtain ⟨scan', hturned⟩ := perform_turn h ht.held hps hkey hstays
    refine ⟨scan', ⟨hturned.held, hturned.file.trans ht.file,
      ⟨hturned.turn.coherent ht.coherent, ?_⟩, hturned.recalled ht.held hps hkey ht.recalled⟩,
      hturned.lost hkey ht.held⟩
    rw [hturned.mark]
    split
    · exact ht.coherent.position
    · exact ht.coherent.mark
  · have hafter : past.after key w a = past := by
      unfold Past.after
      exact if_neg hkey
    rw [hafter]
    exact ⟨scan, ⟨(find?_perform hkey w).trans ht.held, ht.file, ht.coherent, ht.recalled⟩,
      fun hlost _ => hlost⟩

theorem Tracked.run (ht : Tracked key name w past scan) (h : Standing own w)
    (hwithin : ∀ a ∈ actions, a.Within own) (hstays : ∀ a ∈ actions, ¬ a.Replaces key) :
    ∃ scan', Tracked key name (w.run actions) (history key w past actions) scan' ∧
      (scan.Lost → (∀ xs a ys, actions = xs ++ a :: ys → ¬ (w.run xs).Recovers key a) →
        scan'.Lost) := by
  induction actions generalizing w past scan with
  | nil => exact ⟨scan, ht, fun hlost _ => hlost⟩
  | cons a rest ih =>
    obtain ⟨ha, hrest⟩ := List.forall_mem_cons.mp hwithin
    obtain ⟨hstay, hstays'⟩ := List.forall_mem_cons.mp hstays
    obtain ⟨scan₁, ht₁, hlost₁⟩ := ht.step h hstay
    obtain ⟨scan₂, ht₂, hlost₂⟩ := ih ht₁ (perform_standing h ha) hrest hstays'
    refine ⟨scan₂, ht₂, fun hlost hnot => hlost₂ (hlost₁ hlost (hnot [] a rest rfl)) ?_⟩
    rintro xs b ys rfl
    exact hnot (a :: xs) b ys rfl

lemma history_append (w : Workspace) (past : Past) (xs ys : List Action) :
    history key w past (xs ++ ys) = history key (w.run xs) (history key w past xs) ys := by
  induction xs generalizing w past with
  | nil => rfl
  | cons a rest ih => exact ih (perform a w).2 (past.after key w a)

/-- A scan in a run, after it was opened. -/
structure Cursors (own : String → Prop) (key name : String) (opened : Workspace)
    (actions : List Action) : Prop where
  /-- The cursor is on the current page, and at the end there is no page. What is done at the cursor
  is done there, or nothing is done. -/
  coherent : ∀ past rest, actions = past ++ rest → ∃ scan,
    (opened.run past).handles.find? key = some (.scan scan) ∧ scan.position.Coherent ∧
      Exact own name key (opened.run past) scan
  /-- A search tells the end only after the scan has come to it. -/
  ended : ∀ past rest, actions = past ++ .next key :: rest →
    (perform (.next key) (opened.run past)).1 = .ok (.answer (.found none)) →
    (history key opened ⟨False, False⟩ (past ++ [.next key])).ended
  /-- While the scan is lost all searches fail. -/
  lost : ∀ past between rest scan, actions = past ++ (between ++ .next key :: rest) →
    (opened.run past).handles.find? key = some (.scan scan) → scan.Lost →
    (∀ xs a ys, between = xs ++ a :: ys → ¬ (opened.run (past ++ xs)).Recovers key a) →
    (perform (.next key) (opened.run (past ++ between))).1 = .error .noCurrentRecord

end Workspace
end PagedHeap
