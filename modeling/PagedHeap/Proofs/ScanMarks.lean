import PagedHeap.Proofs.CursorEdits
import PagedHeap.Proofs.Removal
import PagedHeap.Proofs.ScanRuns
import PagedHeap.Proofs.ServedFiles

/-! Marks of scans. A scan that goes back to its mark stands where it was marked, whatever it has done
since; and as long as the file is as it was then, it reads on from there as it would have then. -/
namespace PagedHeap

namespace HeapFile
variable {f : HeapFile} {s : Store}

/-- What is asked of the store to bring an open file from its current page to a page, or to none. -/
inductive MovesTo (f : HeapFile) (s : Store) : Option UInt32 → Option PinnedPage → Store → Prop
  /-- The current page remains pinned, and marked as it is. -/
  | here : MovesTo f s f.currentPage f.current s
  /-- The current page is given back, dirty or not. -/
  | left {p s'} (hp : f.current = some p)
      (hunpin : Store.unpinPage ⟨f.id, p.number⟩ p.dirty s = (.ok (), s')) :
      MovesTo f s none none s'
  | pinned {n i s'} (hnone : f.current = none)
      (hread : Store.readPage ⟨f.id, n⟩ s = (.ok i, s')) :
      MovesTo f s (some n) (some { number := n, frame := i }) s'
  | switched {p n i s' s''} (hp : f.current = some p) (hne : p.number ≠ n)
      (hunpin : Store.unpinPage ⟨f.id, p.number⟩ p.dirty s = (.ok (), s'))
      (hread : Store.readPage ⟨f.id, n⟩ s' = (.ok i, s'')) :
      MovesTo f s (some n) (some { number := n, frame := i }) s''

end HeapFile

namespace Scan
open HandleM HeapFile Heap
variable {c c' : Site} {t t' : Prop} {ps : List Page} {hd hd' : FileHeader} {scan scan' : Scan}
  {s s' : Store} {body body' : List UInt32} {spare spare' : Option UInt32} {r : RecordId}

/-- What a scan asks of the store to go back to its mark. -/
theorem reset_movesTo (hok : (reset scan s).1.1 = .ok ()) :
    scan.file.MovesTo s scan.mark.page (reset scan s).1.2.file.current (reset scan s).2 := by
  by_cases hsame : scan.mark.page = scan.file.currentPage
  · rw [reset_here hsame, hsame]
    exact .here
  rw [reset_there hsame] at hok ⊢
  cases hc : scan.file.current with
  | none =>
    rw [releaseCurrent_none hc] at hok ⊢
    dsimp only at hok ⊢
    cases hm : scan.mark.page with
    | none =>
      rw [hm, currentPage, hc] at hsame
      exact (hsame rfl).elim
    | some n =>
      rw [hm] at hok
      dsimp only at hok ⊢
      rw [pinCurrent_apply] at hok ⊢
      rcases hr : Store.readPage ⟨scan.file.id, n⟩ s with ⟨e | i, s'⟩ <;> rw [hr] at hok
      · cases hok
      · exact .pinned hc hr
  | some p =>
    rw [releaseCurrent_some hc] at hok ⊢
    rcases hu : Store.unpinPage ⟨scan.file.id, p.number⟩ p.dirty s with ⟨e | u, s'⟩ <;>
      rw [hu] at hok
    · cases hok
    dsimp only at hok ⊢
    cases hm : scan.mark.page with
    | none => exact .left hc hu
    | some n =>
      have hne : p.number ≠ n := by
        rintro rfl
        rw [hm, currentPage, hc] at hsame
        exact hsame rfl
      rw [hm] at hok
      dsimp only at hok ⊢
      rw [pinCurrent_apply] at hok ⊢
      dsimp only at hok ⊢
      rcases hr : Store.readPage ⟨scan.file.id, n⟩ s' with ⟨e | i, s''⟩ <;> rw [hr] at hok
      · cases hok
      · exact .switched hc hne hu hr

section Alike

/-- Two scans that stand at the same place and show the same records. Without a page the place of the
cursor is nothing to go by. -/
structure Alike (scan scan' : Scan) : Prop where
  page : scan'.file.currentPage = scan.file.currentPage
  cursor : scan.file.current ≠ none → scan'.file.cursor = scan.file.cursor
  finished : scan'.finished = scan.finished
  filter : scan'.filter = scan.filter

lemma Alike.of_position (hpos : scan'.position = scan.position)
    (hfilter : scan'.filter = scan.filter) : scan.Alike scan' :=
  ⟨congrArg Mark.page hpos, fun _ => congrArg Mark.cursor hpos, congrArg Mark.finished hpos, hfilter⟩

lemma Alike.current_none (ha : scan.Alike scan') (hc : scan.file.current = none) :
    scan'.file.current = none := by
  have hpage := ha.page
  rwa [currentPage, currentPage, hc, Option.map_none, Option.map_eq_none_iff] at hpage

lemma Alike.current_some (ha : scan.Alike scan') {p : PinnedPage}
    (hc : scan.file.current = some p) :
    ∃ p', scan'.file.current = some p' ∧ p'.number = p.number :=
  currentPage_eq_some_iff.mp (ha.page.trans (by rw [currentPage, hc]; rfl))

lemma Alike.under (ha : scan.Alike scan') : scan'.under = scan.under := by
  cases hc : scan.file.current with
  | none => rw [under_of_none (.inl hc), under_of_none (.inl (ha.current_none hc))]
  | some p =>
    have hcursor := ha.cursor (by rw [hc]; exact Option.some_ne_none p)
    unfold Scan.under
    rw [hcursor, ha.page]

theorem Alike.current (ha : scan.Alike scan') (hl : Layout t ps hd body spare)
    (hl' : Layout t' ps hd' body' spare') (hf : Site.OnDataPage ps scan.file)
    (hf' : Site.OnDataPage ps scan'.file) (h : c.On t ps scan.file s) (h' : c'.On t' ps scan'.file s') :
    (Scan.current scan' s').1.1 = (Scan.current scan s).1.1 := by
  unfold Scan.current
  cases hu : scan.under with
  | error e => rw [currentId_error hu, currentId_error (ha.under.trans hu)]
  | ok r =>
    have hu' := ha.under.trans hu
    obtain ⟨p, hp, hn, hw, -⟩ := page_under hl hf h hu
    obtain ⟨p', hp', hn', hw', -⟩ := page_under hl' hf' h' hu'
    have hpage := h.current hp
    have hpage' := h'.current hp'
    rw [hn] at hpage
    rw [hn'] at hpage'
    have hsame := Option.some.inj (hpage.symm.trans hpage')
    rw [currentId_ok hu, currentId_ok hu', onFile_apply, onFile_apply,
      readCurrent_some r.slot hp, readCurrent_some r.slot hp', if_neg (not_not.mpr hw.kind),
      if_neg (not_not.mpr hw'.kind), hsame]

theorem Alike.next (ha : scan.Alike scan') (hl : Layout t ps hd body spare)
    (hl' : Layout t' ps hd' body' spare') (hf : Site.OnDataPage ps scan.file)
    (hf' : Site.OnDataPage ps scan'.file) (h : c.On t ps scan.file s) (h' : c'.On t' ps scan'.file s')
    (hfine : (Scan.next scan s).2.failures = s.failures)
    (hfine' : (Scan.next scan' s').2.failures = s'.failures) :
    (Scan.next scan' s').1.1 = (Scan.next scan s).1.1 ∧
      (Scan.next scan s).1.2.Alike (Scan.next scan' s').1.2 := by
  have hsearch := next_on hl h hf
  have hsearch' := next_on hl' h' hf'
  have hfilter := (hsearch'.filter.trans ha.filter).trans hsearch.filter.symm
  cases hc : scan.file.current with
  | none =>
    rw [next_of_none hc, next_of_none (ha.current_none hc), ha.finished]
    exact ⟨rfl, ha⟩
  | some p =>
    obtain ⟨p', hc', hn⟩ := ha.current_some hc
    have hcur : scan.file.current ≠ none := by rw [hc]; exact Option.some_ne_none p
    obtain ⟨found, hr⟩ := next_ok hl hf h hcur hfine
    obtain ⟨found', hr'⟩ := next_ok hl' hf' h' (by rw [hc']; exact Option.some_ne_none p') hfine'
    have hleads := steps_leads hl _ h hf hc hr
    have hleads' := steps_leads hl' _ h' hf' hc' hr'
    have hshows : scan'.shows = scan.shows := by
      funext b
      rw [shows, shows, ha.filter]
    rw [hn, hshows, nextSlot, ha.cursor hcur, ← nextSlot] at hleads'
    obtain rfl := hleads.unique hleads'
    refine ⟨hr'.trans hr.symm, ?_⟩
    cases found with
    | none =>
      obtain ⟨hnone, hfin⟩ := hsearch.ended hr
      obtain ⟨hnone', hfin'⟩ := hsearch'.ended hr'
      refine ⟨?_, fun hne => absurd hnone hne, hfin'.trans hfin.symm, hfilter⟩
      rw [currentPage, currentPage, hnone, hnone']
    | some r =>
      obtain ⟨-, -, hpos⟩ := hsearch.found r hr
      obtain ⟨-, -, hpos'⟩ := hsearch'.found r hr'
      rw [ha.finished] at hpos'
      exact .of_position (hpos'.trans hpos.symm) hfilter

end Alike
end Scan

namespace Workspace
open Scan
variable {own : String → Prop} {w w' : Workspace} {cache : Cache} {key name : String} {a : Action}
  {actions calls : List Action} {scan scan' : Scan}

def answers : Workspace → List Action → List (Except StoreError (Reply Answer))
  | _, [] => []
  | w, a :: rest => (perform a w).1 :: answers (perform a w).2 rest

/-- Scans on a file held under the same key in two workspaces, which read alike. -/
structure Twins (key name : String) (w w' : Workspace) (scan scan' : Scan) : Prop where
  held : w.handles.find? key = some (.scan scan)
  held' : w'.handles.find? key = some (.scan scan')
  file : scan.file.name = name
  file' : scan'.file.name = name
  alike : scan.Alike scan'
  pages : w'.pages name = w.pages name

/-- A read through both gives the same, as long as no request fails. -/
theorem Twins.step (ht : Twins key name w w' scan scan') (h : Standing own w) (h' : Standing own w')
    (ha : a = .next key ∨ a = .current key)
    (hfine : a = .next key → (perform a w).2.store.failures = w.store.failures)
    (hfine' : a = .next key → (perform a w').2.store.failures = w'.store.failures) :
    (perform a w').1 = (perform a w).1 ∧
      ∃ scan₁ scan₁', Twins key name (perform a w).2 (perform a w').2 scan₁ scan₁' := by
  obtain ⟨ps, hd, body, spare, hps, hl, hs, hon⟩ := h.on ht.held
  obtain ⟨qs, hd', body', spare', hqs, hl', hs', hon'⟩ := h'.on ht.held'
  have hn : own name := ht.file ▸ h.own_of_find ht.held
  have hsame : qs = ps := by
    have hqs : w'.pages scan'.file.name = some qs := hqs
    have hps : w.pages scan.file.name = some ps := hps
    rw [ht.file', ht.pages, ← ht.file, hps] at hqs
    exact (Option.some.inj hqs).symm
  subst hsame
  have hpages : (perform a w').2.pages name = (perform a w).2.pages name := by
    have hon : a.On own := by rcases ha with rfl | rfl <;> trivial
    have hspare : ∀ {w : Workspace} {res}, ¬ Touches w name a res := by
      rcases ha with rfl | rfl <;> exact id
    exact ((perform_outcome h' a hon).spares hn hspare).trans
      (ht.pages.trans ((perform_outcome h a hon).spares hn hspare).symm)
  rcases ha with rfl | rfl
  · have hsteps := ht.alike.next hl hl' hs.1 hs'.1 hon hon'
      (store_next ht.held ▸ hfine rfl) (store_next ht.held' ▸ hfine' rfl)
    obtain ⟨hres, hafter⟩ := perform_of_onScan (a := .next key) ht.held rfl
    obtain ⟨hres', hafter'⟩ := perform_of_onScan (a := .next key) ht.held' rfl
    refine ⟨by rw [hres, hres', hsteps.1], _, _, ?_, ?_, ?_, ?_, hsteps.2, hpages⟩
    · exact hafter ▸ (onScan_held ht.held Scan.next).2
    · exact hafter' ▸ (onScan_held ht.held' Scan.next).2
    · exact (next_keeps (Site.lasting ..) scan w.store hon).name_eq.trans ht.file
    · exact (next_keeps (Site.lasting ..) scan' w'.store hon').name_eq.trans ht.file'
  · have hread := ht.alike.current hl hl' hs.1 hs'.1 hon hon'
    have hstill := (current_on hl hs.1 hon).2.1
    have hstill' := (current_on hl' hs'.1 hon').2.1
    obtain ⟨hres, hafter⟩ := perform_of_onScan (a := .current key) ht.held rfl
    obtain ⟨hres', hafter'⟩ := perform_of_onScan (a := .current key) ht.held' rfl
    refine ⟨by rw [hres, hres', hread], scan, scan', ?_, ?_, ht.file, ht.file', ht.alike, hpages⟩
    · have hheld := (onScan_held ht.held Scan.current).2
      rwa [hstill, ← hafter] at hheld
    · have hheld := (onScan_held ht.held' Scan.current).2
      rwa [hstill', ← hafter'] at hheld

theorem Twins.answers (ht : Twins key name w w' scan scan') (h : Standing own w)
    (h' : Standing own w') (hcalls : ∀ a ∈ calls, a = .next key ∨ a = .current key)
    (hfine : Fine key w calls) (hfine' : Fine key w' calls) :
    w'.answers calls = w.answers calls := by
  induction calls generalizing w w' scan scan' with
  | nil => rfl
  | cons a rest ih =>
    obtain ⟨ha, hrest⟩ := List.forall_mem_cons.mp hcalls
    have hon : a.On own := by rcases ha with rfl | rfl <;> trivial
    obtain ⟨hres, scan₁, scan₁', ht₁⟩ := ht.step h h' ha
      (fun he => by subst he; exact hfine [] rest rfl)
      (fun he => by subst he; exact hfine' [] rest rfl)
    have hst := (perform_outcome h a hon).standing
    have hst' := (perform_outcome h' a hon).standing
    rw [Workspace.answers, Workspace.answers, hres,
      ih ht₁ hst hst' hrest hfine.tail hfine'.tail]

section Marks

/-- The action marks the scan under a key, or opens it, which marks it too. -/
def Marks (w : Workspace) (key : String) (a : Action) : Prop :=
  a = .mark key ∨ ∃ name reply, a = .openScan key name ∧ (perform a w).1 = .ok reply

lemma Marks.mark (hm : w.Marks key a) (h : Standing own w) (ha : a.Within own)
    (hf : (perform a w).2.handles.find? key = some (.scan scan)) : scan.mark = scan.position := by
  rcases hm with rfl | ⟨name, reply, rfl, hok⟩
  · rw [perform, map_apply, onScan_apply] at hf
    rcases hold : w.handles.find? key with _ | ⟨f | f | old⟩ <;> rw [hold] at hf
    · cases hold.symm.trans hf
    · cases hold.symm.trans hf
    · cases hold.symm.trans hf
    · have hf : (w.handles.insert key _).find? key = some (.scan scan) := hf
      rw [Table.find?_insert, if_pos rfl] at hf
      cases hf
      rfl
  · obtain ⟨scan', hheld, -, hstart⟩ := held_openScan h (ha name rfl) hok
    cases hf.symm.trans hheld
    exact hstart.mark

/-- Until it is marked again, a scan keeps its mark. -/
lemma kept_run (h : Standing own w) (hf : w.handles.find? key = some (.scan scan))
    (hwithin : ∀ a ∈ actions, a.Within own)
    (hkeeps : ∀ a ∈ actions, ¬ a.Replaces key ∧ ¬ a.Filters key ∧ a ≠ .mark key) :
    ∃ last, (w.run actions).handles.find? key = some (.scan last) ∧ last.mark = scan.mark ∧
      last.filter = scan.filter ∧ last.file.name = scan.file.name := by
  induction actions generalizing w scan with
  | nil => exact ⟨scan, hf, rfl, rfl, rfl⟩
  | cons a rest ih =>
    obtain ⟨ha, hrest⟩ := List.forall_mem_cons.mp hwithin
    obtain ⟨⟨hstays, hfilters, hmark⟩, hkeeps'⟩ := List.forall_mem_cons.mp hkeeps
    have hst := perform_standing h ha
    by_cases hkey : a.handle? = some key
    · obtain ⟨ps, -, -, -, hps, -⟩ := h.on hf
      obtain ⟨scan₁, hturned⟩ := perform_turn h hf hps hkey hstays
      obtain ⟨last, hlast, hmark', hfilter', hname'⟩ := ih hst hturned.held hrest hkeeps'
      have hmark₁ := hturned.mark
      rw [if_neg hmark] at hmark₁
      exact ⟨last, hlast, hmark'.trans hmark₁, hfilter'.trans (hturned.filter hfilters),
        hname'.trans hturned.file⟩
    · exact ih hst ((find?_perform hkey w).trans hf) hrest hkeeps'

/-- Going back from the workspace `left` to the mark of the scan in the workspace `marked`. -/
structure RoundTrip (key : String) (marked left : Workspace) (scan : Scan) : Prop where
  /-- The scan stands where it was marked. The page of the mark remains pinned as it is, or is pinned
  again once the other page was given back. -/
  returned : ∃ last back, left.handles.find? key = some (.scan last) ∧
    (perform (.reset key) left).2.handles.find? key = some (.scan back) ∧
    back.position = scan.position ∧
    last.file.MovesTo left.store scan.position.page back.file.current
      (perform (.reset key) left).2.store
  /-- It reads on as it would have from the mark, as long as no request fails. -/
  onward : ∀ calls, (∀ a ∈ calls, a = .next key ∨ a = .current key) → Fine key marked calls →
    Fine key (perform (.reset key) left).2 calls →
    (perform (.reset key) left).2.answers calls = marked.answers calls

end Marks
end Workspace
end PagedHeap
