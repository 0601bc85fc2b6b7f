import PagedHeap.Proofs.Runs
import PagedHeap.Proofs.ScanTurns

/-! How a scan gets on while other handles change its file. What it has found lies behind it, in
order. What has been there since it was opened, and is still to be found, lies ahead of it on the
chain, or the scan has lost its place and will find nothing more. -/
namespace PagedHeap

/-- The action takes a scan away from its place, or puts something else in its stead. -/
def Action.Repositions (key : String) : Action → Prop
  | .openReader k _ | .openInserter k _ | .openScan k _ | .close k | .drop k | .readRecord k _
  | .reset k | .stop k => k = key
  | _ => False

lemma Action.Replaces.repositions {key : String} {a : Action} (h : a.Replaces key) :
    a.Repositions key := by
  cases a with
  | openReader | openInserter | openScan | close | drop => exact h
  | _ => exact h.elim

namespace Scan
variable {scan scan' : Scan} {s : Store} {r : RecordId}

lemma nextSlot_congr (h : scan'.position = scan.position) : scan'.nextSlot = scan.nextSlot := by
  unfold nextSlot
  rw [show scan'.file.cursor = scan.file.cursor from congrArg Mark.cursor h]

lemma ahead_congr (h : scan'.position = scan.position) : scan'.Ahead r ↔ scan.Ahead r := by
  unfold Ahead
  rw [nextSlot_congr h, show scan'.file.currentPage = scan.file.currentPage from congrArg Mark.page h]

lemma behind_congr (h : scan'.position = scan.position) : scan'.Behind r ↔ scan.Behind r := by
  unfold Behind
  rw [nextSlot_congr h, show scan'.file.currentPage = scan.file.currentPage from congrArg Mark.page h]

end Scan

namespace Workspace
variable {own : String → Prop} {w w' : Workspace} {key other name file : String} {a : Action}
  {scan scan' : Scan} {r : RecordId}

/-- Only what repositions a scan, and the search for the next record, moves it. -/
theorem steady_perform (h : Standing own w) (hf : w.handles.find? key = some (.scan scan))
    (hmove : ¬ a.Repositions key) (hnext : a ≠ .next key) :
    ∃ scan', (perform a w).2.handles.find? key = some (.scan scan') ∧
      scan'.position = scan.position ∧ scan'.file.name = scan.file.name ∧
      (¬ a.Filters key → scan'.filter = scan.filter) := by
  by_cases hkey : a.handle? = some key
  swap
  · exact ⟨scan, (find?_perform hkey w).trans hf, rfl, rfl, fun _ => rfl⟩
  obtain ⟨ps, -, -, -, hps, -⟩ := h.on hf
  obtain ⟨scan', hturned⟩ := perform_turn h hf hps hkey fun hr => hmove hr.repositions
  have hturn := hturned.turn
  refine ⟨scan', hturned.held, ?_, hturned.file, hturned.filter⟩
  cases a with
  | next k =>
    cases hkey
    exact (hnext rfl).elim
  | readRecord | reset | stop => exact (hmove (Option.some_inj.mp hkey)).elim
  | _ => exact hturn

section Progress

/-- A page of the body of the chain of a file. -/
def OnBody (w : Workspace) (name : String) (n : UInt32) : Prop :=
  ∃ ps t hd body spare, w.pages name = some ps ∧ Heap.Layout t ps hd body spare ∧ n ∈ body

lemma OnBody.mono {n : UInt32} (h' : Standing own w') (hm : Moves own w w') (hn : own name)
    (h : w.OnBody name n) : w'.OnBody name n := by
  obtain ⟨ps, t, hd, body, spare, hps, hl, hmem⟩ := h
  obtain ⟨qs, hqs, hev, -⟩ := (hm name hn).1 ps hps
  obtain ⟨hd', body', spare', hl'⟩ := (h'.formed name qs hn hqs).layout_of_evolves hl hev
  exact ⟨qs, _, hd', body', spare', hqs, hl', hev.body hl hl' hmem⟩

/-- How far the scan under a key has got: what it has found, and where the records are of which it
is due to find each that it has not found. -/
structure Progress (key name : String) (found : List RecordId) (due : RecordId → Prop)
    (w : Workspace) (scan : Scan) : Prop where
  held : w.handles.find? key = some (.scan scan)
  file : scan.file.name = name
  sorted : found.Pairwise (· < ·)
  behind : ∀ r ∈ found, scan.Behind r
  ended : scan.finished = true → scan.file.current = none
  rest : ∀ r, due r → r ∈ found ∨
    (scan.Ahead r ∧ ∀ n, scan.file.currentPage = some n → w.OnBody name n) ∨
    scan.file.current = none ∧ scan.finished = false

def foundBy : Except StoreError (Reply Answer) → Option RecordId
  | .ok (.answer (.found r)) => r
  | _ => none

variable {found : List RecordId} {due : RecordId → Prop}

/-- A scan that stays where it is goes on being due to find the same records. -/
theorem Progress.steady (hp : Progress key name found due w scan) (h' : Standing own w')
    (hm : Moves own w w') (hn : own name) (hheld : w'.handles.find? key = some (.scan scan'))
    (hpos : scan'.position = scan.position) (hname : scan'.file.name = scan.file.name) :
    Progress key name found due w' scan' := by
  have hpage : scan'.file.currentPage = scan.file.currentPage := congrArg Mark.page hpos
  have hfinished : scan'.finished = scan.finished := congrArg Mark.finished hpos
  have hcurrent : scan'.file.current = none ↔ scan.file.current = none := by
    rw [← Option.map_eq_none_iff (f := PinnedPage.number), ← HeapFile.currentPage, hpage,
      HeapFile.currentPage, Option.map_eq_none_iff]
  refine ⟨hheld, hname.trans hp.file, hp.sorted, fun r hr => ?_, fun hf => ?_, fun r hr => ?_⟩
  · exact (Scan.behind_congr hpos).mpr (hp.behind r hr)
  · exact hcurrent.mpr (hp.ended (hfinished ▸ hf))
  · rcases hp.rest r hr with hf | ⟨ha, hbody⟩ | ⟨hcur, hfin⟩
    · exact Or.inl hf
    · refine Or.inr (Or.inl ⟨(Scan.ahead_congr hpos).mpr ha, fun n hn' => ?_⟩)
      exact (hbody n (hpage ▸ hn')).mono h' hm hn
    · exact Or.inr (Or.inr ⟨hcurrent.mpr hcur, hfinished.trans hfin⟩)

/-- A scan without a current page has found what it is due to find, or has lost its place. -/
lemma Progress.left (hp : Progress key name found due w scan)
    (hheld : w'.handles.find? key = some (.scan scan')) (hname : scan'.file.name = scan.file.name)
    (hcur : scan'.file.current = none)
    (hrest : ∀ r, due r → r ∈ found ∨ scan'.finished = false) :
    Progress key name found due w' scan' := by
  refine ⟨hheld, hname.trans hp.file, hp.sorted, fun r _ n hn => ?_, fun _ => hcur, fun r hr => ?_⟩
  · rw [HeapFile.currentPage, hcur] at hn
    cases hn
  · exact (hrest r hr).imp_right fun hfin => Or.inr ⟨hcur, hfin⟩

lemma perform_next (hf : w.handles.find? key = some (.scan scan)) :
    (perform (.next key) w).1 = (Scan.next scan w.store).1.1.map (fun r => .answer (.found r)) ∧
      (perform (.next key) w).2.handles.find? key = some (.scan (Scan.next scan w.store).1.2) := by
  obtain ⟨hres, hheld⟩ := onScan_held hf Scan.next
  rw [perform, map_apply]
  refine ⟨?_, hheld⟩
  rw [hres]
  cases (Scan.next scan w.store).1.1 <;> rfl

lemma Progress.pass (hp : Progress key name found due w scan) {r' : RecordId}
    (hheld : w'.handles.find? key = some (.scan scan')) (hname : scan'.file.name = scan.file.name)
    (ha : scan.Ahead r') (hpos : scan'.position = ⟨some r'.page, some r', scan.finished⟩)
    (hbody : w'.OnBody name r'.page)
    (hrest : ∀ r, due r → r ∈ found ++ [r'] ∨ scan'.Ahead r) :
    Progress key name (found ++ [r']) due w' scan' := by
  have hpage : scan'.file.currentPage = some r'.page := congrArg Mark.page hpos
  have hslot : scan'.nextSlot = r'.slot + 1 := by
    rw [Scan.nextSlot, show scan'.file.cursor = some r' from congrArg Mark.cursor hpos]
    rfl
  have hlt : ∀ r ∈ found, r < r' := fun r hr => (hp.behind r hr).lt ha
  obtain ⟨n, hn, -⟩ := ha
  obtain ⟨p, hcur, -⟩ := HeapFile.currentPage_eq_some_iff.mp hn
  refine ⟨hheld, hname.trans hp.file, ?_, fun r hr m hm => ?_, fun hf => ?_, fun r hr => ?_⟩
  · rw [List.pairwise_append]
    refine ⟨hp.sorted, List.pairwise_singleton .., fun r hr x hx => ?_⟩
    cases List.mem_singleton.mp hx
    exact hlt r hr
  · cases hpage.symm.trans hm
    rw [hslot]
    rcases List.mem_append.mp hr with hr | hr
    · exact (hlt r hr).imp_right fun h => ⟨h.1, Nat.lt_succ_of_lt h.2⟩
    · cases List.mem_singleton.mp hr
      exact Or.inr ⟨rfl, Nat.lt_succ_self _⟩
  · have hfin : scan'.finished = scan.finished := congrArg Mark.finished hpos
    cases hcur.symm.trans (hp.ended (hfin ▸ hf))
  · refine (hrest r hr).imp_right fun ha => Or.inl ⟨ha, fun m hm => ?_⟩
    cases hpage.symm.trans hm
    exact hbody

/-- What is due is found already, or a search finds it or leaves it ahead, unless the search fails. -/
lemma Progress.skips {ps : List Page} {t : Prop} {hd : FileHeader} {body : List UInt32}
    {spare : Option UInt32} (hp : Progress key name found due w scan) (hps : w.pages name = some ps)
    (hl : Heap.Layout t ps hd body spare)
    (hsearch : Scan.Search ps body scan w.store (Scan.next scan w.store).1.1
      (Scan.next scan w.store).1.2 (Scan.next scan w.store).2)
    (hdue : ∀ r, due r → scan.Ahead r → ∃ b, w.content name r = some b ∧ scan.shows b = true)
    (hr : due r) :
    r ∈ found ∨ (∃ e, (Scan.next scan w.store).1.1 = .error e) ∨
      ∃ r', (Scan.next scan w.store).1.1 = .ok (some r') ∧
        (r = r' ∨ (Scan.next scan w.store).1.2.Ahead r) := by
  rcases hp.rest r hr with hf | ⟨ha, hb⟩ | ⟨hcur, hfin⟩
  · exact Or.inl hf
  · obtain ⟨b, hcontent, hv⟩ := hdue r hr ha
    rw [content_of_pages hps] at hcontent
    refine Or.inr (hsearch.skips r b hcontent hv ha fun n hcur => ?_)
    obtain ⟨qs, t', hd', body', spare', hqs, hl', hmem⟩ := hb n hcur
    cases hps.symm.trans hqs
    exact (hl.unique hl').2 ▸ hmem
  · refine Or.inr (Or.inl ⟨.noCurrentRecord, ?_⟩)
    rw [Scan.next_of_none hcur, hfin]
    rfl

/-- A search finds a record behind the others, and passes none by that is due. It comes to the end
only if all that is due has been found. -/
theorem Progress.next (hp : Progress key name found due w scan) (h : Standing own w)
    (hdue : ∀ r, due r → scan.Ahead r → ∃ b, w.content name r = some b ∧ scan.shows b = true) :
    ∃ scan', Progress key name (found ++ (foundBy (perform (.next key) w).1).toList) due
        (perform (.next key) w).2 scan' ∧ scan'.filter = scan.filter ∧
      ((perform (.next key) w).1 = .ok (.answer (.found none)) → ∀ r, due r → r ∈ found) := by
  obtain rfl := hp.file
  have hn : own scan.file.name := h.own_of_find hp.held
  obtain ⟨ps, hd, body, spare, hps, hl, hs, hon⟩ := h.on hp.held
  have hps' : w.pages scan.file.name = some ps := hps
  have hout := next_outcome h key
  have hsearch := Scan.next_on hl hon hs.1
  have hname : (Scan.next scan w.store).1.2.file.name = scan.file.name :=
    (Scan.next_keeps (Site.lasting ..) scan w.store hon).name_eq
  obtain ⟨hres, hheld⟩ := perform_next hp.held
  have honBody : ∀ {n}, n ∈ body → (perform (.next key) w).2.OnBody scan.file.name n := fun hb =>
    OnBody.mono hout.standing hout.moves hn ⟨ps, _, hd, body, spare, hps, hl, hb⟩
  rw [hres]
  rcases hr : (Scan.next scan w.store).1.1 with e | _ | r'
  · obtain ⟨hcur, hfin, -⟩ := hsearch.failed e hr
    refine ⟨_, ?_, hsearch.filter, fun he => nomatch he⟩
    rw [show foundBy (Except.map _ (Except.error e)) = none from rfl, Option.toList_none,
      List.append_nil]
    refine hp.left hheld hname hcur fun r _ =>
      Or.inr (hfin.trans (Bool.eq_false_iff.mpr fun ht => ?_))
    rw [Scan.next_of_none (hp.ended ht), ht] at hr
    cases hr
  · have hall : ∀ r, due r → r ∈ found := fun r hd => by
      obtain hf | ⟨e, he⟩ | ⟨r', he, -⟩ := hp.skips hps' hl hsearch hdue hd
      · exact hf
      · cases hr.symm.trans he
      · cases hr.symm.trans he
    refine ⟨_, ?_, hsearch.filter, fun _ => hall⟩
    rw [show foundBy (Except.map _ (Except.ok none)) = none from rfl, Option.toList_none,
      List.append_nil]
    exact hp.left hheld hname (hsearch.ended hr).1 fun r hd => Or.inl (hall r hd)
  · obtain ⟨ha, ⟨b, hb, -⟩, hpos⟩ := hsearch.found r' hr
    refine ⟨_, ?_, hsearch.filter, fun he => nomatch he⟩
    rw [show foundBy (Except.map _ (Except.ok (some r'))) = some r' from rfl, Option.toList_some]
    refine hp.pass hheld hname ha hpos (honBody (hl.mem_body_of_content hb)) fun r hd => ?_
    obtain hf | ⟨e, he⟩ | ⟨x, hx, hcase⟩ := hp.skips hps' hl hsearch hdue hd
    · exact Or.inl (List.mem_append_left _ hf)
    · cases hr.symm.trans he
    · cases hr.symm.trans hx
      exact hcase.imp_left fun heq => List.mem_append_right _ (List.mem_singleton.mpr heq)

end Progress
end Workspace
end PagedHeap
