import PagedHeap.Proofs.ScanSteps

/-! Searches: what a scan comes to when it is asked for the next record. It finds the first record
ahead of it that its filter shows, or comes to the end because there is none, or a request failed;
it never gives up. -/
namespace PagedHeap.Scan
open HandleM HeapFile Heap
variable {c : Site} {t : Prop} {ps : List Page} {hd : FileHeader} {scan scan' scan₁ : Scan}
  {s s' s₁ : Store} {r : RecordId} {b : Bytes} {body : List UInt32} {spare : Option UInt32}
  {n : UInt32} {res : Except StoreError (Option RecordId)}

/-- What a search comes to in a file with these pages. -/
structure Search (ps : List Page) (body : List UInt32) (scan : Scan) (s : Store)
    (res : Except StoreError (Option RecordId)) (scan' : Scan) (s' : Store) : Prop where
  filter : scan'.filter = scan.filter
  mark : scan'.mark = scan.mark
  /-- What is found is a record that was ahead and that the filter shows, and there the scan stands. -/
  found : ∀ r, res = .ok (some r) → scan.Ahead r ∧
    (∃ b, content ps r = some b ∧ scan.shows b = true) ∧
    scan'.position = ⟨some r.page, some r, scan.finished⟩
  ended : res = .ok none → scan'.file.current = none ∧ scan'.finished = true
  failed : ∀ e, res = .error e → scan'.file.current = none ∧ scan'.finished = scan.finished ∧
    (scan.file.current ≠ none → s.failures < s'.failures)
  /-- No record is passed by that the filter shows, if the scan is on the body of the chain. -/
  skips : ∀ r b, content ps r = some b → scan.shows b = true → scan.Ahead r →
    (∀ n, scan.file.currentPage = some n → n ∈ body) →
    (∃ e, res = .error e) ∨ ∃ r', res = .ok (some r') ∧ (r = r' ∨ scan'.Ahead r)

/-- A step of a search that goes on. -/
structure Onward (ps : List Page) (body : List UInt32) (scan : Scan) (s : Store) (scan₁ : Scan)
    (s₁ : Store) : Prop where
  filter : scan₁.filter = scan.filter
  mark : scan₁.mark = scan.mark
  finished : scan₁.finished = scan.finished
  current : scan₁.file.current ≠ none
  failures : s₁.failures = s.failures
  back : ∀ {r}, scan₁.Ahead r → scan.Ahead r
  keeps : ∀ {r b}, content ps r = some b → scan.shows b = true → scan.Ahead r →
    (∀ n, scan.file.currentPage = some n → n ∈ body) →
    scan₁.Ahead r ∧ ∀ n, scan₁.file.currentPage = some n → n ∈ body

/-- A search that goes on comes to what it comes to from there. -/
theorem Onward.search (ho : Onward ps body scan s scan₁ s₁)
    (hs : Search ps body scan₁ s₁ res scan' s') : Search ps body scan s res scan' s' := by
  have hshows : ∀ b, scan₁.shows b = scan.shows b := fun b => by
    unfold shows
    rw [ho.filter]
  refine ⟨hs.filter.trans ho.filter, hs.mark.trans ho.mark, fun r hr => ?_, hs.ended, fun e he => ?_,
    fun r b hb hv ha hbody => ?_⟩
  · obtain ⟨ha, ⟨b, hb, hv⟩, hpos⟩ := hs.found r hr
    exact ⟨ho.back ha, ⟨b, hb, (hshows b).symm.trans hv⟩, ho.finished ▸ hpos⟩
  · obtain ⟨hcur, hfin, hfail⟩ := hs.failed e he
    exact ⟨hcur, hfin.trans ho.finished, fun _ => ho.failures ▸ hfail ho.current⟩
  · obtain ⟨ha', hbody'⟩ := ho.keeps hb hv ha hbody
    exact hs.skips r b hb ((hshows b).trans hv) ha' hbody'

lemma ahead_iff {p : PinnedPage} (hp : scan.file.current = some p) :
    scan.Ahead r ↔ p.number < r.page ∨ p.number = r.page ∧ scan.nextSlot ≤ r.slot := by
  unfold Ahead
  rw [currentPage, hp]
  constructor
  · rintro ⟨n, hn, hr⟩
    cases hn
    exact hr
  · exact fun hr => ⟨p.number, rfl, hr⟩

/-- The scan on the record of a slot of its current page. -/
def passed (scan : Scan) (r : RecordId) : Scan :=
  { scan with file := { scan.file with cursor := some r } }

section Slots
variable {p : PinnedPage} {slot : Nat}

lemma ahead_passed (hp : scan.file.current = some p) :
    (scan.passed ⟨p.number, slot⟩).Ahead r ↔
      p.number < r.page ∨ p.number = r.page ∧ slot + 1 ≤ r.slot :=
  ahead_iff (show (scan.passed ⟨p.number, slot⟩).file.current = some p from hp)

/-- The search goes on behind a record that the filter does not show. -/
theorem onward_passed (hp : scan.file.current = some p)
    (hb : content ps ⟨p.number, slot⟩ = some b) (hv : scan.shows b = false)
    (hle : scan.nextSlot ≤ slot)
    (hfree : ∀ k, scan.nextSlot ≤ k → k < slot → content ps ⟨p.number, k⟩ = none) (s : Store) :
    Onward ps body scan s (scan.passed ⟨p.number, slot⟩) s := by
  refine ⟨rfl, rfl, rfl, fun hn => (nomatch hp.symm.trans hn), rfl, fun {r} ha => ?_,
    fun {r b'} hb' hv' ha hbody => ⟨?_, hbody⟩⟩
  · rw [ahead_passed hp] at ha
    rw [ahead_iff hp]
    exact ha.imp_right fun h => ⟨h.1, Nat.le_trans (Nat.le_succ_of_le hle) h.2⟩
  · rw [ahead_iff hp] at ha
    rw [ahead_passed hp]
    refine ha.imp_right fun ⟨hpage, hslot⟩ => ⟨hpage, ?_⟩
    have hr : r = ⟨p.number, r.slot⟩ := by rw [hpage]
    rcases Nat.lt_trichotomy r.slot slot with hlt | heq | hgt
    · rw [hr, hfree r.slot hslot hlt] at hb'
      cases hb'
    · rw [hr, heq, hb] at hb'
      cases hb'
      rw [hv] at hv'
      cases hv'
    · exact hgt

theorem search_found (hp : scan.file.current = some p)
    (hb : content ps ⟨p.number, slot⟩ = some b) (hv : scan.shows b = true)
    (hle : scan.nextSlot ≤ slot)
    (hfree : ∀ k, scan.nextSlot ≤ k → k < slot → content ps ⟨p.number, k⟩ = none) (s s' : Store) :
    Search ps body scan s (.ok (some ⟨p.number, slot⟩)) (scan.passed ⟨p.number, slot⟩) s' := by
  refine ⟨rfl, rfl, fun r hr => ?_, fun he => (by cases he), fun e he => (by cases he),
    fun r b' hb' hv' ha hbody => Or.inr ⟨_, rfl, ?_⟩⟩
  · cases hr
    refine ⟨(ahead_iff hp).mpr (Or.inr ⟨rfl, hle⟩), ⟨b, hb, hv⟩, ?_⟩
    simp only [position, passed, currentPage, hp, Option.map_some]
  · rw [ahead_iff hp] at ha
    rw [ahead_passed hp]
    rcases ha with ha | ⟨hpage, hslot⟩
    · exact Or.inr (Or.inl ha)
    · have hr : r = ⟨p.number, r.slot⟩ := by rw [hpage]
      rcases Nat.lt_trichotomy r.slot slot with hlt | heq | hgt
      · rw [hr, hfree r.slot hslot hlt] at hb'
        cases hb'
      · exact Or.inl (hr.trans (by rw [heq]))
      · exact Or.inr (Or.inr ⟨hpage, hgt⟩)

end Slots

section Pages
variable {p : PinnedPage} {m : UInt32}

lemma ahead_turned (i : Nat) : (scan.turned (some { number := m, frame := i })).Ahead r ↔
    m ≤ r.page := by
  have hp : (scan.turned (some { number := m, frame := i })).file.current = some _ := rfl
  rw [ahead_iff hp, UInt32.le_iff_lt_or_eq]
  exact or_congr_right ⟨fun h => h.1, fun h => ⟨h, Nat.zero_le _⟩⟩

/-- When no slot of the page is left, what is ahead is on a later page. -/
lemma page_lt_of_ahead (hp : scan.file.current = some p)
    (hfree : ∀ k, scan.nextSlot ≤ k → content ps ⟨p.number, k⟩ = none)
    (hb : content ps r = some b) (ha : scan.Ahead r) : p.number < r.page := by
  rcases (ahead_iff hp).mp ha with ha | ⟨hpage, hslot⟩
  · exact ha
  · have hr : r = ⟨p.number, r.slot⟩ := by rw [hpage]
    rw [hr, hfree r.slot hslot] at hb
    cases hb

/-- The search goes on at the next page of the chain. -/
theorem onward_turned (hl : Layout t ps hd body spare) (hp : scan.file.current = some p)
    (hn : p.number ∈ body) (hm : Heap.next? ps p.number = some m)
    (hfree : ∀ k, scan.nextSlot ≤ k → content ps ⟨p.number, k⟩ = none) (i : Nat)
    (hs : s'.failures = s.failures) :
    Onward ps body scan s (scan.turned (some { number := m, frame := i })) s' := by
  obtain ⟨hlt, -, hfirst⟩ := hl.next_spec hn hm
  refine ⟨rfl, rfl, rfl, fun he => (by cases he), hs, fun {r} ha => ?_,
    fun {r b} hb hv ha hbody => ?_⟩
  · rw [ahead_turned] at ha
    exact (ahead_iff hp).mpr (Or.inl (UInt32.lt_of_lt_of_le hlt ha))
  · obtain ⟨hmem, hle⟩ := hfirst r.page (hl.mem_body_of_content hb) (page_lt_of_ahead hp hfree hb ha)
    refine ⟨(ahead_turned i).mpr hle, fun n hn => ?_⟩
    cases hn
    exact hmem

theorem search_ended (hl : Layout t ps hd body spare) (hp : scan.file.current = some p)
    (hm : Heap.next? ps p.number = none)
    (hfree : ∀ k, scan.nextSlot ≤ k → content ps ⟨p.number, k⟩ = none) (s s' : Store) :
    Search ps body scan s (.ok none) { scan.turned none with finished := true } s' := by
  refine ⟨rfl, rfl, fun r hr => (by cases hr), fun _ => ⟨rfl, rfl⟩, fun e he => (by cases he),
    fun r b hb hv ha hbody => ?_⟩
  have hn : p.number ∈ body := hbody p.number (by rw [currentPage, hp]; rfl)
  have hlt := page_lt_of_ahead hp hfree hb ha
  have hmem := hl.mem_body_of_content hb
  obtain ⟨m, hm'⟩ := hl.next_of_lt hn hmem hlt
  cases hm.symm.trans hm'

end Pages

/-- A bound on the steps that a search can still take: one for each slot of each page that is left,
and one more for each page. -/
def stepsLeft (ps : List Page) (scan : Scan) : Nat :=
  match scan.file.currentPage with
  | none => 1
  | some n => (ps.length - n.toNat) * 4094 - min scan.nextSlot 4092

lemma stepsLeft_eq {p : PinnedPage} (hp : scan.file.current = some p) :
    stepsLeft ps scan = (ps.length - p.number.toNat) * 4094 - min scan.nextSlot 4092 := by
  unfold stepsLeft
  rw [currentPage, hp]
  rfl

lemma stepsLeft_pos (hf : Site.OnDataPage ps scan.file) : 0 < stepsLeft ps scan := by
  cases hc : scan.file.current with
  | none =>
    unfold stepsLeft
    rw [currentPage, hc]
    exact Nat.one_pos
  | some p =>
    obtain ⟨-, q, hq, -⟩ := hf p.number (by rw [currentPage, hc]; rfl)
    have := lt_length hq
    rw [stepsLeft_eq hc]
    omega

lemma stepsLeft_passed {p : PinnedPage} {slot : Nat} (hp : scan.file.current = some p)
    (hlen : p.number.toNat < ps.length) (hle : scan.nextSlot ≤ slot) (hslot : slot < 4092) :
    stepsLeft ps (scan.passed ⟨p.number, slot⟩) < stepsLeft ps scan := by
  have hslot' : (scan.passed ⟨p.number, slot⟩).nextSlot = slot + 1 := rfl
  have hp' : (scan.passed ⟨p.number, slot⟩).file.current = some p := hp
  rw [stepsLeft_eq hp, stepsLeft_eq hp', hslot']
  omega

lemma stepsLeft_turned {p : PinnedPage} {m : UInt32} (i : Nat) (hp : scan.file.current = some p)
    (hlen : m.toNat < ps.length) (hlt : p.number < m) :
    stepsLeft ps (scan.turned (some { number := m, frame := i })) < stepsLeft ps scan := by
  have hlt' := UInt32.lt_iff_toNat_lt.mp hlt
  have hslot : (scan.turned (some { number := m, frame := i })).nextSlot = 0 := rfl
  have hp' : (scan.turned (some { number := m, frame := i })).file.current = some _ := rfl
  rw [stepsLeft_eq hp, stepsLeft_eq hp', hslot]
  dsimp only
  omega

/-- With enough steps a search comes to an end. -/
theorem steps_on (hl : Layout t ps hd body spare) (fuel : Nat) (h : c.On t ps scan.file s)
    (hf : Site.OnDataPage ps scan.file) (hfuel : stepsLeft ps scan ≤ fuel) :
    Search ps body scan s (steps fuel scan s).1.1 (steps fuel scan s).1.2 (steps fuel scan s).2 := by
  induction fuel generalizing scan s with
  | zero => exact absurd hfuel (Nat.not_le_of_lt (stepsLeft_pos hf))
  | succ k ih =>
    have hkeep := step_keeps (c.lasting t ps) scan s h
    unfold steps
    rw [HandleM.bind_apply]
    cases hc : scan.file.current with
    | none =>
      have hnone : ∀ {r}, ¬ scan.Ahead r := by
        rintro r ⟨n, hn, -⟩
        rw [currentPage, hc] at hn
        cases hn
      rw [step_none hc]
      by_cases hfin : scan.finished = true
      · rw [if_pos hfin]
        exact ⟨rfl, rfl, fun r hr => (by cases hr), fun _ => ⟨hc, hfin⟩, fun e he => (by cases he),
          fun r b _ _ ha => absurd ha hnone⟩
      · rw [if_neg hfin]
        exact ⟨rfl, rfl, fun r hr => (by cases hr), fun he => (by cases he),
          fun e he => ⟨hc, rfl, fun hne => absurd hc hne⟩, fun r b _ _ ha => absurd ha hnone⟩
    | some p =>
      have hdata := hf p.number (by rw [currentPage, hc]; rfl)
      have hlen : p.number.toNat < ps.length := by
        obtain ⟨-, q, hq, -⟩ := hdata
        exact lt_length hq
      rcases step_on hl hf h hc with ⟨slot, b, hb, hle, hfree, hstep⟩ | ⟨hfree, hstep⟩
      · rw [hstep] at hkeep ⊢
        by_cases hv : scan.shows b = true
        · rw [if_pos hv]
          exact search_found hc hb hv hle hfree s s
        · rw [if_neg hv]
          have hv : scan.shows b = false := Bool.eq_false_iff.mpr hv
          have hlimit : slot < 4092 := hl.slot_lt hb
          have hless : Scan.stepsLeft ps _ < Scan.stepsLeft ps scan :=
            stepsLeft_passed hc hlen hle hlimit
          exact (onward_passed hc hb hv hle hfree s).search (ih hkeep hf (by omega))
      · rw [hstep] at hkeep ⊢
        obtain ⟨res, scan', s', heq, hcases⟩ := leave_cases hc (Heap.next? ps p.number) s
        rw [heq] at hkeep ⊢
        rcases hcases with ⟨e, rfl, hcur, hfin, hfilter, hmark, hfail⟩ |
          ⟨hsame, ⟨hnone, rfl, rfl⟩ | ⟨m, i, hm, rfl, rfl⟩⟩
        · exact ⟨hfilter, hmark, fun r hr => (by cases hr), fun he => (by cases he),
            fun _ _ => ⟨hcur, hfin, fun _ => hfail⟩, fun r b _ _ _ _ => Or.inl ⟨e, rfl⟩⟩
        · exact search_ended hl hc hnone hfree s s'
        · have hn : p.number ∈ body := hl.mem_of_next hdata hm
          obtain ⟨hlt, hmem, -⟩ := hl.next_spec hn hm
          have hmdata : IsData ps m := hmem.elim hl.isData hl.isData_spare
          have hmlen : m.toNat < ps.length := by
            obtain ⟨-, q, hq, -⟩ := hmdata
            exact lt_length hq
          have hless := stepsLeft_turned i hc hmlen hlt
          refine (onward_turned hl hc hn hm hfree i hsame).search
            (ih hkeep (fun n hn => ?_) (by omega))
          cases hn
          exact hmdata

theorem stepsLeft_le (h : c.On t ps scan.file s) :
    stepsLeft ps scan ≤ scan.pageBound s * 65537 := by
  obtain ⟨-, -, g, hopen, hname⟩ := h.holds.sound.opened c.isOpen
  have hpages : s.cache.pages c.name = some ps :=
    (h.holds.shows h.own).trans (Function.update_self ..)
  have hlen := ((Shown.pages_iff h.holds.sound h.own).mp hpages).2.1
  have hextent := h.holds.sound.orderly.extent_eq hopen
  have hnum : s.cache.disk.numPages scan.file.id = .ok g.pages := by
    rw [h.id_eq, Disk.numPages, Disk.handle_of_find? hopen]
    rfl
  unfold pageBound stepsLeft
  rw [hnum]
  rw [hname] at hextent
  dsimp only
  split <;> omega

/-- What a scan comes to that is asked for the next record. -/
theorem next_on (hl : Layout t ps hd body spare) (h : c.On t ps scan.file s)
    (hf : Site.OnDataPage ps scan.file) :
    Search ps body scan s (next scan s).1.1 (next scan s).1.2 (next scan s).2 :=
  steps_on hl _ h hf (stepsLeft_le h)

/-- A search that starts on a page comes to an answer, unless a request fails. -/
lemma next_ok (hl : Layout t ps hd body spare) (hf : Site.OnDataPage ps scan.file)
    (h : c.On t ps scan.file s) (hc : scan.file.current ≠ none)
    (hfine : (next scan s).2.failures = s.failures) :
    ∃ found, (next scan s).1.1 = .ok found := by
  cases hr : (next scan s).1.1 with
  | ok found => exact ⟨found, rfl⟩
  | error e => exact absurd (((next_on hl h hf).failed e hr).2.2 hc) (by omega)

/-- After a search the scan is on a data page, if on any. -/
theorem Search.onDataPage (hl : Layout t ps hd body spare) (hs : Search ps body scan s res scan' s') :
    Site.OnDataPage ps scan'.file := by
  match res with
  | .ok (some r) =>
    obtain ⟨-, ⟨b, hb, -⟩, hpos⟩ := hs.found r rfl
    exact onDataPage_of_content hl (congrArg Mark.page hpos) hb
  | .ok none => exact .of_none (hs.ended rfl).1
  | .error e => exact .of_none (hs.failed e rfl).1

end PagedHeap.Scan
