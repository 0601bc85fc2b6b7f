import PagedHeap.Proofs.Granted
import PagedHeap.Proofs.RecordMap
import PagedHeap.Proofs.Removal
import PagedHeap.Proofs.ScanProgress

/-! Scans in runs. A scan gives records in order, each of them there when it is given. When it comes
to the end, it has given all records that were there all the time. If nobody else changes the file
and no search fails, it gives just the records that were there when it was opened. -/
namespace PagedHeap

/-- The action changes records through a scan. -/
def Action.Edits (key : String) : Action → Prop
  | .delete k | .update k _ => k = key
  | _ => False

/-- The filter of a scan after an action, if it had this one before. Parameters that are refused leave
it as it is. -/
def Action.newFilter (key : String) (old : Option Predicate) : Action → Option Predicate
  | .start k offset length type value comparison =>
    if k = key then (Scan.criterion offset length type value comparison).toOption.getD old else old
  | _ => old

lemma Action.newFilter_eq {key : String} {a : Action} (h : ¬ a.Filters key) (old : Option Predicate) :
    a.newFilter key old = old := by
  cases a with
  | start => exact if_neg h
  | _ => rfl

/-- What is ahead of a scan on the record it has found was ahead of it before. -/
lemma Scan.ahead_of_found {scan scan' : Scan} {r r' : RecordId} {finished : Bool}
    (ha : scan.Ahead r') (hpos : scan'.position = ⟨some r'.page, some r', finished⟩)
    (hr : scan'.Ahead r) : scan.Ahead r := by
  have hpage : scan'.file.currentPage = some r'.page := congrArg Mark.page hpos
  have hslot : scan'.nextSlot = r'.slot + 1 := by
    rw [Scan.nextSlot, show scan'.file.cursor = some r' from congrArg Mark.cursor hpos]
    rfl
  obtain ⟨m, hm, hlt⟩ := hr
  cases hpage.symm.trans hm
  obtain ⟨n, hn, hlt'⟩ := ha
  rw [hslot] at hlt
  refine ⟨n, hn, ?_⟩
  rcases hlt' with hlt' | ⟨heq', hle'⟩ <;> rcases hlt with hlt | ⟨heq, hle⟩
  · exact Or.inl (UInt32.lt_trans hlt' hlt)
  · exact Or.inl (heq ▸ hlt')
  · exact Or.inl (heq' ▸ hlt)
  · exact Or.inr ⟨heq'.trans heq, by omega⟩

namespace Workspace
variable {own : String → Prop} {w w' opened : Workspace} {cache : Cache} {key name : String}
  {a : Action} {actions : List Action} {scan scan' : Scan} {found ids : List RecordId}
  {due : RecordId → Prop} {r : RecordId}

def finds (key : String) : Workspace → List Action → List RecordId
  | _, [] => []
  | w, a :: rest => (if a = .next key then (foundBy (perform a w).1).toList else []) ++
      finds key (perform a w).2 rest

section Search

lemma Effect.keeps_of_next {res : Except StoreError (Reply Answer)}
    (h : Effect own w (.next key) res w') : Keeps own w w' := by
  cases h.edit with
  | kept hkeeps _ => exact hkeeps
  | inserted ha | removed ha | replaced ha => cases ha

lemma content_next (h : Standing own w) (hn : own name) :
    (perform (.next key) w).2.content name = w.content name := by
  obtain ⟨k, b, hins, -⟩ | heffect := (next_outcome h key).effect
  · cases hins
  · exact heffect.keeps_of_next name hn

/-- What a search gives is there then, and the filter shows it. -/
theorem found_sound (h : Standing own w) (hp : Progress key name found due w scan)
    (hfound : (perform (.next key) w).1 = .ok (.answer (.found (some r)))) :
    ∃ b, (perform (.next key) w).2.content name r = some b ∧ scan.shows b = true := by
  obtain rfl := hp.file
  have hn : own scan.file.name := h.own_of_find hp.held
  rw [content_next h hn]
  obtain ⟨k, b, hins, -⟩ | heffect := (next_outcome h key).effect
  · cases hins
  · rw [hfound] at heffect
    obtain ⟨-, scan', b, hf, hb, hv⟩ := heffect
    cases hp.held.symm.trans hf
    exact ⟨b, hb, hv⟩

end Search
section Run

lemma shows_congr (h : scan'.filter = scan.filter) : scan'.shows = scan.shows := by
  funext b
  rw [Scan.shows, Scan.shows, h]

/-- The filter of a scan is set exactly if its parameters are in order. -/
theorem perform_start (hf : w.handles.find? key = some (.scan scan)) (offset length : Nat)
    (type : FieldType) (value : Option Bytes) (comparison : Comparison) :
    let start := Action.start key offset length type value comparison
    (perform start w).1 = (Scan.criterion offset length type value comparison).map
        (fun _ => .answer .done) ∧
      (perform start w).2.handles.find? key =
        some (.scan { scan with filter := start.newFilter key scan.filter }) := by
  intro start
  obtain ⟨hres, hafter⟩ := perform_of_onScan (a := start) hf rfl
  rw [hres, hafter, (onScan_held hf _).2, Action.newFilter, if_pos rfl, Scan.start_apply]
  cases Scan.criterion offset length type value comparison <;> exact ⟨rfl, rfl⟩

lemma Progress.owned (hp : Progress key name found due w scan) (h : Standing own w) : own name :=
  hp.file ▸ h.own_of_find hp.held

/-- Where an action leaves a scan that it does not move, and with which filter. -/
lemma steady_newFilter (h : Standing own w) (hf : w.handles.find? key = some (.scan scan))
    (hmove : ¬ a.Repositions key) (hnext : a ≠ .next key) :
    ∃ scan', (perform a w).2.handles.find? key = some (.scan scan') ∧
      scan'.position = scan.position ∧ scan'.file.name = scan.file.name ∧
      scan'.filter = a.newFilter key scan.filter := by
  obtain ⟨scan', hheld, hpos, hname, hfilter⟩ := steady_perform h hf hmove hnext
  refine ⟨scan', hheld, hpos, hname, ?_⟩
  by_cases hsets : a.Filters key
  · cases a with
    | start k offset length type value comparison =>
      obtain rfl : k = key := hsets
      cases hheld.symm.trans (perform_start hf offset length type value comparison).2
      rfl
    | _ => exact hsets.elim
  · exact (hfilter hsets).trans (Action.newFilter_eq hsets _).symm

/-- What is no search leaves a scan as far as it was. -/
lemma Progress.wait (hp : Progress key name found due w scan) (h : Standing own w) (ha : a.On own)
    (hmove : ¬ a.Repositions key) (hnext : a ≠ .next key) :
    ∃ scan', Progress key name found due (perform a w).2 scan' ∧ scan'.position = scan.position ∧
      scan'.filter = a.newFilter key scan.filter := by
  obtain ⟨scan', hheld, hpos, hname, hfilter⟩ := steady_newFilter h hp.held hmove hnext
  have hout := perform_outcome h a ha
  exact ⟨scan', hp.steady hout.standing hout.moves (hp.owned h) hheld hpos hname, hpos, hfilter⟩

/-- While no search is made, a scan remains as it was opened, but for its filter. -/
theorem Progress.setup (hp : Progress key name found due w scan) (h : Standing own w)
    (hon : ∀ a ∈ actions, a.On own)
    (hsetup : ∀ a ∈ actions, ¬ a.Repositions key ∧ a ≠ .next key) :
    ∃ scan', Progress key name found due (w.run actions) scan' ∧
      scan'.filter = actions.foldl (fun old a => a.newFilter key old) scan.filter := by
  induction actions generalizing w scan with
  | nil => exact ⟨scan, hp, rfl⟩
  | cons a rest ih =>
    obtain ⟨ha, hrest⟩ := List.forall_mem_cons.mp hon
    obtain ⟨⟨hmove, hnext⟩, hsetup'⟩ := List.forall_mem_cons.mp hsetup
    obtain ⟨scan', hp', -, hfilter⟩ := hp.wait h ha hmove hnext
    rw [List.foldl_cons, ← hfilter]
    exact ih hp' (perform_outcome h a ha).standing hrest hsetup'

/-- Searches go on to find what is due, as long as it is there. -/
theorem Progress.run (hp : Progress key name found due w scan) (h : Standing own w)
    (hon : ∀ a ∈ actions, a.On own)
    (hscan : ∀ a ∈ actions, ¬ a.Repositions key ∧ ¬ a.Filters key)
    (hdue : ∀ before, before <+: actions → ∀ r, due r →
      ∃ b, (w.run before).content name r = some b ∧ scan.shows b = true) :
    ∃ scan', Progress key name (found ++ finds key w actions) due (w.run actions) scan' ∧
      scan'.filter = scan.filter := by
  induction actions generalizing w scan found with
  | nil => exact ⟨scan, by rwa [finds, List.append_nil], rfl⟩
  | cons a rest ih =>
    obtain ⟨ha, hrest⟩ := List.forall_mem_cons.mp hon
    obtain ⟨⟨hmove, hfilters⟩, hscan'⟩ := List.forall_mem_cons.mp hscan
    have hst := (perform_outcome h a ha).standing
    have hstep : ∃ scan', Progress key name
        (found ++ if a = .next key then (foundBy (perform a w).1).toList else []) due
        (perform a w).2 scan' ∧ scan'.filter = scan.filter := by
      by_cases hnext : a = .next key
      · subst hnext
        obtain ⟨scan', hp', hfilter, -⟩ := hp.next h fun r hr _ => hdue [] List.nil_prefix r hr
        rw [if_pos rfl]
        exact ⟨scan', hp', hfilter⟩
      · obtain ⟨scan', hp', -, hfilter⟩ := hp.wait h ha hmove hnext
        rw [if_neg hnext, List.append_nil]
        exact ⟨scan', hp', hfilter.trans (Action.newFilter_eq hfilters _)⟩
    obtain ⟨scan₁, hp₁, hfilter₁⟩ := hstep
    obtain ⟨scan₂, hp₂, hfilter₂⟩ := ih hp₁ hst hrest hscan' fun before hb r hr => by
      rw [shows_congr hfilter₁]
      exact hdue (a :: before) (List.cons_prefix_cons.mpr ⟨rfl, hb⟩) r hr
    rw [List.append_assoc] at hp₂
    exact ⟨scan₂, hp₂, hfilter₂.trans hfilter₁⟩

/-- A scan that is opened is due to find all records of its file. -/
theorem open_progress (h : Standing own w) (hn : own name) {reply : Reply Answer}
    (hok : (perform (.openScan key name) w).1 = .ok reply) :
    ∃ scan, Progress key name [] (fun r => ∃ b, (perform (.openScan key name) w).2.content name r =
      some b) (perform (.openScan key name) w).2 scan ∧ scan.file.current ≠ none ∧
      scan.filter = none := by
  have hout := perform_outcome h (.openScan key name) hn
  have hcontent : (perform (.openScan key name) w).2.content name = w.content name := by
    obtain ⟨k, b, hins, -⟩ | heffect := hout.effect
    · cases hins
    · exact heffect name hn
  rw [hcontent]
  obtain ⟨scan, hheld, hname, hstart⟩ := held_openScan h hn hok
  obtain ⟨ps, hd, body, spare, hps, hl, hcur⟩ := hstart.first
  have hsome : scan.file.current ≠ none := by
    obtain ⟨p, hp, -⟩ := HeapFile.currentPage_eq_some_iff.mp hcur
    rw [hp]
    exact Option.some_ne_none p
  refine ⟨scan, ⟨hheld, hname, .nil, fun r hr => (List.not_mem_nil hr).elim, fun hf => ?_,
    fun r hr => Or.inr (Or.inl ⟨⟨hd.first, hcur, ?_⟩, fun n hn' => ?_⟩)⟩, hsome, hstart.filter⟩
  · cases hstart.finished.symm.trans hf
  · obtain ⟨b, hb⟩ := hr
    rw [content_of_pages hps] at hb
    have hslot : scan.nextSlot = 0 := by rw [Scan.nextSlot, hstart.cursor]; rfl
    rw [hslot]
    rcases UInt32.lt_or_eq_of_le (hl.first_le (hl.mem_body_of_content hb)) with hlt | heq
    · exact Or.inl hlt
    · exact Or.inr ⟨heq, Nat.zero_le _⟩
  · cases hcur.symm.trans hn'
    exact OnBody.mono hout.standing hout.moves hn ⟨ps, _, hd, body, spare, hps, hl, hl.first_mem⟩

end Run
section Quiet

/-- The ids of the records that a filter shows, in order. -/
def shown (w : Workspace) (name : String) (scan : Scan) : List RecordId :=
  ((w.records name).filter fun e => scan.shows e.2).map Prod.fst

/-- Nobody has changed a record ahead of the scan since it was opened, and it has kept its place. -/
structure Undisturbed (name : String) (opened w : Workspace) (scan : Scan) : Prop where
  fresh : ∀ r, scan.Ahead r → w.content name r = opened.content name r
  placed : scan.file.current = none → scan.finished = true

lemma mem_shown : r ∈ opened.shown name scan ↔
    ∃ b, opened.content name r = some b ∧ scan.shows b = true := by
  simp only [shown, List.mem_map, List.mem_filter, Prod.exists]
  constructor
  · rintro ⟨r', b, ⟨hmem, hv⟩, rfl⟩
    exact ⟨b, mem_records.mp hmem, hv⟩
  · rintro ⟨b, hb, hv⟩
    exact ⟨r, b, ⟨mem_records.mpr hb, hv⟩, rfl⟩

lemma pairwise_shown (h : Standing own opened) (hn : own name) (scan : Scan) :
    (opened.shown name scan).Pairwise (· < ·) :=
  List.pairwise_map.mpr ((h.pairwise_records hn).sublist List.filter_sublist)

/-- Of ascending ids, some are the first ones if all others come behind them. -/
lemma prefix_of_pairwise {xs ys : List RecordId} (hx : xs.Pairwise (· < ·))
    (hy : ys.Pairwise (· < ·)) (hsub : ∀ r ∈ xs, r ∈ ys)
    (hrest : ∀ r ∈ ys, r ∈ xs ∨ ∀ r' ∈ xs, r' < r) : xs <+: ys := by
  have hall : (xs ++ ys.filter (· ∉ xs)).Pairwise (· < ·) := by
    refine List.pairwise_append.mpr ⟨hx, hy.sublist List.filter_sublist, fun r hr r' hr' => ?_⟩
    obtain ⟨hmem, hout⟩ := List.mem_filter.mp hr'
    exact ((hrest r' hmem).resolve_left (by simpa using hout)) r hr
  refine ⟨_, RecordId.eq_of_sorted (f := id) hall hy fun r => ?_⟩
  simp only [List.mem_append, List.mem_filter, decide_eq_true_eq]
  by_cases hr : r ∈ xs <;> simp [hr, hsub r]

/-- A scan that stands somewhere has found the first of the records that it is due to find, if it has
found no others. -/
lemma Progress.found_first (hp : Progress key name found (· ∈ ids) w scan)
    (hsorted : ids.Pairwise (· < ·)) (hfound : ∀ r ∈ found, r ∈ ids)
    (hcur : scan.file.current ≠ none) : found <+: ids := by
  refine prefix_of_pairwise hp.sorted hsorted hfound fun r hr => ?_
  rcases hp.rest r hr with hf | ⟨hahead, -⟩ | ⟨hnone, -⟩
  · exact Or.inl hf
  · exact Or.inr fun r₀ hr₀ => (hp.behind r₀ hr₀).lt hahead
  · exact absurd hnone hcur

lemma getElem?_of_take_append {n : ℕ} (h : ids.take n ++ [r] <+: ids) : ids[n]? = some r := by
  have hlen := h.length_le
  rw [List.length_append, List.length_take, List.length_singleton] at hlen
  have hn : (ids.take n).length = n := by
    rw [List.length_take]
    omega
  have hget := List.prefix_iff_getElem?.mp h n (by
    rw [List.length_append, hn]
    exact Nat.lt_succ_self n)
  rwa [List.getElem_append_right hn.le, List.getElem_singleton] at hget

lemma content_edit (h : Standing own w) (hf : w.handles.find? key = some (.scan scan))
    (ha : a.On own) (hedit : a.Edits key) (hahead : scan.Ahead r) (hn : own name) :
    (perform a w).2.content name r = w.content name r := by
  have hset : ∀ {scan' r₀ x}, w.handles.find? key = some (.scan scan') → scan'.under = .ok r₀ →
      Sets own w (perform a w).2 scan'.file.name r₀ x →
      (perform a w).2.content name r = w.content name r := by
    intro scan' r₀ x hf' hu hs
    cases hf.symm.trans hf'
    by_cases hname : scan.file.name = name
    · subst hname
      have hne : r ≠ r₀ := by
        rintro rfl
        obtain ⟨hcursor, hcur⟩ := Scan.under_eq_ok_iff.mp hu
        obtain ⟨n, hpage, hlt | ⟨-, hslot⟩⟩ := hahead
        · cases hcur.symm.trans hpage
          exact UInt32.lt_irrefl _ hlt
        · rw [Scan.nextSlot, hcursor] at hslot
          exact absurd hslot (Nat.not_succ_le_self _)
      rw [hs.self hn, Function.update_of_ne hne]
    · rw [hs.other hn hname]
  obtain ⟨k, b, hins, -⟩ | heffect := (perform_outcome h a ha).effect
  · subst hins
    exact hedit.elim
  · cases heffect.edit with
    | kept hkeeps _ => rw [hkeeps name hn]
    | inserted he =>
      subst he
      exact hedit.elim
    | removed he _ hf' hu _ hs | replaced he _ hf' hu _ hs =>
      subst he
      cases hedit
      exact hset hf' hu hs

/-- A scan that is not asked to search remains undisturbed, unless somebody else changes records. -/
lemma Undisturbed.wait (hu : Undisturbed name opened w scan) (h : Standing own w)
    (hf : w.handles.find? key = some (.scan scan)) (ha : a.On own) (hn : own name)
    (hsame : ¬ a.Edits key → (perform a w).2.content name = w.content name)
    (hpos : scan'.position = scan.position) : Undisturbed name opened (perform a w).2 scan' := by
  refine ⟨fun r hr => ?_, fun hcur => ?_⟩
  · have hr' := (Scan.ahead_congr hpos).mp hr
    refine Eq.trans ?_ (hu.fresh r hr')
    by_cases hedit : a.Edits key
    · exact content_edit h hf ha hedit hr' hn
    · rw [hsame hedit]
  · have hpage : scan'.file.currentPage = scan.file.currentPage := congrArg Mark.page hpos
    rw [show scan'.finished = scan.finished from congrArg Mark.finished hpos]
    refine hu.placed ?_
    rw [HeapFile.currentPage, hcur, Option.map_none, eq_comm, HeapFile.currentPage,
      Option.map_eq_none_iff] at hpage
    exact hpage

lemma store_next (hf : w.handles.find? key = some (.scan scan)) :
    (perform (.next key) w).2.store = (Scan.next scan w.store).2 := by
  rw [perform, map_apply, store_onScan hf]

/-- A search in an undisturbed scan fails only if a request does. -/
lemma Undisturbed.next_ok (hu : Undisturbed name opened w scan) (h : Standing own w)
    (hf : w.handles.find? key = some (.scan scan))
    (hfine : (perform (.next key) w).2.store.failures = w.store.failures) :
    ∃ answer, (Scan.next scan w.store).1.1 = .ok answer := by
  obtain ⟨ps, hd, body, spare, hps, hl, hs, hon⟩ := h.on hf
  by_cases hcur : scan.file.current = none
  · rw [Scan.next_of_none hcur, hu.placed hcur]
    exact ⟨none, rfl⟩
  · exact Scan.next_ok hl hs.1 hon hcur (store_next hf ▸ hfine)

/-- A search in an undisturbed scan gives the next of the records that were there at the opening,
as long as no request fails. -/
theorem Undisturbed.next {n : ℕ} (hu : Undisturbed name opened w scan) (h : Standing own w)
    (hopened : Standing own opened)
    (hp : Progress key name ((opened.shown name scan).take n) (· ∈ opened.shown name scan) w scan)
    (hfine : (perform (.next key) w).2.store.failures = w.store.failures) :
    (perform (.next key) w).1 = .ok (.answer (.found (opened.shown name scan)[n]?)) ∧
      ∃ scan', scan'.filter = scan.filter ∧ Undisturbed name opened (perform (.next key) w).2 scan' ∧
        Progress key name ((opened.shown name scan).take (n + 1)) (· ∈ opened.shown name scan)
          (perform (.next key) w).2 scan' := by
  have hown := hp.owned h
  obtain ⟨scan', hp', hfilter, hended⟩ := hp.next h fun r hr ha => by
    rw [hu.fresh r ha]
    exact mem_shown.mp hr
  obtain ⟨ps, hd, body, spare, hps, hl, hs, hon⟩ := h.on hp.held
  have hsearch := Scan.next_on hl hon hs.1
  obtain ⟨hres, hheld⟩ := perform_next hp.held
  obtain rfl : scan' = (Scan.next scan w.store).1.2 := by
    cases hp'.held.symm.trans hheld
    rfl
  have hsorted := pairwise_shown hopened hown scan
  obtain ⟨_ | r', hr⟩ := hu.next_ok h hp.held hfine
  · rw [hr] at hres
    have hnodup := RecordId.nodup_of_sorted (f := id) hsorted
    have hall : (opened.shown name scan).length ≤ n := by
      have hsub := (List.subperm_of_subset hnodup fun r hr => hended hres r hr).length_le
      rw [List.length_take] at hsub
      exact hsub.trans (Nat.min_le_left ..)
    refine ⟨?_, _, hfilter, ⟨fun r hr' => ?_, fun _ => (hsearch.ended hr).2⟩, ?_⟩
    · rw [hres, List.getElem?_eq_none hall]
      rfl
    · obtain ⟨m, hm, -⟩ := hr'
      rw [HeapFile.currentPage, (hsearch.ended hr).1] at hm
      cases hm
    · rw [List.take_of_length_le (by omega)]
      rw [hres, List.take_of_length_le hall, show foundBy (Except.map _ (Except.ok none)) = none
        from rfl, Option.toList_none, List.append_nil] at hp'
      exact hp'
  · rw [hr] at hres
    rw [hres, show foundBy (Except.map _ (Except.ok (some r'))) = some r' from rfl,
      Option.toList_some] at hp'
    obtain ⟨ha, ⟨b, hb, hv⟩, hpos⟩ := hsearch.found r' hr
    have hcur : (Scan.next scan w.store).1.2.file.current ≠ none := fun hcur => by
      have hpage := congrArg Mark.page hpos
      rw [Scan.position, HeapFile.currentPage, hcur] at hpage
      cases hpage
    have hdue : r' ∈ opened.shown name scan := by
      rw [mem_shown, ← hu.fresh r' ha]
      exact ⟨b, hp.file ▸ (congrFun (content_of_pages hps) r').trans hb, hv⟩
    have hget := getElem?_of_take_append <| hp'.found_first hsorted (fun r hr => by
      rcases List.mem_append.mp hr with hr | hr
      · exact List.mem_of_mem_take hr
      · exact List.mem_singleton.mp hr ▸ hdue) hcur
    refine ⟨?_, _, hfilter, ⟨fun r hr' => ?_, fun hnone => absurd hnone hcur⟩, ?_⟩
    · rw [hres, hget]
      rfl
    · rw [content_next h hown]
      exact hu.fresh r (Scan.ahead_of_found ha hpos hr')
    · rw [List.take_add_one, hget, Option.toList_some]
      exact hp'

lemma shown_congr (h : scan'.filter = scan.filter) (w : Workspace) (name : String) :
    w.shown name scan' = w.shown name scan := by
  rw [shown, shown, shows_congr h]

/-- In these actions nobody but the scan changes a record of the file. -/
def Alone (key name : String) (w : Workspace) (actions : List Action) : Prop :=
  ∀ past a rest, actions = past ++ a :: rest → ¬ a.Edits key →
    (w.run (past ++ [a])).content name = (w.run past).content name

/-- In these actions no request fails in a search of the scan. -/
def Fine (key : String) (w : Workspace) (actions : List Action) : Prop :=
  ∀ past rest, actions = past ++ .next key :: rest →
    (w.run (past ++ [.next key])).store.failures = (w.run past).store.failures

lemma Alone.tail (h : Alone key name w (a :: actions)) : Alone key name (perform a w).2 actions :=
  fun past b rest he => h (a :: past) b rest (congrArg (a :: ·) he)

lemma Alone.left {more : List Action} (h : Alone key name w (actions ++ more)) :
    Alone key name w actions := fun past b rest he =>
  h past b (rest ++ more) (by rw [he, List.append_assoc, List.cons_append])

lemma Alone.right {more : List Action} (h : Alone key name w (actions ++ more)) :
    Alone key name (w.run actions) more := fun past b rest he => by
  rw [← run_append, ← run_append, ← List.append_assoc]
  exact h (actions ++ past) b rest (by rw [he, List.append_assoc])

lemma Fine.tail (h : Fine key w (a :: actions)) : Fine key (perform a w).2 actions :=
  fun past rest he => h (a :: past) rest (congrArg (a :: ·) he)

lemma Fine.left {more : List Action} (h : Fine key w (actions ++ more)) : Fine key w actions :=
  fun past rest he => h past (rest ++ more) (by rw [he, List.append_assoc, List.cons_append])

theorem Undisturbed.setup (hu : Undisturbed name opened w scan) (h : Standing own w)
    (hf : w.handles.find? key = some (.scan scan)) (hn : own name) (hon : ∀ a ∈ actions, a.On own)
    (hsetup : ∀ a ∈ actions, ¬ a.Repositions key ∧ a ≠ .next key)
    (halone : Alone key name w actions)
    (hf' : (w.run actions).handles.find? key = some (.scan scan')) :
    Undisturbed name opened (w.run actions) scan' := by
  induction actions generalizing w scan with
  | nil =>
    cases hf.symm.trans hf'
    exact hu
  | cons a rest ih =>
    obtain ⟨ha, hrest⟩ := List.forall_mem_cons.mp hon
    obtain ⟨⟨hmove, hnext⟩, hsetup'⟩ := List.forall_mem_cons.mp hsetup
    obtain ⟨scan₁, hf₁, hpos, -⟩ := steady_perform h hf hmove hnext
    have hu₁ := hu.wait h hf ha hn (halone [] a rest rfl) hpos
    exact ih hu₁ (perform_outcome h a ha).standing hf₁ hrest hsetup' halone.tail hf'

/-- As many of the records are found, from the first on, as there are searches. -/
theorem Undisturbed.run {n : ℕ} (hu : Undisturbed name opened w scan) (h : Standing own w)
    (hopened : Standing own opened)
    (hp : Progress key name ((opened.shown name scan).take n) (· ∈ opened.shown name scan) w scan)
    (hon : ∀ a ∈ actions, a.On own)
    (hscan : ∀ a ∈ actions, ¬ a.Repositions key ∧ ¬ a.Filters key)
    (halone : Alone key name w actions) (hfine : Fine key w actions) :
    ∃ scan', scan'.filter = scan.filter ∧ Undisturbed name opened (w.run actions) scan' ∧
      Progress key name ((opened.shown name scan).take (n + actions.count (.next key)))
        (· ∈ opened.shown name scan) (w.run actions) scan' := by
  induction actions generalizing w scan n with
  | nil => exact ⟨scan, rfl, hu, hp⟩
  | cons a rest ih =>
    obtain ⟨ha, hrest⟩ := List.forall_mem_cons.mp hon
    obtain ⟨⟨hmove, hfilters⟩, hscan'⟩ := List.forall_mem_cons.mp hscan
    have hst := (perform_outcome h a ha).standing
    have hstep : ∃ scan₁, scan₁.filter = scan.filter ∧ Undisturbed name opened (perform a w).2 scan₁ ∧
        Progress key name ((opened.shown name scan).take (n + if a = .next key then 1 else 0))
          (· ∈ opened.shown name scan) (perform a w).2 scan₁ := by
      by_cases hnext : a = .next key
      · subst hnext
        rw [if_pos rfl]
        exact (hu.next h hopened hp (hfine [] rest rfl)).2
      · obtain ⟨scan₁, hp₁, hpos, hfilter⟩ := hp.wait h ha hmove hnext
        rw [if_neg hnext]
        exact ⟨scan₁, hfilter.trans (Action.newFilter_eq hfilters _),
          hu.wait h hp.held ha (hp.owned h) (halone [] a rest rfl) hpos, hp₁⟩
    obtain ⟨scan₁, hfilter₁, hu₁, hp₁⟩ := hstep
    rw [← shown_congr hfilter₁] at hp₁
    obtain ⟨scan₂, hfilter₂, hu₂, hp₂⟩ := ih hu₁ hst hp₁ hrest hscan' halone.tail hfine.tail
    refine ⟨scan₂, hfilter₂.trans hfilter₁, hu₂, ?_⟩
    rw [shown_congr hfilter₁, Nat.add_assoc] at hp₂
    rw [List.count_cons, Nat.add_comm (rest.count _)]
    simp only [beq_iff_eq]
    exact hp₂

lemma Progress.weaken {due' : RecordId → Prop} (hp : Progress key name found due w scan)
    (hdue : ∀ r, due' r → due r) : Progress key name found due' w scan :=
  { hp with rest := fun r hr => hp.rest r (hdue r hr) }

/-- Left alone, a scan gives one after the other of the records that were there at its opening. -/
theorem Progress.gives {setup : List Action} {scan₀ : Scan}
    (hp₀ : Progress key name [] (fun r => ∃ b, opened.content name r = some b) opened scan₀)
    (hcur₀ : scan₀.file.current ≠ none) (h : Standing own opened)
    (hset : ∀ a ∈ setup, a.On own) (hsetup : ∀ a ∈ setup, ¬ a.Repositions key ∧ a ≠ .next key)
    (hf : (opened.run setup).handles.find? key = some (.scan scan))
    (hon : ∀ a ∈ actions, a.On own) (hscan : ∀ a ∈ actions, ¬ a.Repositions key ∧ ¬ a.Filters key)
    (halone : Alone key name opened (setup ++ actions))
    (hfine : Fine key (opened.run setup) (actions ++ [.next key])) :
    (perform (.next key) (opened.run (setup ++ actions))).1 =
      .ok (.answer (.found (opened.shown name scan)[actions.count (.next key)]?)) := by
  have hu₀ : Undisturbed name opened opened scan₀ :=
    ⟨fun _ _ => rfl, fun hcur => (hcur₀ hcur).elim⟩
  have hu := hu₀.setup h hp₀.held (hp₀.owned h) hset hsetup halone.left hf
  obtain ⟨scan₁, hp, -⟩ := hp₀.setup h hset hsetup
  cases hf.symm.trans hp.held
  have hst := run_standing h hset
  obtain ⟨scan', hfilter, hu', hp'⟩ := hu.run (n := 0) hst h
    (hp.weaken fun r hr => (mem_shown.mp hr).imp fun _ hb => hb.1) hon hscan halone.right hfine.left
  rw [Nat.zero_add, ← shown_congr hfilter] at hp'
  have hlast := hfine actions [] rfl
  rw [run_concat] at hlast
  rw [run_append, (hu'.next (run_standing hst hon) h hp' hlast).1, shown_congr hfilter]

end Quiet

/-- What a scan finds in a run: `opened` is the workspace in which it was just opened, `setup` is
done before its first search, and `actions` after that. -/
structure Scanned (key name : String) (opened : Workspace) (setup actions : List Action)
    (scan : Scan) : Prop where
  /-- The filter is the last one that was given to the scan and not refused. -/
  filter : scan.filter = setup.foldl (fun old a => a.newFilter key old) none
  started : ∀ past rest offset length type value comparison,
    setup = past ++ .start key offset length type value comparison :: rest →
    (perform (.start key offset length type value comparison) (opened.run past)).1 =
      (Scan.criterion offset length type value comparison).map fun _ => .answer .done
  increasing : (finds key (opened.run setup) actions).Pairwise (· < ·)
  /-- What a search gives is then a record that the filter shows. -/
  sound : ∀ past rest r, actions = past ++ .next key :: rest →
    (perform (.next key) (opened.run (setup ++ past))).1 = .ok (.answer (.found (some r))) →
    ∃ b, (opened.run (setup ++ past ++ [.next key])).content name r = some b ∧ scan.shows b = true
  /-- At the end, all that was there since the opening, and that the filter shows, was found. -/
  complete : ∀ past rest r b, actions = past ++ .next key :: rest →
    (perform (.next key) (opened.run (setup ++ past))).1 = .ok (.answer (.found none)) →
    (∀ before, before <+: setup ++ past → (opened.run before).content name r = some b) →
    scan.shows b = true → r ∈ finds key (opened.run setup) past
  /-- If nobody else changes records and no request of a search fails, the searches give one record
  after the other of those that were there at the opening, and nothing more after the last. -/
  exact : Alone key name opened (setup ++ actions) → Fine key (opened.run setup) actions →
    ∀ past rest, actions = past ++ .next key :: rest →
      (perform (.next key) (opened.run (setup ++ past))).1 =
        .ok (.answer (.found (opened.shown name scan)[past.count (.next key)]?))

section Filled
variable {b : Bytes}

/-- Where nothing was refused, and the others leave two frames, a search tells what it finds. -/
lemma next_ok {n : Nat} (h : Standing own w) (ht : Running (fun opens => Tidy n opens opens) w)
    (hf : w.handles.find? key = some (.scan scan)) (hcur : scan.file.current ≠ none)
    (hroom : (heldBy (w.handles.erase key)).length + 2 < min n Frame.maxPins) :
    ∃ r, (perform (.next key) w).1 = .ok (.answer (.found r)) := by
  obtain ⟨ps, hd, body, spare, -, hl, hs, hon⟩ := h.on hf
  have hneat := ht.alone (Tended.upheld ..).toManaged hf
  have hkeeps := ((site own w key (.scan scan)).writable n).toLasting
  have hneat' := Scan.next_keeps hkeeps scan w.store hneat
  rw [(perform_next hf).1]
  rcases Scan.next_served hl hon hs.1 (HeapFile.serves_of_neat hneat) hcur with
    ⟨r, hok⟩ | ⟨e, -, hshort⟩
  · exact ⟨r, by rw [hok]; rfl⟩
  · exact absurd hshort (HeapFile.not_short_of_neat hneat' hroom)

/-- A search in a file with one record finds it. -/
lemma Filled.next (hfilled : Filled w b scan) (h : Standing (· = "t") w)
    (ht : Running (fun opens => Tidy 4 opens opens) w) (hshows : scan.shows b = true) :
    (perform (.next "s") w).1 = .ok (.answer (.found (some ⟨1, 0⟩))) := by
  have honly : ∀ {r b'}, w.content "t" r = some b' → r = ⟨1, 0⟩ ∧ b' = b := by
    intro r b' hr
    rw [hfilled.content, Function.update_apply] at hr
    split at hr
    · next heq => exact ⟨heq, (Option.some.inj hr).symm⟩
    · cases hr
  have hrecord : w.content "t" ⟨1, 0⟩ = some b := by rw [hfilled.content, Function.update_self]
  have hpage : scan.file.currentPage = some 1 := congrArg Mark.page hfilled.first
  have hcursor : scan.file.cursor = none := congrArg Mark.cursor hfilled.first
  have hcur : scan.file.current ≠ none := by
    obtain ⟨p, hp, -⟩ := HeapFile.currentPage_eq_some_iff.mp hpage
    rw [hp]
    exact Option.some_ne_none p
  obtain ⟨ps, hd, body, spare, hps, hl, -⟩ := h.on hfilled.held
  rw [show (Handle.scan scan).file.name = "t" from hfilled.name] at hps
  have hbody : (1 : UInt32) ∈ body := hl.mem_body_of_content (r := ⟨1, 0⟩)
    ((congrFun (content_of_pages hps) _).symm.trans hrecord)
  have hp : Progress "s" "t" [] (fun r => ∃ b, w.content "t" r = some b) w scan := by
    refine ⟨hfilled.held, hfilled.name, .nil, nofun, fun hf => ?_, fun r ⟨b', hr⟩ => .inr (.inl ?_)⟩
    · cases hf.symm.trans (congrArg Mark.finished hfilled.first)
    · obtain ⟨rfl, -⟩ := honly hr
      refine ⟨⟨1, hpage, .inr ⟨rfl, ?_⟩⟩, fun n hn => ?_⟩
      · rw [Scan.nextSlot, hcursor]
        exact Nat.zero_le _
      · cases hpage.symm.trans hn
        exact ⟨ps, _, hd, body, spare, hps, hl, hbody⟩
  have hothers := heldBy_erase h.running.distinct hfilled.alone
  obtain ⟨_ | r, hfound⟩ := next_ok h ht hfilled.held hcur (by rw [hothers]; decide)
  · obtain ⟨-, -, -, hended⟩ := hp.next h fun r ⟨b', hr⟩ _ => ⟨b', hr, (honly hr).2 ▸ hshows⟩
    exact absurd (hended hfound _ ⟨b, hrecord⟩) (List.not_mem_nil)
  · obtain ⟨b', hr, -⟩ := found_sound h hp hfound
    have hn : (· = "t") "t" := rfl
    rw [content_next h hn] at hr
    rw [hfound, (honly hr).1]

/-- It remains there, and in front of the scan, while the scan is not moved. -/
lemma Filled.wait (hfilled : Filled w b scan) (h : Standing (· = "t") w) (ha : a.On (· = "t"))
    (hkey : a.handle? = some "s") (hmove : ¬ a.Repositions "s") (hnext : a ≠ .next "s")
    (hspare : ¬ Touches w "t" a (perform a w).1) :
    ∃ scan', Filled (perform a w).2 b scan' ∧ scan'.filter = a.newFilter "s" scan.filter := by
  obtain ⟨scan', hheld, hpos, hname, hfilter⟩ := steady_newFilter h hfilled.held hmove hnext
  refine ⟨scan', ⟨hheld, hname.trans hfilled.name, hpos.trans hfilled.first, fun key hne => ?_, ?_⟩,
    hfilter⟩
  · rw [find?_perform (by rw [hkey]; exact fun hk => hne (Option.some.inj hk).symm)]
    exact hfilled.alone key hne
  · rw [Workspace.content, (perform_outcome h a ha).spares rfl hspare, ← Workspace.content,
      hfilled.content]

end Filled

end Workspace
end PagedHeap
