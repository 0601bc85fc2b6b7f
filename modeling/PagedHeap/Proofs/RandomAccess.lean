import PagedHeap.Proofs.Granted
import PagedHeap.Proofs.RecordMap
import PagedHeap.Proofs.Removal

/-! Random access. Whatever was done before, and wherever a handle stands, a record is read by its id
exactly if it is a record of the file, unless the store is short of pins; and a scan that reads one
goes on from there. -/
namespace PagedHeap

namespace Heap
variable {t : Prop} {ps : List Page} {hd : FileHeader} {body : List UInt32} {spare : Option UInt32}
  {p : Page} {r : RecordId} {b : Bytes} {file : UInt32}

/-- Why there is no record of an id. -/
def absence (ps : List Page) (file : UInt32) (r : RecordId) : StoreError :=
  if r.page = 0 then .recordNotFound ("page " ++ toString r.page ++ " is the header page")
  else match page? ps r.page with
    | none => .pageNotFound ⟨file, r.page⟩
    | some p =>
      -- A page that was never set up as a data page is one of zeros.
      if p = Page.blank then .pageCorrupted ⟨file, r.page⟩ "not a heap data page"
      else if p.slotCount ≤ r.slot then
        .recordNotFound (Slot.label r.slot ++ " does not exist")
      else .recordNotFound (Slot.label r.slot ++ " is deleted")

/-- The record of an id, or why there is none. -/
def lookup (ps : List Page) (file : UInt32) (r : RecordId) : Except StoreError Bytes :=
  match content ps r with
  | some b => .ok b
  | none => .error (absence ps file r)

/-- The records behind that of an id, in the order of the chain and of the slots. -/
def behind (ps : List Page) (r : RecordId) : List (RecordId × Bytes) :=
  ((records ps).dropWhile fun e => e.1 ≠ r).tail

/-- The first record behind that of an id that is shown. -/
def firstAfter (ps : List Page) (shows : Bytes → Bool) (r : RecordId) : Option RecordId :=
  ((behind ps r).find? fun e => shows e.2).map Prod.fst

lemma lookup_eq_ok_iff : lookup ps file r = .ok b ↔ content ps r = some b := by
  rw [lookup]
  cases content ps r <;> simp

lemma Layout.lookup_header (h : Layout t ps hd body spare) (h0 : r.page = 0) :
    lookup ps file r =
      .error (.recordNotFound ("page " ++ toString r.page ++ " is the header page")) := by
  rw [lookup, h.content_eq, if_pos h0]
  dsimp only
  rw [absence, if_pos h0]

lemma Layout.lookup_beyond (h : Layout t ps hd body spare) (h0 : r.page ≠ 0)
    (hp : page? ps r.page = none) : lookup ps file r = .error (.pageNotFound ⟨file, r.page⟩) := by
  rw [lookup, h.content_eq, if_neg h0, hp]
  dsimp only [Option.bind_none]
  rw [absence, if_neg h0, hp]

/-- What a page gives for a slot is the record of the file there. -/
theorem Layout.lookup_page (h : Layout t ps hd body spare) (file : UInt32) (h0 : r.page ≠ 0)
    (hp : page? ps r.page = some p) :
    lookup ps file r = HeapFile.recordOn ⟨file, r.page⟩ p r.slot := by
  have hcontent : content ps r = p.entry r.slot := h.content_of_entry h0 hp r.slot
  rw [lookup, hcontent, absence, if_neg h0, hp, HeapFile.recordOn]
  dsimp only
  by_cases hblank : p = Page.blank
  · rw [hblank, Page.entry_blank, if_pos rfl, if_pos Page.kind_blank]
  have hw : p.Wf r.page := by
    by_cases hmem : r.page ∈ body
    · exact h.wf_of_mem hmem hp
    · rcases h.loose h0 hmem hp with hb | rfl
      · exact absurd hb hblank
      · exact Page.wf_empty r.page
  rw [if_neg hblank, if_neg (not_not.mpr hw.kind), hw.record_shown, SlotTable.record,
    Page.getElem?_shown]
  by_cases hlt : r.slot < p.slotCount
  · rw [if_pos hlt, if_neg (Nat.not_le.mpr hlt)]
    cases p.entry r.slot <;> rfl
  · rw [if_neg hlt, if_pos (Nat.not_lt.mp hlt)]
    cases he : p.entry r.slot with
    | none => rfl
    | some b => exact absurd (entry_lt he) hlt

section Order
variable {shows : Bytes → Bool} {r₁ : RecordId} {b₁ : Bytes}

lemma behind_spec (hl : Layout t ps hd body spare) (hr : content ps r = some b) :
    (behind ps r).Pairwise (fun e e' => e.1 < e'.1) ∧
      ∀ e, e ∈ behind ps r ↔ e ∈ records ps ∧ r < e.1 := by
  have hsorted := pairwise_records (Formed.sorted (.inr ⟨hd, body, spare, hl⟩))
  obtain ⟨before, rest, hsplit⟩ := List.append_of_mem (mem_records.mpr hr)
  rw [hsplit] at hsorted
  obtain ⟨-, hrest, hbefore⟩ := List.pairwise_append.mp hsorted
  have hlower : ∀ e ∈ before, e.1 < r := fun e he => hbefore e he _ List.mem_cons_self
  have hbehind : behind ps r = rest := by
    unfold behind
    rw [hsplit, List.dropWhile_append_of_pos, List.dropWhile_cons_of_neg (by simp), List.tail_cons]
    intro e he
    have hne : e.1 ≠ r := by
      rintro heq
      exact RecordId.lt_irrefl r (heq ▸ hlower e he)
    simpa using hne
  rw [hbehind, hsplit]
  refine ⟨hrest.tail, fun e => ⟨fun he => ?_, fun ⟨he, hlt⟩ => ?_⟩⟩
  · exact ⟨List.mem_append_right _ (List.mem_cons_of_mem _ he), List.rel_of_pairwise_cons hrest he⟩
  · rcases List.mem_append.mp he with he | he
    · exact absurd hlt (RecordId.lt_asymm (hlower e he))
    · rcases List.mem_cons.mp he with rfl | he
      · exact absurd hlt (RecordId.lt_irrefl _)
      · exact he

lemma firstAfter_eq_none (hl : Layout t ps hd body spare) (hr : content ps r = some b)
    (h : ∀ r' b, content ps r' = some b → shows b = true → ¬ r < r') :
    firstAfter ps shows r = none := by
  unfold firstAfter
  rw [Option.map_eq_none_iff, List.find?_eq_none]
  intro e he hv
  obtain ⟨hmem, hlt⟩ := ((behind_spec hl hr).2 e).mp he
  exact h e.1 e.2 (mem_records.mp hmem) hv hlt

/-- The first record that is shown is the least one. -/
lemma firstAfter_eq_some (hl : Layout t ps hd body spare) (hr : content ps r = some b)
    (hb : content ps r₁ = some b₁) (hv : shows b₁ = true) (hlt : r < r₁)
    (hleast : ∀ r' b, content ps r' = some b → shows b = true → r < r' → r' = r₁ ∨ r₁ < r') :
    firstAfter ps shows r = some r₁ := by
  obtain ⟨hsorted, hmem⟩ := behind_spec hl hr
  have hthere : (r₁, b₁) ∈ behind ps r := (hmem _).mpr ⟨mem_records.mpr hb, hlt⟩
  unfold firstAfter
  cases hfind : (behind ps r).find? fun e => shows e.2 with
  | none => exact absurd hv (List.find?_eq_none.mp hfind _ hthere)
  | some e =>
    obtain ⟨hshown, before, rest, hsplit, hnone⟩ := List.find?_eq_some_iff_append.mp hfind
    obtain ⟨he, hlater⟩ := (hmem e).mp (hsplit ▸ List.mem_append_right _ List.mem_cons_self)
    rcases hleast e.1 e.2 (mem_records.mp he) hshown hlater with heq | hbeyond
    · rw [Option.map_some, heq]
    rw [hsplit] at hthere hsorted
    rcases List.mem_append.mp hthere with hbefore | hrest
    · have := hnone _ hbefore
      simp [hv] at this
    · rcases List.mem_cons.mp hrest with rfl | hrest
      · exact absurd hbeyond (RecordId.lt_irrefl _)
      · have hafter := (List.pairwise_append.mp hsorted).2.1
        exact absurd (List.rel_of_pairwise_cons hafter hrest) (RecordId.lt_asymm hbeyond)

end Order
end Heap

namespace HeapFile
open HandleM Heap
variable {c : Site} {t : Prop} {ps : List Page} {hd : FileHeader} {f : HeapFile} {s : Store}
  {body : List UInt32} {spare : Option UInt32}

/-- Where a record of an id cannot be read, a file that stood elsewhere is left without a page; the
header page is not even looked at. -/
def without (f : HeapFile) (r : RecordId) : HeapFile :=
  { f with current := if f.currentPage = some r.page ∨ r.page = 0 then f.current else none }

/-- What the reading of a record in a file of these pages comes to. -/
structure LooksUp (c : Site) (ps : List Page) (f : HeapFile) (s : Store) (r : RecordId)
    (res : Except StoreError Bytes) (g : HeapFile) (s' : Store) : Prop where
  result : res = lookup ps f.id r ∨ page? ps r.page ≠ none ∧ ∃ e, res = .error e ∧ s'.Short e
  found : ∀ b, res = .ok b → g.cursor = some r ∧ g.currentPage = some r.page
  missed : ∀ e, res = .error e → g = f.without r
  steady : c.Steady s s'

/-- A file that is served gives what there is of a record id, wherever it stands. -/
theorem readRecord_served (hl : Layout t ps hd body spare) (h : c.On t ps f s)
    (hs : s.Serves c.opens) (r : RecordId) :
    LooksUp c ps f s r (readRecord r f s).1.1 (readRecord r f s).1.2 (readRecord r f s).2 := by
  have hheader := h.headerNumber
  have hstay : c.Steady s s := ⟨hs, fun _ => rfl⟩
  by_cases h0 : r.page = 0
  · rw [readRecord_header (hheader.trans (congrArg some h0.symm))]
    refine ⟨.inl (hl.lookup_header h0).symm, fun b hb => (nomatch hb), fun e _ => ?_, hstay⟩
    rw [without, if_pos (.inr h0)]
  have hnot : f.header.map (·.number) ≠ some r.page := fun he =>
    h0 (Option.some.inj (he.symm.trans hheader))
  by_cases hcur : f.currentPage = some r.page
  · obtain ⟨p, hp, hn⟩ := currentPage_eq_some_iff.mp hcur
    have hpage := h.current hp
    rw [hn] at hpage
    have hlookup := hl.lookup_page f.id h0 hpage
    rw [readRecord_here hnot hcur, readCurrent_eq r.slot hp, hn, ← hlookup]
    cases hres : lookup ps f.id r with
    | error e =>
      refine ⟨.inl hres.symm, fun b hb => (nomatch hb), fun e _ => ?_, hstay⟩
      rw [without, if_pos (.inl hcur)]
    | ok b => exact ⟨.inl hres.symm, fun b _ => ⟨rfl, hcur⟩, fun e he => (nomatch he), hstay⟩
  · have hgone : f.without r = { f with current := none } := by
      rw [without, if_neg (not_or.mpr ⟨hcur, h0⟩)]
    obtain ⟨hsteady, hswitch⟩ := switchTo_served h hs r.page
    have hkeep := switchTo_keeps (c.lasting t ps) r.page f s h
    rw [readRecord_there hnot hcur]
    rcases hsw : switchTo r.page f s with ⟨⟨e | _, g⟩, s'⟩ <;> rw [hsw] at hsteady hswitch hkeep
    · obtain ⟨rfl, ⟨rfl, hnone⟩ | ⟨hshort, hthere⟩⟩ := hswitch
      · exact ⟨.inl (hl.lookup_beyond h0 hnone).symm, fun b hb => (nomatch hb),
          fun e _ => hgone.symm, hsteady⟩
      · exact ⟨.inr ⟨hthere, e, rfl, hshort⟩, fun b hb => (nomatch hb), fun e _ => hgone.symm,
          hsteady⟩
    · obtain ⟨⟨i, rfl⟩, -⟩ := hswitch
      have hpage := Site.On.current hkeep rfl
      have hlookup := hl.lookup_page f.id h0 hpage
      dsimp only
      rw [readCurrent_eq r.slot rfl, ← hlookup]
      cases hres : lookup ps f.id r with
      | error e =>
        obtain ⟨-, hleft⟩ := releaseCurrent_served hkeep hsteady.serves
        refine ⟨.inl hres.symm, fun b hb => (nomatch hb), fun e _ => ?_, hsteady.trans hleft⟩
        rw [hgone]
        exact releaseCurrent_left _ _
      | ok b => exact ⟨.inl hres.symm, fun b _ => ⟨rfl, rfl⟩, fun e he => (nomatch he), hsteady⟩

end HeapFile

namespace Scan
open HandleM Heap
variable {c : Site} {t : Prop} {ps : List Page} {hd : FileHeader} {scan scan' : Scan}
  {s s' : Store} {body : List UInt32} {spare : Option UInt32} {r : RecordId} {b : Bytes}
  {found : Option RecordId} {res : Except StoreError (Option RecordId)}

lemma ahead_iff_lt (hpage : scan.file.currentPage = some r.page) (hcursor : scan.file.cursor = some r)
    {r' : RecordId} : scan.Ahead r' ↔ r < r' := by
  obtain ⟨p, hp, hn⟩ := HeapFile.currentPage_eq_some_iff.mp hpage
  rw [ahead_iff hp, hn, nextSlot, hcursor]
  rfl

/-- A search from a record gives the first one after it that is shown. -/
theorem Search.firstAfter (hl : Layout t ps hd body spare)
    (hs : Search ps body scan s (.ok found) scan' s') (hpage : scan.file.currentPage = some r.page)
    (hcursor : scan.file.cursor = some r) (hr : content ps r = some b) :
    found = Heap.firstAfter ps scan.shows r := by
  have hreached : ∀ r' b, content ps r' = some b → scan.shows b = true → r < r' →
      ∃ r₁, found = some r₁ ∧ (r' = r₁ ∨ scan'.Ahead r') := by
    intro r' b hb hv hlt
    have hbody : ∀ n, scan.file.currentPage = some n → n ∈ body := fun n hn => by
      cases hpage.symm.trans hn
      exact hl.mem_body_of_content hr
    rcases hs.skips r' b hb hv ((ahead_iff_lt hpage hcursor).mpr hlt) hbody with
      ⟨e, he⟩ | ⟨r₁, he, hor⟩
    · cases he
    · exact ⟨r₁, Except.ok.inj he, hor⟩
  cases found with
  | none =>
    refine (firstAfter_eq_none hl hr fun r' b hb hv hlt => ?_).symm
    obtain ⟨r₁, he, -⟩ := hreached r' b hb hv hlt
    cases he
  | some r₁ =>
    obtain ⟨hahead, ⟨b, hb, hv⟩, hpos⟩ := hs.found r₁ rfl
    refine (firstAfter_eq_some hl hr hb hv ((ahead_iff_lt hpage hcursor).mp hahead)
      fun r' b hb hv hlt => ?_).symm
    obtain ⟨_, he, hor⟩ := hreached r' b hb hv hlt
    cases he
    exact hor.imp_right (ahead_iff_lt (congrArg Mark.page hpos) (congrArg Mark.cursor hpos)).mp

/-- A scan that is served goes on from a record with the first one after it that it shows. -/
lemma next_firstAfter (hl : Layout t ps hd body spare) (h : c.On t ps scan.file s)
    (hs : s.Serves c.opens) (hpage : scan.file.currentPage = some r.page)
    (hcursor : scan.file.cursor = some r) (hb : content ps r = some b) :
    (next scan s).1.1 = .ok (Heap.firstAfter ps scan.shows r) ∨
      ∃ e, (next scan s).1.1 = .error e ∧ (next scan s).2.Short e := by
  have hf := HeapFile.onDataPage_of_content hl hpage hb
  obtain ⟨p, hp, -⟩ := HeapFile.currentPage_eq_some_iff.mp hpage
  refine (next_served hl h hf hs (by rw [hp]; exact Option.some_ne_none p)).imp_left ?_
  rintro ⟨found, hok⟩
  have hsearch := next_on hl h hf
  rw [hok] at hsearch
  rw [hok, hsearch.firstAfter hl hpage hcursor hb]

end Scan

def Handle.Reads : Handle → Prop
  | reader _ | scan _ => True
  | inserter _ => False

def Handle.withFile (g : HeapFile) : Handle → Handle
  | reader _ => reader g
  | inserter _ => inserter g
  | scan s => scan { s with file := g }

/-- The handle after a record was read through it: a scan that had ended goes on from there. -/
def Handle.reopened (g : HeapFile) : Handle → Handle
  | scan s => scan { s with file := g, finished := false }
  | h => h.withFile g

namespace Workspace
open HandleM
variable {own : String → Prop} {w : Workspace} {key : String} {old new : Handle} {r : RecordId}
  {ps : List Page} {b : Bytes} {cache : Cache} {actions : List Action}

@[simp] lemma file_withFile (g : HeapFile) (h : Handle) : (h.withFile g).file = g := by
  cases h <;> rfl

@[simp] lemma file_reopened (g : HeapFile) (h : Handle) : (h.reopened g).file = g := by
  cases h <;> rfl

lemma perform_readRecord (hf : w.handles.find? key = some old) (hreads : old.Reads) (r : RecordId) :
    perform (.readRecord key r) w =
      match HeapFile.readRecord r old.file w.store with
      | ((.ok b, g), s) => (.ok (.answer (.record b)),
          { store := s, handles := w.handles.insert key (old.reopened g) })
      | ((.error e, g), s) => (.error e,
          { store := s, handles := w.handles.insert key (old.withFile g) }) := by
  rw [perform, map_apply, readRecord_apply, hf]
  cases old with
  | inserter f => exact hreads.elim
  | reader f =>
    unfold withFile
    dsimp only [Handle.file]
    rcases HeapFile.readRecord r f w.store with ⟨⟨_ | _, g⟩, s⟩ <;> rfl
  | scan scan =>
    unfold withScan Scan.readRecord
    dsimp only [Handle.file]
    rw [HandleM.bind_apply, Scan.onFile_apply]
    rcases HeapFile.readRecord r scan.file w.store with ⟨⟨_ | _, g⟩, s⟩ <;> rfl

/-- What a handle on a file with these pages makes of a record id, and what is held under its key
then. -/
structure LooksUp (w : Workspace) (key : String) (ps : List Page) (r : RecordId)
    (old new : Handle) : Prop where
  held : (perform (.readRecord key r) w).2.handles.find? key = some new
  /-- It gives the record of the file, or tells why there is none. -/
  result : (perform (.readRecord key r) w).1 =
      (Heap.lookup ps old.file.id r).map (fun b => .answer (.record b)) ∨
    Heap.page? ps r.page ≠ none ∧ ∃ e, (perform (.readRecord key r) w).1 = .error e ∧
      (perform (.readRecord key r) w).2.store.Short e
  found : ∀ b, (perform (.readRecord key r) w).1 = .ok (.answer (.record b)) →
    Heap.content ps r = some b ∧ new.file.cursor = some r ∧ new.file.currentPage = some r.page
  missed : ∀ e, (perform (.readRecord key r) w).1 = .error e →
    new = old.withFile (old.file.without r)
  /-- A page is pinned as before, but for what the handle holds. -/
  pins : ∀ id, (perform (.readRecord key r) w).2.store.cache.pool.pins id +
    holdsOn old.file.holds id = w.store.cache.pool.pins id + holdsOn new.file.holds id
  /-- A scan goes on with the first record behind this one that it shows, also if it had ended. -/
  onward : ∀ scan b, old = .scan scan →
    (perform (.readRecord key r) w).1 = .ok (.answer (.record b)) →
    let next := perform (.next key) (perform (.readRecord key r) w).2
    next.1 = .ok (.answer (.found (Heap.firstAfter ps scan.shows r))) ∨
      ∃ e, next.1 = .error e ∧ next.2.store.Short e

section LooksUp
variable {s : Store} {g : HeapFile} {e : StoreError}

lemma LooksUp.of_error
    (hperform : perform (.readRecord key r) w =
      (.error e, { store := s, handles := w.handles.insert key (old.withFile g) }))
    (hresult : .error e = Heap.lookup ps old.file.id r ∨ Heap.page? ps r.page ≠ none ∧ s.Short e)
    (hmissed : g = old.file.without r)
    (hpins : ∀ id, s.cache.pool.pins id + holdsOn old.file.holds id =
      w.store.cache.pool.pins id + holdsOn g.holds id) : LooksUp w key ps r old (old.withFile g) where
  held := by
    rw [hperform]
    exact (Table.find?_insert ..).trans (if_pos rfl)
  result := by
    rw [hperform]
    refine hresult.imp (fun he => ?_) fun ⟨hthere, hshort⟩ => ⟨hthere, e, rfl, hshort⟩
    rw [← he]
    rfl
  found b hb := by
    rw [hperform] at hb
    cases hb
  missed _ _ := congrArg (Handle.withFile · old) hmissed
  pins := by
    rw [hperform, file_withFile]
    exact hpins
  onward _ _ _ hb := by
    rw [hperform] at hb
    cases hb

lemma LooksUp.of_ok
    (hperform : perform (.readRecord key r) w =
      (.ok (.answer (.record b)), { store := s, handles := w.handles.insert key (old.reopened g) }))
    (hb : Heap.content ps r = some b) (hcursor : g.cursor = some r)
    (hpage : g.currentPage = some r.page)
    (hpins : ∀ id, s.cache.pool.pins id + holdsOn old.file.holds id =
      w.store.cache.pool.pins id + holdsOn g.holds id)
    (hnext : ∀ scan, old = .scan scan →
      let next := Scan.next { scan with file := g, finished := false } s
      next.1.1 = .ok (Heap.firstAfter ps scan.shows r) ∨
        ∃ e, next.1.1 = .error e ∧ next.2.Short e) : LooksUp w key ps r old (old.reopened g) := by
  have hheld : (perform (.readRecord key r) w).2.handles.find? key = some (old.reopened g) := by
    rw [hperform]
    exact (Table.find?_insert ..).trans (if_pos rfl)
  refine ⟨hheld, .inl ?_, fun b' hb' => ?_, fun e he => ?_, ?_, fun scan b' hscan _ => ?_⟩
  · rw [hperform, Heap.lookup_eq_ok_iff.mpr hb]
    rfl
  · rw [hperform] at hb'
    cases hb'
    rw [file_reopened]
    exact ⟨hb, hcursor, hpage⟩
  · rw [hperform] at he
    cases he
  · rw [hperform, file_reopened]
    exact hpins
  · subst hscan
    have hstore : (perform (.readRecord key r) w).2.store = s := by rw [hperform]
    obtain ⟨hres, hafter⟩ := perform_of_onScan (a := .next key) hheld rfl
    dsimp only
    rw [hres, hafter, store_onScan hheld, hstore]
    exact (hnext scan rfl).imp (congrArg _) fun ⟨e, he, hshort⟩ => ⟨e, congrArg _ he, hshort⟩

end LooksUp

/-- A handle that is served looks up every record id. -/
theorem Standing.looksUp (h : Standing own w) (hf : w.handles.find? key = some old)
    (hreads : old.Reads) (hps : w.pages old.file.name = some ps)
    (hs : w.store.Serves (openings w.handles)) (r : RecordId) : ∃ new, LooksUp w key ps r old new := by
  obtain ⟨qs, hd, body, spare, hqs, hl, honPage, hon⟩ := h.on hf
  cases hps.symm.trans hqs
  have hserves : w.store.Serves (w.site own key old).opens :=
    hs.mono (openings_perm h.running.distinct hf).subset
  have hlooks := HeapFile.readRecord_served hl hon hserves r
  have hkeep := HeapFile.readRecord_keeps (Site.lasting ..) r old.file w.store hon
  have hperform := perform_readRecord hf hreads r
  have hpins := hlooks.steady.pins hon hkeep
  rcases hr : HeapFile.readRecord r old.file w.store with ⟨⟨e | b, g⟩, s⟩ <;>
    rw [hr] at hlooks hkeep hperform hpins <;> obtain ⟨hresult, hfound, hmissed, hsteady⟩ := hlooks
  · refine ⟨_, .of_error hperform (hresult.imp_right ?_) (hmissed e rfl) hpins⟩
    rintro ⟨hthere, _, ⟨⟩, hshort⟩
    exact ⟨hthere, hshort⟩
  · obtain ⟨hcursor, hpage⟩ := hfound b rfl
    have hcontent : Heap.content ps r = some b := by
      rcases hresult with he | ⟨-, e, he, -⟩
      · exact Heap.lookup_eq_ok_iff.mp he.symm
      · cases he
    refine ⟨_, .of_ok hperform hcontent hcursor hpage hpins fun scan hscan => ?_⟩
    subst hscan
    exact @Scan.next_firstAfter _ _ _ _ { scan with file := g, finished := false } _ _ _ _ _ hl hkeep
      hsteady.serves hpage hcursor hcontent

section Unwritten

/-- A scan of a file of two pages, which are both pinned. -/
def unread : Scan where
  file := { id := 0, name := "u", header := some { number := 0, frame := 0 },
            current := some { number := 1, frame := 1 } }
  mark := ⟨some 1, none, false⟩

def unreadOpened : Workspace where
  store := Store.opening "u" 0 1 (start (.keeping 3 (Page.empty 1)) (.refusing 7)).store
  handles := ⟨[("s", .scan unread)]⟩

lemma openScan_keeping : (perform (.openScan "s" "u")
    (start (.keeping 3 (Page.empty 1)) (.refusing 7))).2 = unreadOpened := by
  have hpage : (Store.readPage ⟨0, 0⟩ (Store.openFile "u"
      (start (.keeping 3 (Page.empty 1)) (.refusing 7)).store).2).2.contents 0 =
        (FileHeader.new "u" 1).toPage Page.blank := rfl
  have hopen : Store.openHeap "u" (start (.keeping 3 (Page.empty 1)) (.refusing 7)).store =
      (.ok unread.file, unreadOpened.store) :=
    Store.openHeap_eq (by decide +kernel) (by decide +kernel) (by decide +kernel) hpage
      (by decide +kernel)
  rw [perform, map_apply]
  unfold openAs
  rw [bind_apply, Store.openScan, bind_apply]
  dsimp only [start] at hopen ⊢
  rw [hopen]
  rfl

end Unwritten

end Workspace
end PagedHeap
