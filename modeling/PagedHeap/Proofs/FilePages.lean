import PagedHeap.Proofs.FileChanges
import PagedHeap.Proofs.HeapEdits
import PagedHeap.Proofs.Holding.Scan

/-! Open heap files and the pages of their files: what they read is what the store shows, and what
they change in the frames that they hold is changed there. -/
namespace PagedHeap

open Function (update)

/-- What stands around an open heap file: the files that the store shows, what else is open and held,
and the file's own id and name. -/
structure Site where
  own : String → Prop
  files : String → Option (List Page)
  opens : List (UInt32 × String)
  rest : List Hold
  id : UInt32
  name : String
  isOpen : (id, name) ∈ opens

namespace Site
variable {c : Site} {t t' : Prop} {ps qs : List Page} {hd : FileHeader} {f g : HeapFile}
  {s s' : Store} {p : PinnedPage} {r : RecordId} {b : Bytes}

abbrev Shows (c : Site) (t : Prop) (ps : List Page) : List Hold → Store → Prop :=
  Shown c.own (update c.files c.name (some ps)) t c.opens

abbrev On (c : Site) (t : Prop) (ps : List Page) : HeapFile → Store → Prop :=
  Kept (c.Shows t ps) c.rest c.id c.name

lemma lasting (c : Site) (t : Prop) (ps : List Page) : Lasting c.id (c.Shows t ps) :=
  Shown.lasting ..

namespace On

lemma own (h : c.On t ps f s) : c.own c.name := (h.holds.sound.opened c.isOpen).1

lemma page (h : c.On t ps f s) (hp : p.hold f.id ∈ f.holds) :
    Heap.page? ps p.number = some (s.contents p.frame) := by
  have hopen : ((p.hold f.id).id.file, c.name) ∈ c.opens := by
    have := c.isOpen
    rw [← h.id_eq] at this
    exact this
  have hshows : s.cache.pages c.name = some ps :=
    (h.holds.shows h.own).trans (Function.update_self ..)
  exact h.holds.sound.contents (List.mem_append_left _ hp) hopen hshows

lemma current (h : c.On t ps f s) (hp : f.current = some p) :
    Heap.page? ps p.number = some (s.contents p.frame) := by
  refine h.page ?_
  rw [HeapFile.holds_of_some hp]
  exact List.mem_cons_self

lemma headerPage (h : c.On t ps f s) : ∃ p, f.header = some p ∧ p.number = 0 ∧
    Heap.page? ps 0 = some (s.contents p.frame) := by
  obtain ⟨p, hp, h0⟩ := Kept.header h
  refine ⟨p, hp, h0, h0 ▸ h.page ?_⟩
  exact List.mem_map.mpr ⟨p, List.mem_append_right _ (hp ▸ List.mem_cons_self), rfl⟩

lemma headerNumber (h : c.On t ps f s) : f.header.map (·.number) = some 0 := by
  obtain ⟨p, hp, h0, -⟩ := h.headerPage
  rw [hp, Option.map_some, h0]

/-- Everyone reads the header of the file from its first page. -/
theorem fileHeader (h : c.On t ps f s) : f.fileHeader s = Heap.header? ps := by
  obtain ⟨p, hp, -, hpage⟩ := h.headerPage
  unfold HeapFile.fileHeader Heap.header?
  rw [hp, hpage]
  rfl

lemma lastPage (h : c.On t ps f s) (hh : Heap.header? ps = some hd) : f.lastPage s = hd.last := by
  unfold HeapFile.lastPage
  rw [h.fileHeader, hh]
  rfl

lemma isOpen_of (h : c.On t ps f s) (p : PinnedPage) : ((p.hold f.id).id.file, c.name) ∈ c.opens := by
  have := c.isOpen
  rwa [← h.id_eq] at this

/-- A change of the current page is a change of that page of the file. -/
theorem overwrite (h : c.On t ps f s) (hp : f.current = some p) (page : Page) :
    c.On t (ps.set p.number.toNat page) { f with current := some { p with dirty := true } }
      (s.overwrite p.frame page) := by
  have hs := h.holds
  rw [HeapFile.holds_of_some hp] at hs
  have hset := hs.overwrite (h.isOpen_of p) (Function.update_self ..) page
  rw [Function.update_idem] at hset
  exact ⟨hset, h.id_eq, h.name_eq, h.isOpen, Kept.header (f := f) h⟩

theorem overwriteHeader (h : c.On t ps f s) (hp : f.header = some p) (h0 : p.number = 0)
    (page : Page) : c.On t (ps.set 0 page) { f with header := some { p with dirty := true } }
      (s.overwrite p.frame page) := by
  let g : HeapFile := { f with header := some { p with dirty := true } }
  have hs := (c.lasting t ps).perm (HeapFile.holds_perm hp) h.holds
  have hset := hs.overwrite (h.isOpen_of p) (Function.update_self ..) page
  rw [Function.update_idem, show (p.hold f.id).id.page.toNat = 0 by rw [PinnedPage.hold, h0]; rfl]
    at hset
  have hg : (g.holds ++ c.rest).Perm
      ({ p.hold f.id with dirty := true } :: (f.current.toList.map (·.hold f.id) ++ c.rest)) :=
    HeapFile.holds_perm (f := g) rfl
  exact ⟨(Shown.lasting _ _ _ _ c.id).perm hg.symm hset, h.id_eq, h.name_eq, h.isOpen, _, rfl, h0⟩

end On

/-- The current page of the open file, if any, is a data page. -/
def OnDataPage (ps : List Page) (f : HeapFile) : Prop := ∀ n, f.currentPage = some n → Heap.IsData ps n

lemma OnDataPage.of_none (h : f.current = none) : OnDataPage ps f := fun n hn => by
  rw [HeapFile.currentPage, h] at hn
  cases hn

end Site

namespace HeapFile
open HandleM
variable {c : Site} {t : Prop} {ps : List Page} {hd : FileHeader} {f : HeapFile} {s : Store}
  {r : RecordId} {b : Bytes} {body : List UInt32} {spare : Option UInt32}

lemma currentPage_eq_some_iff {n : UInt32} :
    f.currentPage = some n ↔ ∃ p, f.current = some p ∧ p.number = n := Option.map_eq_some_iff

section Reads

lemma switchTo_cases (n : UInt32) (f : HeapFile) (s : Store) :
    ((switchTo n f s).1.1 = .ok () ∧ (switchTo n f s).1.2.currentPage = some n ∨
      (∃ e, (switchTo n f s).1.1 = .error e) ∧ (switchTo n f s).1.2.current = none) ∧
    (switchTo n f s).1.2.cursor = f.cursor := by
  have hpin : ∀ (g : HeapFile) s, g.current = none →
      ((pinCurrent n g s).1.1 = .ok () ∧ (pinCurrent n g s).1.2.currentPage = some n ∨
        (∃ e, (pinCurrent n g s).1.1 = .error e) ∧ (pinCurrent n g s).1.2.current = none) ∧
      (pinCurrent n g s).1.2.cursor = g.cursor := by
    intro g s hg
    rw [pinCurrent_apply]
    rcases Store.readPage ⟨g.id, n⟩ s with ⟨e | i, s'⟩
    · exact ⟨Or.inr ⟨⟨e, rfl⟩, hg⟩, rfl⟩
    · exact ⟨Or.inl ⟨rfl, rfl⟩, rfl⟩
  unfold switchTo
  rw [HandleM.bind_apply]
  cases hc : f.current with
  | none =>
    rw [releaseCurrent_none hc]
    exact hpin f s hc
  | some p =>
    rw [releaseCurrent_some hc]
    rcases hu : Store.unpinPage ⟨f.id, p.number⟩ p.dirty s with ⟨e | _, s'⟩
    · exact ⟨Or.inr ⟨⟨e, rfl⟩, rfl⟩, rfl⟩
    · exact hpin _ s' rfl

/-- To seek the last page ends there, or without a current page. -/
theorem seekLast_on (h : c.On t ps f s) (hh : Heap.header? ps = some hd) :
    c.On t ps (seekLast f s).1.2 (seekLast f s).2 ∧
      ((seekLast f s).1.1 = .ok () ∧ (seekLast f s).1.2.currentPage = some hd.last ∨
        (∃ e, (seekLast f s).1.1 = .error e) ∧ (seekLast f s).1.2.current = none) ∧
      (seekLast f s).1.2.cursor = f.cursor := by
  refine ⟨seekLast_keeps (c.lasting t ps) f s h, ?_⟩
  unfold seekLast
  rw [h.lastPage hh]
  dsimp only
  split
  · next heq => exact ⟨Or.inl ⟨rfl, heq⟩, rfl⟩
  · exact switchTo_cases hd.last f s

/-- What is read from the current page is a record of the file. -/
theorem readCurrent_on (hl : Heap.Layout t ps hd body spare) (h0 : r.page ≠ 0) :
    HandleM.Ensures (fun f s => c.On t ps f s ∧ f.currentPage = some r.page) (readCurrent r.slot)
      fun res f s => c.On t ps f s ∧ f.currentPage = some r.page ∧
        ∀ b, res = .ok b → Heap.content ps r = some b := by
  rintro f s ⟨h, hcur⟩
  obtain ⟨p, hp, hn⟩ := currentPage_eq_some_iff.mp hcur
  have hpage := h.current hp
  rw [hn] at hpage
  rw [readCurrent_some r.slot hp]
  refine ⟨h, hcur, fun b hb => ?_⟩
  split at hb
  · cases hb
  · exact (hl.content_of_entry h0 hpage r.slot).trans (Page.entry_eq_some_iff.mpr hb)

lemma onDataPage_of_content (hl : Heap.Layout t ps hd body spare) (hcur : f.currentPage = some r.page)
    (hr : Heap.content ps r = some b) : Site.OnDataPage ps f := fun n hn => by
  cases hcur.symm.trans hn
  exact hl.isData (hl.mem_body_of_content hr)

/-- What comes of reading a record from the current page and putting the cursor on it. On a failure
the handler decides what is left of the current page. -/
lemma readHere_on (hl : Heap.Layout t ps hd body spare) (h0 : r.page ≠ 0) (P : HeapFile → Prop)
    {handler : StoreError → FileM Bytes}
    (hh : ∀ e, HandleM.Ensures (fun f s => c.On t ps f s ∧ P f) (handler e) fun res f _ =>
      (∃ e', res = .error e') ∧ Site.OnDataPage ps f) :
    HandleM.Ensures (fun f s => (c.On t ps f s ∧ f.currentPage = some r.page) ∧ P f) (do
      let bs ← tryCatch (readCurrent r.slot) handler
      change fun f => { f with cursor := some r }
      pure bs) fun res f _ =>
        Site.OnDataPage ps f ∧ ∀ b, res = .ok b → Heap.content ps r = some b := by
  have hkeep : HandleM.Ensures (fun f s => (c.On t ps f s ∧ f.currentPage = some r.page) ∧ P f)
      (readCurrent r.slot) fun res f s => (c.On t ps f s ∧ P f) ∧
        ∀ b, res = .ok b → Heap.content ps r = some b ∧ Site.OnDataPage ps f := by
    rintro f s ⟨hf, hp⟩
    obtain ⟨hon, hcur, hb⟩ := readCurrent_on hl h0 f s hf
    have hsame : (readCurrent r.slot f s).1.2 = f := by
      obtain ⟨p, hp, -⟩ := currentPage_eq_some_iff.mp hf.2
      rw [readCurrent_some r.slot hp]
    exact ⟨⟨hon, hsame.symm ▸ hp⟩, fun b h => ⟨hb b h, onDataPage_of_content hl hcur (hb b h)⟩⟩
  refine .bind (.tryCatch hkeep (Q := fun res f _ => Site.OnDataPage ps f ∧
    ∀ b, res = .ok b → Heap.content ps r = some b) (fun b f s h => ?_) fun e => ?_)
    (fun bs => ?_) fun e f s h => ⟨h.1, fun b hb => nomatch hb⟩
  · exact ⟨(h.2 b rfl).2, fun b' hb' => (h.2 b' hb').1⟩
  · refine (hh e).weaken (fun f s h => h.1) fun res f s h => ⟨h.2, fun b hb => ?_⟩
    obtain ⟨⟨e', rfl⟩, -⟩ := h
    cases hb
  · exact .change (R := fun f _ => Site.OnDataPage ps f ∧ Heap.content ps r = some bs)
      (fun f s h => ⟨h.1, h.2 bs rfl⟩)
      (.pure fun f s h => ⟨h.1, fun b hb => by cases hb; exact h.2⟩)

/-- A record is read as it is, and then its page is the current one. A failure leaves the current
page, or none. -/
theorem readRecord_on (hl : Heap.Layout t ps hd body spare) (r : RecordId) :
    HandleM.Ensures (fun f s => c.On t ps f s ∧ Site.OnDataPage ps f) (readRecord r) fun res f _ =>
      Site.OnDataPage ps f ∧ ∀ b, res = .ok b → Heap.content ps r = some b := by
  refine .held fun f₀ => ?_
  dsimp only
  split
  · exact .throw_bind fun f s h => ⟨h.2.2, fun b hb => nomatch hb⟩
  · next hne =>
    by_cases hpage : r.page = 0
    · rintro f s ⟨rfl, h, -⟩
      obtain ⟨p, hp, hp0, -⟩ := h.headerPage
      exact absurd (by rw [hp, Option.map_some, hp0, hpage]) hne
    split
    · refine .bind (Q := fun res f s => c.On t ps f s ∧ (res = .ok () ∧ f.currentPage = some r.page ∨
        (∃ e, res = .error e) ∧ f.current = none)) (fun f s h => ?_) (fun _ => ?_)
        (fun e f s h => ?_)
      · exact ⟨switchTo_keeps (c.lasting t ps) r.page f s h.2.1, (switchTo_cases r.page f s).1⟩
      · refine (readHere_on (c := c) hl hpage (fun _ => True) fun e => ?_).weaken (fun f s h => ?_)
          fun _ _ _ h => h
        · refine .bind (.attempt ((releaseCurrent_keeps (c.lasting t ps)).weaken
            (fun _ _ h => h.1) fun _ _ _ h => h)) (fun _ => .throw fun f s h => ?_)
            fun e f s h => ?_
          · exact ⟨⟨e, rfl⟩, .of_none h.2⟩
          · exact ⟨⟨e, rfl⟩, .of_none h.2⟩
        · obtain ⟨hon, ⟨-, hcur⟩ | ⟨⟨e, he⟩, -⟩⟩ := h
          · exact ⟨⟨hon, hcur⟩, trivial⟩
          · cases he
      · obtain ⟨-, ⟨he, -⟩ | ⟨-, hnone⟩⟩ := h
        · cases he
        · exact ⟨.of_none hnone, fun b hb => nomatch hb⟩
    · next hcur =>
      have hcur : f₀.currentPage = some r.page := Decidable.not_not.mp hcur
      refine (readHere_on (c := c) hl hpage (Site.OnDataPage ps) fun e =>
        .throw fun f s h => ⟨⟨e, rfl⟩, h.2⟩).weaken ?_ fun _ _ _ h => h
      rintro f s ⟨rfl, h, honPage⟩
      exact ⟨⟨h, hcur⟩, honPage⟩

end Reads
end HeapFile
end PagedHeap
