import PagedHeap.Proofs.FilePages
import PagedHeap.Proofs.RequestLog
import PagedHeap.Proofs.SlotTable

/-! Changes of the records of a heap file through what is open: records are inserted behind the
others, deleted and overwritten. Each call either does this to the records of the file, and counts
them in the header, or leaves them as they were, whatever it did to the chain. An insertion adds one
page to the chain if the record does not fit into the last one, and no page otherwise. -/
namespace PagedHeap

open Function (update)

/-- The pages that a header tells of: the first, the last, and how many there are. -/
def FileHeader.span (h : FileHeader) : UInt32 × UInt32 × UInt32 := (h.first, h.last, h.pages)

namespace Heap
variable {ps qs rs : List Page} {hd hd' : FileHeader} {r : RecordId} {b : Bytes} {n : UInt32}
  {p q : Page}

def count (ps : List Page) : Nat := ((header? ps).map (·.records.toNat)).getD 0

lemma count_eq (h : header? ps = some hd) : count ps = hd.records.toNat := by
  rw [count, h]
  rfl

/-- The same records, and as many of them by the header. -/
def Same (ps qs : List Page) : Prop := content qs = content ps ∧ count qs = count ps

/-- A record is put where there was none, into the lowest such slot of the last page with records or
of one behind it. -/
structure Inserted (r : RecordId) (b : Bytes) (ps qs : List Page) : Prop where
  free : content ps r = none
  put : content qs = update (content ps) r (some b)
  last : ∀ {r'}, content ps r' ≠ none → r'.page ≤ r.page
  lowest : ∀ {s}, s < r.slot → content ps ⟨r.page, s⟩ ≠ none

lemma Same.trans (h : Same ps qs) (h' : Same qs rs) : Same ps rs :=
  ⟨h'.1.trans h.1, h'.2.trans h.2⟩

lemma Inserted.of_same (h : Same ps qs) (h' : Inserted r b qs rs) : Inserted r b ps rs := by
  obtain ⟨hfree, hput, hlast, hlowest⟩ := h'
  rw [h.1] at hfree hput
  exact ⟨hfree, hput, fun {r'} hr' => hlast (h.1 ▸ hr'), fun {s} hs => h.1 ▸ hlowest hs⟩

/-- What can become of the records when a record is not inserted: nothing, unless the header can
count no more records. -/
def NotInserted (b : Bytes) (e : StoreError) (ps qs : List Page) : Prop :=
  Same ps qs ∨ e = .countOverflow ∧
    ∃ r, Inserted r b ps qs ∧ count qs = count ps ∧ count ps + 1 = UInt32.size

lemma NotInserted.of_same {e : StoreError} (h : Same ps qs) (h' : NotInserted b e qs rs) :
    NotInserted b e ps rs := by
  rcases h' with h' | ⟨he, r, hr, hc⟩
  · exact Or.inl (h.trans h')
  · exact Or.inr ⟨he, r, hr.of_same h, by rwa [← h.2]⟩

/-- The chain is the same, by the links of the pages and by the header. -/
structure SameChain (ps qs : List Page) : Prop where
  links : ∀ {n}, n ≠ 0 → next? qs n = next? ps n
  span : (header? qs).map FileHeader.span = (header? ps).map FileHeader.span

lemma SameChain.trans (h : SameChain ps qs) (h' : SameChain qs rs) : SameChain ps rs :=
  ⟨fun hn => (h'.links hn).trans (h.links hn), h'.span.trans h.span⟩

lemma SameData.links (h : SameData ps qs) (hn : n ≠ 0) : next? qs n = next? ps n := by
  rw [next?, next?, h n hn]

lemma sameChain_set (hp : page? ps n = some p) (h0 : n ≠ 0) (hnext : q.next? = p.next?) :
    SameChain ps (ps.set n.toNat q) :=
  ⟨fun _ => next?_set hp hnext _, by rw [header?_set_of_ne hp h0]⟩

/-- A page was linked behind the last page of this header and counted, and is the last page now. -/
structure Appended (hd : FileHeader) (n : UInt32) (qs : List Page) : Prop where
  header : ∃ hd', header? qs = some hd' ∧ hd'.last = n ∧ hd'.pages.toNat = hd.pages.toNat + 1
  linked : next? qs hd.last = some n

lemma Appended.of_sameChain (h : Appended hd n qs) (h0 : hd.last ≠ 0) (hs : SameChain qs rs) :
    Appended hd n rs := by
  obtain ⟨hd', hq, hlast, hpages⟩ := h.header
  have hspan := hs.span
  rw [hq, Option.map_some, Option.map_eq_some_iff] at hspan
  obtain ⟨hd'', hr, heq⟩ := hspan
  simp only [FileHeader.span, Prod.mk.injEq] at heq
  exact ⟨⟨hd'', hr, heq.2.1.trans hlast, by rw [heq.2.2, hpages]⟩, (hs.links h0).trans h.linked⟩

/-- A record was put into the last page, which is the page `p`, and counted. -/
structure PutLast (hd : FileHeader) (p : Page) (b : Bytes) (ps qs : List Page) : Prop where
  inserted : Inserted ⟨hd.last, p.shown.vacancy⟩ b ps qs
  counted : count qs = count ps + 1
  chain : SameChain ps qs

/-- A page without records was linked behind the last page of this header, and no more. -/
structure Grown (hd : FileHeader) (n : UInt32) (ps qs : List Page) : Prop where
  same : Same ps qs
  appended : Appended hd n qs
  new : page? qs n = some (Page.empty n)

/-- A record was put into a page that was added behind the last one, and counted. -/
structure PutBehind (hd : FileHeader) (n : UInt32) (b : Bytes) (ps qs : List Page) : Prop where
  inserted : Inserted ⟨n, 0⟩ b ps qs
  counted : count qs = count ps + 1
  appended : Appended hd n qs

/-- A change of one slot of a data page is a change of one record. -/
theorem Layout.edit_slot {t : Prop} {body : List UInt32} {spare : Option UInt32}
    {s : Nat} {x : Option Bytes} (h : Layout t ps hd body spare) (hn : n ∈ body)
    (hp : page? ps n = some p) (hw : q.Wf n) (hnext : q.next? = p.next?)
    (hentry : ∀ k, q.entry k = if k = s then x else p.entry k) :
    Layout t (ps.set n.toNat q) hd body spare ∧ Evolves ps (ps.set n.toNat q) ∧
      content (ps.set n.toNat q) = update (content ps) ⟨n, s⟩ x := by
  obtain ⟨hl, he, hc⟩ := h.edit hn hp hw hnext
  refine ⟨hl, he, funext fun r => ?_⟩
  rw [hc, Function.update_apply]
  by_cases hr : r.page = n
  · obtain rfl := hr
    rw [if_pos rfl, hentry]
    by_cases hs : r.slot = s
    · rw [if_pos hs, if_pos (by rw [← hs])]
    · rw [if_neg hs, if_neg fun he => hs (congrArg RecordId.slot he),
        ← h.content_of_entry (h.pos hn) hp]
  · rw [if_neg hr, if_neg fun he => hr (congrArg RecordId.page he)]

/-- A record that is put into the last page comes behind the others. -/
theorem Layout.insert_last {t : Prop} {body : List UInt32} {spare : Option UInt32} {s : Nat}
    (h : Layout t ps hd body spare) (hp : page? ps hd.last = some p) (hi : p.insert b = .ok (s, q)) :
    Layout t (ps.set hd.last.toNat q) hd body spare ∧ Evolves ps (ps.set hd.last.toNat q) ∧
      Inserted ⟨hd.last, s⟩ b ps (ps.set hd.last.toNat q) ∧
      SameChain ps (ps.set hd.last.toNat q) := by
  have h0 := h.pos h.last_mem
  have hwf := h.wf_of_mem h.last_mem hp
  obtain ⟨hw, hnext, hfree, hentry⟩ := hwf.insert hi
  obtain ⟨hl, hev, hcontent⟩ := h.edit_slot h.last_mem hp hw hnext hentry
  refine ⟨hl, hev, ⟨(h.content_of_entry h0 hp s).trans hfree, hcontent, fun {r'} hr' => ?_,
    fun {k} hk => ?_⟩, sameChain_set hp h0 hnext⟩
  · obtain ⟨b', hb'⟩ := Option.ne_none_iff_exists'.mp hr'
    exact h.le_last (h.mem_body_of_content hb')
  · exact h.content_of_entry h0 hp k ▸ hwf.entry_of_insert hi hk

end Heap

/-- The open file has come to other pages, of which something is said. -/
def Site.Reaches (c : Site) (t : Prop) (ps : List Page) (P : List Page → Prop) (f : HeapFile)
    (s : Store) : Prop :=
  ∃ t' qs hd body spare, (t → t') ∧ c.On t' qs f s ∧ Heap.Layout t' qs hd body spare ∧
    Heap.Evolves ps qs ∧ Site.OnDataPage qs f ∧ P qs

lemma Site.Reaches.imp {c : Site} {t : Prop} {ps : List Page} {P Q : List Page → Prop} {f : HeapFile}
    {s : Store} (hPQ : ∀ qs, P qs → Q qs) : c.Reaches t ps P f s → c.Reaches t ps Q f s :=
  fun ⟨t', qs, hd, body, spare, ht, hon, hl, hev, honPage, hP⟩ =>
    ⟨t', qs, hd, body, spare, ht, hon, hl, hev, honPage, hPQ qs hP⟩

lemma Site.Reaches.after {c : Site} {t t' t₀ : Prop} {ps qs : List Page} {hd : FileHeader}
    {body : List UInt32} {spare : Option UInt32} {P : List Page → Prop} {f : HeapFile} {s : Store}
    (ht : t → t') (hev : Heap.Evolves ps qs) (hl : Heap.Layout t₀ qs hd body spare) :
    c.Reaches t' qs P f s → c.Reaches t ps P f s :=
  fun ⟨t'', rs, hd, body, spare, ht', hon, hl', hev', honPage, hP⟩ =>
    ⟨t'', rs, hd, body, spare, fun h => ht' (ht h), hon, hl', hev.trans hev' hl, honPage, hP⟩

namespace HeapFile
open HandleM Heap
variable {c : Site} {t : Prop} {ps qs : List Page} {hd : FileHeader} {f : HeapFile} {s : Store}
  {p : PinnedPage} {r : RecordId} {b : Bytes} {body : List UInt32} {spare : Option UInt32}

lemma onDataPage_of_mem (hl : Layout t ps hd body spare) {n : UInt32} (hcur : f.currentPage = some n)
    (hn : n ∈ body) : Site.OnDataPage ps f := fun m hm => by
  cases hcur.symm.trans hm
  exact hl.isData hn

/-- The header of the file is changed, or stays as it is. -/
theorem editHeader_on (h : c.On t ps f s) (hh : header? ps = some hd)
    (edit : FileHeader → Except StoreError FileHeader) :
    match edit hd with
    | .error e => editHeader edit f s = ((.error e, f), s)
    | .ok hd' => ∃ g s' qs name, editHeader edit f s = ((.ok (), g), s') ∧
        (g.current = f.current ∧ g.cursor = f.cursor) ∧ c.On t qs g s' ∧ s.Smooth [] s' ∧
          SameData ps qs ∧ header? qs = some { hd' with name } := by
  obtain ⟨p, hp, h0, hpage⟩ := h.headerPage
  have hof : FileHeader.ofPage (s.contents p.frame) = some hd := by
    rwa [header?, hpage, Option.bind_some] at hh
  rw [editHeader_some edit hp, hof]
  dsimp only
  cases edit hd with
  | error e => rfl
  | ok hd' =>
    refine ⟨_, _, _, FileHeader.cut hd'.name, rfl, ⟨rfl, rfl⟩, h.overwriteHeader hp h0 _,
      (Store.Smooth.refl s).overwrite .., sameData_set hpage _, ?_⟩
    rw [header?_set hpage, FileHeader.ofPage_toPage, FileHeader.kept]

theorem recount_on (hl : Layout t ps hd body spare) (h : c.On t ps f s) {hd' : FileHeader}
    (edit : FileHeader → Except StoreError FileHeader) (hedit : edit hd = .ok hd')
    (hfirst : hd'.first = hd.first) (hlast : hd'.last = hd.last) (hpages : hd'.pages = hd.pages) :
    ∃ g s' qs hd'', editHeader edit f s = ((.ok (), g), s') ∧
      (g.current = f.current ∧ g.cursor = f.cursor) ∧ c.On t qs g s' ∧ s.Smooth [] s' ∧
        Layout t qs hd'' body spare ∧ Evolves ps qs ∧ content qs = content ps ∧
          SameChain ps qs ∧ count qs = hd'.records.toNat := by
  have hon := editHeader_on h hl.header edit
  rw [hedit] at hon
  obtain ⟨g, s', qs, name, heq, hcur, hon, hsmooth, hsame, hheader⟩ := hon
  have hl' : Layout t qs _ body spare := hl.recount hsame hheader hfirst hlast hpages
  obtain ⟨hev, hcontent⟩ := hsame.evolves hl hl' (List.Subset.refl _)
  refine ⟨g, s', qs, _, heq, hcur, hon, hsmooth, hl', hev, hcontent, ⟨hsame.links, ?_⟩,
    by rw [count_eq hheader]⟩
  rw [hheader, hl.header]
  simp only [Option.map_some, FileHeader.span, hfirst, hlast, hpages]

lemma records_dropRecord (hd : FileHeader) : hd.dropRecord.records.toNat = hd.records.toNat - 1 := by
  unfold FileHeader.dropRecord
  dsimp only
  split
  · next h0 => rw [h0]; rfl
  · next h0 =>
    have hle : (1 : UInt32) ≤ hd.records := UInt32.le_iff_toNat_le.mpr
      (Nat.one_le_iff_ne_zero.mpr fun h => h0 (UInt32.toNat_inj.mp h))
    rw [UInt32.toNat_sub_of_le _ _ hle, UInt32.toNat_one]

lemma addRecord_cases (hd : FileHeader) :
    (∃ hd', hd.addRecord = .ok hd' ∧ hd'.first = hd.first ∧ hd'.last = hd.last ∧
      hd'.pages = hd.pages ∧ hd'.records.toNat = hd.records.toNat + 1) ∨
    hd.addRecord = .error .countOverflow ∧ hd.records.toNat + 1 = UInt32.size := by
  unfold FileHeader.addRecord
  have := hd.records.toNat_lt
  split
  · next hroom =>
    refine Or.inl ⟨_, rfl, rfl, rfl, rfl, ?_⟩
    rw [UInt32.toNat_add, UInt32.toNat_one]
    simp only [UInt32.size] at hroom
    omega
  · next hfull =>
    refine Or.inr ⟨rfl, ?_⟩
    simp only [UInt32.size] at *
    omega

lemma switchTo_asks (h : c.On t ps f s) (n : UInt32) :
    s.Asks (fun _ => []) (switchTo n f s).1.1 (switchTo n f s).2 := by
  have hpin : ∀ {g : HeapFile} {s}, c.On t ps g s →
      s.Asks (fun _ => []) (pinCurrent n g s).1.1 (pinCurrent n g s).2 := by
    intro g s hg
    have hasks := Store.asks_readPage hg.holds.sound.accounted.pinned.wf ⟨g.id, n⟩
    rw [pinCurrent_apply]
    rcases hr : Store.readPage ⟨g.id, n⟩ s with ⟨_ | _, _⟩ <;> rw [hr] at hasks <;> exact hasks
  have hkeep := (releaseCurrent_keeps (c.lasting t ps) f s h).1
  unfold switchTo
  rw [HandleM.bind_apply]
  cases hc : f.current with
  | none =>
    rw [releaseCurrent_none hc] at hkeep ⊢
    exact hpin hkeep
  | some p =>
    have hasks := Store.asks_unpinPage s ⟨f.id, p.number⟩ p.dirty
    rw [releaseCurrent_some hc] at hkeep ⊢
    rcases hu : Store.unpinPage ⟨f.id, p.number⟩ p.dirty s with ⟨e | _, s'⟩ <;>
      rw [hu] at hasks hkeep
    · exact hasks
    · exact Store.Smooth.asks hasks (hpin hkeep)

lemma seekLast_of_current (h : f.currentPage = some (f.lastPage s)) :
    seekLast f s = ((.ok (), f), s) := if_pos h

lemma seekLast_asks (h : c.On t ps f s) :
    s.Asks (fun _ => []) (seekLast f s).1.1 (seekLast f s).2 := by
  unfold seekLast
  dsimp only
  split
  · exact Store.Smooth.refl s
  · exact switchTo_asks h _

/-- What can come of an attempt to insert a record into the last page, which is the page `p`. -/
inductive LastInsertion (c : Site) (t : Prop) (ps : List Page) (hd : FileHeader) (p : Page)
    (b : Bytes) (f : HeapFile) (s : Store) : Except StoreError RecordId → HeapFile → Store → Prop
  /-- The last page could not be made the current one. -/
  | lost {e g s'} (on : c.On t ps g s') (nowhere : g.current = none) (broken : s.Broken e s')
      (seek : seekLast f s = ((.error e, g), s')) : LastInsertion c t ps hd p b f s (.error e) g s'
  /-- The record does not fit. -/
  | full {g s'} (on : c.On t ps g s') (there : g.currentPage = some hd.last)
      (crowded : ¬ p.shown.Fits b) (smooth : s.Smooth [] s')
      (seek : seekLast f s = ((.ok (), g), s')) :
      LastInsertion c t ps hd p b f s (.error .pageFull) g s'
  /-- The record is there, but the header cannot count it. -/
  | uncounted {g s'} (reaches : c.Reaches t ps (NotInserted b .countOverflow ps) g s')
      (limit : hd.records.toNat + 1 = UInt32.size) (smooth : s.Smooth [] s') :
      LastInsertion c t ps hd p b f s (.error .countOverflow) g s'
  | done {g s'} (fits : p.shown.Fits b) (reaches : c.Reaches t ps (PutLast hd p b ps) g s')
      (smooth : s.Smooth [] s') :
      LastInsertion c t ps hd p b f s (.ok ⟨hd.last, p.shown.vacancy⟩) g s'

/-- A record is put into the last page and counted. If it does not fit there it is not put anywhere,
and the last page is the current one. -/
theorem insertLast_on (hl : Layout t ps hd body spare) {page : Page}
    (hlast : page? ps hd.last = some page) (hlen : b.length ≤ Page.maxRecord)
    (h : c.On t ps f s) : LastInsertion c t ps hd page b f s (insertLast b f s).1.1
      (insertLast b f s).1.2 (insertLast b f s).2 := by
  obtain ⟨hon, hcases, -⟩ := seekLast_on h hl.header
  have hasks := seekLast_asks h
  unfold insertLast
  rw [HandleM.bind_apply]
  rcases hseek : seekLast f s with ⟨⟨res, g⟩, s'⟩
  rw [hseek] at hon hcases hasks
  obtain ⟨rfl, hcur⟩ | ⟨⟨e, rfl⟩, hnone⟩ := hcases
  swap
  · exact .lost hon hnone hasks hseek
  dsimp only at hon hcur hasks ⊢
  obtain ⟨p, hp, hnumber⟩ := currentPage_eq_some_iff.mp hcur
  obtain rfl : s'.contents p.frame = page :=
    Option.some.inj ((hnumber ▸ hon.current hp).symm.trans hlast)
  rw [HandleM.bind_apply, editCurrent_some _ hp]
  obtain ⟨hfits, q, hins⟩ | ⟨hcrowded, hins⟩ :=
    (hl.wf_of_mem hl.last_mem hlast).insert_cases hlen
  swap
  · rw [hins]
    exact .full hon hcur hcrowded hasks hseek
  obtain ⟨hl', hev, hinserted, hchain⟩ := hl.insert_last hlast hins
  rw [← hnumber] at hl' hev hinserted hchain
  let slot := (s'.contents p.frame).shown.vacancy
  have hmem : p.number ∈ body := hnumber ▸ hl.last_mem
  have hon' : c.On t (ps.set p.number.toNat q)
      { g with current := some { p with dirty := true }, cursor := some ⟨p.number, slot⟩ }
      (s'.overwrite p.frame q) := Kept.cursor (hon.overwrite hp q) _
  have hsmooth : s.Smooth [] (s'.overwrite p.frame q) := Store.Smooth.overwrite hasks ..
  rw [hins]
  dsimp only [held_bind, hold_bind]
  rw [HandleM.bind_apply]
  obtain ⟨hd', hadd, hfirst, hlast', hpages, hrecords⟩ | ⟨hadd, hfull⟩ := addRecord_cases hd
  · obtain ⟨g', s'', qs, hd'', heq, hcur', hon'', hsmooth', hl'', hev', hcontent, hchain', hcount⟩ :=
      recount_on hl' hon' _ hadd hfirst hlast' hpages
    have hthere : g'.currentPage = some p.number := by
      rw [currentPage, hcur'.1]
      rfl
    have hput : Inserted ⟨p.number, slot⟩ b ps qs :=
      { hinserted with put := hcontent.trans hinserted.put }
    rw [heq, hnumber]
    exact .done hfits ⟨t, qs, _, _, _, fun ht => ht, hon'', hl'', hev.trans hev' hl',
      onDataPage_of_mem hl'' hthere hmem, hnumber ▸ hput, by rw [hcount, hrecords, count_eq hl.header],
      hchain.trans hchain'⟩ (hsmooth.trans hsmooth')
  · have hedit := editHeader_on hon' hl'.header FileHeader.addRecord
    rw [hadd] at hedit
    dsimp only at hedit
    rw [hedit]
    exact .uncounted ⟨t, _, _, _, _, fun ht => ht, hon', hl', hev, onDataPage_of_mem hl' rfl hmem,
      Or.inr ⟨rfl, _, hinserted, (count_eq hl'.header).trans (count_eq hl.header).symm,
        by rw [count_eq hl.header, hfull]⟩⟩ hfull hsmooth

lemma addPage_of_lt {n : UInt32} (h : hd.pages.toNat + 1 < UInt32.size) :
    ∃ hd', hd.addPage n = .ok hd' ∧ hd'.first = hd.first ∧ hd'.last = n ∧
      hd'.pages.toNat = hd.pages.toNat + 1 ∧ hd'.records = hd.records := by
  refine ⟨_, if_pos h, rfl, rfl, ?_, rfl⟩
  simp only [UInt32.size] at h
  show (hd.pages + 1).toNat = _
  rw [UInt32.toNat_add, UInt32.toNat_one]
  omega

/-- The page that was linked behind the last page is counted, and then it is the last page. -/
theorem adopt_on {t₀ : Prop} {n : UInt32} (hl : Layout t₀ ps hd body (some n)) (h : c.On t ps f s)
    (hcur : f.currentPage = some n) (hn : n ≠ noPage) (hlen : ps.length = n.toNat + 1) :
    ∃ g s', editHeader (fun hd => hd.addPage n) f s = ((.ok (), g), s') ∧
      g.currentPage = some n ∧ s.Smooth [] s' ∧ c.Reaches t ps (Grown hd n ps) g s' := by
  have hpos : ∀ m ∈ body ++ (some n).toList, 1 ≤ m.toNat ∧ m.toNat < ps.length := fun m hm =>
    ⟨UInt32.lt_iff_toNat_lt.mp (List.rel_of_pairwise_cons hl.sorted hm), hl.page_lt hm⟩
  have hpages : hd.pages.toNat + 1 < UInt32.size := by
    have hle : (body ++ [n]).length ≤ ps.length - 1 :=
      length_le_of_pairwise (List.Pairwise.tail hl.sorted) hpos
    have hne : n.toNat ≠ 4294967295 := fun he => hn (UInt32.toNat_inj.mp he)
    have hlt := n.toNat_lt
    rw [List.length_append, List.length_singleton] at hle
    rw [hl.count]
    simp only [UInt32.size]
    omega
  have hedit := editHeader_on h hl.header fun hd => hd.addPage n
  obtain ⟨hd', hadd, hfirst, hlast, hcount, hrecords⟩ := addPage_of_lt (n := n) hpages
  rw [hadd] at hedit
  obtain ⟨g, s', qs, name, heq, hcur', hon, hsmooth, hsame, hheader⟩ := hedit
  have hl' := hl.adopt hsame hheader hfirst hlast hcount t
  obtain ⟨hev, hcontent⟩ := hsame.evolves hl hl' (List.subset_append_left ..)
  have hmem : n ∈ body ++ [n] := List.mem_append_right _ List.mem_cons_self
  have hthere : g.currentPage = some n := by
    rw [currentPage, hcur'.1]
    exact hcur
  refine ⟨g, s', heq, hthere, hsmooth, t, qs, _, _, _, fun ht => ht, hon, hl', hev,
    onDataPage_of_mem hl' hthere hmem, ⟨hcontent, ?_⟩, ⟨⟨_, hheader, hlast, hcount⟩, ?_⟩, ?_⟩
  · rw [count_eq hheader, count_eq hl.header, hrecords]
  · rw [hsame.links (hl.pos hl.last_mem), hl.beyond]
  · exact (hsame n (hl'.pos hmem)).trans (hl.hangs rfl)

/-- A page that was just added to the file is linked behind the last one. -/
theorem linked_on {old : PinnedPage} {n : UInt32} {i : Nat} {s : Store} {holds : List Hold}
    (hl : Layout t ps hd body spare) (hn : c.own c.name) (hopen : (f.id, c.name) ∈ c.opens)
    (hlast : old.number = hd.last) (hlen : n.toNat = ps.length) (hne : n ≠ noPage)
    (hs : c.Shows t (ps ++ [Page.blank]) (⟨⟨f.id, n⟩, i, false⟩ :: old.hold f.id :: holds) s) :
    ∃ qs, c.Shows t qs ({ old.hold f.id with dirty := true } :: ⟨⟨f.id, n⟩, i, true⟩ :: holds)
        (linked s old n i) ∧
      Layout True qs hd body (some n) ∧ Evolves ps qs ∧ content qs = content ps ∧
      qs.length = n.toNat + 1 := by
  obtain ⟨hl₁, hev₁, hcontent₁⟩ := hl.grow
  let p₁ := ps ++ [Page.blank]
  let p₂ := p₁.set n.toNat (Page.empty n)
  have hblank : page? p₁ n = some Page.blank := by rw [page?_append, if_pos hlen]
  have hget₂ : ∀ m, page? p₂ m = if m = n then some (Page.empty n) else page? p₁ m :=
    page?_set hblank _
  -- The new page is set up first, so that the old one is read and linked after that.
  have hs₂ := hs.overwrite hopen (Function.update_self ..) (Page.empty n)
  rw [Function.update_idem] at hs₂
  have hswap := (Shown.lasting _ _ _ _ c.id).perm (List.Perm.swap ..) hs₂
  have hold : page? p₂ old.number = some ((s.overwrite i (Page.empty n)).contents old.frame) :=
    hswap.sound.contents List.mem_cons_self hopen ((hswap.shows hn).trans (Function.update_self ..))
  have hs₃ := hswap.overwrite hopen (Function.update_self ..)
    (((s.overwrite i (Page.empty n)).contents old.frame).setNext (some n))
  rw [Function.update_idem] at hs₃
  have hne' : old.number ≠ n := by
    rw [hlast]
    rintro rfl
    obtain ⟨p, hp, -⟩ := hl.data _ hl.last_mem
    exact Nat.ne_of_lt (lt_length hp) hlen
  have hold₁ : page? p₁ hd.last = some ((s.overwrite i (Page.empty n)).contents old.frame) := by
    rw [hget₂, if_neg hne'] at hold
    rw [← hlast]
    exact hold
  obtain ⟨hl₃, hev₃, hcontent₃⟩ := hl₁.link (by rw [hlen]; simp) hne hblank hold₁ fun m => by
    rw [page?_set hold, hget₂, hlast]
  refine ⟨_, hs₃, hl₃, hev₁.trans hev₃ hl₁, hcontent₃.trans hcontent₁, ?_⟩
  rw [List.length_set, List.length_set, List.length_append, hlen]
  rfl

/-- A page is linked behind the last page, or a request fails; no record comes or goes. -/
theorem appendPage_on (hl : Layout t ps hd body spare) (h : c.On t ps f s)
    (hcur : f.currentPage = some hd.last) :
    match appendPage f s with
    | ((.ok _, g), s') => ∃ n, g.currentPage = some n ∧ s.Smooth [⟨c.id, n⟩] s' ∧
        c.Reaches t ps (Grown hd n ps) g s'
    | ((.error e, g), s') => s.Broken e s' ∧ c.Reaches t ps (Same ps) g s' := by
  obtain ⟨old, hc, hlast⟩ := currentPage_eq_some_iff.mp hcur
  rw [appendPage_some hc]
  have hopen : (f.id, c.name) ∈ c.opens := h.isOpen_of old
  have halloc := h.holds.allocPage hopen (Function.update_self ..)
  have hasks := Store.asks_allocPage h.holds.sound.accounted.pinned.wf f.id
  have honPage := onDataPage_of_mem hl hcur hl.last_mem
  have hkept : ∀ {t' qs g s'}, (g.id = f.id ∧ g.name = f.name ∧ g.isOpen = f.isOpen ∧
      g.header = f.header) → c.Shows t' qs (g.holds ++ c.rest) s' → c.On t' qs g s' :=
    fun hg hs => ⟨hs, hg.1.trans h.id_eq, hg.2.1.trans h.name_eq, hg.2.2.1.trans h.isOpen,
      hg.2.2.2 ▸ Kept.header h⟩
  rcases ha : Store.allocPage f.id s with ⟨e | ⟨n, i⟩, s'⟩ <;> rw [ha] at halloc hasks
  · obtain ⟨qs, hqs, hs⟩ := halloc
    rw [Function.update_idem] at hs
    have hon : c.On t qs f s' := hkept ⟨rfl, rfl, rfl, rfl⟩ hs
    refine ⟨hasks, ?_⟩
    obtain rfl | ⟨rfl, -⟩ := hqs
    · exact ⟨t, _, _, _, _, fun ht => ht, hon, hl, .refl _, honPage, rfl, rfl⟩
    · obtain ⟨hl', hev, hcontent⟩ := hl.grow
      exact ⟨t, _, _, _, _, fun ht => ht, hon, hl', hev, fun m hm => hev.data (honPage m hm),
        hcontent, (count_eq hl'.header).trans (count_eq hl.header).symm⟩
  · obtain ⟨hlen, hne, hs⟩ := halloc
    rw [Function.update_idem, holds_of_some hc] at hs
    obtain ⟨qs, hs', hl', hev, hcontent, hlen'⟩ := linked_on hl h.own hopen hlast hlen hne hs
    have hsame : Same ps qs := ⟨hcontent, (count_eq hl'.header).trans (count_eq hl.header).symm⟩
    have hback : c.Shows t qs (⟨⟨f.id, n⟩, i, true⟩ :: f.header.toList.map (·.hold f.id) ++ c.rest)
        (Store.unpinPage ⟨f.id, old.number⟩ true (linked s' old n i)).2 := hs'.unpinPage
    have hsmooth : s.Smooth [⟨c.id, n⟩] (linked s' old n i) := by
      rw [← h.id_eq]
      exact (Store.Smooth.overwrite hasks _ _).overwrite _ _
    have hreturn := Store.asks_unpinPage (linked s' old n i) ⟨f.id, old.number⟩ true
    let g : HeapFile :=
      { f with current := some { number := n, frame := i, dirty := true }, cursor := none }
    have hg : Site.OnDataPage qs g := fun m hm => by
      cases hm
      exact hl'.isData_spare rfl
    dsimp only
    rcases hu : Store.unpinPage ⟨f.id, old.number⟩ true (linked s' old n i) with ⟨e | _, s''⟩
    · have htorn := Store.torn_of_unpinPage (congrArg Prod.fst hu)
      rw [hu] at htorn hback hreturn
      exact ⟨hsmooth.broken hreturn, True, qs, _, _, _, fun _ => trivial,
        hkept ⟨rfl, rfl, rfl, rfl⟩ (hback.tear htorn), hl', hev, hg, hsame⟩
    · rw [hu] at hback hreturn
      have hon : c.On t qs g s'' := hkept ⟨rfl, rfl, rfl, rfl⟩ hback
      obtain ⟨g', s₃, heq, hthere, hadopted, hreach⟩ := adopt_on hl' hon rfl hne hlen'
      dsimp only
      rw [heq]
      refine ⟨n, hthere, (hsmooth.trans hreturn).trans hadopted, ?_⟩
      exact Site.Reaches.imp (fun rs (hrs : Grown hd n qs rs) =>
        ⟨hsame.trans hrs.same, hrs.appended, hrs.new⟩) (hreach.after (fun ht => ht) hev hl')

/-- The step at which an insertion through an open file stops, and with what. -/
inductive Stop (c : Site) (t : Prop) (ps : List Page) (hd : FileHeader) (p : Page) (b : Bytes)
    (f : HeapFile) (s : Store) (e : StoreError) (g : HeapFile) (s' : Store) : Prop
  | seek {e'} (failed : seekLast f s = ((.error e', g), s')) (told : e' ≠ .pageFull → e = e')
  | append {f' s₁} (crowded : ¬ p.shown.Fits b) (before : seekLast f s = ((.ok (), f'), s₁))
      (on : c.On t ps f' s₁) (there : f'.currentPage = some hd.last)
      (failed : appendPage f' s₁ = ((.error e, g), s'))

/-- What can come of an insertion of a record that is not too long, where the last page is `p`. -/
inductive Insertion (c : Site) (t : Prop) (ps : List Page) (hd : FileHeader) (p : Page)
    (b : Bytes) (f : HeapFile) (s : Store) : Except StoreError RecordId → HeapFile → Store → Prop
  /-- The record fits into the last page. -/
  | here {g s'} (fits : p.shown.Fits b) (reaches : c.Reaches t ps (PutLast hd p b ps) g s')
      (smooth : s.Smooth [] s') :
      Insertion c t ps hd p b f s (.ok ⟨hd.last, p.shown.vacancy⟩) g s'
  /-- It does not, and a page was added for it. -/
  | behind {n g s'} (crowded : ¬ p.shown.Fits b)
      (reaches : c.Reaches t ps (PutBehind hd n b ps) g s') (smooth : s.Smooth [⟨c.id, n⟩] s') :
      Insertion c t ps hd p b f s (.ok ⟨n, 0⟩) g s'
  /-- The record is there, but the header cannot count it. -/
  | uncounted {added g s'} (reaches : c.Reaches t ps (NotInserted b .countOverflow ps) g s')
      (limit : hd.records.toNat + 1 = UInt32.size) (smooth : s.Smooth added s') :
      Insertion c t ps hd p b f s (.error .countOverflow) g s'
  /-- A request failed, and the record is not there. -/
  | failed {e g s'} (reaches : c.Reaches t ps (Same ps) g s') (broken : s.Broken e s')
      (stop : Stop c t ps hd p b f s e g s') : Insertion c t ps hd p b f s (.error e) g s'

lemma insert_of_long (f : HeapFile) (s : Store) (hlong : Page.maxRecord < b.length) :
    insert b f s = ((.error (.recordTooLong b.length Page.maxRecord), f), s) := by
  unfold insert
  dsimp only
  rw [if_pos hlong]
  rfl

/-- A record that is not too long goes into the last page, or into a new page behind it if there is
no room; or a request fails. -/
theorem insertion_on (hl : Layout t ps hd body spare) {page : Page}
    (hlast : page? ps hd.last = some page) (hlen : b.length ≤ Page.maxRecord)
    (h : c.On t ps f s) : Insertion c t ps hd page b f s (insert b f s).1.1 (insert b f s).1.2
      (insert b f s).2 := by
  have hstay : ∀ {g s'}, c.On t ps g s' → g.current = none → c.Reaches t ps (Same ps) g s' :=
    fun hon hg => ⟨t, ps, _, _, _, fun ht => ht, hon, hl, .refl ps, .of_none hg, rfl, rfl⟩
  unfold insert
  dsimp only
  rw [if_neg (Nat.not_lt.mpr hlen), HandleM.tryCatch_apply]
  have hfirst := insertLast_on hl hlast hlen h
  rcases hi : insertLast b f s with ⟨⟨res, g⟩, s'⟩
  rw [hi] at hfirst
  cases hfirst with
  | done fits reaches smooth => exact .here fits reaches smooth
  | uncounted reaches limit smooth => exact .uncounted reaches limit smooth
  | @lost e _ _ on nowhere broken seek =>
    dsimp only
    by_cases hpage : e = .pageFull
    · rw [if_pos hpage, HandleM.bind_apply, appendPage_none nowhere]
      exact .failed (hstay on nowhere) (broken.report nofun) (.seek seek fun hne => absurd hpage hne)
    · rw [if_neg hpage]
      exact .failed (hstay on nowhere) broken (.seek seek fun _ => rfl)
  | full on there crowded smooth seek =>
    dsimp only
    rw [if_pos rfl, HandleM.bind_apply]
    have happend := appendPage_on hl on there
    rcases ha : appendPage g s' with ⟨⟨e | _, g'⟩, s''⟩ <;> rw [ha] at happend
    · exact .failed happend.2 (smooth.broken happend.1) (.append crowded seek on there ha)
    obtain ⟨n, hthere, hgrown, t', qs, hd', body', spare', ht, hon', hl', hev, hg', hP⟩ := happend
    obtain ⟨hd'', hq, rfl, -⟩ := hP.appended.header
    obtain rfl := Option.some.inj (hl'.header.symm.trans hq)
    have hagain := insertLast_on hl' hP.new hlen hon'
    have hgrown := smooth.trans hgrown
    dsimp only
    rcases hi' : insertLast b g' s'' with ⟨⟨res, g₂⟩, s₂⟩
    rw [hi'] at hagain
    cases hagain with
    | done fits reaches smooth' =>
      have hplace : (⟨hd'.last, (Page.empty hd'.last).shown.vacancy⟩ : RecordId) = ⟨hd'.last, 0⟩ := by
        rw [Page.shown_empty]
        rfl
      dsimp only
      rw [hplace]
      refine .behind crowded ((reaches.after ht hev hl').imp fun rs hrs => ?_) (hgrown.trans smooth')
      have hinserted := hrs.inserted.of_same hP.same
      rw [hplace] at hinserted
      exact ⟨hinserted, by rw [hrs.counted, hP.same.2],
        hP.appended.of_sameChain (hl.pos hl.last_mem) hrs.chain⟩
    | uncounted reaches limit smooth' =>
      refine .uncounted ((reaches.after ht hev hl').imp fun rs hrs => hrs.of_same hP.same) ?_
        (hgrown.trans smooth')
      rw [← count_eq hl.header, ← hP.same.2, count_eq hl'.header]
      exact limit
    | lost _ _ _ seek =>
      rw [seekLast_of_current (hthere.trans (congrArg some (hon'.lastPage hl'.header).symm))] at seek
      cases seek
    | full _ _ crowded' => exact absurd (Page.fits_empty _ hlen) crowded'

/-- That the page is full is told only if the gate said so. -/
lemma Insertion.feigned {p : Page} {g : HeapFile} {s' : Store}
    (h : Insertion c t ps hd p b f s (.error .pageFull) g s') : s.Feigned (s'.since s) := by
  cases h with
  | failed _ broken _ => exact broken.since.2 rfl

/-- A record is inserted and counted, or is not there. -/
theorem insert_on (hl : Layout t ps hd body spare) (hf : Site.OnDataPage ps f) (h : c.On t ps f s)
    (b : Bytes) :
    match insert b f s with
    | ((.ok r, g), s') => c.Reaches t ps (fun qs => Inserted r b ps qs ∧ count qs = count ps + 1) g s'
    | ((.error e, g), s') => c.Reaches t ps (NotInserted b e ps) g s' := by
  by_cases hlong : Page.maxRecord < b.length
  · rw [insert_of_long f s hlong]
    exact ⟨t, ps, _, _, _, fun ht => ht, h, hl, .refl ps, hf, Or.inl ⟨rfl, rfl⟩⟩
  · obtain ⟨page, hlast, -⟩ := hl.data _ hl.last_mem
    have hins := insertion_on hl hlast (Nat.le_of_not_lt hlong) h
    rcases hi : insert b f s with ⟨⟨res, g⟩, s'⟩
    rw [hi] at hins
    cases hins with
    | here _ reaches _ => exact reaches.imp fun qs hqs => ⟨hqs.inserted, hqs.counted⟩
    | behind _ reaches _ => exact reaches.imp fun qs hqs => ⟨hqs.inserted, hqs.counted⟩
    | uncounted reaches _ _ => exact reaches
    | failed reaches _ _ => exact reaches.imp fun qs hqs => Or.inl hqs

end HeapFile
end PagedHeap
