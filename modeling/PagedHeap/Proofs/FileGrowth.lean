import PagedHeap.Proofs.RandomAccess

/-! When heap files grow. An insertion through any handle, wherever it stands and whatever others have
done to the file, puts the record into the last page if it fits there, and otherwise adds one page
behind the last one for it, unless the store is short of pins or a count is at its end; then every
handle on the file reads it. -/
namespace PagedHeap

namespace HeapFile
open HandleM
variable {f : HeapFile} {s : Store} {p : PinnedPage} {b : Bytes} {e : StoreError}

lemma fileHeader_some (h : f.header = some p) :
    f.fileHeader s = FileHeader.ofPage (s.contents p.frame) := by
  rw [fileHeader, h]
  rfl

/-- A record that does not fit into the last page is not inserted if no page can be added. -/
lemma insert_of_crowded (hlen : b.length ≤ Page.maxRecord) (hcur : f.current = some p)
    (hlast : p.number = f.lastPage s) (hcrowded : (s.contents p.frame).insert b = .error .pageFull)
    (halloc : (Store.allocPage f.id s).1 = .error e) : (insert b f s).1.1 = .error e := by
  have hseek : seekLast f s = ((.ok (), f), s) := seekLast_of_current (by
    rw [currentPage, hcur, Option.map_some, hlast])
  have hfull : insertLast b f s = ((.error .pageFull, f), s) := by
    unfold insertLast
    rw [HandleM.bind_apply, hseek]
    dsimp only
    rw [HandleM.bind_apply, editCurrent_some _ hcur, hcrowded]
  unfold insert
  dsimp only
  rw [if_neg (Nat.not_lt.mpr hlen), HandleM.tryCatch_apply, hfull]
  dsimp only
  rw [if_pos rfl, HandleM.bind_apply, appendPage_some hcur]
  rcases ha : Store.allocPage f.id s with ⟨e' | _, s'⟩ <;> rw [ha] at halloc
  · obtain rfl := Except.error.inj halloc
    rfl
  · cases halloc

end HeapFile

namespace Workspace
open HandleM
variable {own : String → Prop} {w w' : Workspace} {key name : String} {f : HeapFile} {old : Handle}
  {r : RecordId} {b : Bytes} {n : Nat} {a : Action} {actions : List Action} {cache : Cache}

/-- The events that come of an action, the latest first. -/
def events (w : Workspace) (a : Action) : List Event := (perform a w).2.store.since w.store

section Files

def header? (w : Workspace) (name : String) : Option FileHeader := (w.pages name).bind Heap.header?

def page? (w : Workspace) (name : String) (n : UInt32) : Option Page :=
  (w.pages name).bind fun ps => Heap.page? ps n

def next? (w : Workspace) (name : String) (n : UInt32) : Option UInt32 :=
  (w.pages name).bind fun ps => Heap.next? ps n

/-- The number of records of a file by its header; none if there is no such file. -/
def count (w : Workspace) (name : String) : Nat := ((w.pages name).map Heap.count).getD 0

variable {ps : List Page}

lemma header?_of_pages (h : w.pages name = some ps) : w.header? name = Heap.header? ps := by
  rw [header?, h, Option.bind_some]

lemma page?_of_pages (h : w.pages name = some ps) (n : UInt32) :
    w.page? name n = Heap.page? ps n := by
  rw [page?, h, Option.bind_some]

lemma next?_of_pages (h : w.pages name = some ps) (n : UInt32) :
    w.next? name n = Heap.next? ps n := by
  rw [next?, h, Option.bind_some]

lemma count_of_pages (h : w.pages name = some ps) : w.count name = Heap.count ps := by
  rw [count, h]
  rfl

end Files

section Counts

lemma Moves.count_le (hm : Moves own w w') (hn : own name) : w'.count name ≤ w.count name + 1 := by
  cases hps : w.pages name with
  | some ps =>
    obtain ⟨qs, hqs, -, hchange⟩ := (hm name hn).1 ps hps
    rw [count_of_pages hps, count_of_pages hqs]
    cases hchange with
    | same h => rw [h.2]; exact Nat.le_succ _
    | inserted _ hcount => rw [hcount]
    | uncounted _ hcount _ => rw [hcount]; exact Nat.le_succ _
    | deleted _ _ hcount => rw [hcount]; omega
    | replaced _ _ hcount => rw [hcount]; exact Nat.le_succ _
  | none =>
    cases hqs : w'.pages name with
    | none => rw [count, hqs]; exact Nat.zero_le _
    | some qs => rw [count_of_pages hqs, ((hm name hn).2 hps qs hqs).2]; exact Nat.zero_le _

/-- An action counts at most one record more. -/
lemma perform_count_le (h : Standing own w) (ha : a.Within own) (hn : own name) :
    (perform a w).2.count name ≤ w.count name + 1 := by
  rcases ha.cases with hon | ⟨file, hfile, rfl⟩
  · exact (perform_outcome h a hon).moves.count_le hn
  · rw [perform_destroy]
    split
    · next hr =>
      have hpages := (destroy_standing h hfile hr).2 hn
      rw [count, count, hpages, Function.update_apply]
      split
      · exact Nat.zero_le _
      · exact Nat.le_succ _
    · exact Nat.le_succ _

theorem run_count_le (h : Standing own w) (hwithin : ∀ a ∈ actions, a.Within own) (hn : own name) :
    (w.run actions).count name ≤ w.count name + actions.length := by
  induction actions generalizing w with
  | nil => exact Nat.le_refl _
  | cons a rest ih =>
    obtain ⟨ha, hrest⟩ := List.forall_mem_cons.mp hwithin
    have hstep := perform_count_le h ha hn
    have hrun := ih (perform_standing h ha) hrest
    rw [List.length_cons]
    exact hrun.trans (by omega)

end Counts

section Insertions

/-- A record was inserted into the file of a handle, where the header was `hd` and the last page was
the page `p`, and these pages were added to files. -/
structure Inserts (w w' : Workspace) (added : List PageId) (f : HeapFile) (hd : FileHeader)
    (p : Page) (b : Bytes) (r : RecordId) : Prop where
  /-- It is in the last page. -/
  last : (w'.header? f.name).map (·.last) = some r.page
  read : ∀ {key h}, w'.handles.find? key = some h → h.Reads → h.file.name = f.name →
    (perform (.readRecord key r) w').1 = .ok (.answer (.record b)) ∨
      ∃ e, (perform (.readRecord key r) w').1 = .error e ∧
        (perform (.readRecord key r) w').2.store.Short e
  /-- No page was added if there was room for it. -/
  here : p.shown.Fits b → added = [] ∧ r = ⟨hd.last, p.shown.vacancy⟩ ∧
    (w'.header? f.name).map FileHeader.span = some hd.span ∧
    ∀ {n}, n ≠ 0 → w'.next? f.name n = w.next? f.name n
  /-- Otherwise one page was added, linked behind the last one and counted. -/
  behind : ¬ p.shown.Fits b → added = [⟨f.id, r.page⟩] ∧ r.slot = 0 ∧
    (w'.header? f.name).map (·.pages.toNat) = some (hd.pages.toNat + 1) ∧
    w'.next? f.name hd.last = some r.page

/-- Why a record cannot be inserted into the file of a handle that is served. -/
inductive Stuck (w w' : Workspace) (f : HeapFile) (hd : FileHeader) (p : Page) (b : Bytes) :
    StoreError → Prop
  | short {e} (short : w'.store.Short e) : Stuck w w' f hd p b e
  /-- The header cannot count more records. -/
  | records (full : hd.records.toNat + 1 = UInt32.size) : Stuck w w' f hd p b .countOverflow
  /-- It needs a page, and the disk cannot count more pages. -/
  | pages {ps} (crowded : ¬ p.shown.Fits b) (pages : w.pages f.name = some ps)
      (full : ps.length + 1 = UInt32.size) : Stuck w w' f hd p b .countOverflow

/-- What an insertion through a handle comes to, where the header of the file is `hd` and its last
page is the page `p`. -/
structure Grows (w : Workspace) (key : String) (f : HeapFile) (hd : FileHeader) (p : Page)
    (b : Bytes) : Prop where
  long : Page.maxRecord < b.length →
    (perform (.insert key b) w).1 = .error (.recordTooLong b.length Page.maxRecord) ∧
      (perform (.insert key b) w).2.store = w.store ∧
      ∀ other, (perform (.insert key b) w).2.handles.find? other = w.handles.find? other
  inserted : b.length ≤ Page.maxRecord → w.store.Serves (openings w.handles) →
    let after := perform (.insert key b) w
    (∃ r, after.1 = .ok (.answer (.inserted r)) ∧
      Inserts w after.2 (Event.additions (w.events (.insert key b))) f hd p b r) ∨
    ∃ e, after.1 = .error e ∧ Stuck w after.2 f hd p b e
  /-- That the page is full is told only if the gate said so. -/
  full : (perform (.insert key b) w).1 = .error .pageFull →
    w.store.Feigned (w.events (.insert key b))

section Pages
variable {ps qs : List Page} {hd : FileHeader} {p : Page}

lemma Standing.read_inserted (h : Standing own w') (hqs : w'.pages f.name = some qs)
    (hs : w'.store.Serves (openings w'.handles)) (hr : Heap.Inserted r b ps qs)
    (hf : w'.handles.find? key = some old) (hreads : old.Reads) (hname : old.file.name = f.name) :
    (perform (.readRecord key r) w').1 = .ok (.answer (.record b)) ∨
      ∃ e, (perform (.readRecord key r) w').1 = .error e ∧
        (perform (.readRecord key r) w').2.store.Short e := by
  obtain ⟨new, hlooks⟩ := h.looksUp hf hreads (hname ▸ hqs) hs r
  have hcontent : Heap.content qs r = some b := by rw [hr.put, Function.update_self]
  refine hlooks.result.imp (fun hok => ?_) And.right
  rw [hok, Heap.lookup_eq_ok_iff.mpr hcontent]
  rfl

lemma Inserts.of_putLast (h : Standing own w') (hs : w'.store.Serves (openings w'.handles))
    (hps : w.pages f.name = some ps)
    (hqs : w'.pages f.name = some qs) (hd₀ : Heap.header? ps = some hd) (hfits : p.shown.Fits b)
    (hP : Heap.PutLast hd p b ps qs) : Inserts w w' [] f hd p b ⟨hd.last, p.shown.vacancy⟩ := by
  have hspan := hP.chain.span
  rw [hd₀, Option.map_some] at hspan
  refine ⟨?_, h.read_inserted hqs hs hP.inserted, fun _ => ⟨rfl, rfl, ?_, fun {m} hm => ?_⟩,
    fun hcrowded => absurd hfits hcrowded⟩
  · obtain ⟨hd', hq, heq⟩ := Option.map_eq_some_iff.mp hspan
    rw [header?_of_pages hqs, hq, Option.map_some]
    exact congrArg (fun span => some span.2.1) heq
  · rw [header?_of_pages hqs, hspan]
  · rw [next?_of_pages hqs, next?_of_pages hps, hP.chain.links hm]

lemma Inserts.of_putBehind {m : UInt32} (h : Standing own w')
    (hs : w'.store.Serves (openings w'.handles)) (hqs : w'.pages f.name = some qs)
    (hcrowded : ¬ p.shown.Fits b) (hP : Heap.PutBehind hd m b ps qs) :
    Inserts w w' [⟨f.id, m⟩] f hd p b ⟨m, 0⟩ := by
  obtain ⟨hd', hq, hlast, hpages⟩ := hP.appended.header
  refine ⟨?_, h.read_inserted hqs hs hP.inserted, fun hfits => absurd hfits hcrowded,
    fun _ => ⟨rfl, rfl, ?_, ?_⟩⟩
  · rw [header?_of_pages hqs, hq, Option.map_some, hlast]
  · rw [header?_of_pages hqs, hq, Option.map_some, hpages]
  · rw [next?_of_pages hqs, hP.appended.linked]

lemma Grows.of_long (hf : w.handles.find? key = some (.inserter f))
    (hlong : Page.maxRecord < b.length) : Grows w key f hd p b := by
  have hperform := perform_insert hf b
  rw [HeapFile.insert_of_long f w.store hlong] at hperform
  refine ⟨fun _ => ?_, fun hle => absurd hlong (Nat.not_lt.mpr hle), fun he => ?_⟩
  · rw [hperform]
    refine ⟨rfl, rfl, fun other => ?_⟩
    rw [Table.find?_insert]
    split
    · next ho => rw [ho, hf]
    · rfl
  · rw [hperform] at he
    cases he

variable {body : List UInt32} {spare : Option UInt32}

lemma Standing.inserts (h : Standing own w) (hf : w.handles.find? key = some (.inserter f))
    (hps : w.pages f.name = some ps) (hl : Heap.Layout w.store.Torn ps hd body spare)
    (hon : (w.site own key (.inserter f)).On w.store.Torn ps f w.store)
    (hlast : Heap.page? ps hd.last = some p) (hlen : b.length ≤ Page.maxRecord)
    (hs : w.store.Serves (openings w.handles)) :
    let after := perform (.insert key b) w
    (∃ r, after.1 = .ok (.answer (.inserted r)) ∧
      Inserts w after.2 (Event.additions (w.events (.insert key b))) f hd p b r) ∨
    ∃ e, after.1 = .error e ∧ Stuck w after.2 f hd p b e := by
  have hn := h.own_of_find hf
  have hperform := perform_insert hf b
  have hins := HeapFile.insertion_on hl hlast hlen hon
  have hserved := HeapFile.insert_served hon
    (hs.mono (openings_perm h.running.distinct hf).subset) hl hlast hlen
  have hafter := h.serves_perform hs (.insert key b)
  rcases hi : HeapFile.insert b f w.store with ⟨⟨res, g⟩, s⟩
  rw [hi] at hins hperform hserved
  have hpages : w.pages (Handle.inserter f).file.name = some ps := hps
  rw [hperform] at hafter
  dsimp only
  rw [events, hperform]
  cases hins with
  | here fits reaches smooth =>
    obtain ⟨hst, -, qs, hP, hmoved⟩ := h.reaches (.inserter g) hpages reaches (fun _ hg => hg)
      fun hP => .inserted hP.inserted hP.counted
    refine .inl ⟨_, rfl, ?_⟩
    rw [smooth.since.2]
    exact .of_putLast hst hafter hps ((hmoved hn).trans (Function.update_self ..)) hl.header fits hP
  | behind crowded reaches smooth =>
    obtain ⟨hst, -, qs, hP, hmoved⟩ := h.reaches (.inserter g) hpages reaches (fun _ hg => hg)
      fun hP => .inserted hP.inserted hP.counted
    refine .inl ⟨_, rfl, ?_⟩
    rw [smooth.since.2]
    exact .of_putBehind hst hafter ((hmoved hn).trans (Function.update_self ..)) crowded hP
  | uncounted _ limit _ => exact .inr ⟨_, rfl, .records limit⟩
  | failed _ broken _ =>
    rcases hserved with ⟨added, hsmooth⟩ | ⟨e', ⟨⟩, hshort | ⟨rfl, hcrowded, hfull⟩⟩
    · exact (hsmooth.not_broken broken).elim
    · exact .inr ⟨_, rfl, .short hshort⟩
    · exact .inr ⟨_, rfl, .pages hcrowded hps hfull⟩

end Pages

theorem Standing.grows (h : Standing own w) (hf : w.handles.find? key = some (.inserter f))
    (b : Bytes) : ∃ hd p, w.header? f.name = some hd ∧ w.page? f.name hd.last = some p ∧
      Grows w key f hd p b := by
  obtain ⟨ps, hd, body, spare, hps, hl, -, hon⟩ := h.on hf
  have hpages : w.pages f.name = some ps := hps
  have hon : (w.site own key (.inserter f)).On w.store.Torn ps f w.store := hon
  obtain ⟨p, hlast, -⟩ := hl.data _ hl.last_mem
  refine ⟨hd, p, (header?_of_pages hpages).trans hl.header,
    (page?_of_pages hpages _).trans hlast, ?_⟩
  by_cases hlong : Page.maxRecord < b.length
  · exact .of_long hf hlong
  have hlen := Nat.le_of_not_lt hlong
  refine ⟨fun hlt => absurd hlt hlong,
    fun _ hs => h.inserts hf hpages hl hon hlast hlen hs, fun he => ?_⟩
  have hins := HeapFile.insertion_on hl hlast hlen hon
  have hperform := perform_insert hf b
  rcases hi : HeapFile.insert b f w.store with ⟨⟨e | r, g⟩, s⟩ <;> rw [hi] at hins hperform
  · rw [hperform] at he
    cases he
    rw [events, hperform]
    exact hins.feigned
  · rw [hperform] at he
    cases he

end Insertions

section Unwritten

def shortPage : Page := ((Page.empty 1).edits [.insert [7]]).2

lemma wf_shortPage : shortPage.Wf 1 := ((Page.wf_empty 1).edits _).1

/-- A long record does not fit beside the short one. -/
lemma not_fits_shortPage {b : Bytes} (hlen : b.length = Page.maxRecord) :
    ¬ shortPage.shown.Fits b := by
  have hshown : shortPage.shown = (SlotTable.edits { number := 1 } [.insert [7]]).2 := by
    rw [shortPage, ((Page.wf_empty 1).edits _).2.2, Page.shown_empty]
  rw [hshown]
  show ¬ 16 + 4 * 2 + 1 + b.length ≤ 16384
  rw [hlen]
  decide

/-- A file of two pages, which are both pinned. -/
def growing : HeapFile :=
  { id := 0, name := "u", header := some { number := 0, frame := 0 },
    current := some { number := 1, frame := 1 } }

def growingOpened : Workspace where
  store := Store.opening "u" 0 1 (start (.keeping 4 shortPage) (.refusing 6)).store
  handles := ⟨[("i", .inserter growing)]⟩

lemma openInserter_keeping : (perform (.openInserter "i" "u")
    (start (.keeping 4 shortPage) (.refusing 6))).2 = growingOpened := by
  have hpage : (Store.readPage ⟨0, 0⟩ (Store.openFile "u"
      (start (.keeping 4 shortPage) (.refusing 6)).store).2).2.contents 0 =
        (FileHeader.new "u" 1).toPage Page.blank := rfl
  have hopen : Store.openHeap "u" (start (.keeping 4 shortPage) (.refusing 6)).store =
      (.ok growing, growingOpened.store) :=
    Store.openHeap_eq (by decide +kernel) (by decide +kernel) (by decide +kernel) hpage
      (by decide +kernel)
  have hlast : growing.fileHeader growingOpened.store = some (FileHeader.new "u" 1).kept := by
    have hpage : growingOpened.store.contents 0 = (FileHeader.new "u" 1).toPage Page.blank := rfl
    rw [HeapFile.fileHeader_some (p := { number := 0, frame := 0 }) rfl, hpage]
    exact FileHeader.ofPage_toPage ..
  have hseek := HeapFile.seekLast_of_current (f := growing) (s := growingOpened.store) (by
    rw [HeapFile.lastPage, hlast]
    rfl)
  have hinsert : Store.openInsertion "u" (start (.keeping 4 shortPage) (.refusing 6)).store =
      (.ok growing, growingOpened.store) := by
    rw [Store.openInsertion_apply, hopen]
    dsimp only
    rw [hseek]
  rw [perform, map_apply]
  unfold openAs
  rw [bind_apply]
  dsimp only [start] at hinsert ⊢
  rw [hinsert]
  rfl

/-- Through it no long record is inserted as long as no page can be added. -/
lemma insert_growing (h : Standing own w) (hf : w.handles.find? "i" = some (.inserter growing))
    (hpages : w.pages "u" = some [(FileHeader.new "u" 1).toPage Page.blank, shortPage])
    (hlen : b.length = Page.maxRecord) {e : StoreError}
    (halloc : (Store.allocPage growing.id w.store).1 = .error e) :
    (perform (.insert "i" b) w).1 = .error e := by
  obtain ⟨ps, hd, body, spare, hps, hl, -, hon⟩ := h.on hf
  cases hps.symm.trans hpages
  have hon : (w.site own "i" (.inserter growing)).On w.store.Torn _ growing w.store := hon
  have hkept : (FileHeader.new "u" 1).kept = hd := Option.some.inj
    ((FileHeader.ofPage_toPage ..).symm.trans ((Shown.header?_cons ..).symm.trans hl.header))
  have hlast : growing.lastPage w.store = 1 := by
    rw [hon.lastPage hl.header, ← hkept]
    rfl
  have hdata : shortPage = w.store.contents 1 := Option.some.inj (hon.current rfl)
  obtain ⟨hfits, -⟩ | ⟨-, hcrowded⟩ := wf_shortPage.insert_cases (Nat.le_of_eq hlen)
  · exact absurd hfits (not_fits_shortPage hlen)
  · rw [hdata] at hcrowded
    have hcur : growing.current = some { number := 1, frame := 1 } := rfl
    have hnone := HeapFile.insert_of_crowded (Nat.le_of_eq hlen) hcur hlast.symm hcrowded halloc
    rw [perform_insert hf, hnone]
    rfl

end Unwritten

end Workspace
end PagedHeap
