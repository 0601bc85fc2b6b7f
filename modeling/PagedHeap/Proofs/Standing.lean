import PagedHeap.Proofs.Openings
import PagedHeap.Proofs.ScanChanges
import PagedHeap.Proofs.ScanSearch

/-! What holds of a workspace on heap files at all times: the files are laid out as heap files, and
all handles stand on data pages. What is done through one handle changes the file of that handle
alone, in one of a few ways. -/
namespace PagedHeap

open Function (update)

namespace Heap
variable {ps qs : List Page}

/-- What can become of the records of a file and of their number by the header. -/
inductive Change (ps qs : List Page) : Prop
  | same (h : Same ps qs)
  | inserted {r b} (h : Inserted r b ps qs) (hcount : count qs = count ps + 1)
  /-- The record is there, but the header cannot count it. -/
  | uncounted {r b} (h : Inserted r b ps qs) (hcount : count qs = count ps)
      (hfull : count ps + 1 = UInt32.size)
  | deleted {r b} (h : content ps r = some b) (hcontent : content qs = update (content ps) r none)
      (hcount : count qs = count ps - 1)
  | replaced {r b b'} (h : content ps r = some b)
      (hcontent : content qs = update (content ps) r (some b')) (hcount : count qs = count ps)

lemma Change.refl (ps : List Page) : Change ps ps := .same ⟨rfl, rfl⟩

lemma NotInserted.change {b : Bytes} {e : StoreError} (h : NotInserted b e ps qs) :
    Change ps qs := by
  rcases h with h | ⟨-, r, hr, hcount, hfull⟩
  · exact .same h
  · exact .uncounted hr hcount hfull

end Heap

/-- The scan stands on a data page, and would also after going back to its mark. -/
def Scan.OnDataPage (ps : List Page) (scan : Scan) : Prop :=
  Site.OnDataPage ps scan.file ∧ ∀ n, scan.mark.page = some n → Heap.IsData ps n

/-- The handle stands on a data page, if on any. -/
def Handle.OnDataPage (ps : List Page) : Handle → Prop
  | reader f | inserter f => Site.OnDataPage ps f
  | scan s => s.OnDataPage ps

lemma Handle.OnDataPage.mono {ps qs : List Page} {h : Handle} (hev : Heap.Evolves ps qs)
    (hs : h.OnDataPage ps) : h.OnDataPage qs := by
  cases h with
  | reader f => exact fun n hn => hev.data (hs n hn)
  | inserter f => exact fun n hn => hev.data (hs n hn)
  | scan s => exact ⟨fun n hn => hev.data (hs.1 n hn), fun n hn => hev.data (hs.2 n hn)⟩

namespace Workspace

def pages (w : Workspace) (name : String) : Option (List Page) := w.store.cache.pages name

/-- A heap file that was set up, with a handle on it. -/
structure Placed (t : Prop) (pages : Option (List Page)) (h : Handle) : Prop where
  layout : ∃ ps hd body spare, pages = some ps ∧ Heap.Layout t ps hd body spare ∧ h.OnDataPage ps

/-- A workspace on these heap files. -/
structure Standing (own : String → Prop) (w : Workspace) : Prop where
  running : Running (Shown own w.pages w.store.Torn) w
  formed : ∀ name ps, own name → w.pages name = some ps → Heap.Formed w.store.Torn ps
  placed : ∀ {key h}, w.handles.find? key = some h →
    Placed w.store.Torn (w.pages h.file.name) h

/-- How the files can have changed: the records of a file in one of the ways above, and a new file
has none. -/
def Moves (own : String → Prop) (w w' : Workspace) : Prop :=
  ∀ name, own name →
    (∀ ps, w.pages name = some ps → ∃ qs, w'.pages name = some qs ∧ Heap.Evolves ps qs ∧
      Heap.Change ps qs) ∧
    (w.pages name = none → ∀ qs, w'.pages name = some qs →
      Heap.content qs = (fun _ => none) ∧ Heap.count qs = 0)

variable {own : String → Prop} {F : String → Option (List Page)} {t t' : Prop}
  {w w' : Workspace} {key : String} {old new : Handle} {s : Store} {ps qs : List Page}
  {hd : FileHeader} {body : List UInt32} {spare : Option UInt32}

lemma Moves.of_same (h : ∀ {name}, own name → w'.pages name = w.pages name) : Moves own w w' :=
  fun _ hn => ⟨fun ps hps => ⟨ps, (h hn).trans hps, .refl ps, .refl ps⟩,
    fun hnone qs hqs => by cases hnone.symm.trans ((h hn).symm.trans hqs)⟩

def site (own : String → Prop) (w : Workspace) (key : String) (h : Handle) : Site where
  own := own
  files := w.pages
  opens := h.opening :: openings (w.handles.erase key)
  rest := heldBy (w.handles.erase key)
  id := h.file.id
  name := h.file.name
  isOpen := List.mem_cons_self

namespace Standing

lemma own_of_find (h : Standing own w) (hf : w.handles.find? key = some old) :
    own old.file.name := by
  have hmem : (old.file.id, old.file.name) ∈ openings w.handles :=
    List.mem_map.mpr ⟨_, Table.mem_of_find? hf, rfl⟩
  exact (h.running.inv.sound.opened hmem).1

theorem of_running (hr : Running (Shown own F t) w)
    (hformed : ∀ name ps, own name → F name = some ps → Heap.Formed t ps)
    (hplaced : ∀ {key h}, w.handles.find? key = some h → Placed t (F h.file.name) h) :
    Standing own w ∧ ∀ {name}, own name → w.pages name = F name := by
  have hpages : ∀ {name}, own name → w.pages name = F name := fun hn => hr.inv.shows hn
  have htorn := hr.inv.torn
  have hr' : Running (Shown own w.pages w.store.Torn) w :=
    ⟨hr.distinct, hr.files, hr.inv.sound, fun _ => rfl, fun ht => ht⟩
  refine ⟨⟨hr', fun name ps hn hps => ?_, fun {key h} hf => ?_⟩, hpages⟩
  · exact (hformed name ps hn ((hpages hn).symm.trans hps)).mono htorn
  · have hmem : (h.file.id, h.file.name) ∈ openings w.handles :=
      List.mem_map.mpr ⟨_, Table.mem_of_find? hf, rfl⟩
    have hn := (hr.inv.sound.opened hmem).1
    obtain ⟨ps, hd, body, spare, hps, hl, hs⟩ := (hplaced hf).layout
    exact ⟨ps, hd, body, spare, (hpages hn).trans hps, hl.mono htorn, hs⟩

/-- What is held under a key stands on the pages of its file. -/
theorem on (h : Standing own w) (hf : w.handles.find? key = some old) :
    ∃ ps hd body spare, w.pages old.file.name = some ps ∧
      Heap.Layout w.store.Torn ps hd body spare ∧ old.OnDataPage ps ∧
      (w.site own key old).On w.store.Torn ps old.file w.store := by
  obtain ⟨ps, hd, body, spare, hps, hl, hs⟩ := (h.placed hf).layout
  refine ⟨ps, hd, body, spare, hps, hl, hs, ?_⟩
  have hsame : update w.pages old.file.name (some ps) = w.pages := Shown.update_same hps
  have halone := h.running.alone (Shown.managed ..) hf
  unfold Site.On Site.Shows
  show Kept (Shown own (update w.pages old.file.name (some ps)) _ _) _ _ _ _ _
  rw [hsame]
  exact halone

/-- What is done through one handle changes the file of that handle. -/
theorem put (h : Standing own w) (hps : w.pages old.file.name = some ps)
    (hon : (w.site own key old).On t' qs new.file s) (ht : w.store.Torn → t')
    (hl : Heap.Layout t' qs hd body spare) (hev : Heap.Evolves ps qs) (hnew : new.OnDataPage qs) :
    Standing own { store := s, handles := w.handles.insert key new } ∧
      ∀ {name}, own name → pages { store := s, handles := w.handles.insert key new } name =
        update w.pages old.file.name (some qs) name := by
  have hname : new.file.name = old.file.name := hon.name_eq
  have hopening : new.opening = old.opening := Prod.ext hon.id_eq hon.name_eq
  have hr : Running (Shown own (update w.pages old.file.name (some qs)) t')
      { store := s, handles := w.handles.insert key new } := by
    refine h.running.put ?_
    rw [hopening]
    exact ⟨hon.holds, rfl, rfl, hon.isOpen, Kept.header hon⟩
  refine of_running hr (fun name rs hn hrs => ?_) fun {key' h'} hf' => ?_
  · by_cases hm : name = old.file.name
    · rw [hm, Function.update_self] at hrs
      cases hrs
      exact Or.inr ⟨hd, body, spare, hl⟩
    · rw [Function.update_of_ne hm] at hrs
      exact (h.formed name rs hn hrs).mono ht
  · rw [Table.find?_insert] at hf'
    split at hf'
    · cases hf'
      exact ⟨qs, hd, body, spare, by rw [hname, Function.update_self], hl, hnew⟩
    · obtain ⟨rs, hd', body', spare', hrs, hl', hs'⟩ := (h.placed hf').layout
      by_cases hm : h'.file.name = old.file.name
      · rw [hm] at hrs
        cases hps.symm.trans hrs
        exact ⟨qs, hd, body, spare, by rw [hm, Function.update_self], hl, hs'.mono hev⟩
      · exact ⟨rs, hd', body', spare', by rw [Function.update_of_ne hm, hrs], hl'.mono ht, hs'⟩

/-- What leaves the file of a handle as it is leaves all files. -/
theorem stay (h : Standing own w) (new : Handle) (hps : w.pages old.file.name = some ps)
    (hl : Heap.Layout w.store.Torn ps hd body spare)
    (hon : (w.site own key old).On w.store.Torn ps new.file s) (hnew : new.OnDataPage ps) :
    let w' : Workspace := { store := s, handles := w.handles.insert key new }
    Standing own w' ∧ ∀ {name}, own name → w'.pages name = w.pages name := by
  obtain ⟨hst, hpages⟩ := h.put hps hon (fun ht => ht) hl (.refl ps) hnew
  have hsame : update w.pages old.file.name (some ps) = w.pages := Shown.update_same hps
  exact ⟨hst, fun hn => (hpages hn).trans (congrFun hsame _)⟩

lemma moves_of_update (hps : w.pages key = some ps) (hev : Heap.Evolves ps qs)
    (hchange : Heap.Change ps qs)
    (hpages : ∀ {name}, own name → w'.pages name = update w.pages key (some qs) name) :
    Moves own w w' := by
  intro name hn
  rw [hpages hn]
  by_cases hm : name = key
  · rw [hm, Function.update_self]
    refine ⟨fun rs hrs => ?_, fun hnone => ?_⟩
    · cases hps.symm.trans hrs
      exact ⟨qs, rfl, hev, hchange⟩
    · cases hps.symm.trans hnone
  · rw [Function.update_of_ne hm]
    exact ⟨fun rs hrs => ⟨rs, hrs, .refl rs, .refl rs⟩,
      fun hnone rs hrs => by cases hnone.symm.trans hrs⟩

end Standing
end Workspace
end PagedHeap
