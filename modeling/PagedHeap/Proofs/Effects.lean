import PagedHeap.Proofs.Standing

/-! What each action does to the records of the files: one that succeeds in inserting, deleting or
overwriting a record does just that, and all others leave every record as it is, whatever failed.
What is read is a record of the file. -/
namespace PagedHeap

open Function (update)

namespace Scan
open HandleM HeapFile
variable {c : Site} {t : Prop} {ps : List Page} {hd : FileHeader} {scan scan' : Scan} {s : Store}
  {body : List UInt32} {spare : Option UInt32}

lemma Still.onDataPage (h : scan.Still scan') (hf : scan.OnDataPage ps) : scan'.OnDataPage ps := by
  obtain ⟨hpos, -, -, hmark⟩ := h
  refine ⟨fun n hn => hf.1 n ?_, fun n hn => hf.2 n (hmark ▸ hn)⟩
  rw [← show scan'.file.currentPage = scan.file.currentPage from congrArg Mark.page hpos]
  exact hn

/-- Going back to the mark ends there, or without a current page. -/
theorem reset_onDataPage (hf : scan.OnDataPage ps) (s : Store) : (reset scan s).1.2.OnDataPage ps := by
  have hpin : ∀ (g : HeapFile) n s, g.current = none → Heap.IsData ps n →
      Site.OnDataPage ps (pinCurrent n g s).1.2 := by
    intro g n s hg hn
    rw [pinCurrent_apply]
    rcases Store.readPage ⟨g.id, n⟩ s with ⟨e | i, s'⟩
    · exact .of_none hg
    · intro m hm
      cases hm
      exact hn
  have hrelease : (releaseCurrent scan.file s).1.2.current = none := by
    cases hc : scan.file.current with
    | none =>
      rw [releaseCurrent_none hc]
      exact hc
    | some p => rw [releaseCurrent_some hc]
  unfold reset
  rw [held_bind]
  dsimp only
  split
  · rw [HandleM.bind_apply, onFile_apply]
    rcases hr : releaseCurrent scan.file s with ⟨⟨e | _, g⟩, s'⟩ <;> rw [hr] at hrelease
    · exact ⟨.of_none hrelease, hf.2⟩
    · dsimp only
      cases hm : scan.mark.page with
      | none => exact ⟨.of_none hrelease, hf.2⟩
      | some n =>
        have hpinned := hpin g n s' hrelease (hf.2 n hm)
        dsimp only
        rw [HandleM.bind_apply, onFile_apply]
        dsimp only
        rcases hp : pinCurrent n g s' with ⟨⟨e | _, g'⟩, s''⟩ <;> rw [hp] at hpinned
        · exact ⟨hpinned, hf.2⟩
        · exact ⟨hpinned, hf.2⟩
  · exact hf

theorem readRecord_on (hl : Heap.Layout t ps hd body spare) (h : c.On t ps scan.file s)
    (hf : scan.OnDataPage ps) (r : RecordId) :
    (Scan.readRecord r scan s).1.2.OnDataPage ps ∧
      ∀ b, (Scan.readRecord r scan s).1.1 = .ok b → Heap.content ps r = some b := by
  obtain ⟨honPage, hread⟩ := HeapFile.readRecord_on hl r scan.file s ⟨h, hf.1⟩
  unfold Scan.readRecord
  rw [HandleM.bind_apply, onFile_apply]
  rcases hr : HeapFile.readRecord r scan.file s with ⟨⟨e | b, g⟩, s'⟩ <;> rw [hr] at honPage hread
  · exact ⟨⟨honPage, hf.2⟩, fun b hb => nomatch hb⟩
  · exact ⟨⟨honPage, hf.2⟩, fun b' hb' => by cases hb'; exact hread b rfl⟩

theorem stop_onDataPage (hf : scan.OnDataPage ps) (s : Store) : (stop scan s).1.2.OnDataPage ps := by
  refine ⟨.of_none ?_, hf.2⟩
  unfold stop
  rw [change_bind, onFile_apply]
  cases hc : scan.file.current with
  | none =>
    have hc' : { scan with finished := true }.file.current = none := hc
    rw [releaseCurrent_none hc']
    exact hc
  | some p =>
    have hc' : { scan with finished := true }.file.current = some p := hc
    rw [releaseCurrent_some hc']

lemma markDirty_still (scan : Scan) (s : Store) :
    scan.Still (onFile HeapFile.markDirty scan s).1.2 := by
  refine .of_file ?_ rfl rfl
  show ({ scan.file with current := _ } : HeapFile).currentPage = _
  unfold HeapFile.currentPage
  cases scan.file.current <;> rfl

section Start
variable (offset length : Nat) (type : FieldType) (value : Option Bytes) (comparison : Comparison)
  (scan : Scan) (s : Store)

/-- The filter with these parameters, if they are in order; there is none without a value to compare
with. -/
def criterion : Except StoreError (Option Predicate) :=
  match value with
  | none => .ok none
  | some value => (Predicate.new offset length type value comparison).map some

/-- A scan gets the filter with these parameters, or keeps the one it has if they are refused. -/
lemma start_apply : start offset length type value comparison scan s =
    match criterion offset length type value comparison with
    | .ok filter => ((.ok (), { scan with filter }), s)
    | .error e => ((.error e, scan), s) := by
  cases value with
  | none => rfl
  | some value =>
    simp only [start, criterion, HandleM.lift_except_bind]
    cases Predicate.new offset length type value comparison <;> rfl

lemma start_still :
    (start offset length type value comparison scan s).1.2.position = scan.position ∧
      (start offset length type value comparison scan s).1.2.file = scan.file ∧
      (start offset length type value comparison scan s).1.2.mark = scan.mark := by
  rw [start_apply]
  cases criterion offset length type value comparison <;> exact ⟨rfl, rfl, rfl⟩

end Start

end Scan

/-- The action is on one of these files, which it does not remove, if it is on a file at all. -/
def Action.On (own : String → Prop) : Action → Prop
  | .create file | .openReader _ file | .openInserter _ file | .openScan _ file => own file
  | .destroy _ => False
  | _ => True

lemma Action.On.ne_destroy {own : String → Prop} {a : Action} (h : a.On own) (file : String) :
    a ≠ .destroy file := by
  rintro rfl
  exact h

namespace Workspace

def content (w : Workspace) (name : String) : RecordId → Option Bytes :=
  ((w.pages name).map Heap.content).getD fun _ => none

variable {own : String → Prop} {w w' : Workspace} {key : String} {old new : Handle} {s : Store}
  {ps qs : List Page} {hd : FileHeader} {body : List UInt32} {spare : Option UInt32} {α : Type}

def Keeps (own : String → Prop) (w w' : Workspace) : Prop :=
  ∀ name, own name → w'.content name = w.content name

/-- One record of one file was set, or removed. -/
def Sets (own : String → Prop) (w w' : Workspace) (file : String) (r : RecordId)
    (x : Option Bytes) : Prop :=
  ∀ name, own name → w'.content name =
    if name = file then update (w.content file) r x else w.content name

/-- What an action with this result does to the records, and what it tells of them. -/
def Effect (own : String → Prop) (w : Workspace) :
    Action → Except StoreError (Reply Answer) → Workspace → Prop
  | .insert key b, .ok (.answer (.inserted r)), w' => ∃ h, w.handles.find? key = some h ∧
      w.content h.file.name r = none ∧ Sets own w w' h.file.name r (some b)
  | .delete key, .ok (.answer _), w' => ∃ scan r b, w.handles.find? key = some (.scan scan) ∧
      scan.under = .ok r ∧ w.content scan.file.name r = some b ∧ Sets own w w' scan.file.name r none
  | .update key b, .ok (.answer _), w' => ∃ scan r b₀, w.handles.find? key = some (.scan scan) ∧
      scan.under = .ok r ∧ w.content scan.file.name r = some b₀ ∧
      Sets own w w' scan.file.name r (some b)
  | .readRecord key r, .ok (.answer (.record b)), w' => Keeps own w w' ∧
      ∃ h, w.handles.find? key = some h ∧ w.content h.file.name r = some b
  | .current key, .ok (.answer (.record b)), w' => Keeps own w w' ∧
      ∃ scan r, w.handles.find? key = some (.scan scan) ∧ scan.under = .ok r ∧
        w.content scan.file.name r = some b
  | .next key, .ok (.answer (.found (some r))), w' => Keeps own w w' ∧
      ∃ scan b, w.handles.find? key = some (.scan scan) ∧ w.content scan.file.name r = some b ∧
        scan.shows b = true
  | _, _, w' => Keeps own w w'

/-- How the records change in an action: not at all, or one record of the file of a handle does. -/
inductive Edit (own : String → Prop) (w : Workspace) (a : Action)
    (res : Except StoreError (Reply Answer)) (w' : Workspace) : Prop
  | kept (hkeeps : Keeps own w w')
      (hnot : ∀ key b r, a = .insert key b → res ≠ .ok (.answer (.inserted r)))
  | inserted {key : String} {b : Bytes} {r : RecordId} {old : Handle} (ha : a = .insert key b)
      (hres : res = .ok (.answer (.inserted r))) (hf : w.handles.find? key = some old)
      (hfree : w.content old.file.name r = none) (hsets : Sets own w w' old.file.name r (some b))
  | removed {key : String} {answer : Answer} {scan : Scan} {r : RecordId} {b : Bytes}
      (ha : a = .delete key) (hres : res = .ok (.answer answer))
      (hf : w.handles.find? key = some (.scan scan)) (hunder : scan.under = .ok r)
      (hold : w.content scan.file.name r = some b) (hsets : Sets own w w' scan.file.name r none)
  | replaced {key : String} {answer : Answer} {scan : Scan} {r : RecordId} {b b' : Bytes}
      (ha : a = .update key b') (hres : res = .ok (.answer answer))
      (hf : w.handles.find? key = some (.scan scan)) (hunder : scan.under = .ok r)
      (hold : w.content scan.file.name r = some b) (hsets : Sets own w w' scan.file.name r (some b'))

lemma Effect.edit {a : Action} {res : Except StoreError (Reply Answer)} (h : Effect own w a res w') :
    Edit own w a res w' := by
  unfold Effect at h
  split at h
  · obtain ⟨old, hf, hfree, hsets⟩ := h
    exact .inserted rfl rfl hf hfree hsets
  · obtain ⟨scan, r, b, hf, hunder, hold, hsets⟩ := h
    exact .removed rfl rfl hf hunder hold hsets
  · obtain ⟨scan, r, b, hf, hunder, hold, hsets⟩ := h
    exact .replaced rfl rfl hf hunder hold hsets
  · exact .kept h.1 nofun
  · exact .kept h.1 nofun
  · exact .kept h.1 nofun
  · next hnot _ _ _ _ _ => exact .kept h fun key b r => hnot key b r

section Sets
variable {file name : String} {r : RecordId} {x : Option Bytes} (h : Sets own w w' file r x)
include h

lemma Sets.self (hn : own file) : w'.content file = update (w.content file) r x :=
  (h file hn).trans (if_pos rfl)

lemma Sets.other (hn : own name) (hne : file ≠ name) : w'.content name = w.content name :=
  (h name hn).trans (if_neg hne.symm)

end Sets

/-- A record was put into the file of a handle that the header cannot count. -/
def Uncounted (own : String → Prop) (w w' : Workspace) (key : String) (b : Bytes) : Prop :=
  ∃ h ps qs r, w.handles.find? key = some h ∧ own h.file.name ∧ w.pages h.file.name = some ps ∧
    w'.pages h.file.name = some qs ∧ Heap.Inserted r b ps qs ∧ Heap.count qs = Heap.count ps ∧
    Heap.count ps + 1 = UInt32.size

/-- An action with this result may have changed the file of a name: it was to create the file, which
was not there, or to insert into it, or it deleted or overwrote a record of it. -/
def Touches (w : Workspace) (name : String) :
    Action → Except StoreError (Reply Answer) → Prop
  | .create file, _ => file = name ∧ w.pages name = none
  | .insert key _, _ | .delete key, .ok (.answer _) | .update key _, .ok (.answer _) =>
    ∃ h, w.handles.find? key = some h ∧ h.file.name = name
  | _, _ => False

/-- What comes of an action. -/
structure Outcome (own : String → Prop) (a : Action) (w : Workspace)
    (r : Except StoreError (Reply Answer)) (w' : Workspace) : Prop where
  standing : Standing own w'
  moves : Moves own w w'
  spares : ∀ {name}, own name → ¬ Touches w name a r → w'.pages name = w.pages name
  effect : (∃ key b, a = .insert key b ∧ r = .error .countOverflow ∧ Uncounted own w w' key b) ∨
    Effect own w a r w'

section Files

lemma content_of_pages {name : String} (h : w.pages name = some ps) :
    w.content name = Heap.content ps := by
  rw [content, h]
  rfl

lemma Keeps.of_same (h : ∀ {name}, own name → w'.pages name = w.pages name) : Keeps own w w' :=
  fun _ hn => by rw [content, content, h hn]

lemma Sets.of_update {file : String} {r : RecordId} {x : Option Bytes}
    (hps : w.pages file = some ps)
    (hpages : ∀ {name}, own name → w'.pages name = update w.pages file (some qs) name)
    (hcontent : Heap.content qs = update (Heap.content ps) r x) : Sets own w w' file r x := by
  intro name hn
  rw [content, hpages hn]
  split
  · next hm => rw [hm, Function.update_self, Option.map_some, Option.getD_some, hcontent,
      content_of_pages hps]
  · next hm => rw [Function.update_of_ne hm, ← content]

lemma Keeps.of_update {file : String} (hps : w.pages file = some ps)
    (hpages : ∀ {name}, own name → w'.pages name = update w.pages file (some qs) name)
    (hcontent : Heap.content qs = Heap.content ps) : Keeps own w w' := by
  intro name hn
  rw [content, hpages hn]
  by_cases hm : name = file
  · rw [hm, Function.update_self, Option.map_some, Option.getD_some, hcontent, content_of_pages hps]
  · rw [Function.update_of_ne hm, ← content]

lemma Outcome.of_reads {a : Action} {r : Except StoreError (Reply Answer)} (h : Standing own w')
    (hpages : ∀ {name}, own name → w'.pages name = w.pages name)
    (he : Keeps own w w' → Effect own w a r w') : Outcome own a w r w' :=
  ⟨h, Moves.of_same hpages, fun hn _ => hpages hn, Or.inr (he (Keeps.of_same hpages))⟩

lemma spares_of_update {name file : String} {P : Prop}
    (hpages : w'.pages name = update w.pages file (some qs) name) (hP : file = name → P)
    (hn : ¬ P) : w'.pages name = w.pages name :=
  hpages.trans (Function.update_of_ne (fun he => hn (hP he.symm)) ..)

end Files
section Writes

/-- The outcome of what comes to other pages of the file of a handle. -/
theorem Standing.reaches (h : Standing own w) (new : Handle)
    (hps : w.pages old.file.name = some ps)
    {P : List Page → Prop}
    (hr : (w.site own key old).Reaches w.store.Torn ps P new.file s)
    (hnew : ∀ {qs}, Heap.Evolves ps qs → Site.OnDataPage qs new.file → new.OnDataPage qs)
    (hchange : ∀ {qs}, P qs → Heap.Change ps qs) :
    let w' : Workspace := { store := s, handles := w.handles.insert key new }
    Standing own w' ∧ Moves own w w' ∧ ∃ qs, P qs ∧
      ∀ {name}, own name → w'.pages name = update w.pages old.file.name (some qs) name := by
  obtain ⟨t', qs, hd, body, spare, ht, hon, hl, hev, honPage, hP⟩ := hr
  obtain ⟨hst, hpages⟩ := h.put hps hon ht hl hev (hnew hev honPage)
  exact ⟨hst, Standing.moves_of_update hps hev (hchange hP) hpages, qs, hP, hpages⟩

theorem insert_outcome (h : Standing own w) (key : String) (b : Bytes) :
    Outcome own (.insert key b) w (perform (.insert key b) w).1 (perform (.insert key b) w).2 := by
  rw [perform, map_apply, insert_apply]
  rcases hf : w.handles.find? key with _ | f | f | scan
  · exact .of_reads h (fun _ => rfl) fun hk => hk
  · exact .of_reads h (fun _ => rfl) fun hk => hk
  · obtain ⟨ps, hd, body, spare, hps, hl, hs, hon⟩ := h.on hf
    have hins := HeapFile.insert_on hl hs hon b
    unfold withFile
    dsimp only
    rcases hi : HeapFile.insert b f w.store with ⟨⟨e | r, g⟩, s⟩ <;> rw [hi] at hins
    · obtain ⟨hst, hmoves, qs, hP, hpages⟩ := h.reaches (.inserter g) hps hins
        (fun _ hg => hg) fun hP => hP.change
      refine ⟨hst, hmoves, fun hn => spares_of_update (hpages hn) fun hname => ⟨_, hf, hname⟩, ?_⟩
      rcases hP with hsame | ⟨rfl, r, hr, hcount, hfull⟩
      · exact Or.inr (Keeps.of_update hps hpages hsame.1)
      · have hn := h.own_of_find hf
        exact Or.inl ⟨key, b, rfl, rfl, .inserter f, ps, qs, r, hf, hn, hps,
          (hpages hn).trans (Function.update_self ..), hr, hcount, hfull⟩
    · obtain ⟨hst, hmoves, qs, hP, hpages⟩ := h.reaches (.inserter g) hps hins
        (fun _ hg => hg) fun hP => .inserted hP.1 hP.2
      refine ⟨hst, hmoves, fun hn => spares_of_update (hpages hn) fun hname => ⟨_, hf, hname⟩,
        Or.inr ⟨_, hf, ?_, Sets.of_update hps hpages hP.1.put⟩⟩
      rw [content_of_pages hps]
      exact hP.1.free
  · exact .of_reads h (fun _ => rfl) fun hk => hk

/-- The outcome of an action that sets the record under the cursor of a scan, or does nothing. -/
theorem change_outcome (h : Standing own w) (key : String) (act : ScanM Unit) (x : Option Bytes)
    (hact : ∀ {c : Site} {t ps hd body spare scan s}, Heap.Layout t ps hd body spare →
      Site.OnDataPage ps scan.file → c.On t ps scan.file s → scan.Still (act scan s).1.2 ∧
      match act scan s with
      | ((.ok _, scan'), s') => ∃ r b, scan.under = .ok r ∧ Heap.content ps r = some b ∧
          c.Reaches t ps (fun qs => Heap.content qs = update (Heap.content ps) r x ∧
            Heap.Change ps qs) scan'.file s'
      | ((.error _, scan'), s') => scan' = scan ∧ s' = s) :
    Standing own (onScan key act w).2 ∧ Moves own w (onScan key act w).2 ∧
      match (onScan key act w).1 with
      | .ok (.answer _) => (∃ scan r b, w.handles.find? key = some (.scan scan) ∧
          scan.under = .ok r ∧ w.content scan.file.name r = some b ∧
          Sets own w (onScan key act w).2 scan.file.name r x) ∧
        ∀ {name}, own name → (¬ ∃ h, w.handles.find? key = some h ∧ h.file.name = name) →
          (onScan key act w).2.pages name = w.pages name
      | _ => ∀ {name}, own name → (onScan key act w).2.pages name = w.pages name := by
  have hnone : Standing own w ∧ Moves own w w ∧ ∀ {name}, own name → w.pages name = w.pages name :=
    ⟨h, Moves.of_same fun _ => rfl, fun _ => rfl⟩
  rw [onScan_apply]
  match hf : w.handles.find? key with
  | none => exact hnone
  | some (.reader _) | some (.inserter _) => exact hnone
  | some (.scan scan) =>
    obtain ⟨ps, hd, body, spare, hps, hl, hs, hon⟩ := h.on hf
    obtain ⟨hstill, hdone⟩ := hact hl hs.1 hon
    unfold withScan
    dsimp only
    rcases hr : act scan w.store with ⟨⟨e | _, scan'⟩, s⟩ <;> rw [hr] at hdone hstill
    · obtain ⟨rfl, rfl⟩ := hdone
      obtain ⟨hst, hpages⟩ := h.stay (.scan scan') hps hl hon hs
      exact ⟨hst, Moves.of_same hpages, hpages⟩
    · obtain ⟨r, b, hu, hb, hreach⟩ := hdone
      have honPage : Handle.OnDataPage ps (.scan scan') := hstill.onDataPage hs
      obtain ⟨hst, hmoves, qs, hP, hpages⟩ := h.reaches (.scan scan') hps hreach
        (fun hev hg => ⟨hg, (honPage.mono hev).2⟩) fun hP => hP.2
      exact ⟨hst, hmoves, ⟨scan, r, b, rfl, hu, (congrFun (content_of_pages hps) r).trans hb,
        Sets.of_update hps hpages hP.1⟩,
        fun hn => spares_of_update (hpages hn) fun hname => ⟨_, rfl, hname⟩⟩

theorem delete_outcome (h : Standing own w) (key : String) :
    Outcome own (.delete key) w (perform (.delete key) w).1 (perform (.delete key) w).2 := by
  obtain ⟨hst, hmoves, heffect⟩ := change_outcome h key Scan.delete none
    fun {c t ps hd body spare scan s} hl hs hon => by
      obtain ⟨hstill, hdone⟩ := Scan.delete_on hl hs hon
      refine ⟨hstill, ?_⟩
      rcases hr : Scan.delete scan s with ⟨⟨e | _, scan'⟩, s'⟩ <;> rw [hr] at hdone
      · exact hdone
      · obtain ⟨r, b, hu, hb, hreach⟩ := hdone
        exact ⟨r, b, hu, hb, hreach.imp fun qs hP => ⟨hP.1, .deleted hb hP.1 hP.2⟩⟩
  rw [perform, map_apply]
  rcases hr : onScan key Scan.delete w with ⟨e | _ | _ | _, w'⟩ <;> rw [hr] at hst hmoves heffect
  · exact .of_reads hst heffect fun hk => hk
  · exact ⟨hst, hmoves, heffect.2, Or.inr heffect.1⟩
  · exact .of_reads hst heffect fun hk => hk
  · exact .of_reads hst heffect fun hk => hk

theorem update_outcome (h : Standing own w) (key : String) (b : Bytes) :
    Outcome own (.update key b) w (perform (.update key b) w).1 (perform (.update key b) w).2 := by
  obtain ⟨hst, hmoves, heffect⟩ := change_outcome h key (Scan.update b) (some b)
    fun {c t ps hd body spare scan s} hl hs hon => by
      obtain ⟨hstill, hdone⟩ := Scan.update_on hl hs hon b
      refine ⟨hstill, ?_⟩
      rcases hr : Scan.update b scan s with ⟨⟨e | _, scan'⟩, s'⟩ <;> rw [hr] at hdone
      · exact hdone
      · obtain ⟨r, b₀, hu, hb, hreach⟩ := hdone
        exact ⟨r, b₀, hu, hb, hreach.imp fun qs hP => ⟨hP.1, .replaced hb hP.1 hP.2⟩⟩
  rw [perform, map_apply]
  rcases hr : onScan key (Scan.update b) w with ⟨e | _ | _ | _, w'⟩ <;> rw [hr] at hst hmoves heffect
  · exact .of_reads hst heffect fun hk => hk
  · exact ⟨hst, hmoves, heffect.2, Or.inr heffect.1⟩
  · exact .of_reads hst heffect fun hk => hk
  · exact .of_reads hst heffect fun hk => hk

end Writes
section Reads

theorem scan_reads (h : Standing own w) (key : String) (act : ScanM α)
    (hkeeps : ∀ {I rest id name}, Lasting id I →
      HandleM.Ensures (KeptScan I rest id name) act fun _ => KeptScan I rest id name)
    (honPage : ∀ {c : Site} {t ps hd body spare scan s}, Heap.Layout t ps hd body spare →
      c.On t ps scan.file s → scan.OnDataPage ps → (act scan s).1.2.OnDataPage ps) :
    Standing own (onScan key act w).2 ∧
      (∀ {name}, own name → (onScan key act w).2.pages name = w.pages name) ∧
      ∀ a, (onScan key act w).1 = .ok (.answer a) → ∃ scan ps hd body spare,
        w.handles.find? key = some (.scan scan) ∧ w.pages scan.file.name = some ps ∧
        Heap.Layout w.store.Torn ps hd body spare ∧ scan.OnDataPage ps ∧
        (w.site own key (.scan scan)).On w.store.Torn ps scan.file w.store ∧
        (act scan w.store).1.1 = .ok a := by
  rw [onScan_apply]
  match hf : w.handles.find? key with
  | none => exact ⟨h, fun _ => rfl, fun a ha => nomatch ha⟩
  | some (.reader _) | some (.inserter _) => exact ⟨h, fun _ => rfl, fun a ha => nomatch ha⟩
  | some (.scan scan) =>
    obtain ⟨ps, hd, body, spare, hps, hl, hs, hon⟩ := h.on hf
    have hon' := hkeeps (Site.lasting ..) scan w.store hon
    have hs' := honPage hl hon hs
    unfold withScan
    dsimp only
    rcases hr : act scan w.store with ⟨⟨res, scan'⟩, s⟩
    rw [hr] at hon' hs'
    obtain ⟨hst, hpages⟩ := h.stay (.scan scan') hps hl hon' hs'
    refine ⟨hst, hpages, fun a ha => ⟨scan, ps, hd, body, spare, rfl, hps, hl, hs, hon, ?_⟩⟩
    cases res with
    | error e => cases ha
    | ok a' =>
      cases ha
      rw [hr]

lemma next_outcome (h : Standing own w) (key : String) :
    Outcome own (.next key) w (perform (.next key) w).1 (perform (.next key) w).2 := by
  obtain ⟨hst, hpages, hread⟩ := scan_reads h key Scan.next
    (fun hI => Scan.next_keeps hI) fun hl hon hs => by
      have hsearch := Scan.next_on hl hon hs.1
      exact ⟨hsearch.onDataPage hl, fun n hn => hs.2 n (hsearch.mark ▸ hn)⟩
  rw [perform, map_apply]
  refine .of_reads hst hpages fun hk => ?_
  rcases hr : onScan key Scan.next w with ⟨e | (_ | r) | _ | _, w'⟩ <;> rw [hr] at hk hread <;>
    try exact hk
  obtain ⟨scan, ps, hd, body, spare, hf, hps, hl, hs, hon, hres⟩ := hread _ rfl
  obtain ⟨-, ⟨b, hb, hv⟩, -⟩ := (Scan.next_on hl hon hs.1).found r hres
  exact ⟨hk, scan, b, hf, (congrFun (content_of_pages hps) r).trans hb, hv⟩

lemma current_outcome (h : Standing own w) (key : String) :
    Outcome own (.current key) w (perform (.current key) w).1 (perform (.current key) w).2 := by
  obtain ⟨hst, hpages, hread⟩ := scan_reads h key Scan.current
    (fun _ => Scan.current_keeps) fun hl hon hs => by
      rw [(Scan.current_on hl hs.1 hon).2.1]
      exact hs
  rw [perform, map_apply]
  refine .of_reads hst hpages fun hk => ?_
  rcases hr : onScan key Scan.current w with ⟨e | b | _ | _, w'⟩ <;> rw [hr] at hk hread <;>
    try exact hk
  obtain ⟨scan, ps, hd, body, spare, hf, hps, hl, hs, hon, hres⟩ := hread b rfl
  obtain ⟨r, hu, hb⟩ := (Scan.current_on hl hs.1 hon).2.2 b hres
  exact ⟨hk, scan, r, hf, hu, (congrFun (content_of_pages hps) r).trans hb⟩

lemma record_outcome (h : Standing own w) (new : Handle)
    (hf : w.handles.find? key = some old)
    (hps : w.pages old.file.name = some ps) (hl : Heap.Layout w.store.Torn ps hd body spare)
    (hon : (w.site own key old).On w.store.Torn ps new.file s) (hnew : new.OnDataPage ps)
    {r : RecordId} {res : Except StoreError Bytes}
    (hres : ∀ b, res = .ok b → Heap.content ps r = some b) :
    Outcome own (.readRecord key r) w (res.map fun b => .answer (.record b))
      { store := s, handles := w.handles.insert key new } := by
  obtain ⟨hst, hpages⟩ := h.stay new hps hl hon hnew
  refine .of_reads hst hpages fun hk => ?_
  cases res with
  | error e => exact hk
  | ok b => exact ⟨hk, old, hf, (congrFun (content_of_pages hps) r).trans (hres b rfl)⟩

lemma readRecord_outcome (h : Standing own w) (key : String) (r : RecordId) :
    Outcome own (.readRecord key r) w (perform (.readRecord key r) w).1
      (perform (.readRecord key r) w).2 := by
  rw [perform, map_apply, readRecord_apply]
  rcases hf : w.handles.find? key with _ | f | f | scan
  · exact .of_reads h (fun _ => rfl) fun hk => hk
  · obtain ⟨ps, hd, body, spare, hps, hl, hs, hon⟩ := h.on hf
    have hon' := HeapFile.readRecord_keeps (Site.lasting ..) r f w.store hon
    obtain ⟨hs', hres⟩ := HeapFile.readRecord_on hl r f w.store ⟨hon, hs⟩
    unfold withFile
    dsimp only
    rcases hr : HeapFile.readRecord r f w.store with ⟨⟨res, g⟩, s⟩
    rw [hr] at hon' hs' hres
    have := record_outcome h (.reader g) hf hps hl hon' hs' hres
    cases res <;> exact this
  · exact .of_reads h (fun _ => rfl) fun hk => hk
  · obtain ⟨ps, hd, body, spare, hps, hl, hs, hon⟩ := h.on hf
    have hon' := Scan.readRecord_keeps (Site.lasting ..) r scan w.store hon
    obtain ⟨hs', hres⟩ := Scan.readRecord_on hl hon hs r
    unfold withScan
    dsimp only
    rcases hr : Scan.readRecord r scan w.store with ⟨⟨res, scan'⟩, s⟩
    rw [hr] at hon' hs' hres
    have := record_outcome h (.scan scan') hf hps hl hon' hs' hres
    cases res <;> exact this

end Reads
section Handles

/-- What is opened and closed changes no file. -/
lemma Standing.handles (h : Standing own w) (w' : Workspace)
    (hr : Running (Shown own w.pages w.store.Torn) w')
    (hplaced : ∀ {key h'}, w'.handles.find? key = some h' → w.handles.find? key = some h' ∨
      Placed w.store.Torn (w.pages h'.file.name) h') :
    Standing own w' ∧ ∀ {name}, own name → w'.pages name = w.pages name :=
  Standing.of_running hr h.formed fun hf => (hplaced hf).elim (fun hf => h.placed hf) fun hp => hp

lemma close_stays (h : Standing own w) (key : String) : Standing own (close key w).2 ∧
    ∀ {name}, own name → (close key w).2.pages name = w.pages name := by
  refine h.handles _ (close_keeps (Shown.managed ..) h.running) fun {key' h'} hf => Or.inl ?_
  unfold close at hf
  cases hk : w.handles.find? key with
  | none =>
    rw [hk] at hf
    exact hf
  | some old =>
    rw [hk] at hf
    have hf' : (w.handles.erase key).find? key' = some h' := hf
    rw [Table.find?_erase] at hf'
    split at hf'
    · cases hf'
    · exact hf'

lemma openAs_stays (h : Standing own w) (key : String) {opening : StoreM Handle}
    (hr : Running (Shown own w.pages w.store.Torn) (openAs key opening w).2)
    (hnew : ∀ {new s}, opening w.store = (.ok new, s) →
      Placed w.store.Torn (w.pages new.file.name) new) :
    Standing own (openAs key opening w).2 ∧
      ∀ {name}, own name → (openAs key opening w).2.pages name = w.pages name := by
  refine h.handles _ hr fun {key' h'} hf => ?_
  unfold openAs at hf
  rcases ho : opening w.store with ⟨e | new, s⟩ <;> rw [ho] at hf
  · exact Or.inl hf
  · have hf' : (w.handles.insert key new).find? key' = some h' := hf
    rw [Table.find?_insert] at hf'
    split at hf'
    · cases hf'
      exact Or.inr (hnew ho)
    · exact Or.inl hf'

lemma map_opening {opening : StoreM α} {wrap : α → Handle} {s s' : Store} {h : Handle}
    (ho : (do return wrap (← opening) : StoreM Handle) s = (.ok h, s')) :
    ∃ a, opening s = (.ok a, s') ∧ h = wrap a := by
  rw [bind_apply] at ho
  rcases hr : opening s with ⟨e | a, s''⟩ <;> rw [hr] at ho
  · cases ho
  · cases ho
    exact ⟨a, rfl, rfl⟩

variable {file : String}

lemma openHeap_placed (h : Standing own w) (hn : own file) {f : HeapFile} {s : Store}
    (ho : Store.openHeap file w.store = (.ok f, s)) :
    f.cursor = none ∧ f.name = file ∧ ∃ ps hd body spare, w.pages file = some ps ∧
      Heap.Layout w.store.Torn ps hd body spare ∧ f.currentPage = some hd.first ∧
      Site.OnDataPage ps f := by
  obtain ⟨hname, hcursor, ps, hd, body, spare, hps, hl, hcur⟩ :=
    Shown.openHeap h.formed hn h.running.inv ho
  exact ⟨hcursor, hname, ps, hd, body, spare, hps, hl, hcur,
    HeapFile.onDataPage_of_mem hl hcur hl.first_mem⟩

lemma openScan_placed (h : Standing own w) (hn : own file) {scan : Scan} {s : Store}
    (ho : Store.openScan file w.store = (.ok scan, s)) :
    (scan.file.cursor = none ∧ scan.filter = none ∧ scan.finished = false) ∧ scan.file.name = file ∧
    ∃ ps hd body spare, w.pages file = some ps ∧ Heap.Layout w.store.Torn ps hd body spare ∧
      scan.file.currentPage = some hd.first ∧ scan.OnDataPage ps := by
  unfold Store.openScan at ho
  rw [bind_apply] at ho
  rcases hr : Store.openHeap file w.store with ⟨e | f, s'⟩ <;> rw [hr] at ho
  · cases ho
  · cases ho
    obtain ⟨hcursor, hname, ps, hd, body, spare, hps, hl, hcur, hs⟩ := openHeap_placed h hn hr
    exact ⟨⟨hcursor, rfl, rfl⟩, hname, ps, hd, body, spare, hps, hl, hcur, hs, hs⟩

end Handles

section Create
variable {file : String}

/-- A new file has no records, and no other file changes. -/
theorem create_outcome (h : Standing own w) (hn : own file) :
    Outcome own (.create file) w (perform (.create file) w).1 (perform (.create file) w).2 := by
  let w' : Workspace := { w with store := (Store.createHeap file w.store).2 }
  rw [perform, map_apply]
  have hplace : ∀ {key h'}, w.handles.find? key = some h' → ∀ {ps}, w.pages file = none →
      Placed w.store.Torn (update w.pages file (some ps) h'.file.name) h' := by
    intro key h' hf ps hnone
    obtain ⟨qs, hd, body, spare, hqs, hl, hs⟩ := (h.placed hf).layout
    refine ⟨qs, hd, body, spare, ?_, hl, hs⟩
    rw [Function.update_of_ne, hqs]
    rintro hname
    cases hnone.symm.trans (hname ▸ hqs)
  rcases Shown.createHeap hn h.running.inv with ⟨hs, -⟩ | ⟨hnone, ps, hs, hps⟩
  · obtain ⟨hst, hpages⟩ := h.handles w' (h.running.beside fun _ => hs) fun hf => Or.inl hf
    exact .of_reads hst hpages fun hk => hk
  · have hnew : Heap.Formed w.store.Torn ps ∧ Heap.content ps = (fun _ => none) ∧
        Heap.count ps = 0 := by
      rcases hps with ⟨-, hb⟩ | rfl
      · refine ⟨Or.inl hb, Heap.content_of_chain (Heap.chain_blank hb), ?_⟩
        unfold Heap.count
        rw [Heap.header?_blank hb]
        rfl
      · obtain ⟨hd, hl, hcontent, hcount⟩ := Shown.layout_newPages w.store.Torn file
        exact ⟨Or.inr ⟨hd, _, _, hl⟩, hcontent, hcount⟩
    have hformed : ∀ name qs, own name → update w.pages file (some ps) name = some qs →
        Heap.Formed w.store.Torn qs := by
      intro name qs hn' hqs
      by_cases hm : name = file
      · rw [hm, Function.update_self] at hqs
        cases hqs
        exact hnew.1
      · rw [Function.update_of_ne hm] at hqs
        exact h.formed name qs hn' hqs
    obtain ⟨hst, hpages⟩ := Standing.of_running (w := w') (h.running.beside fun _ => hs) hformed
      fun hf => hplace hf hnone
    have hother : ∀ {name}, own name → name ≠ file → w'.pages name = w.pages name :=
      fun hn' hm => (hpages hn').trans (Function.update_of_ne hm ..)
    have hfile : w'.pages file = some ps := (hpages hn).trans (Function.update_self ..)
    refine ⟨hst, fun name hn' => ?_, fun hn' hm => hother hn' fun he => hm ⟨he.symm, he ▸ hnone⟩,
      Or.inr fun name hn' => ?_⟩
    · by_cases hm : name = file
      · subst hm
        refine ⟨fun qs hqs => ?_, fun _ qs hqs => ?_⟩
        · cases hnone.symm.trans hqs
        · cases hfile.symm.trans hqs
          exact hnew.2
      · refine ⟨fun qs hqs => ⟨qs, (hother hn' hm).trans hqs, .refl qs, .refl qs⟩,
          fun hnone' qs hqs => ?_⟩
        cases hnone'.symm.trans ((hother hn' hm).symm.trans hqs)
    · by_cases hm : name = file
      · subst hm
        show w'.content name = w.content name
        rw [content_of_pages hfile, hnew.2.1, content, hnone]
        rfl
      · show w'.content name = w.content name
        rw [content, content, hother hn' hm]

end Create

/-- What comes of an action on heap files. -/
theorem perform_outcome (h : Standing own w) (a : Action) (ha : a.On own) :
    Outcome own a w (perform a w).1 (perform a w).2 := by
  have hm := Shown.managed own w.pages w.store.Torn
  have hruns : a.writes = false → Running (Shown own w.pages w.store.Torn) (perform a w).2 :=
    fun hw => perform_keeps_of_reads hm h.running hw fun file hfile => Shown.admits <| by
      cases a <;> cases hfile <;> first | exact ha | exact ha.elim
  cases a with
  | create file => exact create_outcome h ha
  | destroy file => exact ha.elim
  | insert key b => exact insert_outcome h key b
  | delete key => exact delete_outcome h key
  | update key b => exact update_outcome h key b
  | readRecord key r => exact readRecord_outcome h key r
  | next key => exact next_outcome h key
  | current key => exact current_outcome h key
  | openReader key file =>
    have hr := hruns rfl
    rw [perform, map_apply] at hr ⊢
    obtain ⟨hst, hpages⟩ := openAs_stays h key hr fun {new s} ho => by
      obtain ⟨f, hf, rfl⟩ := map_opening ho
      obtain ⟨-, hname, ps, hd, body, spare, hps, hl, -, hs⟩ := openHeap_placed h ha hf
      exact ⟨ps, hd, body, spare, (congrArg w.pages hname).trans hps, hl, hs⟩
    exact .of_reads hst hpages fun hk => hk
  | openInserter key file =>
    have hr := hruns rfl
    rw [perform, map_apply] at hr ⊢
    obtain ⟨hst, hpages⟩ := openAs_stays h key hr fun {new s} ho => by
      obtain ⟨f, hf, rfl⟩ := map_opening ho
      obtain ⟨hname, ps, hd, body, spare, hps, hl, hcur⟩ :=
        Shown.openInsertion h.formed ha h.running.inv hf
      exact ⟨ps, hd, body, spare, (congrArg w.pages hname).trans hps, hl,
        HeapFile.onDataPage_of_mem hl hcur hl.last_mem⟩
    exact .of_reads hst hpages fun hk => hk
  | openScan key file =>
    have hr := hruns rfl
    rw [perform, map_apply] at hr ⊢
    obtain ⟨hst, hpages⟩ := openAs_stays h key hr fun {new s} ho => by
      obtain ⟨scan, hf, rfl⟩ := map_opening ho
      obtain ⟨-, hname, ps, hd, body, spare, hps, hl, -, hs⟩ := openScan_placed h ha hf
      exact ⟨ps, hd, body, spare, (congrArg w.pages hname).trans hps, hl, hs⟩
    exact .of_reads hst hpages fun hk => hk
  | close key =>
    rw [perform, map_apply]
    obtain ⟨hst, hpages⟩ := close_stays h key
    exact .of_reads hst hpages fun hk => hk
  | drop key =>
    rw [perform, map_apply, drop_apply]
    obtain ⟨hst, hpages⟩ := close_stays h key
    exact .of_reads hst hpages fun hk => hk
  | start key offset length type value comparison =>
    rw [perform, map_apply]
    obtain ⟨hst, hpages, -⟩ := scan_reads h key
      (Scan.start offset length type value comparison)
      (fun _ => Scan.start_keeps offset length type value comparison)
      fun {_ _ _ _ _ _ scan s} _ _ hs => by
        obtain ⟨-, hfile, hmark⟩ := Scan.start_still offset length type value comparison scan s
        exact ⟨hfile ▸ hs.1, hmark ▸ hs.2⟩
    exact .of_reads hst hpages fun hk => hk
  | mark key =>
    rw [perform, map_apply]
    obtain ⟨hst, hpages, -⟩ := scan_reads h key Scan.setMark (fun _ _ _ hk => hk)
      fun _ _ hs => ⟨hs.1, hs.1⟩
    exact .of_reads hst hpages fun hk => hk
  | reset key =>
    rw [perform, map_apply]
    obtain ⟨hst, hpages, -⟩ := scan_reads h key Scan.reset (fun hI => Scan.reset_keeps hI)
      fun _ _ hs => Scan.reset_onDataPage hs _
    exact .of_reads hst hpages fun hk => hk
  | markDirty key =>
    rw [perform, map_apply]
    obtain ⟨hst, hpages, -⟩ := scan_reads h key (Scan.onFile HeapFile.markDirty)
      (fun hI => Scan.onFile_ensures (HeapFile.markDirty_keeps hI)) fun _ _ hs =>
        (Scan.markDirty_still _ _).onDataPage hs
    exact .of_reads hst hpages fun hk => hk
  | stop key =>
    rw [perform, map_apply]
    obtain ⟨hst, hpages, -⟩ := scan_reads h key Scan.stop (fun hI => Scan.stop_keeps hI)
      fun _ _ hs => Scan.stop_onDataPage hs _
    exact .of_reads hst hpages fun hk => hk

end Workspace
end PagedHeap
