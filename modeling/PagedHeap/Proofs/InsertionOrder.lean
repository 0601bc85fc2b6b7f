import PagedHeap.Proofs.ScanRuns

/-! The order of insertion. As long as no record of a file is deleted, each new record comes behind all
others, whichever handle inserts it and whatever was refused before. So the records lie in the file in
the order in which they were inserted, and this is how a scan finds them. -/
namespace PagedHeap

open Function (update)

namespace Heap
variable {ps qs : List Page} {r r' : RecordId} {b : Bytes}

/-- On each page, the slots below a record are taken. -/
def Dense (c : RecordId → Option Bytes) : Prop :=
  ∀ r, c r ≠ none → ∀ s < r.slot, c ⟨r.page, s⟩ ≠ none

lemma update_ne_none {c : RecordId → Option Bytes} (h : c r' ≠ none) :
    update c r (some b) r' ≠ none := by
  rw [Function.update_apply]
  split
  · exact Option.some_ne_none b
  · exact h

/-- Where no slot below a record is free, a new record comes behind all others. -/
lemma Inserted.lt (h : Inserted r b ps qs) (hd : Dense (content ps)) (hr' : content ps r' ≠ none) :
    r' < r := by
  rcases UInt32.lt_or_eq_of_le (h.last hr') with hlt | heq
  · exact Or.inl hlt
  · refine Or.inr ⟨heq, Nat.lt_of_not_le fun hle => ?_⟩
    rcases Nat.lt_or_eq_of_le hle with hlt | hslot
    · exact hd r' hr' r.slot hlt (heq ▸ h.free)
    · obtain ⟨page, slot⟩ := r'
      obtain rfl : page = r.page := heq
      obtain rfl : r.slot = slot := hslot
      exact hr' h.free

lemma Inserted.dense (h : Inserted r b ps qs) (hd : Dense (content ps)) : Dense (content qs) := by
  rw [h.put]
  intro r' hr' s hs
  by_cases hr : r' = r
  · subst hr
    exact update_ne_none (h.lowest hs)
  · rw [Function.update_of_ne hr] at hr'
    exact update_ne_none (hd r' hr' s hs)

lemma Dense.replace {c : RecordId → Option Bytes} (hd : Dense c) (hr : c r ≠ none) (b : Bytes) :
    Dense (update c r (some b)) := by
  intro r' hr' s hs
  refine update_ne_none (hd r' ?_ s hs)
  by_cases h : r' = r
  · exact h ▸ hr
  · rwa [Function.update_of_ne h] at hr'

/-- Records appear in a file only by insertion. -/
lemma Change.inserted_of_put (h : Change ps qs) (hfree : content ps r = none)
    (hput : content qs r = some b) : ∃ b', Inserted r b' ps qs := by
  have hother : ∀ {r₀ x}, content qs = update (content ps) r₀ x → r = r₀ := by
    intro r₀ x hx
    by_contra hne
    rw [hx, Function.update_of_ne hne, hfree] at hput
    cases hput
  cases h with
  | same h =>
    rw [h.1, hfree] at hput
    cases hput
  | inserted h _ => exact hother h.put ▸ ⟨_, h⟩
  | uncounted h _ _ => exact hother h.put ▸ ⟨_, h⟩
  | deleted h hcontent _ =>
    cases hfree.symm.trans (hother hcontent ▸ h)
  | replaced h hcontent _ =>
    cases hfree.symm.trans (hother hcontent ▸ h)

end Heap

namespace Workspace
open Heap (Dense)
variable {own : String → Prop} {w w' opened : Workspace} {cache : Cache} {key name : String}
  {a : Action} {actions setup searches : List Action} {scan : Scan} {r : RecordId} {b : Bytes}

def fileOf (w : Workspace) (key : String) : Option String :=
  (w.handles.find? key).map fun h => h.file.name

def Deletes (name : String) (w : Workspace) (a : Action) : Prop :=
  ∃ key answer, a = .delete key ∧ w.fileOf key = some name ∧ (perform a w).1 = .ok (.answer answer)

def Overwrites (name : String) (w : Workspace) (a : Action) : Prop :=
  ∃ key b answer, a = .update key b ∧ w.fileOf key = some name ∧
    (perform a w).1 = .ok (.answer answer)

/-- The action fails to insert into the file since a count is at its limit. The record may be in the
file then, uncounted. -/
def Overflows (name : String) (w : Workspace) (a : Action) : Prop :=
  ∃ key b, a = .insert key b ∧ w.fileOf key = some name ∧
    (perform a w).1 = .error .countOverflow

/-- No action of a run is so. -/
def Never (P : Workspace → Action → Prop) (w : Workspace) (actions : List Action) : Prop :=
  ∀ past a rest, actions = past ++ a :: rest → ¬ P (w.run past) a

lemma Never.head {P : Workspace → Action → Prop} (h : Never P w (a :: actions)) : ¬ P w a :=
  h [] a actions rfl

lemma Never.tail {P : Workspace → Action → Prop} (h : Never P w (a :: actions)) :
    Never P (perform a w).2 actions :=
  fun past b rest he => h (a :: past) b rest (congrArg (a :: ·) he)

/-- The record that an action inserts into a file, with the id that is answered. -/
def added (name : String) (w : Workspace) (a : Action) : Option (RecordId × Bytes) :=
  match a, (perform a w).1 with
  | .insert key b, .ok (.answer (.inserted r)) =>
    if w.fileOf key = some name then some (r, b) else none
  | _, _ => none

/-- The records that a run inserts into a file, in the order of the calls. -/
def addedIn (name : String) : Workspace → List Action → List (RecordId × Bytes)
  | _, [] => []
  | w, a :: rest => (added name w a).toList ++ addedIn name (perform a w).2 rest

section Step

/-- What becomes of the records of a file in an action that deletes none of them. -/
inductive Step (name : String) (w : Workspace) (a : Action) : Prop
  | same (hadded : added name w a = none)
      (hcontent : (perform a w).2.content name = w.content name)
  | inserted {r : RecordId} {b : Bytes} (hadded : added name w a = some (r, b))
      (hlast : ∀ r', w.content name r' ≠ none → r' < r)
      (hcontent : (perform a w).2.content name = update (w.content name) r (some b))
  | replaced {r : RecordId} {b b' : Bytes} (hadded : added name w a = none)
      (hover : Overwrites name w a)
      (hold : w.content name r = some b)
      (hcontent : (perform a w).2.content name = update (w.content name) r (some b'))
  /-- The record is there, but its id is not answered. -/
  | uncounted {r : RecordId} {b : Bytes} (hadded : added name w a = none)
      (hflow : Overflows name w a)
      (hcontent : (perform a w).2.content name = update (w.content name) r (some b))

lemma added_eq_none (h : ∀ key b r, a = .insert key b →
    (perform a w).1 = .ok (.answer (.inserted r)) → w.fileOf key ≠ some name) :
    added name w a = none := by
  unfold added
  split
  · next key b r hres => exact if_neg (h key b r rfl hres)
  · rfl

lemma added_eq_some (hres : (perform (.insert key b) w).1 = .ok (.answer (.inserted r)))
    (hkey : w.fileOf key = some name) : added name w (.insert key b) = some (r, b) := by
  unfold added
  rw [hres]
  exact if_pos hkey

lemma touches_of_fileOf {res : Except StoreError (Reply Answer)} (h : w.fileOf key = some name) :
    Touches w name (.insert key b) res :=
  (Option.map_eq_some_iff.mp h).imp fun _ hf => hf

lemma fileOf_of_find? {old : Handle} (hf : w.handles.find? key = some old) :
    w.fileOf key = some old.file.name := congrArg (Option.map _) hf

/-- A record that appears in a file comes behind all others. -/
lemma Moves.last_of_put {ps : List Page} (hm : Moves own w w') (hn : own name)
    (hps : w.pages name = some ps) (hdense : Dense (w.content name))
    (hfree : w.content name r = none)
    (hput : w'.content name = update (w.content name) r (some b)) :
    (∀ r', w.content name r' ≠ none → r' < r) ∧ Dense (w'.content name) := by
  obtain ⟨qs, hqs, -, hchange⟩ := (hm name hn).1 ps hps
  have hget : w'.content name r = some b := by rw [hput, Function.update_self]
  rw [content_of_pages hps] at hfree hdense ⊢
  rw [content_of_pages hqs] at hget ⊢
  obtain ⟨b', hI⟩ := hchange.inserted_of_put hfree hget
  exact ⟨fun _ => hI.lt hdense, hI.dense hdense⟩

/-- Without deletions, the records of a file remain where they are, and new ones come behind them. -/
theorem step_of_undeleted (h : Standing own w) (hdense : Dense (w.content name)) (ha : a.On own)
    (hn : own name) (hdel : ¬ Deletes name w a) :
    Step name w a ∧ Dense ((perform a w).2.content name) := by
  have hout := perform_outcome h a ha
  have hsame : added name w a = none → (perform a w).2.content name = w.content name →
      Step name w a ∧ Dense ((perform a w).2.content name) := fun hadded hcontent =>
    ⟨.same hadded hcontent, hcontent ▸ hdense⟩
  by_cases htouch : Touches w name a (perform a w).1
  swap
  · have hpages := hout.spares hn htouch
    refine hsame (added_eq_none ?_) (by rw [content, content, hpages])
    rintro key b r rfl - hkey
    exact htouch (touches_of_fileOf hkey)
  rcases hout.effect with ⟨key, b, rfl, hres, old, ps, qs, r, hf, -, hps, hqs, hI, -⟩ | heffect
  · obtain ⟨old', hf', rfl⟩ := htouch
    cases hf.symm.trans hf'
    have hfree := (congrFun (content_of_pages hps) r).trans hI.free
    have hput := hI.put
    rw [← content_of_pages hps, ← content_of_pages hqs] at hput
    refine ⟨.uncounted (added_eq_none fun _ _ _ _ hok => ?_) ⟨key, b, rfl, fileOf_of_find? hf, hres⟩
      hput, (hout.moves.last_of_put hn hps hdense hfree hput).2⟩
    cases hres.symm.trans hok
  cases heffect.edit with
  | kept hkeeps hnot =>
    exact hsame (added_eq_none fun key b r he hok _ => hnot key b r he hok) (hkeeps name hn)
  | inserted he hres hf hfree hsets =>
    subst he
    obtain ⟨old, hf', rfl⟩ := htouch
    cases hf.symm.trans hf'
    obtain ⟨ps, -, -, -, hps, -⟩ := h.placed hf
    have hput := hsets.self hn
    obtain ⟨hlast, hdense'⟩ := hout.moves.last_of_put hn hps hdense hfree hput
    exact ⟨.inserted (added_eq_some hres (fileOf_of_find? hf)) hlast hput, hdense'⟩
  | removed he hres hf _ _ hsets =>
    subst he
    rw [hres] at htouch
    obtain ⟨old, hf', hname⟩ := htouch
    exact absurd ⟨_, _, rfl, (fileOf_of_find? hf').trans (congrArg some hname), hres⟩ hdel
  | @replaced key answer scan r b b' he hres hf _ hold hsets =>
    subst he
    rw [hres] at htouch
    obtain ⟨old, hf', hname⟩ := htouch
    cases hf.symm.trans hf'
    obtain rfl : scan.file.name = name := hname
    have hput := hsets.self hn
    have hadded : added scan.file.name w (.update key b') = none :=
      added_eq_none fun _ _ _ he => by cases he
    have hthere : w.content scan.file.name r ≠ none := by
      rw [hold]
      exact Option.some_ne_none b
    refine ⟨.replaced hadded ⟨key, b', answer, rfl, fileOf_of_find? hf, hres⟩ hold hput, ?_⟩
    rw [hput]
    exact hdense.replace hthere b'

variable (hs : Step name w a)
include hs

lemma Step.keeps (hr : w.content name r ≠ none) : (perform a w).2.content name r ≠ none := by
  cases hs with
  | same _ hcontent => rwa [hcontent]
  | inserted _ _ hcontent | replaced _ _ _ hcontent | uncounted _ _ hcontent =>
    rw [hcontent]
    exact Heap.update_ne_none hr

lemma Step.of_added (h : added name w a = some (r, b)) :
    (∀ r', w.content name r' ≠ none → r' < r) ∧
      (perform a w).2.content name = update (w.content name) r (some b) := by
  cases hs with
  | inserted hadded hlast hcontent =>
    cases h.symm.trans hadded
    exact ⟨hlast, hcontent⟩
  | same hadded | replaced hadded | uncounted hadded => cases h.symm.trans hadded

end Step

section Order

/-- In a run without deletions, the ids that are answered ascend, and come behind what was there. -/
theorem addedIn_increasing (h : Standing own w) (hdense : Dense (w.content name)) (hn : own name)
    (hon : ∀ a ∈ actions, a.On own) (hdel : Never (Deletes name) w actions) :
    ((addedIn name w actions).map Prod.fst).Pairwise (· < ·) ∧
      ∀ e ∈ addedIn name w actions, ∀ r', w.content name r' ≠ none → r' < e.1 := by
  -- The second half carries the induction: whatever is inserted next is there for all that follow.
  induction actions generalizing w with
  | nil => exact ⟨.nil, fun e he => (List.not_mem_nil he).elim⟩
  | cons a rest ih =>
    obtain ⟨ha, hrest⟩ := List.forall_mem_cons.mp hon
    obtain ⟨hs, hdense'⟩ := step_of_undeleted h hdense ha hn hdel.head
    obtain ⟨hsorted, hlater⟩ := ih (perform_outcome h a ha).standing hdense' hrest hdel.tail
    have hbehind : ∀ e ∈ addedIn name (perform a w).2 rest, ∀ r', w.content name r' ≠ none →
        r' < e.1 := fun e he r' hr' => hlater e he r' (hs.keeps hr')
    rw [addedIn]
    cases hadded : added name w a with
    | none => exact ⟨hsorted, hbehind⟩
    | some new =>
      obtain ⟨r, b⟩ := new
      obtain ⟨hlast, hcontent⟩ := hs.of_added hadded
      have hnew : (perform a w).2.content name r ≠ none := by
        rw [hcontent, Function.update_self]
        exact Option.some_ne_none b
      rw [Option.toList_some, List.singleton_append]
      refine ⟨List.pairwise_cons.mpr ⟨fun r' hr' => ?_, hsorted⟩, List.forall_mem_cons.mpr
        ⟨hlast, hbehind⟩⟩
      obtain ⟨e, he, rfl⟩ := List.mem_map.mp hr'
      exact hlater e he r hnew

variable (h : Standing own w) (h' : Standing own w') (hn : own name)
include h h' hn

lemma records_of_same (hcontent : w'.content name = w.content name) :
    w'.records name = w.records name :=
  RecordId.eq_of_sorted (h'.pairwise_records hn) (h.pairwise_records hn) fun e => by
    rw [mem_records, mem_records, hcontent]

lemma records_of_last (hlast : ∀ r', w.content name r' ≠ none → r' < r)
    (hcontent : w'.content name = update (w.content name) r (some b)) :
    w'.records name = w.records name ++ [(r, b)] := by
  have hfree : w.content name r = none := by
    by_contra hr
    exact RecordId.lt_irrefl r (hlast r hr)
  refine RecordId.eq_of_sorted (h'.pairwise_records hn) (List.pairwise_append.mpr
    ⟨h.pairwise_records hn, List.pairwise_singleton .., fun e he x hx => ?_⟩) fun e => ?_
  · obtain rfl := List.mem_singleton.mp hx
    refine hlast e.1 ?_
    rw [mem_records.mp he]
    exact Option.some_ne_none _
  · obtain ⟨r', b'⟩ := e
    rw [mem_records, List.mem_append, mem_records, List.mem_singleton, hcontent,
      Function.update_apply]
    by_cases hr : r' = r
    · simp [hr, hfree, eq_comm]
    · simp [hr]

lemma ids_of_replaced {b' : Bytes} (hold : w.content name r = some b)
    (hcontent : w'.content name = update (w.content name) r (some b')) :
    (w'.records name).map Prod.fst = (w.records name).map Prod.fst := by
  refine RecordId.eq_of_sorted (f := id) ((h'.pairwise_records hn).map Prod.fst fun _ _ hlt => hlt)
    ((h.pairwise_records hn).map Prod.fst fun _ _ hlt => hlt) fun r' => ?_
  simp only [List.mem_map, Prod.exists, exists_and_right, exists_eq_right, mem_records, hcontent,
    Function.update_apply]
  by_cases hr : r' = r
  · simp [hr, hold]
  · simp [hr]

end Order

section Run

/-- A listing to which each action appends what it inserts has, after a run, all of that at its end. -/
lemma listing_run {α : Type} (P : Workspace → Action → Prop) (listing : Workspace → List α)
    (entry : RecordId × Bytes → α)
    (hstep : ∀ {w a}, Standing own w → Standing own (perform a w).2 → Step name w a → ¬ P w a →
      listing (perform a w).2 = listing w ++ (added name w a).toList.map entry)
    (h : Standing own w) (hdense : Dense (w.content name)) (hn : own name)
    (hon : ∀ a ∈ actions, a.On own) (hdel : Never (Deletes name) w actions) (hP : Never P w actions) :
    listing (w.run actions) = listing w ++ (addedIn name w actions).map entry := by
  induction actions generalizing w with
  | nil => exact (List.append_nil _).symm
  | cons a rest ih =>
    obtain ⟨ha, hrest⟩ := List.forall_mem_cons.mp hon
    obtain ⟨hs, hdense'⟩ := step_of_undeleted h hdense ha hn hdel.head
    have h' := (perform_outcome h a ha).standing
    rw [run_cons, ih h' hdense' hrest hdel.tail hP.tail, hstep h h' hs hP.head, addedIn,
      List.map_append, List.append_assoc]

variable (h : Standing own w) (hdense : Dense (w.content name)) (hn : own name)
  (hon : ∀ a ∈ actions, a.On own) (hdel : Never (Deletes name) w actions)
  (hflow : Never (Overflows name) w actions)
include h hdense hn hon hdel hflow

/-- The records lie in the file in the order of their insertion. -/
theorem ids_run : ((w.run actions).records name).map Prod.fst =
    (w.records name).map Prod.fst ++ (addedIn name w actions).map Prod.fst := by
  refine listing_run (Overflows name) (fun w => (w.records name).map Prod.fst) Prod.fst
    (fun h h' hs hroom => ?_) h hdense hn hon hdel hflow
  cases hs with
  | same hadded hcontent =>
    rw [records_of_same h h' hn hcontent, hadded]
    exact (List.append_nil _).symm
  | inserted hadded hlast hcontent =>
    rw [records_of_last h h' hn hlast hcontent, hadded, List.map_append]
    rfl
  | replaced hadded _ hold hcontent =>
    rw [ids_of_replaced h h' hn hold hcontent, hadded]
    exact (List.append_nil _).symm
  | uncounted _ hover => exact absurd hover hroom

/-- If none of them was overwritten, they are as they were inserted. -/
theorem records_run (hover : Never (Overwrites name) w actions) :
    (w.run actions).records name = w.records name ++ addedIn name w actions := by
  have hrun := listing_run (fun w a => Overflows name w a ∨ Overwrites name w a)
    (fun w => w.records name) id (fun h h' hs hneither => ?_) h hdense hn hon hdel
    fun past a rest he => not_or.mpr ⟨hflow past a rest he, hover past a rest he⟩
  · rwa [List.map_id] at hrun
  · rw [List.map_id]
    cases hs with
    | same hadded hcontent =>
      rw [records_of_same h h' hn hcontent, hadded]
      exact (List.append_nil _).symm
    | inserted hadded hlast hcontent =>
      rw [records_of_last h h' hn hlast hcontent, hadded]
      rfl
    | replaced _ hover => exact absurd (Or.inr hover) hneither
    | uncounted _ hflow => exact absurd (Or.inl hflow) hneither

end Run
section Scan

lemma shown_of_unfiltered (h : scan.filter = none) :
    w.shown name scan = (w.records name).map Prod.fst := by
  have hall : ∀ b, scan.shows b = true := fun b => by rw [Scan.shows, h]; rfl
  rw [shown, List.filter_eq_self.mpr fun e _ => hall e.2]

/-- A scan without a filter is opened in a workspace, and left alone: `setup` is done before its first
search, and `searches` after that. -/
structure Listing (own : String → Prop) (key name : String) (w : Workspace)
    (setup searches : List Action) : Prop where
  opens : ∃ reply, (perform (.openScan key name) w).1 = .ok reply
  on : ∀ a ∈ setup ++ searches, a.On own
  before : ∀ a ∈ setup, ¬ a.Repositions key ∧ a ≠ .next key
  after : ∀ a ∈ searches, ¬ a.Repositions key ∧ ¬ a.Filters key
  unfiltered : ∃ scan, (w.run (.openScan key name :: setup)).handles.find? key = some (.scan scan) ∧
    scan.filter = none
  alone : Alone key name (w.run [.openScan key name]) (setup ++ searches)
  fine : Fine key (w.run (.openScan key name :: setup)) searches

/-- Such a scan finds the records of the file, each of them once and in order. -/
theorem Listing.gives {past rest : List Action} (hl : Listing own key name w setup searches)
    (h : Standing own w) (hn : own name) (he : searches = past ++ .next key :: rest) :
    (perform (.next key) (w.run (.openScan key name :: (setup ++ past)))).1 =
      .ok (.answer (.found ((w.records name).map Prod.fst)[past.count (.next key)]?)) := by
  subst he
  obtain ⟨⟨reply, hok⟩, hon, hbefore, hafter, ⟨scan, hf, hnone⟩, halone, hfine⟩ := hl
  obtain ⟨hset, hsearch⟩ := List.forall_mem_append.mp hon
  obtain ⟨scan₀, hp₀, hcur₀, -⟩ := open_progress h hn hok
  have hout := perform_outcome h (.openScan key name) hn
  have hsame : (perform (.openScan key name) w).2.records name = w.records name := by
    rw [records, records, hout.spares hn id]
  rw [← List.append_assoc] at halone
  rw [List.append_cons] at hfine
  rw [← hsame, ← shown_of_unfiltered hnone]
  exact hp₀.gives hcur₀ hout.standing hset hbefore hf (List.forall_mem_append.mp hsearch).1
    (List.forall_mem_append.mp hafter).1 halone.left hfine.left

end Scan

/-- A run has inserted records into a file in their order. -/
structure InOrder (own : String → Prop) (name : String) (w : Workspace) (actions : List Action) :
    Prop where
  increasing : ((addedIn name w actions).map Prod.fst).Pairwise (· < ·)
  /-- The records of the file are then those that were inserted. -/
  listed : Never (Overflows name) w actions →
    ((w.run actions).records name).map Prod.fst = (addedIn name w actions).map Prod.fst
  kept : Never (Overflows name) w actions → Never (Overwrites name) w actions →
    (w.run actions).records name = addedIn name w actions
  /-- A scan gives one after the other as they were inserted, and nothing more after the last. -/
  scanned : Never (Overflows name) w actions → ∀ key setup searches,
    Listing own key name (w.run actions) setup searches →
    ∀ past rest, searches = past ++ .next key :: rest →
      (perform (.next key) (w.run (actions ++ .openScan key name :: (setup ++ past)))).1 =
        .ok (.answer (.found ((addedIn name w actions).map Prod.fst)[past.count (.next key)]?))

end Workspace
end PagedHeap
