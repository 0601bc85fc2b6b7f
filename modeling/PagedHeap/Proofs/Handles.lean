import PagedHeap.Proofs.Holding.Open
import PagedHeap.Proofs.Holding.Scan
import PagedHeap.Workspace

/-! The handles of a workspace together. `Running I w` says that an invariant `I` of the openings,
the pins and the store holds of those of all handles. It is enough to see to the one handle that an
action is about: the pins and openings of the others stand aside as they are. -/
namespace PagedHeap

def Handle.opening (h : Handle) : UInt32 × String := (h.file.id, h.file.name)

def openings (handles : Table String Handle) : List (UInt32 × String) :=
  handles.entries.map (·.2.opening)

def heldBy (handles : Table String Handle) : List Hold :=
  handles.entries.flatMap (·.2.file.holds)

/-- An invariant of openings, pins and the store that requests about open files keep, and the closing
of files. -/
structure Managed (I : List (UInt32 × String) → List Hold → Store → Prop) : Prop where
  lasting : ∀ {opens id name}, (id, name) ∈ opens → Lasting id (I opens)
  perm : ∀ {opens opens' hs s}, opens.Perm opens' → I opens hs s → I opens' hs s
  leave : ∀ opens hs id name,
    Ensures (I ((id, name) :: opens) hs) (Store.leave id) fun _ => I opens hs

/-- One that is kept where a heap file of this name is opened. -/
abbrev Admits (I : List (UInt32 × String) → List Hold → Store → Prop) (name : String) : Prop :=
  ∀ opens hs, OpensHeap (I opens) (fun id => I ((id, name) :: opens)) hs name

/-- An invariant holds of the handles of a workspace, all of which have a file open. -/
structure Running (I : List (UInt32 × String) → List Hold → Store → Prop) (w : Workspace) :
    Prop where
  distinct : w.handles.Distinct
  files : ∀ e ∈ w.handles.entries, e.2.file.isOpen = true ∧
    ∃ p, e.2.file.header = some p ∧ p.number = 0
  inv : I (openings w.handles) (heldBy w.handles) w.store

/-- One that all actions keep but the removal of files. -/
structure Sustained (I : List (UInt32 × String) → List Hold → Store → Prop) : Prop
    extends Managed I where
  writable : ∀ {opens id name}, (id, name) ∈ opens → Writable id (I opens)
  admits : ∀ name, Admits I name
  create : ∀ opens hs name, Ensures (I opens hs) (Store.createHeap name) fun _ => I opens hs

/-- One that all actions keep, on whatever files. -/
structure Upheld (I : List (UInt32 × String) → List Hold → Store → Prop) : Prop
    extends Sustained I where
  destroy : ∀ opens hs name, Ensures (I opens hs) (Store.destroyHeap name) fun _ => I opens hs

variable {I I' : List (UInt32 × String) → List Hold → Store → Prop} {w : Workspace} {s : Store}
  {handles : Table String Handle} {key file : String} {old new : Handle}

/-- What stands beside a handle when it is looked at alone. -/
abbrev Alone (I : List (UInt32 × String) → List Hold → Store → Prop)
    (opens : List (UInt32 × String)) (rest : List Hold) (h : Handle) (f : HeapFile) (s : Store) :
    Prop := Kept (I (h.opening :: opens)) rest h.file.id h.file.name f s

lemma openings_perm (hd : handles.Distinct) (hf : handles.find? key = some old) :
    (openings handles).Perm (old.opening :: openings (handles.erase key)) :=
  (hd.entries_perm hf).map _

lemma heldBy_eq_nil (hd : handles.Distinct) (h : ∀ key, handles.find? key = none) :
    heldBy handles = [] := by
  have hempty : handles.entries = [] := List.eq_nil_iff_forall_not_mem.mpr fun e he => by
    cases (h e.1).symm.trans (hd.find?_eq_some_iff.mpr he)
  rw [heldBy, hempty]
  rfl

/-- The others hold nothing if there are none. -/
lemma heldBy_erase (hd : handles.Distinct) (h : ∀ other, other ≠ key → handles.find? other = none) :
    heldBy (handles.erase key) = [] := by
  refine heldBy_eq_nil (hd.erase key) fun other => ?_
  rw [Table.find?_erase]
  split
  · rfl
  · next hne => exact h other hne

lemma heldBy_perm (hd : handles.Distinct) (hf : handles.find? key = some old) :
    (heldBy handles).Perm (old.file.holds ++ heldBy (handles.erase key)) :=
  (hd.entries_perm hf).flatMap_right _

namespace Running

lemma length_openings_le (h : Running I w) :
    (openings w.handles).length ≤ (heldBy w.handles).length := by
  have hfiles := h.files
  rw [openings, heldBy, List.length_map]
  generalize w.handles.entries = entries at hfiles ⊢
  induction entries with
  | nil => exact Nat.le_refl 0
  | cons e rest ih =>
    obtain ⟨⟨-, p, hp, -⟩, hrest⟩ := List.forall_mem_cons.mp hfiles
    have hle := ih hrest
    have hpos : 0 < e.2.file.holds.length := by simp [HeapFile.holds, hp]
    rw [List.flatMap_cons, List.length_append, List.length_cons]
    omega

lemma files_erase (h : Running I w) (key : String) : ∀ e ∈ (w.handles.erase key).entries,
    e.2.file.isOpen = true ∧ ∃ p, e.2.file.header = some p ∧ p.number = 0 :=
  fun e he => h.files e (List.mem_of_mem_filter he)

theorem alone (hm : Managed I) (h : Running I w) (hf : w.handles.find? key = some old) :
    Alone I (openings (w.handles.erase key)) (heldBy (w.handles.erase key)) old old.file
      w.store := by
  obtain ⟨hopen, hheader⟩ := h.files _ (Table.mem_of_find? hf)
  have hinv := hm.perm (openings_perm h.distinct hf) h.inv
  exact ⟨(hm.lasting List.mem_cons_self).perm (heldBy_perm h.distinct hf) hinv, rfl, rfl, hopen,
    hheader⟩

/-- A handle is put in place of what was held under its name. -/
theorem put (h : Running I w) (hk : Kept (I' (new.opening :: openings (w.handles.erase key)))
    (heldBy (w.handles.erase key)) new.file.id new.file.name new.file s) :
    Running I' { store := s, handles := w.handles.insert key new } := by
  refine ⟨h.distinct.insert key new, fun e he => ?_, hk.holds⟩
  rcases List.mem_cons.mp he with rfl | he
  · exact ⟨hk.isOpen, hk.header⟩
  · exact h.files_erase key e he

/-- What is done through a handle is done beside the others. -/
theorem replace (hm : Managed I) (h : Running I w) (hf : w.handles.find? key = some old)
    (hk : ∀ opens rest, Alone I opens rest old old.file w.store →
      Alone I' opens rest old new.file s) :
    Running I' { store := s, handles := w.handles.insert key new } := by
  have hnew := hk _ _ (h.alone hm hf)
  have ho : new.opening = old.opening := Prod.ext hnew.id_eq hnew.name_eq
  refine h.put ?_
  rw [ho]
  exact ⟨hnew.holds, rfl, rfl, hnew.isOpen, hnew.header⟩

theorem remove (hm : Managed I) (h : Running I w) (hf : w.handles.find? key = some old)
    (hk : ∀ opens rest, Alone I opens rest old old.file w.store → I' opens rest s) :
    Running I' { store := s, handles := w.handles.erase key } :=
  ⟨h.distinct.erase key, h.files_erase key, hk _ _ (h.alone hm hf)⟩

/-- What is done to the store alone is done beside all handles. -/
theorem beside (h : Running I w)
    (hk : I (openings w.handles) (heldBy w.handles) w.store →
      I' (openings w.handles) (heldBy w.handles) s) : Running I' { w with store := s } :=
  ⟨h.distinct, h.files, hk h.inv⟩

end Running

namespace Handle
open HandleM
variable {opens : List (UInt32 × String)} {rest : List Hold} {h : Handle}

theorem close_ensures (hm : Managed I) :
    Ensures (Alone I opens rest h h.file) h.close fun _ => I opens rest := by
  intro s hs
  have hleave := hm.leave opens rest h.file.id h.file.name
  have hlast := hm.lasting (List.mem_cons_self (a := h.opening) (l := opens))
  cases h with
  | reader f => exact HeapFile.shutdown_ensures hlast hleave f s hs
  | inserter f => exact HeapFile.closeInsertion_ensures hlast hleave f s hs
  | scan scan => exact HeapFile.shutdown_ensures hlast hleave scan.file s hs

end Handle

def Action.handle? : Action → Option String
  | .create _ | .destroy _ => none
  | .openReader key _ | .openInserter key _ | .openScan key _ | .close key | .drop key
  | .readRecord key _ | .insert key _ | .start key .. | .next key | .current key | .mark key
  | .reset key | .delete key | .update key _ | .markDirty key | .stop key => some key

namespace Workspace
open HandleM
variable {α β : Type}

lemma map_apply (x : WorkM α) (f : α → β) (w : Workspace) :
    (x >>= fun a => pure (f a)) w = ((x w).1.map f, (x w).2) := by
  rw [bind_apply]
  rcases x w with ⟨_ | _, _⟩ <;> rfl

lemma onScan_apply (act : ScanM α) : onScan key act w =
    match w.handles.find? key with
    | none => (.ok .noHandle, w)
    | some (.scan scan) => withScan key scan act w
    | some _ => (.ok .wrongHandle, w) := by
  rw [onScan, bind_apply, show (get : WorkM Workspace) w = (.ok w, w) from rfl]
  dsimp only
  rcases w.handles.find? key with _ | ⟨_ | _ | _⟩ <;> rfl

lemma insert_apply (record : Bytes) : insert key record w =
    match w.handles.find? key with
    | none => (.ok .noHandle, w)
    | some (.inserter f) => withFile key f .inserter (HeapFile.insert record) w
    | some _ => (.ok .wrongHandle, w) := by
  rw [insert, bind_apply, show (get : WorkM Workspace) w = (.ok w, w) from rfl]
  dsimp only
  rcases w.handles.find? key with _ | ⟨_ | _ | _⟩ <;> rfl

lemma readRecord_apply (r : RecordId) : readRecord key r w =
    match w.handles.find? key with
    | none => (.ok .noHandle, w)
    | some (.reader f) => withFile key f .reader (HeapFile.readRecord r) w
    | some (.scan scan) => withScan key scan (Scan.readRecord r) w
    | some (.inserter _) => (.ok .wrongHandle, w) := by
  rw [readRecord, bind_apply, show (get : WorkM Workspace) w = (.ok w, w) from rfl]
  dsimp only
  rcases w.handles.find? key with _ | ⟨_ | _ | _⟩ <;> rfl

lemma drop_apply : drop key w = (match (close key w).1 with
    | .ok r => .ok r
    | .error _ => .ok (.answer ()), (close key w).2) := by
  rw [drop, tryCatch_apply]
  rcases close key w with ⟨_ | _, _⟩ <;> rfl

theorem onScan_keeps (hm : Managed I) (h : Running I w) {act : ScanM α}
    (hact : ∀ opens rest id name, (id, name) ∈ opens →
      HandleM.Ensures (KeptScan (I opens) rest id name) act
        fun _ => KeptScan (I opens) rest id name) : Running I (onScan key act w).2 := by
  rw [onScan_apply]
  split
  · exact h
  · next scan hf =>
    exact h.replace hm hf fun opens rest hk => hact _ _ _ _ List.mem_cons_self scan w.store hk
  · exact h

theorem readRecord_keeps (hm : Managed I) (h : Running I w) (r : RecordId) :
    Running I (readRecord key r w).2 := by
  rw [readRecord_apply]
  split
  · exact h
  · next f hf =>
    exact h.replace hm hf fun opens rest hk =>
      HeapFile.readRecord_keeps (hm.lasting List.mem_cons_self) r f w.store hk
  · next scan hf =>
    exact h.replace hm hf fun opens rest hk =>
      Scan.readRecord_keeps (hm.lasting List.mem_cons_self) r scan w.store hk
  · exact h

theorem insert_keeps (hm : Managed I) (hI : ∀ {opens id name},
    (id, name) ∈ opens → Writable id (I opens)) (h : Running I w) (record : Bytes) :
    Running I (insert key record w).2 := by
  rw [insert_apply]
  split
  · exact h
  · next f hf =>
    exact h.replace hm hf fun opens rest hk =>
      HeapFile.insert_keeps (hI List.mem_cons_self) record f w.store hk
  · exact h

theorem close_keeps (hm : Managed I) (h : Running I w) : Running I (close key w).2 := by
  unfold close
  split
  · exact h
  · next old hf =>
    exact h.remove hm hf fun opens rest hk => Handle.close_ensures hm w.store hk

theorem openAs_keeps (hm : Managed I) (h : Running I w) {opening : StoreM Handle}
    (ho : ∀ opens rest, Ensures (I opens rest) opening fun r s =>
      match r with
      | .ok new =>
        Kept (I (new.opening :: opens)) rest new.file.id new.file.name new.file s
      | .error _ => I opens rest s) : Running I (openAs key opening w).2 := by
  have hopening := ho _ _ w.store h.inv
  unfold openAs
  rcases hr : opening w.store with ⟨e | new, s⟩ <;> rw [hr] at hopening
  · exact h.beside fun _ => hopening
  · dsimp only
    split
    · next old hf =>
      -- Until the old handle is closed, both hold their pins.
      have hpins := (hm.lasting List.mem_cons_self).perm
        ((heldBy_perm h.distinct hf).append_left new.file.holds) hopening.holds
      have hopens := hm.perm (((openings_perm h.distinct hf).cons new.opening).trans
        (List.Perm.swap ..)) hpins
      have hperm := (hm.lasting List.mem_cons_self).perm (List.perm_append_comm_assoc ..) hopens
      obtain ⟨hopen, hheader⟩ := h.files _ (Table.mem_of_find? hf)
      have hclosed := Handle.close_ensures hm s ⟨hperm, rfl, rfl, hopen, hheader⟩
      exact h.put ⟨hclosed, rfl, rfl, hopening.isOpen, hopening.header⟩
    · next hf =>
      refine h.put ?_
      have he := Table.entries_erase_of_find?_eq_none hf
      rw [openings, heldBy, he]
      exact hopening

/-- What was opened is held as a handle of some kind. -/
lemma wrap_ensures {opens : List (UInt32 × String)} {rest : List Hold} {opening : StoreM α}
    (wrap : α → Handle) (file : String) (ho : Ensures (I opens rest) opening fun r s =>
      match r with
      | .ok a => Kept (I (((wrap a).file.id, file) :: opens)) rest (wrap a).file.id file
          (wrap a).file s
      | .error _ => I opens rest s) :
    Ensures (I opens rest) (do return wrap (← opening)) fun r s =>
      match r with
      | .ok new => Kept (I (new.opening :: opens)) rest new.file.id new.file.name new.file s
      | .error _ => I opens rest s := by
  intro s hs
  have hopening := ho s hs
  rw [bind_apply]
  rcases hr : opening s with ⟨e | a, s'⟩ <;> rw [hr] at hopening
  · exact hopening
  · obtain ⟨hs', -, hname, hopen, hheader⟩ := hopening
    refine ⟨?_, rfl, rfl, hopen, hheader⟩
    rw [← hname] at hs'
    exact hs'

end Workspace

/-- The file that an action opens, creates or removes, if it does. -/
def Action.file? : Action → Option String
  | .create file | .destroy file | .openReader _ file | .openInserter _ file | .openScan _ file =>
    some file
  | _ => none

/-- Whether an action may change what is in the files. -/
def Action.writes : Action → Bool
  | .create _ | .destroy _ | .insert _ _ | .delete _ | .update _ _ => true
  | _ => false

namespace Workspace
open HandleM

/-- Actions that change no file keep every invariant that requests keep. -/
theorem perform_keeps_of_reads (hm : Managed I) (h : Running I w) {a : Action}
    (hreads : a.writes = false) (ha : ∀ file, a.file? = some file → Admits I file) :
    Running I (perform a w).2 := by
  cases a with
  | create | destroy | insert | delete | update => cases hreads
  | openReader key file =>
    rw [perform, map_apply]
    refine openAs_keeps hm h fun opens rest => wrap_ensures .reader file ?_
    exact (ha file rfl opens rest).weaken (fun _ h => h) fun r _ h => by cases r <;> exact h
  | openInserter key file =>
    rw [perform, map_apply]
    refine openAs_keeps hm h fun opens rest => wrap_ensures .inserter file ?_
    exact (Store.openInsertion_ensures (fun id => hm.lasting List.mem_cons_self)
      (ha file rfl opens rest) fun id => hm.leave opens rest id file).weaken
      (fun _ h => h) fun r _ h => by cases r <;> exact h
  | openScan key file =>
    rw [perform, map_apply]
    refine openAs_keeps hm h fun opens rest => wrap_ensures .scan file ?_
    exact (Store.openScan_ensures (ha file rfl opens rest)).weaken
      (fun _ h => h) fun r _ h => by cases r <;> exact h
  | close key =>
    rw [perform, map_apply]
    exact close_keeps hm h
  | drop key =>
    rw [perform, map_apply, drop_apply]
    exact close_keeps hm h
  | readRecord key r =>
    rw [perform, map_apply]
    exact readRecord_keeps hm h r
  | start key offset length type value comparison =>
    rw [perform, map_apply]
    exact onScan_keeps hm h fun _ _ _ _ _ =>
      Scan.start_keeps offset length type value comparison
  | next key =>
    rw [perform, map_apply]
    exact onScan_keeps hm h fun _ _ _ _ ho => Scan.next_keeps (hm.lasting ho)
  | current key =>
    rw [perform, map_apply]
    exact onScan_keeps hm h fun _ _ _ _ _ => Scan.current_keeps
  | mark key =>
    rw [perform, map_apply]
    exact onScan_keeps hm h fun _ _ _ _ _ _ _ hk => hk
  | reset key =>
    rw [perform, map_apply]
    exact onScan_keeps hm h fun _ _ _ _ ho => Scan.reset_keeps (hm.lasting ho)
  | markDirty key =>
    rw [perform, map_apply]
    exact onScan_keeps hm h fun _ _ _ _ ho =>
      Scan.onFile_ensures (HeapFile.markDirty_keeps (hm.lasting ho))
  | stop key =>
    rw [perform, map_apply]
    exact onScan_keeps hm h fun _ _ _ _ ho => Scan.stop_keeps (hm.lasting ho)

theorem perform_sustains (hI : Sustained I) (h : Running I w) {a : Action}
    (ha : ∀ file, a ≠ .destroy file) : Running I (perform a w).2 := by
  have hm := hI.toManaged
  by_cases hw : a.writes = false
  · exact perform_keeps_of_reads hm h hw fun file _ => hI.admits file
  · cases a with
    | create file =>
      rw [perform, map_apply]
      exact h.beside fun hs => hI.create _ _ file w.store hs
    | destroy file => exact absurd rfl (ha file)
    | insert key record =>
      rw [perform, map_apply]
      exact insert_keeps hm hI.writable h record
    | delete key =>
      rw [perform, map_apply]
      exact onScan_keeps hm h fun _ _ _ _ ho => Scan.delete_keeps (hI.writable ho)
    | update key record =>
      rw [perform, map_apply]
      exact onScan_keeps hm h fun _ _ _ _ ho => Scan.update_keeps (hI.writable ho) record
    | openReader | openInserter | openScan | close | drop | readRecord | start | next | current
    | mark | reset | markDirty | stop => exact absurd rfl hw

theorem perform_keeps (hI : Upheld I) (h : Running I w) (a : Action) :
    Running I (perform a w).2 := by
  by_cases ha : ∃ file, a = .destroy file
  · obtain ⟨file, rfl⟩ := ha
    rw [perform, map_apply]
    exact h.beside fun hs => hI.destroy _ _ file w.store hs
  · exact perform_sustains hI.toSustained h fun file he => ha ⟨file, he⟩

section Frame
variable {other : String} {a : Action}

lemma find?_insert_of_ne {handles : Table String Handle} {new : Handle} (hne : other ≠ key) :
    (handles.insert other new).find? key = handles.find? key := by
  rw [Table.find?_insert, if_neg hne.symm]

lemma find?_onScan (hne : other ≠ key) (act : ScanM α) (w : Workspace) :
    (onScan other act w).2.handles.find? key = w.handles.find? key := by
  rw [onScan_apply]
  match w.handles.find? other with
  | none => rfl
  | some (.reader _) | some (.inserter _) => rfl
  | some (.scan scan) => exact find?_insert_of_ne hne

lemma find?_openAs (hne : other ≠ key) (opening : StoreM Handle) (w : Workspace) :
    (openAs other opening w).2.handles.find? key = w.handles.find? key := by
  unfold openAs
  rcases opening w.store with ⟨e | new, s⟩
  · rfl
  · exact find?_insert_of_ne hne

lemma find?_close (hne : other ≠ key) (w : Workspace) :
    (close other w).2.handles.find? key = w.handles.find? key := by
  unfold close
  cases w.handles.find? other with
  | none => rfl
  | some old =>
    show (w.handles.erase other).find? key = _
    rw [Table.find?_erase, if_neg hne.symm]

lemma find?_close_self (w : Workspace) : (close key w).2.handles.find? key = none := by
  unfold close
  cases hf : w.handles.find? key with
  | none => exact hf
  | some old =>
    show (w.handles.erase key).find? key = none
    rw [Table.find?_erase, if_pos rfl]

lemma find?_perform_close (w : Workspace) :
    (perform (.close key) w).2.handles.find? key = none := by
  rw [perform, map_apply]
  exact find?_close_self w

/-- What is done through one handle leaves the others as they are. -/
theorem find?_perform (h : a.handle? ≠ some key) (w : Workspace) :
    (perform a w).2.handles.find? key = w.handles.find? key := by
  cases a with
  | create file => rw [perform, map_apply]; rfl
  | destroy file => rw [perform, map_apply]; rfl
  | openReader other file | openInserter other file | openScan other file =>
    rw [perform, map_apply]
    exact find?_openAs (fun hk => h (congrArg some hk)) _ w
  | close other =>
    rw [perform, map_apply]
    exact find?_close (fun hk => h (congrArg some hk)) w
  | drop other =>
    rw [perform, map_apply, drop_apply]
    exact find?_close (fun hk => h (congrArg some hk)) w
  | readRecord other r =>
    have hne : other ≠ key := fun hk => h (congrArg some hk)
    rw [perform, map_apply, readRecord_apply]
    match w.handles.find? other with
    | none => rfl
    | some (.inserter _) => rfl
    | some (.reader _) | some (.scan _) => exact find?_insert_of_ne hne
  | insert other b =>
    have hne : other ≠ key := fun hk => h (congrArg some hk)
    rw [perform, map_apply, insert_apply]
    match w.handles.find? other with
    | none => rfl
    | some (.inserter _) => exact find?_insert_of_ne hne
    | some (.reader _) | some (.scan _) => rfl
  | start other | next other | current other | mark other | reset other | delete other
  | update other | markDirty other | stop other =>
    rw [perform, map_apply]
    exact find?_onScan (fun hk => h (congrArg some hk)) _ w

end Frame

def run (w : Workspace) (actions : List Action) : Workspace :=
  actions.foldl (fun w a => (perform a w).2) w

theorem find?_run {actions : List Action} (h : ∀ a ∈ actions, a.handle? ≠ some key)
    (w : Workspace) : (w.run actions).handles.find? key = w.handles.find? key := by
  induction actions generalizing w with
  | nil => rfl
  | cons a rest ih =>
    obtain ⟨ha, hrest⟩ := List.forall_mem_cons.mp h
    exact (ih hrest _).trans (find?_perform ha w)

/-- Nothing is held where all was held under one key, and that was closed at last. -/
lemma find?_run_close {actions : List Action} (hw : ∀ other, w.handles.find? other = none)
    (h : ∀ a ∈ actions, ∀ other, a.handle? = some other → other = key) (other : String) :
    (w.run (actions ++ [.close key])).handles.find? other = none := by
  rw [run, List.foldl_append]
  by_cases hkey : other = key
  · rw [hkey]
    exact find?_perform_close (w.run actions)
  · have hother : (Action.close key).handle? ≠ some other := fun hk => hkey (Option.some.inj hk).symm
    refine (find?_perform hother (w.run actions)).trans ?_
    exact (find?_run (fun a ha hk => hkey (h a ha other hk)) w).trans (hw other)

theorem run_sustains (hI : Sustained I) (h : Running I w) {actions : List Action}
    (hactions : ∀ a ∈ actions, ∀ file, a ≠ .destroy file) : Running I (w.run actions) := by
  induction actions generalizing w with
  | nil => exact h
  | cons a rest ih =>
    obtain ⟨ha, hrest⟩ := List.forall_mem_cons.mp hactions
    exact ih (perform_sustains hI h ha) hrest

theorem run_keeps (hI : Upheld I) (h : Running I w) (actions : List Action) :
    Running I (w.run actions) := by
  induction actions generalizing w with
  | nil => exact h
  | cons a rest ih => exact ih (perform_keeps hI h a)

end Workspace
end PagedHeap
