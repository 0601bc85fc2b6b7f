import Mathlib.Data.List.Forall2
import PagedHeap.Proofs.Accounts

/-! Pins and openings balance. After whatever was done in a workspace, and whatever the gate refused
of it, the pins taken of a page and not given back are just those of the open handles, and the disk
counts each file as open as often as there are handles on it. Closing a handle makes all requests of
its teardown, and tells of the first that was refused. -/
namespace PagedHeap

/-- Whether an event is what came of a request. -/
def Event.answers (r : Request) : Event → Prop
  | .allocated id => r = .alloc id.file
  | .fetched id => r = .read id
  | .unpinned id => ∃ dirty, r = .unpin id dirty
  | .flushed file => r = .flush file
  | .failed r' => r = r'

/-- The first refusal of requests that are made one after the other, the first of them as number
`n`. -/
def Gate.verdict (gate : Gate) : Nat → List Request → Except StoreError Unit
  | _, [] => .ok ()
  | n, r :: rest =>
    match gate n r with
    | some e => .error e
    | none => verdict gate (n + 1) rest

lemma Gate.verdict_append (gate : Gate) (n : Nat) (xs ys : List Request) :
    gate.verdict n (xs ++ ys) =
      (gate.verdict n xs).bind fun _ => gate.verdict (n + xs.length) ys := by
  induction xs generalizing n with
  | nil => rfl
  | cons r rest ih =>
    rw [List.cons_append, verdict, verdict]
    cases gate n r with
    | some e => rfl
    | none =>
      simp only [ih, List.length_cons]
      rw [Nat.add_right_comm, Nat.add_assoc]

/-- All requests of a list were made in order, and the result is the first refusal. -/
structure Served (requests : List Request) (s : Store) (r : Except StoreError Unit) (s' : Store) :
    Prop where
  gate : s'.gate = s.gate
  journal : ∃ events, s'.journal = events.reverse ++ s.journal ∧
    List.Forall₂ Event.answers requests events
  result : r = s.gate.verdict s.journal.length requests

namespace Served
variable {xs ys : List Request} {s s' s'' : Store} {r r' : Except StoreError Unit}

lemma nil (s : Store) : Served [] s (.ok ()) s := ⟨rfl, ⟨[], rfl, .nil⟩, rfl⟩

theorem append (hx : Served xs s r s') (hy : Served ys s' r' s'') :
    Served (xs ++ ys) s (r.bind fun _ => r') s'' := by
  obtain ⟨es, hes, hxs⟩ := hx.journal
  obtain ⟨fs, hfs, hys⟩ := hy.journal
  refine ⟨hy.gate.trans hx.gate, ⟨es ++ fs, ?_, List.rel_append hxs hys⟩, ?_⟩
  · rw [hfs, hes, List.reverse_append, List.append_assoc]
  · have hlength : s'.journal.length = s.journal.length + xs.length := by
      rw [hes, List.length_append, List.length_reverse, hxs.length_eq, Nat.add_comm]
    rw [hx.result, hy.result, hx.gate, hlength, Gate.verdict_append]

/-- A request for no pin that only the gate can make fail. -/
lemma request {req : Request} {act : CacheM Unit} {event : Unit → Event}
    (hfree : s.wanted? req = none) (hact : (act s.cache).1 = .ok ())
    (hevent : (event ()).answers req) :
    Served [req] s (Store.request req act event s).1 (Store.request req act event s).2 := by
  have hgate := Store.refusal_eq_gate hfree
  cases hg : s.refusal req with
  | some e =>
    rw [hg] at hgate
    rw [Store.request_refused hg]
    exact ⟨rfl, ⟨[.failed req], rfl, .cons rfl .nil⟩, by simp [Gate.verdict, ← hgate]⟩
  | none =>
    rw [hg] at hgate
    rw [Store.request_granted hg, hact]
    exact ⟨rfl, ⟨[event ()], rfl, .cons hevent .nil⟩, by simp [Gate.verdict, ← hgate]⟩

end Served

def Hold.request (h : Hold) : Request := .unpin h.id h.dirty

/-- The requests that closing an open heap file makes. -/
def HeapFile.closing (f : HeapFile) : List Request := f.holds.map Hold.request ++ [.flush f.id]

/-- The file with its current page marked to be released as dirty. -/
def HeapFile.marked (f : HeapFile) : HeapFile :=
  { f with current := f.current.map fun p => { p with dirty := true } }

/-- The requests that closing a handle makes. The current page of one for insertion counts as
changed. -/
def Handle.closing : Handle → List Request
  | .reader f => f.closing
  | .inserter f => f.marked.closing
  | .scan s => s.file.closing

namespace Accounted
variable {opens : List (UInt32 × String)} {holds : List Hold} {s : Store} {id : UInt32}
  {name : String} {h : Hold}

theorem giveBack (hs : Accounted opens (h :: holds) s) :
    Served [h.request] s (Store.giveBack h s).1 (Store.giveBack h s).2 := by
  refine .request rfl ?_ ⟨h.dirty, rfl⟩
  obtain ⟨pool, hu, -⟩ := hs.pinned.unpin_ok h.dirty
  rw [hu]

theorem giveBackAll (hs : List Hold) (h : Accounted opens (hs ++ holds) s) :
    Served (hs.map Hold.request) s (Store.settle (hs.map Store.giveBack) s).1
      (Store.settle (hs.map Store.giveBack) s).2 := by
  induction hs generalizing s with
  | nil => exact .nil s
  | cons h' hs ih =>
    have hrest := (writable opens h'.id.file).unpin _ h' rfl s h
    exact h.giveBack.append (ih hrest)

/-- The pages of an open file can be written out, unless that is refused. -/
theorem served_flushFile (h : Accounted ((id, name) :: opens) holds s) :
    Served [.flush id] s (Store.flushFile id s).1 (Store.flushFile id s).2 := by
  refine .request rfl ?_ rfl
  let writable (pool : Pool) (d : Disk) : Prop :=
    (∀ other, pool.find? other = s.cache.pool.find? other) ∧ (d.opened.find? id).isSome
  obtain ⟨g, hg, -⟩ := h.opened.named _ List.mem_cons_self
  have hflush := h.pinned.wf.flush_cases (P := writable) (Q := fun _ _ _ => False)
    (s := s.cache.disk) Cache.writeBack (fun id' => id'.file = id)
    (fun {pool d id' i} _ hp hsel hfind => by
      obtain ⟨g, hg⟩ := Option.isSome_iff_exists.mp hp.2
      rw [← of_decide_eq_true hsel] at hg
      have hpage := h.pinned.page ((hp.1 id').symm.trans hfind)
      rw [Cache.writeBack, Disk.writePage_of_open hg hpage]
      refine ⟨hp.1, ?_⟩
      simp only [Disk.written, Table.find?_insert]
      split
      · rfl
      · exact hp.2) ⟨fun _ => rfl, by simp [hg]⟩
  rw [Cache.flushFile_apply]
  split at hflush
  · next hr => rw [hr]; rfl
  · exact hflush.2.elim

lemma served_closeFile (h : Accounted ((id, name) :: opens) holds s) :
    Served [] s (Store.closeFile id s).1 (Store.closeFile id s).2 := by
  obtain ⟨d, hc, -⟩ := h.opened.closeFile
  rw [Store.closeFile, Store.updateDisk_apply, hc]
  exact ⟨rfl, ⟨[], rfl, .nil⟩, rfl⟩

theorem shutdown {f : HeapFile}
    (h : Kept (Accounted ((id, name) :: opens)) holds id name f s) :
    Served f.closing s (HeapFile.shutdown f s).1.1 (HeapFile.shutdown f s).2 := by
  obtain rfl := h.id_eq
  have hI := (writable ((f.id, name) :: opens) f.id).toLasting
  have hgiven := hI.settle_giveBack f.holds (fun _ => HeapFile.file_of_holds) s h.holds
  have hclosed := (hI.flush _ _ hgiven).served_closeFile
  rw [HeapFile.shutdown_apply h.isOpen, HeapFile.teardown, Store.settle_append]
  exact (giveBackAll _ h.holds).append (hgiven.served_flushFile.append (hclosed.append (.nil _)))

theorem close {h : Handle} (hs : Alone Accounted opens holds h h.file s) :
    Served h.closing s (h.close s).1 (h.close s).2 := by
  cases h with
  | reader f => exact shutdown hs
  | inserter f =>
    exact shutdown (f := f.marked) (HeapFile.markDirty_keeps (writable _ _).toLasting f s hs)
  | scan scan => exact shutdown hs

end Accounted

/-- What is held open is in balance with the journal and the disk. -/
structure Balanced (w : Workspace) : Prop where
  /-- The pins taken of a page are those given back, or tried to give back, and those held. -/
  pins : ∀ id, w.store.granted id = w.store.issued id + holdsOn (heldBy w.handles) id
  /-- Every handle has its file open and holds the header page of it. -/
  files : ∀ e ∈ w.handles.entries, e.2.file.isOpen = true ∧
    ∃ p, e.2.file.header = some p ∧ p.number = 0
  /-- A file is open as often as there are handles on it. -/
  uses : ∀ id, w.store.cache.disk.uses id = (openings w.handles).countP (·.1 = id)
  isOpen : ∀ name, w.store.cache.disk.isOpen name = true ↔
    ∃ e ∈ w.handles.entries, e.2.file.name = name

/-- Closing what is held under a name makes all requests of the teardown and lets go of it. -/
structure Closes (w : Workspace) (key : String) (h : Handle) : Prop where
  served : ∃ r, Served h.closing w.store r (w.close key).2.store ∧
    (w.close key).1 = r.map Reply.answer
  gone : (w.close key).2.handles.find? key = none

namespace Running
variable {w : Workspace} {key : String} {h : Handle}

theorem balanced (hw : Running Accounted w) : Balanced w where
  pins := hw.inv.pinned.balance
  files := hw.files
  uses := hw.inv.opened.uses
  isOpen name := by
    rw [hw.inv.opened.isOpen_iff]
    simp [openings, Handle.opening]

theorem not_open (hw : Running Accounted w) (name : String)
    (h : ∀ key handle, w.handles.find? key = some handle → handle.file.name ≠ name) :
    w.store.cache.disk.isOpen name = false := by
  rw [Bool.eq_false_iff]
  intro hopen
  obtain ⟨e, he, hname⟩ := (hw.balanced.isOpen name).mp hopen
  exact h e.1 e.2 (hw.distinct.find?_eq_some_iff.mpr he) hname

theorem closes (hw : Running Accounted w) (hf : w.handles.find? key = some h) :
    Closes w key h := by
  have hserved := Accounted.close (hw.alone Accounted.managed hf)
  have hclose : w.close key = ((h.close w.store).1.map Reply.answer,
      { store := (h.close w.store).2, handles := w.handles.erase key }) := by
    simp only [Workspace.close, hf]
    rfl
  refine ⟨⟨_, ?_, congrArg Prod.fst hclose⟩, Workspace.find?_close_self w⟩
  rw [hclose]
  exact hserved

end Running

/-- Whatever is done in a workspace, over whatever files and behind whatever gate, pins and openings
balance, and every handle can be closed. -/
theorem run_balanced {config : Config} {tree : FileTree} {cache : Cache}
    (h : Cache.ofConfig config tree = .ok cache) (gate : Gate) (actions : List Action) :
    Balanced ((Workspace.start cache gate).run actions) ∧
      ∀ key handle, ((Workspace.start cache gate).run actions).handles.find? key = some handle →
        Closes ((Workspace.start cache gate).run actions) key handle := by
  have hw := Workspace.run_accounted (Workspace.start_accounted h gate) actions
  exact ⟨hw.balanced, fun key handle hf => hw.closes hf⟩

/-- A file is created and opened, a request is refused, and what was opened is closed. -/
theorem run_balanced_closed :
    let gate : Gate := fun n _ => if n = 4 then some .poolFull else none
    let actions : List Action := [.create "t", .openScan "s" "t", .close "s"]
    Cache.ofConfig { dataDir := "data", frames := 4 } {} = .ok .small ∧
      Balanced ((Workspace.start .small gate).run actions) := by
  intro gate actions
  exact ⟨Cache.ofConfig_small, (run_balanced Cache.ofConfig_small gate actions).1⟩

end PagedHeap
