import PagedHeap.Proofs.Handles
import PagedHeap.Proofs.OpenFiles

/-! The accounts of a workspace: the pins in the journal and in the pool, and the counts of the disk
of how often each file is open. They agree with what the handles hold after whatever is done, on
files of any contents and with any names. -/
namespace PagedHeap

/-- Pins and openings are as the journal, the pool and the disk count them. -/
structure Accounted (opens : List (UInt32 × String)) (holds : List Hold) (s : Store) : Prop where
  pinned : Pinned holds s
  opened : Opened opens s.cache.disk

namespace Accounted
variable {opens : List (UInt32 × String)} {holds : List Hold} {s : Store} {name : String}

theorem writable (opens : List (UInt32 × String)) (file : UInt32) :
    Writable file (Accounted opens) where
  perm hp h := ⟨h.pinned.perm hp, h.opened⟩
  mark h := ⟨h.pinned.mark true, h.opened⟩
  read hs page s h := by
    have hp := Pinned.readPage ⟨file, page⟩ s h.pinned
    have hd := h.opened.written (Store.disk_readPage h.pinned.wf ⟨file, page⟩)
    rcases hr : Store.readPage ⟨file, page⟩ s with ⟨e | i, s'⟩ <;>
      rw [hr] at hp hd <;> exact ⟨hp, hd⟩
  unpin hs h _ s hh :=
    ⟨Pinned.unpinPage h h.dirty s hh.pinned, hh.opened.written (Store.disk_unpinPage h.id h.dirty)⟩
  flush hs s h :=
    ⟨Pinned.flushFile file s h.pinned, h.opened.written (Store.disk_flushFile h.pinned.wf file)⟩
  alloc hs s h := by
    have hp := Pinned.allocPage file s h.pinned
    have hd := h.opened.written (Store.disk_allocPage h.pinned.wf file)
    rcases hr : Store.allocPage file s with ⟨e | ⟨n, i⟩, s'⟩ <;> rw [hr] at hp hd <;>
      exact ⟨hp, hd⟩
  edit page h := ⟨(h.pinned.mark true).setContents _ page, h.opened⟩

theorem openFile (opens : List (UInt32 × String)) (holds : List Hold) (name : String) :
    Ensures (Accounted opens holds) (Store.openFile name) fun r s =>
      match r with
      | .ok id => Accounted ((id, name) :: opens) holds s
      | .error _ => Accounted opens holds s := by
  intro s h
  rw [Store.openFile, Store.onDisk_apply]
  cases ho : s.cache.disk.openFile name with
  | error e => exact h
  | ok r => exact ⟨h.pinned.ofDisk r.2, h.opened.openFile ho⟩

theorem closeFile (opens : List (UInt32 × String)) (holds : List Hold) (id : UInt32)
    (name : String) : Ensures (Accounted ((id, name) :: opens) holds) (Store.closeFile id)
      fun _ => Accounted opens holds := by
  intro s h
  obtain ⟨d, hc, hd⟩ := h.opened.closeFile
  rw [Store.closeFile, Store.updateDisk_apply, hc]
  exact ⟨h.pinned.ofDisk d, hd⟩

theorem opens_ensures (opens : List (UInt32 × String)) (holds : List Hold) (name : String) :
    Opens (Accounted opens) (fun id => Accounted ((id, name) :: opens)) holds name :=
  ⟨openFile opens holds name, fun id => closeFile opens holds id name⟩

theorem admits (name : String) : Admits Accounted name := fun opens holds =>
  Store.openHeap_ensures (fun id => (writable _ id).browsed) (opens_ensures opens holds name)

theorem managed : Managed Accounted where
  lasting _ := (writable _ _).toLasting
  perm hp h := ⟨h.pinned, h.opened.perm hp⟩
  leave opens hs id name s h := closeFile opens hs id name _ ((writable _ id).flush hs s h)

lemma createFile (name : String) :
    Ensures (Accounted opens holds) (Store.createFile name) fun _ => Accounted opens holds := by
  intro s h
  rw [Store.createFile, Store.updateDisk_apply]
  cases hc : s.cache.disk.create name with
  | error e => exact h
  | ok d => exact ⟨h.pinned.ofDisk d, h.opened.create hc⟩

lemma destroyFile (name : String) :
    Ensures (Accounted opens holds) (Store.destroyFile name) fun _ => Accounted opens holds := by
  intro s h
  rw [Store.destroyFile, Store.updateDisk_apply]
  cases hc : s.cache.disk.destroy name with
  | error e => exact h
  | ok d => exact ⟨h.pinned.ofDisk d, h.opened.destroy hc⟩

theorem upheld : Upheld Accounted where
  toManaged := managed
  writable _ := writable _ _
  admits := admits
  create opens hs name := Store.createHeap_ensures (fun id => writable _ id)
    (opens_ensures opens hs name) (createFile name)
  destroy _ _ name := destroyFile name

end Accounted

/-- A new cache of four frames, over a directory that was just made. -/
def Cache.small : Cache :=
  { pool := Pool.ofSize 4, disk := { tree := { directories := [["data"]] }, dir := "data" } }

lemma Cache.ofConfig_small : Cache.ofConfig { dataDir := "data", frames := 4 } {} = .ok .small := rfl

namespace Workspace
variable {w : Workspace}

def start (cache : Cache) (gate : Gate) : Workspace := { store := { cache, gate } }

lemma ofConfig_eq_ok {config : Config} {tree : FileTree} {cache : Cache}
    (h : Cache.ofConfig config tree = .ok cache) :
    ∃ tree', tree.addDirectories config.dataDir = some tree' ∧
      cache = ⟨Pool.ofSize config.frames, { tree := tree', dir := config.dataDir }⟩ := by
  unfold Cache.ofConfig at h
  cases hv : config.validate with
  | error e => simp [hv, bind, Except.bind] at h
  | ok _ =>
    cases hm : Disk.mount config.dataDir tree with
    | error e => simp [hv, hm, bind, Except.bind] at h
    | ok d =>
      obtain ⟨tree', ht, rfl⟩ := Disk.mount_eq_ok_iff.mp hm
      simp only [hv, hm, bind, Except.bind, pure, Except.pure, Except.ok.injEq] at h
      exact ⟨tree', ht, h.symm⟩

theorem start_accounted {config : Config} {tree : FileTree} {cache : Cache}
    (h : Cache.ofConfig config tree = .ok cache) (gate : Gate) :
    Running Accounted (start cache gate) := by
  obtain ⟨tree', -, rfl⟩ := ofConfig_eq_ok h
  refine ⟨Table.distinct_empty, fun e he => (List.not_mem_nil he).elim, ⟨?_, ?_⟩⟩
  · refine ⟨Pool.wf_ofSize _, fun hi => ?_, fun h hh => (List.not_mem_nil hh).elim, fun _ => rfl,
      fun _ => rfl⟩
    cases hi
  · refine ⟨fun hi => ?_, fun hi => ?_, fun hf => ?_, fun id => rfl,
      fun o ho => (List.not_mem_nil ho).elim⟩
    · cases hi
    · cases hi
    · cases hf

/-- Whatever is done, one thing after another, the accounts are in order. -/
theorem run_accounted (h : Running Accounted w) (actions : List Action) :
    Running Accounted (run w actions) := run_keeps Accounted.upheld h actions

end Workspace
end PagedHeap
