import PagedHeap.Proofs.Accounts
import PagedHeap.Proofs.DiskNames

/-! The disk of a workspace as time passes. What the operations on files keep of a disk is kept by
whatever is done with heap files: ids stay bound where no file is removed, and in any case are bound
to no other name than before. -/
namespace PagedHeap

namespace Disk

/-- A property of disks that the operations on files keep, but for their removal. -/
structure Enduring (P : Disk → Prop) : Prop where
  written : ∀ {d d'}, d.Written d' → P d → P d'
  openFile : ∀ {d d' name id}, d.openFile name = .ok (id, d') → P d → P d'
  closeFile : ∀ {d d' id}, d.closeFile id = .ok d' → P d → P d'
  create : ∀ {d d' name}, d.create name = .ok d' → P d → P d'

lemma enduring_later (d : Disk) : Enduring d.Later where
  written hw h := h.trans (.written hw)
  openFile ho h := h.trans (.openFile ho)
  closeFile hc h := h.trans (.closeFile hc)
  create hc h := h.trans (.create hc)

/-- Every id that was given is still bound to a name. -/
def Rooted (d : Disk) : Prop := ∀ id < d.nextId, ∃ name, d.ids.find? name = some id

lemma Rooted.of_ids {d d' : Disk} (h : d.Rooted) (hids : d'.ids = d.ids)
    (hnext : d'.nextId = d.nextId) : d'.Rooted := by
  intro id hlt
  rw [hids]
  exact h id (hnext ▸ hlt)

lemma Rooted.openFile {d d' : Disk} {name : String} {id : UInt32} (h : d.Rooted)
    (ho : d.openFile name = .ok (id, d')) : d'.Rooted := by
  cases openFile_eq_ok_iff.mp ho with
  | again | bound => exact h.of_ids rfl rfl
  | new _ _ hnone hroom =>
    intro i hlt
    have hlt := UInt32.lt_iff_toNat_lt.mp hlt
    rw [toNat_add_one hroom] at hlt
    by_cases hi : i = d.nextId
    · exact ⟨name, by rw [hi, Table.find?_insert, if_pos rfl]⟩
    · have hne : i.toNat ≠ d.nextId.toNat := fun he => hi (UInt32.toNat_inj.mp he)
      obtain ⟨m, hm⟩ := h i (UInt32.lt_iff_toNat_lt.mpr (by omega))
      refine ⟨m, ?_⟩
      rw [Table.find?_insert, if_neg]
      · exact hm
      · rintro rfl
        cases hnone.symm.trans hm

lemma enduring_rooted : Enduring Rooted where
  written hw h := by
    induction hw with
    | refl => exact h
    | page _ _ _ ih => exact ih.of_ids rfl rfl
  openFile ho h := h.openFile ho
  closeFile hc h := by
    obtain ⟨g, -, rfl⟩ := closeFile_eq_ok_iff.mp hc
    exact h.of_ids rfl rfl
  create hc h := by
    obtain ⟨-, l, -, rfl⟩ := create_eq_ok_iff.mp hc
    exact h.of_ids rfl rfl

lemma enduring_dir (dir : String) : Enduring fun d => d.dir = dir where
  written hw h := by
    induction hw with
    | refl => exact h
    | page _ _ _ ih => exact ih
  openFile ho h := by cases openFile_eq_ok_iff.mp ho <;> exact h
  closeFile hc h := by
    obtain ⟨g, -, rfl⟩ := closeFile_eq_ok_iff.mp hc
    exact h
  create hc h := by
    obtain ⟨-, l, -, rfl⟩ := create_eq_ok_iff.mp hc
    exact h

lemma enduring_mounted : Enduring Mounted where
  written hw h := h.written hw
  openFile ho h := h.openFile ho
  closeFile hc h := h.closeFile hc
  create hc h := h.create hc

end Disk

/-- The accounts are in order, on a disk with some property. -/
structure AccountedOn (P : Disk → Prop) (opens : List (UInt32 × String)) (holds : List Hold)
    (s : Store) : Prop where
  accounted : Accounted opens holds s
  disk : P s.cache.disk

namespace AccountedOn
variable {P : Disk → Prop} {opens : List (UInt32 × String)} {holds : List Hold}

/-- An operation of the disk that keeps the accounts and the property keeps both. -/
lemma updateDisk {opens' : List (UInt32 × String)} {operation : Disk → Except StoreError Disk}
    (ha : Ensures (Accounted opens holds) (Store.updateDisk operation) fun _ =>
      Accounted opens' holds)
    (hP : ∀ {d d'}, operation d = .ok d' → P d → P d') :
    Ensures (AccountedOn P opens holds) (Store.updateDisk operation) fun _ =>
      AccountedOn P opens' holds := by
  intro s h
  have haccounted := ha s h.accounted
  rw [Store.updateDisk_apply] at haccounted ⊢
  cases hr : operation s.cache.disk with
  | error e =>
    rw [hr] at haccounted
    exact ⟨haccounted, h.disk⟩
  | ok d =>
    rw [hr] at haccounted
    exact ⟨haccounted, hP hr h.disk⟩

variable (hP : Disk.Enduring P)
include hP

theorem writable (opens : List (UInt32 × String)) (file : UInt32) :
    Writable file (AccountedOn P opens) where
  perm hp h := ⟨(Accounted.writable opens file).perm hp h.accounted, h.disk⟩
  mark h := ⟨(Accounted.writable opens file).mark h.accounted, h.disk⟩
  read hs page s h := by
    have ha := (Accounted.writable opens file).read hs page s h.accounted
    have hd := hP.written (Store.disk_readPage h.accounted.pinned.wf ⟨file, page⟩) h.disk
    rcases hr : Store.readPage ⟨file, page⟩ s with ⟨e | i, s'⟩ <;>
      rw [hr] at ha hd <;> exact ⟨ha, hd⟩
  unpin hs h hfile s hh :=
    ⟨(Accounted.writable opens file).unpin hs h hfile s hh.accounted,
      hP.written (Store.disk_unpinPage h.id h.dirty) hh.disk⟩
  flush hs s h :=
    ⟨(Accounted.writable opens file).flush hs s h.accounted,
      hP.written (Store.disk_flushFile h.accounted.pinned.wf file) h.disk⟩
  alloc hs s h := by
    have ha := (Accounted.writable opens file).alloc hs s h.accounted
    have hd := hP.written (Store.disk_allocPage h.accounted.pinned.wf file) h.disk
    rcases hr : Store.allocPage file s with ⟨e | ⟨n, i⟩, s'⟩ <;> rw [hr] at ha hd <;>
      exact ⟨ha, hd⟩
  edit page h := ⟨(Accounted.writable opens file).edit page h.accounted, h.disk⟩

theorem closeFile (opens : List (UInt32 × String)) (holds : List Hold) (id : UInt32)
    (name : String) : Ensures (AccountedOn P ((id, name) :: opens) holds) (Store.closeFile id)
      fun _ => AccountedOn P opens holds :=
  updateDisk (Accounted.closeFile opens holds id name) hP.closeFile

theorem opens_ensures (opens : List (UInt32 × String)) (holds : List Hold) (name : String) :
    Opens (AccountedOn P opens) (fun id => AccountedOn P ((id, name) :: opens)) holds name := by
  refine ⟨fun s h => ?_, fun id => closeFile hP opens holds id name⟩
  have ha := Accounted.openFile opens holds name s h.accounted
  rw [Store.openFile, Store.onDisk_apply] at ha ⊢
  cases ho : s.cache.disk.openFile name with
  | error e => exact h
  | ok r =>
    rw [ho] at ha
    exact ⟨ha, hP.openFile ho h.disk⟩

theorem sustained : Sustained (AccountedOn P) where
  lasting _ := (writable hP _ _).toLasting
  perm hp h := ⟨Accounted.managed.perm hp h.accounted, h.disk⟩
  leave opens hs id name s h := closeFile hP opens hs id name _ ((writable hP _ id).flush hs s h)
  writable _ := writable hP _ _
  admits name opens hs :=
    Store.openHeap_ensures (fun id => (writable hP _ id).browsed) (opens_ensures hP opens hs name)
  create opens hs name := Store.createHeap_ensures (fun id => writable hP _ id)
    (opens_ensures hP opens hs name) (updateDisk (Accounted.createFile name) hP.create)

theorem upheld (hdestroy : ∀ {d d' name}, d.destroy name = .ok d' → P d → P d') :
    Upheld (AccountedOn P) where
  toSustained := sustained hP
  destroy _ _ name := updateDisk (Accounted.destroyFile name) hdestroy

end AccountedOn

lemma Running.on {P : Disk → Prop} {w : Workspace} (h : Running Accounted w)
    (hd : P w.store.cache.disk) : Running (AccountedOn P) w := ⟨h.distinct, h.files, h.inv, hd⟩

namespace Workspace
variable {w : Workspace} {actions : List Action}

section Start
variable {config : Config} {tree : FileTree} {cache : Cache}

lemma start_mounted (h : Cache.ofConfig config tree = .ok cache) : cache.disk.Mounted := by
  obtain ⟨tree', ht, rfl⟩ := ofConfig_eq_ok h
  exact .of_mount (Disk.mount_eq_ok_iff.mpr ⟨tree', ht, rfl⟩)

lemma start_rooted (h : Cache.ofConfig config tree = .ok cache) : cache.disk.Rooted := by
  obtain ⟨tree', -, rfl⟩ := ofConfig_eq_ok h
  exact fun id hlt => absurd hlt UInt32.not_lt_zero

end Start

/-- Where no file is removed every id that was given stays bound. -/
theorem run_rooted (h : Running Accounted w) (hd : w.store.cache.disk.Rooted)
    (hactions : ∀ a ∈ actions, ∀ file, a ≠ .destroy file) :
    (w.run actions).store.cache.disk.Rooted :=
  (run_sustains (AccountedOn.sustained Disk.enduring_rooted) (h.on hd) hactions).inv.disk

theorem run_mounted (h : Running Accounted w) (hd : w.store.cache.disk.Mounted)
    (actions : List Action) : (w.run actions).store.cache.disk.Mounted :=
  (run_keeps (AccountedOn.upheld Disk.enduring_mounted fun hr hm => hm.destroy hr) (h.on hd)
    actions).inv.disk

theorem run_dir (h : Running Accounted w) (actions : List Action) :
    (w.run actions).store.cache.disk.dir = w.store.cache.disk.dir :=
  (run_keeps (AccountedOn.upheld (Disk.enduring_dir w.store.cache.disk.dir) fun hr hd => by
    obtain ⟨-, l, k, -, rfl⟩ := Disk.destroy_eq_ok_iff.mp hr
    exact hd) (h.on rfl) actions).inv.disk

theorem run_later (h : Running Accounted w) (actions : List Action) :
    w.store.cache.disk.Later (w.run actions).store.cache.disk :=
  (run_keeps (AccountedOn.upheld (Disk.enduring_later _) fun hr hl => hl.trans (.destroy hr))
    (h.on (.refl _)) actions).inv.disk

end Workspace
end PagedHeap
