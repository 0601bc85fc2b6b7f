import PagedHeap.Proofs.DiskHistory
import PagedHeap.Proofs.FileView
import PagedHeap.Proofs.PoolWrites

/-! Ids of files that were removed. Once its file is gone an id leads nowhere, for good. Pages that are
still cached under it can be evicted, written out and released, but no byte of another file changes
by that, neither on the disk nor in a frame. -/
namespace PagedHeap

namespace Disk
variable {opens : List (UInt32 × String)} {d d' d'' : Disk} {name : String} {file : UInt32}

/-- The id was given, and is bound to no name any more. -/
structure Forgotten (d : Disk) (file : UInt32) : Prop where
  given : file < d.nextId
  unbound : ∀ name, d.ids.find? name ≠ some file

theorem Forgotten.later (h : d.Forgotten file) (hl : d.Later d') : d'.Forgotten file where
  given := UInt32.lt_of_lt_of_le h.given hl.next
  unbound name hi := by
    rcases hl.ids hi with hi | hle
    · exact h.unbound name hi
    · exact UInt32.not_le.mpr h.given hle

/-- The ids that a name ever had are forgotten when its file is removed. -/
theorem Later.forgotten_of_destroy (hl : d.Later d') (hd : Opened opens d)
    (hi : d.ids.find? name = some file) (hr : d'.destroy name = .ok d'') : d''.Forgotten file := by
  obtain ⟨-, l, k, -, rfl⟩ := destroy_eq_ok_iff.mp hr
  refine ⟨UInt32.lt_of_lt_of_le (hd.below hi) hl.next, fun m hm => ?_⟩
  rw [Table.find?_erase] at hm
  split at hm
  · cases hm
  · next hne =>
    rcases hl.ids hm with hm | hle
    · exact hne (hd.inj hm hi)
    · exact UInt32.not_le.mpr (hd.below hi) hle

/-- After its removal a name is given an id that was never in use before. -/
theorem Later.le_of_destroy (hr : d.destroy name = .ok d') (hl : d'.Later d'')
    (hi : d''.ids.find? name = some file) : d.nextId ≤ file := by
  obtain ⟨-, l, k, -, rfl⟩ := destroy_eq_ok_iff.mp hr
  rcases hl.ids hi with hi | hle
  · rw [Table.find?_erase, if_pos rfl] at hi
    cases hi
  · exact hle

namespace Forgotten
variable {id : PageId} {p : Page} {r : Except StoreError Unit}

lemma not_open (h : d.Forgotten file) (hd : Opened opens d) : d.opened.find? file = none := by
  cases hf : d.opened.find? file with
  | none => rfl
  | some g => exact absurd (hd.bound hf).1 (h.unbound _)

/-- A page of a forgotten file cannot be written to the disk. -/
theorem writeBack (h : d.Forgotten id.file) (hd : Opened opens d) (p : Page) :
    Cache.writeBack id p d = (.error (.fileNotOpen id.file), d) := by
  unfold Cache.writeBack
  rw [(requests_refused_iff d id p).2.1.mpr (h.not_open hd)]

end Forgotten
end Disk

namespace Cache
variable {c c' : Cache} {name : String} {file : UInt32}

/-- The bytes of a file are as they were, on the disk and in the frames. -/
structure Spares (name : String) (c c' : Cache) : Prop where
  disk : c'.disk.contentsOf name = c.disk.contentsOf name
  frames : ∀ n, c'.inFrame? name n = c.inFrame? name n

/-- Whatever happens to the cached pages of a file spares the file of a name. -/
structure Inert (c : Cache) (file : UInt32) (name : String) : Prop where
  /-- Nothing is ever written, be it to make room or because somebody asks for it. -/
  write : ∀ {d id} p, c.disk.Written d → id.file = file →
    writeBack id p d = (.error (.fileNotOpen file), d)
  evict : ∀ {id i f}, c.pool.victim? = some i → c.pool.cached id = some (i, f) → id.file = file →
    Spares name c (onPool (Pool.vacate writeBack) c).2
  flush : Spares name c (flushFile file c).2
  flushPage : ∀ {id}, id.file = file → Spares name c (onPool (Pool.flushPage writeBack id) c).2
  unpin : ∀ {id} dirty, id.file = file → Spares name c (unpin id dirty c).2

lemma Spares.refl (name : String) (c : Cache) : Spares name c c := ⟨rfl, fun _ => rfl⟩

/-- A name is not seen to change where only pages of a file change that is not its own. -/
lemma Spares.of_other (hdisk : c'.disk = c.disk) (hfile : c.disk.ids.find? name ≠ some file)
    (hsame : ∀ {id}, id.file ≠ file → c'.pool.cached id = c.pool.cached id) :
    Spares name c c' where
  disk := by rw [hdisk]
  frames n := by
    unfold inFrame?
    rw [hdisk]
    cases hi : c.disk.ids.find? name with
    | none => rfl
    | some i =>
      show c'.pool.cached ⟨i, n⟩ = c.pool.cached ⟨i, n⟩
      exact hsame fun he => hfile (hi.trans (congrArg some he))

section Inert
variable {opens : List (UInt32 × String)} {id : PageId} {i : Nat} {f : Frame}
  (hw : c.pool.Wf) (hd : Opened opens c.disk) (hf : c.disk.Forgotten file)
include hw hd hf

lemma spares_vacate (hv : c.pool.victim? = some i) (hc : c.pool.cached id = some (i, f))
    (hid : id.file = file) (name : String) : Spares name c (onPool (Pool.vacate writeBack) c).2 := by
  have hvacate := hw.vacate writeBack c.disk
  have hvictim : ∀ {j victim}, (c.pool.vacate writeBack c.disk).1 = .ok j →
      c.pool.find? victim = some j → c.pool.victim? = some j := hw.victim_of_vacate
  unfold onPool
  dsimp only
  rcases hr : c.pool.vacate writeBack c.disk with ⟨r, pool', d'⟩
  rw [hr] at hvacate hvictim
  have hfile := hf.unbound name
  cases hvacate with
  | unused _ same => exact .of_other rfl hfile fun _ => same _
  | full _ same => exact .of_other rfl hfile fun _ => same _
  | @stuck _ _ _ _ _ _ _ _ _ failed same =>
    obtain ⟨⟨⟩, -⟩ | ⟨-, rfl⟩ := writeBack_cases failed
    exact .of_other rfl hfile fun _ => same _
  | @evicted j victim g _ _ _ there _ written now =>
    obtain ⟨hi, rfl⟩ := Pool.cached_eq_some_iff.mp hc
    obtain ⟨hj, rfl⟩ := Pool.cached_eq_some_iff.mp there
    obtain rfl : i = j := Option.some.inj (hv.symm.trans (hvictim rfl hj))
    obtain rfl := hw.find?_inj hi hj
    subst hid
    rcases written with ⟨-, rfl⟩ | ⟨-, hsink⟩
    · refine .of_other rfl hfile fun {other} ho => ?_
      rw [now, if_neg fun he => ho (congrArg PageId.file he)]
    · cases (hf.writeBack hd _).symm.trans hsink

lemma flush_forgotten {select : PageId → Bool} (hselect : ∀ {id}, select id = true → id.file = file) :
    (c.pool.flush writeBack select c.disk).2 = (c.pool, c.disk) := by
  have hflush := hw.flush (P := fun pool d => (pool, d) = (c.pool, c.disk)) (s := c.disk) writeBack
    select (fun {pool d id i} _ hp hid _ => by
      obtain ⟨rfl, rfl⟩ := Prod.mk.inj hp
      have hfile := hselect hid
      subst hfile
      rw [hf.writeBack hd]) rfl
  exact hflush.2

omit hd in
lemma spares_unpin (hid : id.file = file) (dirty : Bool) (name : String) :
    Spares name c (unpin id dirty c).2 := by
  unfold unpin
  cases hu : c.pool.unpin id dirty with
  | error e => exact .refl name c
  | ok pool' =>
    obtain ⟨i, f, -, -, -, hnow⟩ := hw.unpin_cached hu
    refine .of_other rfl (hf.unbound name) fun {other} ho => ?_
    exact (hnow other).trans (if_neg fun he => ho ((congrArg PageId.file he).trans hid))

theorem inert_of_forgotten (name : String) : Inert c file name where
  write {d id} p hwritten hid := by
    subst hid
    exact (hf.later (.written hwritten)).writeBack (hd.written hwritten) p
  evict hv hc hid := spares_vacate hw hd hf hv hc hid name
  flush := by
    rw [flushFile_apply, flush_forgotten hw hd hf fun hid => of_decide_eq_true hid]
    exact .refl name c
  flushPage {id} hid := by
    have hflush : (c.pool.flush writeBack (fun other => other = id) c.disk).2 = (c.pool, c.disk) :=
      flush_forgotten hw hd hf fun ho => (congrArg PageId.file (of_decide_eq_true ho)).trans hid
    unfold onPool Pool.flushPage
    dsimp only
    rcases hr : c.pool.flush writeBack (fun other => other = id) c.disk with ⟨r, pool', d'⟩
    rw [hr] at hflush
    cases hflush
    exact .refl name c
  unpin dirty hid := spares_unpin hw hf hid dirty name

end Inert
end Cache
end PagedHeap
