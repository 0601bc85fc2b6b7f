import PagedHeap.Proofs.CacheRequests
import PagedHeap.Store

/-! The files that are open. `Opened` says of a disk that it has opened just the files of a list, each
as often as it stands there, under ids that tell names apart. Opening a file puts it into the list
and closing takes it out; requests write pages of open files, which changes nothing of this. -/
namespace PagedHeap

namespace Disk

/-- What becomes of a disk when pages of open files are written. -/
inductive Written (d : Disk) : Disk → Prop
  | refl : Written d d
  | page {d' h id p} (before : Written d d') (here : d'.opened.find? id.file = some h)
      (bounded : id.page ≠ noPage) : Written d (d'.written h id p)

variable {d d' : Disk} {c c' : Cache} {id : PageId} {p : Page}

lemma Written.writeBack (h : Written d d') : Written d (Cache.writeBack id p d').2 := by
  unfold Cache.writeBack
  split
  · next hw =>
    obtain ⟨_, hf, hp, rfl⟩ := writePage_eq_ok_iff.mp hw
    exact .page h hf hp
  · exact h

lemma Written.sink {r : Except StoreError Unit} (hs : Cache.writeBack id p d = (r, d')) :
    Written d d' := by
  have h : Written d (Cache.writeBack id p d).2 := .writeBack .refl
  rwa [hs] at h

lemma Written.claims {r : Except StoreError Nat} (h : Cache.Claims id p c r c') :
    Written c.disk c'.disk := by
  have hv : ∀ {r pool d}, Pool.Vacated Cache.writeBack c.pool c.disk (r, pool, d) →
      Written c.disk d := by
    rintro _ _ _ (_ | ⟨-, -, -, ⟨-, rfl⟩ | ⟨-, hs⟩, -⟩ | _ | ⟨-, -, -, hs, -⟩)
    · exact .refl
    · exact .refl
    · exact .sink hs
    · exact .refl
    · exact .sink hs
  obtain ⟨pool', disk'⟩ := c'
  cases h.claimed with
  | hit _ _ => exact .refl
  | miss _ vacated _ => exact hv vacated
  | failed vacated => exact hv vacated

lemma Written.flush (hw : c.pool.Wf) (file : UInt32) :
    Written c.disk (Cache.flushFile file c).2.disk := by
  rw [Cache.flushFile_apply]
  refine (hw.flush (P := fun _ d => c.disk.Written d) (s := c.disk) Cache.writeBack
    (fun id => id.file = file) (fun {pool d id i} _ hp _ _ => ?_) .refl).2
  have hd : c.disk.Written (Cache.writeBack id (pool.frame i).contents d).2 := hp.writeBack
  split
  · next hs => rw [hs] at hd; exact hd
  · next hs => rw [hs] at hd; exact hd

lemma Written.trans {d'' : Disk} (h : Written d d') (h' : Written d' d'') : Written d d'' := by
  induction h' with
  | refl => exact h
  | page _ here bounded ih => exact .page ih here bounded

end Disk

namespace Store
variable {s : Store} {α : Type}

lemma disk_request {r : Request} {act : CacheM α} {event : α → Event}
    (h : s.cache.disk.Written (act s.cache).2.disk) :
    s.cache.disk.Written (request r act event s).2.cache.disk := by
  cases hg : s.refusal r with
  | some e =>
    rw [request, hg]
    exact .refl
  | none =>
    simp only [request, hg]
    rcases hr : act s.cache with ⟨_ | _, _⟩ <;> rw [hr] at h <;> exact h

lemma disk_readPage (hw : s.cache.pool.Wf) (id : PageId) :
    s.cache.disk.Written (readPage id s).2.cache.disk := by
  refine disk_request ?_
  rcases Cache.read_cases hw id with ⟨e, -, -, he⟩ | ⟨contents, -, hc⟩
  · rw [he]
    exact .refl
  · exact .claims hc

lemma disk_allocPage (hw : s.cache.pool.Wf) (file : UInt32) :
    s.cache.disk.Written (allocPage file s).2.cache.disk := by
  refine disk_request ?_
  rcases Cache.alloc_cases hw file with ⟨e, -, he⟩ | ⟨n, disk, r, hd, hc, -⟩
  · rw [he]
    exact .refl
  · obtain ⟨h, hf, -, hne, rfl⟩ := Disk.allocPage_eq_ok_iff.mp hd
    exact .trans (.page .refl hf hne) (.claims hc)

lemma disk_unpinPage (id : PageId) (dirty : Bool) :
    s.cache.disk.Written (unpinPage id dirty s).2.cache.disk := by
  refine disk_request ?_
  unfold Cache.unpin
  split <;> exact .refl

lemma disk_flushFile (hw : s.cache.pool.Wf) (file : UInt32) :
    s.cache.disk.Written (flushFile file s).2.cache.disk := disk_request (.flush hw file)

lemma onDisk_apply (operation : Disk → Except StoreError (α × Disk)) : onDisk operation s =
    match operation s.cache.disk with
    | .ok (a, disk) => (.ok a, { s with cache := { s.cache with disk } })
    | .error e => (.error e, s) := by
  simp only [onDisk, direct, Cache.onDisk]
  rcases operation s.cache.disk with _ | ⟨_, _⟩ <;> rfl

lemma updateDisk_apply (operation : Disk → Except StoreError Disk) : updateDisk operation s =
    match operation s.cache.disk with
    | .ok disk => (.ok (), { s with cache := { s.cache with disk } })
    | .error e => (.error e, s) := by
  simp only [updateDisk, direct, Cache.updateDisk, Cache.onDisk]
  rcases operation s.cache.disk with _ | _ <;> rfl

end Store

/-- The disk has opened the files of a list of ids and names, each as often as it stands there. -/
structure Opened (opens : List (UInt32 × String)) (d : Disk) : Prop where
  below : ∀ {name id}, d.ids.find? name = some id → id < d.nextId
  inj : ∀ {name other id}, d.ids.find? name = some id → d.ids.find? other = some id → name = other
  bound : ∀ {id h}, d.opened.find? id = some h → d.ids.find? h.name = some id ∧
    h.uses.toNat ≠ 0
  uses : ∀ id, d.uses id = opens.countP (·.1 = id)
  named : ∀ o ∈ opens, ∃ h, d.opened.find? o.1 = some h ∧ h.name = o.2

namespace Opened
variable {opens opens' : List (UInt32 × String)} {d d' : Disk} {id : UInt32} {name : String}
  {h : OpenFile}

theorem perm (hp : opens.Perm opens') (hd : Opened opens d) : Opened opens' d where
  below := hd.below
  inj := hd.inj
  bound := hd.bound
  uses id := (hd.uses id).trans (hp.countP_eq _)
  named o ho := hd.named o (hp.mem_iff.mpr ho)

/-- Only the ids and the open files matter, and of these not the pages. -/
theorem congr (hd : Opened opens d) (hids : d'.ids = d.ids) (hnext : d'.nextId = d.nextId)
    (hopened : ∀ id, ((d'.opened.find? id).map fun h => (h.name, h.uses)) =
      (d.opened.find? id).map fun h => (h.name, h.uses)) : Opened opens d' := by
  have hback : ∀ {id h}, d'.opened.find? id = some h →
      ∃ h₀, d.opened.find? id = some h₀ ∧ h₀.name = h.name ∧ h₀.uses = h.uses := by
    intro id h hf
    have hm := hopened id
    rw [hf] at hm
    obtain ⟨h₀, hf₀, he⟩ := Option.map_eq_some_iff.mp hm.symm
    exact ⟨h₀, hf₀, (Prod.mk.inj he).1, (Prod.mk.inj he).2⟩
  constructor
  · intro name id hi
    rw [hids] at hi
    rw [hnext]
    exact hd.below hi
  · intro name other id hn ho
    rw [hids] at hn ho
    exact hd.inj hn ho
  · intro id h hf
    obtain ⟨h₀, hf₀, hname, huses⟩ := hback hf
    rw [hids, ← hname, ← huses]
    exact hd.bound hf₀
  · intro id
    have hm := congrArg (fun o : Option (String × UInt32) => (o.map (·.2.toNat)).getD 0) (hopened id)
    simp only [Option.map_map, Function.comp_def] at hm
    exact hm.trans (hd.uses id)
  · intro o ho
    obtain ⟨h, hf, hname⟩ := hd.named o ho
    have hm := hopened o.1
    rw [hf] at hm
    obtain ⟨h', hf', he⟩ := Option.map_eq_some_iff.mp hm
    exact ⟨h', hf', (Prod.mk.inj he).1.trans hname⟩

theorem written (hd : Opened opens d) (hw : d.Written d') : Opened opens d' := by
  induction hw with
  | refl => exact hd
  | @page d' h id _ _ here _ ih =>
    refine ih.congr rfl rfl fun other => ?_
    simp only [Disk.written, Table.find?_insert]
    split
    · next ho => rw [ho, here]; rfl
    · rfl

lemma exists_perm (hd : Opened opens d) (hf : d.opened.find? id = some h) :
    ∃ rest, opens.Perm ((id, h.name) :: rest) := by
  have hpos : 0 < opens.countP (·.1 = id) := by
    have huses := (hd.bound hf).2
    rw [← hd.uses, Disk.uses, hf]
    exact Nat.pos_of_ne_zero huses
  obtain ⟨⟨i, n⟩, ho, hid⟩ := List.countP_pos_iff.mp hpos
  obtain rfl : i = id := of_decide_eq_true hid
  obtain ⟨g, hg, hn⟩ := hd.named _ ho
  cases hf.symm.trans hg
  exact ⟨opens.erase (i, n), hn ▸ List.perm_cons_erase ho⟩

lemma isOpen_iff (hd : Opened opens d) : d.isOpen name = true ↔ ∃ o ∈ opens, o.2 = name := by
  rw [Disk.isOpen, Option.isSome_iff_exists]
  constructor
  · rintro ⟨⟨id, h⟩, hopen⟩
    obtain ⟨hi, hf⟩ := Disk.openAs?_eq_some_iff.mp hopen
    obtain ⟨rest, hperm⟩ := hd.exists_perm hf
    exact ⟨_, hperm.mem_iff.mpr List.mem_cons_self, hd.inj (hd.bound hf).1 hi⟩
  · rintro ⟨o, ho, rfl⟩
    obtain ⟨h, hf, hname⟩ := hd.named o ho
    exact ⟨(o.1, h), Disk.openAs?_eq_some_iff.mpr ⟨hname ▸ (hd.bound hf).1, hf⟩⟩

/-- An opening under a fresh or a known id, of a file that is then open once more. -/
lemma insert (hd : Opened opens d) (hids : ∀ {n i}, d'.ids.find? n = some i →
      (n = name ∧ i = id) ∨ d.ids.find? n = some i)
    (hkeep : ∀ {n i}, d.ids.find? n = some i → d'.ids.find? n = some i)
    (hname : d'.ids.find? name = some id)
    (hinj : ∀ {n}, d.ids.find? n = some id → n = name)
    (hbelow : ∀ {i}, i = id ∨ i < d.nextId → i < d'.nextId)
    (hopened : d'.opened = d.opened.insert id h) (hn : h.name = name)
    (huses : h.uses.toNat = d.uses id + 1) : Opened ((id, name) :: opens) d' := by
  constructor
  · intro n i hi
    rcases hids hi with ⟨-, rfl⟩ | hi
    · exact hbelow (Or.inl rfl)
    · exact hbelow (Or.inr (hd.below hi))
  · intro n m i hi hm
    rcases hids hi with ⟨rfl, rfl⟩ | hi
    · rcases hids hm with ⟨rfl, -⟩ | hm
      · rfl
      · exact (hinj hm).symm
    · rcases hids hm with ⟨rfl, rfl⟩ | hm
      · exact hinj hi
      · exact hd.inj hi hm
  · intro i g hf
    rw [hopened, Table.find?_insert] at hf
    split at hf
    · next hi =>
      cases hf
      exact ⟨hn ▸ hi ▸ hname, by omega⟩
    · exact ⟨hkeep (hd.bound hf).1, (hd.bound hf).2⟩
  · intro i
    have := hd.uses i
    simp only [Disk.uses, hopened, Table.find?_insert, List.countP_cons, decide_eq_true_eq] at *
    by_cases hi : i = id
    · subst hi
      simp only [if_true, Option.map_some, Option.getD_some]
      omega
    · simp only [if_neg hi, if_neg (Ne.symm hi)]
      omega
  · intro o ho
    rw [hopened, Table.find?_insert]
    rcases List.mem_cons.mp ho with rfl | ho
    · exact ⟨h, by simp, hn⟩
    · obtain ⟨g, hf, hg⟩ := hd.named o ho
      split
      · next hi =>
        refine ⟨h, rfl, ?_⟩
        rw [hn, ← hg]
        exact (hinj (hi ▸ (hd.bound hf).1)).symm
      · exact ⟨g, hf, hg⟩

theorem openFile (hd : Opened opens d) (ho : d.openFile name = .ok (id, d')) :
    Opened ((id, name) :: opens) d' := by
  cases Disk.openFile_eq_ok_iff.mp ho with
  | @again _ h hi hf hfew =>
    have hname := hd.inj (hd.bound hf).1 hi
    refine hd.insert (h := { h with uses := h.uses + 1 }) (fun hi => Or.inr hi) (fun hi => hi) hi
      (fun hn => hd.inj hn hi) ?_ rfl hname
      ((Disk.toNat_add_one hfew).trans (congrArg (· + 1) (Disk.uses_of_find? hf).symm))
    rintro i (rfl | hlt)
    · exact hd.below hi
    · exact hlt
  | bound _ hclosed hi =>
    have hf := Disk.opened_eq_none hclosed hi
    refine hd.insert (fun hi => Or.inr hi) (fun hi => hi) hi (fun hn => hd.inj hn hi) ?_ rfl rfl
      (by simp [Disk.uses, Disk.asOpened, hf])
    rintro i (rfl | hlt)
    · exact hd.below hi
    · exact hlt
  | new _ hclosed hi hroom =>
    have hnext : ∀ {n}, d.ids.find? n ≠ some d.nextId := fun hn =>
      UInt32.lt_irrefl _ (hd.below hn)
    have hf : d.opened.find? d.nextId = none := by
      cases hf : d.opened.find? d.nextId with
      | none => rfl
      | some h => exact absurd (hd.bound hf).1 hnext
    refine hd.insert (fun {n i} hi => ?_) (fun {n i} hn => ?_) ?_
      (fun hn => absurd hn hnext) ?_ rfl rfl (by simp [Disk.uses, Disk.asOpened, hf])
    · rw [Table.find?_insert] at hi
      split at hi
      · next hn => exact Or.inl ⟨hn, (Option.some.inj hi).symm⟩
      · exact Or.inr hi
    · rw [Table.find?_insert, if_neg]
      · exact hn
      · rintro rfl
        rw [hi] at hn
        cases hn
    · simp [Table.find?_insert]
    · have hsucc := Disk.toNat_add_one hroom
      rintro i (rfl | hlt)
      · exact UInt32.lt_iff_toNat_lt.mpr (hsucc ▸ Nat.lt_succ_self _)
      · have hlt := UInt32.lt_iff_toNat_lt.mp hlt
        exact UInt32.lt_iff_toNat_lt.mpr (hsucc ▸ Nat.lt_succ_of_lt hlt)

theorem closeFile (hd : Opened ((id, name) :: opens) d) :
    ∃ d', d.closeFile id = .ok d' ∧ Opened opens d' := by
  obtain ⟨h, hf, hname⟩ := hd.named _ List.mem_cons_self
  have hcount := hd.uses id
  have hpos := (hd.bound hf).2
  rw [Disk.uses_of_find? hf, List.countP_cons, decide_eq_true rfl, if_pos rfl] at hcount
  refine ⟨d.closed id h, Disk.closeFile_eq_ok_iff.mpr ⟨h, hf, rfl⟩, hd.below, hd.inj,
    fun {i g} hg => ?_, fun i => ?_, fun o ho => ?_⟩
  · rw [Disk.find?_closed] at hg
    split at hg
    · next hi =>
      split at hg
      · cases hg
      · next hone =>
        cases hg
        refine ⟨hi ▸ (hd.bound hf).1, ?_⟩
        have hmore : h.uses.toNat ≠ 1 := fun heq => hone (UInt32.toNat_inj.mp heq)
        rw [Disk.toNat_sub_one hpos]
        omega
    · exact hd.bound hg
  · rw [Disk.uses_closed hf hpos]
    by_cases hi : i = id
    · rw [if_pos hi, hi, Disk.uses_of_find? hf]
      omega
    · rw [if_neg hi]
      exact (hd.uses i).trans (by rw [List.countP_cons, if_neg (by simpa using Ne.symm hi)]; rfl)
  · obtain ⟨g, hg, hn⟩ := hd.named o (List.mem_cons_of_mem _ ho)
    rw [Disk.find?_closed]
    by_cases hi : o.1 = id
    · have hpos : 0 < opens.countP (·.1 = id) := List.countP_pos_iff.mpr ⟨o, ho, by simpa using hi⟩
      have hmore : h.uses ≠ 1 := fun hone => by
        rw [hone, UInt32.toNat_one] at hcount
        omega
      rw [hi, hf] at hg
      cases hg
      rw [if_pos hi, if_neg hmore]
      exact ⟨_, rfl, hn⟩
    · rw [if_neg hi]
      exact ⟨g, hg, hn⟩

theorem create (hd : Opened opens d) (hc : d.create name = .ok d') : Opened opens d' := by
  obtain ⟨-, l, -, rfl⟩ := Disk.create_eq_ok_iff.mp hc
  exact ⟨hd.below, hd.inj, hd.bound, hd.uses, hd.named⟩

/-- A file that is removed is not open, so that the ids of open files stay bound. -/
theorem destroy (hd : Opened opens d) (hr : d.destroy name = .ok d') : Opened opens d' := by
  obtain ⟨hopen, l, k, -, rfl⟩ := Disk.destroy_eq_ok_iff.mp hr
  have hfree : ∀ {n i}, (d.ids.erase name).find? n = some i →
      n ≠ name ∧ d.ids.find? n = some i := by
    intro n i hi
    rw [Table.find?_erase] at hi
    split at hi
    · cases hi
    · next hn => exact ⟨hn, hi⟩
  refine ⟨fun hi => hd.below (hfree hi).2, fun hn ho => hd.inj (hfree hn).2 (hfree ho).2, ?_,
    hd.uses, hd.named⟩
  intro i h hf
  refine ⟨?_, (hd.bound hf).2⟩
  rw [Table.find?_erase, if_neg]
  · exact (hd.bound hf).1
  · rintro rfl
    have hthere : d.isOpen h.name = true := Option.isSome_iff_exists.mpr
      ⟨(i, h), Disk.openAs?_eq_some_iff.mpr ⟨(hd.bound hf).1, hf⟩⟩
    rw [hopen] at hthere
    cases hthere

end Opened
end PagedHeap
