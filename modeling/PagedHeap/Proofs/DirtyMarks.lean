import PagedHeap.Proofs.CacheMirror
import PagedHeap.Proofs.PinBalance

/-! Dirty marks where nothing is refused. A page is marked when somebody gives it back as changed, and
the marks of a file are gone when one of its handles was closed, since that writes its pages. So no
page of a file that nobody has open is marked. -/
namespace PagedHeap

namespace Pool
variable {σ : Type} {sink : Sink σ} {pool pool' : Pool} {id other : PageId} {s s' : σ}
  {contents : Page}

/-- A page is cached and marked dirty. -/
def Marked (pool : Pool) (id : PageId) : Prop :=
  ∃ i f, pool.cached id = some (i, f) ∧ f.dirty = true

lemma marked_of_cached (h : pool'.cached id = pool.cached id) (hm : pool'.Marked id) :
    pool.Marked id := by
  obtain ⟨i, f, hc, hd⟩ := hm
  exact ⟨i, f, h.symm.trans hc, hd⟩

lemma not_marked_of_away (h : pool.cached id = none) : ¬ pool.Marked id := by
  rintro ⟨i, f, hc, -⟩
  cases h.symm.trans hc

lemma Vacated.marked {r : Except StoreError Nat} (h : Vacated sink pool s (r, pool', s'))
    (hm : pool'.Marked id) : pool.Marked id := by
  cases r with
  | error e => exact marked_of_cached (h.cached_of_error id) hm
  | ok i =>
    rcases h.cached_of_ok id with hc | ⟨hc, -⟩
    · exact marked_of_cached hc hm
    · exact absurd hm (not_marked_of_away hc)

theorem Claimed.marked {r : Except StoreError Nat}
    (h : Claimed sink id contents pool s (r, pool', s')) (hm : pool'.Marked other) :
    pool.Marked other := by
  obtain ⟨j, g, hc, hd⟩ := hm
  cases h with
  | hit here now =>
    rw [now] at hc
    split at hc
    · next ho =>
      cases hc
      rw [ho]
      exact ⟨_, _, here, hd⟩
    · exact ⟨j, g, hc, hd⟩
  | miss _ vacated now =>
    rw [now] at hc
    split at hc
    · cases hc
      cases hd
    · exact vacated.marked ⟨j, g, hc, hd⟩
  | failed vacated => exact vacated.marked ⟨j, g, hc, hd⟩

theorem Wf.unpin_marked (h : pool.Wf) {dirty : Bool} (hu : pool.unpin id dirty = .ok pool')
    (hm : pool'.Marked other) : pool.Marked other ∨ other = id ∧ dirty = true := by
  obtain ⟨i, f, hc, -, -, hnow⟩ := h.unpin_cached hu
  obtain ⟨j, g, hg, hd⟩ := hm
  rw [hnow] at hg
  split at hg
  · next ho =>
    cases hg
    rcases Bool.or_eq_true_iff.mp hd with hf | hdirty
    · exact Or.inl ⟨i, f, ho ▸ hc, hf⟩
    · exact Or.inr ⟨ho, hdirty⟩
  · exact Or.inl ⟨j, g, hg, hd⟩

lemma marked_modifyFrame {i : Nat} (change : Frame → Frame) (hc : ∀ f, (change f).dirty = f.dirty)
    (hm : (pool.modifyFrame i change).Marked id) : pool.Marked id := by
  obtain ⟨j, f, hj, hd⟩ := hm
  obtain ⟨hfind, rfl⟩ := cached_eq_some_iff.mp hj
  refine ⟨j, pool.frame j, cached_eq_some_iff.mpr ⟨hfind, rfl⟩, ?_⟩
  rw [frame_modifyFrame] at hd
  split at hd
  · rwa [hc] at hd
  · exact hd

lemma Wf.flush_marked (h : pool.Wf) (sink : Sink σ) (select : PageId → Bool) (s : σ)
    (hm : (pool.flush sink select s).2.1.Marked id) : pool.Marked id := by
  refine (h.flush (P := fun pool' _ => pool'.Marked id → pool.Marked id) sink select
    (fun {pool' s' victim i} hw hp _ hfind => ?_) fun hm => hm).2 hm
  split
  · rintro ⟨j, f, hj, hd⟩
    rw [hw.cached_modifyFrame hfind Frame.clean] at hj
    split at hj
    · cases hj
      cases hd
    · exact hp ⟨j, f, hj, hd⟩
  · exact hp

theorem Wf.flush_unmarked (h : pool.Wf) {select : PageId → Bool} {k : Nat}
    (hf : pool.flush sink select s = (.ok k, pool', s')) (hs : select id = true) :
    ¬ pool'.Marked id := by
  rintro ⟨i, f, hc, hd⟩
  have hsame := (h.flush_same sink select s).2.find id
  rw [hf] at hsame
  have hclean := h.flush_clean hf (hsame.symm.trans (cached_eq_some_iff.mp hc).1) hc hs
  rw [hclean] at hd
  cases hd

end Pool

namespace Cache
variable {c c' : Cache} {id : PageId} {file : UInt32}

/-- No page was marked that was not before. -/
structure Quiet (c c' : Cache) : Prop where
  size : c'.pool.size = c.pool.size
  marked : ∀ {id}, c'.pool.Marked id → c.pool.Marked id

lemma Quiet.refl (c : Cache) : Quiet c c := ⟨rfl, fun h => h⟩

lemma quiet_claim (hw : c.pool.Wf) (id : PageId) (hid : id ≠ Frame.unassigned) (contents : Page) :
    Quiet c (onPool (Pool.claim writeBack id contents) c).2 where
  size := Pool.size_claim ..
  marked hm := (claims_onPool hw hid contents).claimed.marked hm

theorem quiet_read (hw : c.pool.Wf) (id : PageId) : Quiet c (read id c).2 := by
  cases hf : c.pool.fetch id with
  | some found =>
    obtain ⟨i, pool⟩ := found
    obtain ⟨-, f, hc, hnow⟩ := hw.fetch hf
    have hhit : Pool.Claimed writeBack id Page.blank c.pool c.disk (.ok i, pool, c.disk) :=
      .hit hc hnow
    rw [read_of_fetch hf]
    exact ⟨Pool.size_fetch hf, hhit.marked⟩
  | none =>
    cases hd : c.disk.readPage id with
    | error e =>
      rw [read_of_error hf hd]
      exact .refl c
    | ok page =>
      obtain ⟨h, -, hlt, -⟩ := Disk.readPage_eq_ok_iff.mp hd
      rw [read_of_ok hf hd]
      exact quiet_claim hw id (PageId.ne_unassigned (Disk.page_ne_noPage_of_lt hlt)) page

theorem quiet_alloc (hw : c.pool.Wf) (file : UInt32) : Quiet c (alloc file c).2 := by
  cases hd : c.disk.allocPage file with
  | error e =>
    rw [alloc_of_error hd]
    exact .refl c
  | ok found =>
    obtain ⟨n, disk⟩ := found
    obtain ⟨h, hopen, -, hne, rfl⟩ := Disk.allocPage_eq_ok_iff.mp hd
    rw [alloc_of_ok hd]
    have hclaim := quiet_claim (c := ⟨c.pool, c.disk.written h ⟨file, n⟩ Page.blank⟩) hw ⟨file, n⟩
      (PageId.ne_unassigned hne) Page.blank
    exact ⟨hclaim.size, hclaim.marked⟩

theorem quiet_flush (hw : c.pool.Wf) (file : UInt32) : Quiet c (flushFile file c).2 where
  size := by
    rw [flushFile_apply]
    exact (hw.flush_same ..).2.size
  marked hm := by
    rw [flushFile_apply] at hm
    exact hw.flush_marked _ _ _ hm

end Cache

/-- Where everything is let through from now on, a list of requests is served without a refusal. -/
lemma Gate.verdict_of_open {gate : Gate} {n : Nat} (h : ∀ k r, n ≤ k → gate k r = none)
    (requests : List Request) : gate.verdict n requests = .ok () := by
  induction requests generalizing n with
  | nil => rfl
  | cons r rest ih =>
    rw [verdict, h n r (Nat.le_refl n)]
    exact ih fun k r hk => h k r (Nat.le_of_succ_le hk)

/-- Nothing is refused from now on, so many pins of each page were not taken back before, and the pages
that are marked dirty are of the files of a list. -/
structure Tended (n : Nat) (left : PageId → Nat) (files opens : List (UInt32 × String))
    (holds : List Hold) (s : Store) : Prop where
  accounted : Accounted opens holds s
  size : s.cache.pool.size = n
  gate : ∀ k r, s.journal.length ≤ k → s.gate k r = none
  returned : ∀ id, s.refused id = left id
  marked : ∀ {id}, s.cache.pool.Marked id → ∃ name, (id.file, name) ∈ files

/-- Nothing was ever refused either. -/
abbrev Tidy (n : Nat) := Tended n fun _ => 0

namespace Tended
variable {n : Nat} {left : PageId → Nat} {files files' opens : List (UInt32 × String)}
  {holds holds' rest : List Hold}
  {s : Store} {h : Hold} {file : UInt32} {name : String} {α : Type}

lemma mono (hs : Tended n left files opens holds s) (hsub : files ⊆ files') :
    Tended n left files' opens holds s :=
  { hs with marked := fun hm => (hs.marked hm).imp fun _ ho => hsub ho }

lemma gate_succ (hs : Tended n left files opens holds s) (k : Nat) (r : Request)
    (hk : s.journal.length + 1 ≤ k) : s.gate k r = none := hs.gate k r (Nat.le_of_succ_le hk)

/-- A request that marks no page. -/
theorem request {r : Request} {act : CacheM α} {event : α → Event}
    (hs : Tended n left files opens holds s)
    (ha : Accounted opens holds' (Store.request r act event s).2)
    (hq : Cache.Quiet s.cache (act s.cache).2) (hr : ∀ id, (Event.failed r).refuses id = false)
    (he : ∀ a id, (event a).refuses id = false) :
    Tended n left files opens holds' (Store.request r act event s).2 := by
  cases hg : s.refusal r with
  | some e =>
    rw [Store.request_refused hg] at ha ⊢
    refine ⟨ha, hs.size, hs.gate_succ, fun id => ?_, hs.marked⟩
    rw [Store.refused_cons (c := s.cache), hs.returned, hr]
    rfl
  | none =>
    rw [Store.request_granted hg] at ha ⊢
    refine ⟨ha, hq.size.trans hs.size, hs.gate_succ, fun id => ?_, fun hm => hs.marked (hq.marked hm)⟩
    rw [Store.refused_cons, hs.returned]
    cases (act s.cache).1 with
    | error e => simp [hr]
    | ok a => simp [he]

theorem readPage (hs : Tended n left files opens holds s) (id : PageId) :
    match Store.readPage id s with
    | (.ok i, s') => Tended n left files opens (⟨id, i, false⟩ :: holds) s'
    | (.error _, s') => Tended n left files opens holds s' := by
  have hread := (Accounted.writable opens id.file).read holds id.page s hs.accounted
  have htidy : ∀ {holds'}, Accounted opens holds' (Store.readPage id s).2 →
      Tended n left files opens holds' (Store.readPage id s).2 := fun ha =>
    hs.request ha (Cache.quiet_read hs.accounted.pinned.wf id) (fun _ => rfl) fun _ _ => rfl
  rcases hr : Store.readPage id s with ⟨e | i, s'⟩ <;> rw [hr] at hread htidy <;> exact htidy hread

theorem allocPage (hs : Tended n left files opens holds s) (file : UInt32) :
    match Store.allocPage file s with
    | (.ok (m, i), s') => Tended n left files opens (⟨⟨file, m⟩, i, false⟩ :: holds) s'
    | (.error _, s') => Tended n left files opens holds s' := by
  have halloc := (Accounted.writable opens file).alloc holds s hs.accounted
  have htidy : ∀ {holds'}, Accounted opens holds' (Store.allocPage file s).2 →
      Tended n left files opens holds' (Store.allocPage file s).2 := fun ha =>
    hs.request ha (Cache.quiet_alloc hs.accounted.pinned.wf file) (fun _ => rfl) fun _ _ => rfl
  rcases hr : Store.allocPage file s with ⟨e | ⟨m, i⟩, s'⟩ <;> rw [hr] at halloc htidy <;>
    exact htidy halloc

theorem flushFile (hs : Tended n left files opens holds s) (file : UInt32) :
    Tended n left files opens holds (Store.flushFile file s).2 :=
  hs.request ((Accounted.writable opens file).flush holds s hs.accounted)
    (Cache.quiet_flush hs.accounted.pinned.wf file) (fun _ => rfl) fun _ _ => rfl

/-- A page is marked only if it is given back as changed. -/
theorem unpinPage (hs : Tended n left files opens (h :: holds) s)
    (hfile : h.dirty = true → ∃ name, (h.id.file, name) ∈ files) :
    Tended n left files opens holds (Store.unpinPage h.id h.dirty s).2 := by
  have ha := (Accounted.writable opens h.id.file).unpin holds h rfl s hs.accounted
  obtain ⟨pool, hu, -⟩ := hs.accounted.pinned.unpin_ok h.dirty
  unfold Store.unpinPage at ha ⊢
  rw [Store.request_granted
    ((Store.refusal_eq_gate rfl).trans (hs.gate _ _ (Nat.le_refl _))), hu] at ha ⊢
  have hpool : s.cache.pool.unpin h.id h.dirty = .ok pool := by
    unfold Cache.unpin at hu
    split at hu
    · next hp => cases hu; exact hp
    · cases hu
  refine ⟨ha, (Pool.size_unpin hpool).trans hs.size, hs.gate_succ, fun id => ?_, fun hm => ?_⟩
  · rw [Store.refused_cons, hs.returned]
    rfl
  · rcases hs.accounted.pinned.wf.unpin_marked hpool hm with hm | ⟨hid, hdirty⟩
    · exact hs.marked hm
    · rw [hid]
      exact hfile hdirty

theorem writable (ho : (file, name) ∈ files) : Writable file (Tended n left files opens) where
  perm hp h := { h with accounted := (Accounted.writable opens file).perm hp h.accounted }
  mark h := { h with accounted := (Accounted.writable opens file).mark h.accounted }
  read hs page s h := by
    have := h.readPage ⟨file, page⟩
    rcases hr : Store.readPage ⟨file, page⟩ s with ⟨_ | _, _⟩ <;> rw [hr] at this <;> exact this
  unpin hs h hfile s hh := hh.unpinPage fun _ => ⟨name, hfile ▸ ho⟩
  flush hs s h := h.flushFile file
  alloc hs s h := by
    have := h.allocPage file
    rcases hr : Store.allocPage file s with ⟨_ | ⟨_, _⟩, _⟩ <;> rw [hr] at this <;> exact this
  edit {h hs s} page hh :=
    { hh with
      accounted := (Accounted.writable opens file).edit page hh.accounted
      size := (Pool.size_modifyFrame ..).trans hh.size
      marked := fun hm => hh.marked
        (Pool.marked_modifyFrame (fun f => { f with contents := page }) (fun _ => rfl) hm) }

theorem browsed (file : UInt32) : Browsed file (Tended n left files opens) where
  read hs page s h := by
    have := h.readPage ⟨file, page⟩
    rcases hr : Store.readPage ⟨file, page⟩ s with ⟨_ | _, _⟩ <;> rw [hr] at this <;> exact this
  unpin hs page i s h := h.unpinPage (h := ⟨⟨file, page⟩, i, false⟩) nofun

lemma ofDisk {d : Disk} (hs : Tended n left files opens holds s) {opens' : List (UInt32 × String)}
    (ha : Accounted opens' holds { s with cache := { s.cache with disk := d } }) :
    Tended n left files opens' holds { s with cache := { s.cache with disk := d } } :=
  ⟨ha, hs.size, hs.gate, hs.returned, hs.marked⟩

theorem openFile (files opens : List (UInt32 × String)) (holds : List Hold) (name : String) :
    Ensures (Tended n left files opens holds) (Store.openFile name) fun r s =>
      match r with
      | .ok id => Tended n left files ((id, name) :: opens) holds s
      | .error _ => Tended n left files opens holds s := by
  intro s hs
  have ha := Accounted.openFile opens holds name s hs.accounted
  rw [Store.openFile, Store.onDisk_apply] at ha ⊢
  cases ho : s.cache.disk.openFile name with
  | error e => exact hs
  | ok r =>
    rw [ho] at ha
    exact hs.ofDisk ha

theorem closeFile (files opens : List (UInt32 × String)) (holds : List Hold) (id : UInt32)
    (name : String) : Ensures (Tended n left files ((id, name) :: opens) holds) (Store.closeFile id)
      fun _ => Tended n left files opens holds := by
  intro s hs
  have ha := Accounted.closeFile opens holds id name s hs.accounted
  obtain ⟨d, hc, -⟩ := hs.accounted.opened.closeFile
  rw [Store.closeFile, Store.updateDisk_apply, hc] at ha ⊢
  exact hs.ofDisk ha

lemma flushFile_ok (hs : Tended n left files ((file, name) :: opens) holds s) :
    (Store.flushFile file s).1 = .ok () :=
  hs.accounted.served_flushFile.result.trans (Gate.verdict_of_open hs.gate _)

/-- When the pages of a file were written none of them is marked. -/
theorem flushFile_unmarked (hs : Tended n left files ((file, name) :: opens) holds s) {id : PageId}
    (hid : id.file = file) : ¬ (Store.flushFile file s).2.cache.pool.Marked id := by
  have hserved := hs.flushFile_ok
  unfold Store.flushFile at hserved ⊢
  rw [Store.request_granted ((Store.refusal_eq_gate rfl).trans (hs.gate _ _ (Nat.le_refl _))),
    Cache.flushFile_apply] at hserved ⊢
  rcases hf : s.cache.pool.flush Cache.writeBack (fun id => id.file = file) s.cache.disk with
    ⟨e | k, pool', disk'⟩ <;> rw [hf] at hserved
  · cases hserved
  · exact hs.accounted.pinned.wf.flush_unmarked hf (by simp [hid])

/-- A file that is left behind has no page that is marked, but for those who still have it open. -/
theorem leave (opens : List (UInt32 × String)) (holds : List Hold) (id : UInt32) (name : String) :
    Ensures (Tended n left ((id, name) :: opens) ((id, name) :: opens) holds) (Store.leave id)
      fun _ => Tended n left opens opens holds := by
  intro s hs
  refine closeFile opens opens holds id name _ { hs.flushFile id with marked := fun {page} hm => ?_ }
  obtain ⟨name', ho⟩ := (hs.flushFile id).marked hm
  rcases List.mem_cons.mp ho with he | ho
  · exact absurd hm (hs.flushFile_unmarked (Prod.mk.inj he).1)
  · exact ⟨name', ho⟩

theorem admits (name : String) : Admits (fun opens => Tended n left opens opens) name := by
  intro opens holds
  refine (Store.openHeap_ensures (J := fun id => Tended n left opens ((id, name) :: opens))
    (fun id => browsed id)
    ⟨openFile opens opens holds name, fun id => closeFile opens opens holds id name⟩).weaken
    (fun _ hs => hs) fun r s hs => ?_
  cases r with
  | error e => exact hs
  | ok f => exact ⟨hs.holds.mono (List.subset_cons_self ..), rfl, hs.name_eq, hs.isOpen, hs.header⟩

lemma setUp {header data : UInt32} {i j : Nat} (ho : (file, name) ∈ files)
    (hs : Tended n left files opens
      (⟨⟨file, data⟩, j, false⟩ :: ⟨⟨file, header⟩, i, false⟩ :: holds) s) :
    let r := Store.settle [Store.unpinPage ⟨file, data⟩ true, Store.unpinPage ⟨file, header⟩ true]
      (Store.formatted s name data i j)
    r.1 = .ok () ∧ Tended n left files opens holds r.2 := by
  have hI : Writable file (Tended n left files opens) := writable ho
  have hset := hI.perm (List.Perm.swap ..) (hI.edit (Page.empty data) hs)
  have hboth := hI.perm (List.Perm.swap ..) (hI.edit
    ((FileHeader.new name data).toPage ((s.overwrite j (Page.empty data)).contents i)) hset)
  let pins : List Hold := [⟨⟨file, data⟩, j, true⟩, ⟨⟨file, header⟩, i, true⟩]
  have hserved := (Accounted.giveBackAll pins hboth.accounted).result
  rw [Gate.verdict_of_open hboth.gate] at hserved
  exact ⟨hserved, hI.settle_giveBack pins (by simp [pins]) _ hboth⟩

theorem formatHeap (hs : Tended n left files ((file, name) :: opens) holds s) :
    match Store.formatHeap file name () s with
    | ((.ok _, _), s') => Tended n left ((file, name) :: files) ((file, name) :: opens) holds s'
    | ((.error _, _), s') => Tended n left files ((file, name) :: opens) holds s' := by
  rw [Store.formatHeap_apply]
  have hheader := hs.allocPage file
  rcases ha : Store.allocPage file s with ⟨e | ⟨header, i⟩, s₁⟩ <;> rw [ha] at hheader
  · exact hheader
  have hdata := hheader.allocPage file
  dsimp only
  rcases ha' : Store.allocPage file s₁ with ⟨e | ⟨data, j⟩, s₂⟩ <;> rw [ha'] at hdata
  · exact hdata.unpinPage (h := ⟨⟨file, header⟩, i, false⟩) nofun
  obtain ⟨hok, hback⟩ := setUp List.mem_cons_self
    (hdata.mono (List.subset_cons_self (file, name) files))
  dsimp only
  rw [hok]
  exact hback

theorem createHeap (opens : List (UInt32 × String)) (holds : List Hold) (name : String) :
    Ensures (Tended n left opens opens holds) (Store.createHeap name) fun _ =>
      Tended n left opens opens holds := by
  intro s hs
  rw [Store.createHeap_apply]
  have hcreated := Accounted.createFile name s hs.accounted
  rw [Store.createFile, Store.updateDisk_apply] at hcreated ⊢
  cases hc : s.cache.disk.create name with
  | error e => exact hs
  | ok d =>
    rw [hc] at hcreated
    have hopen := openFile opens opens holds name _ (hs.ofDisk hcreated)
    dsimp only
    rcases ho : Store.openFile name { s with cache := { s.cache with disk := d } } with
      ⟨e | file, s₂⟩ <;> rw [ho] at hopen
    · exact hopen
    have hformat := hopen.formatHeap
    unfold Store.settle Store.fill
    dsimp only
    rcases hf : Store.formatHeap file name () s₂ with ⟨⟨e | _, _⟩, s₃⟩ <;> rw [hf] at hformat
    · exact closeFile opens opens holds file name s₃ hformat
    · exact leave opens holds file name s₃ hformat

theorem upheld (n : Nat) (left : PageId → Nat) : Upheld fun opens => Tended n left opens opens where
  lasting ho := (writable ho).toLasting
  perm {opens opens' hs s} hp h :=
    ⟨Accounted.managed.perm hp h.accounted, h.size, h.gate, h.returned,
      fun hm => (h.marked hm).imp fun _ ho => hp.subset ho⟩
  leave := leave
  writable ho := writable ho
  admits := admits
  create opens hs name := createHeap opens hs name
  destroy opens hs name s h := by
    have ha := Accounted.destroyFile name s h.accounted
    rw [Store.destroyFile, Store.updateDisk_apply] at ha
    rw [Store.destroyHeap, Store.destroyFile, Store.updateDisk_apply]
    cases hr : s.cache.disk.destroy name with
    | error e => exact h
    | ok d =>
      rw [hr] at ha
      exact h.ofDisk ha

end Tended

namespace Workspace

theorem start_tidy {config : Config} {tree : FileTree} {cache : Cache}
    (h : Cache.ofConfig config tree = .ok cache) :
    Running (fun opens => Tidy config.frames opens opens) (start cache fun _ _ => none) := by
  obtain ⟨hdistinct, hfiles, ha⟩ := start_accounted h fun _ _ => none
  obtain ⟨tree', -, rfl⟩ := ofConfig_eq_ok h
  refine ⟨hdistinct, hfiles, ⟨ha, Pool.size_ofSize _, fun _ _ _ => rfl, fun _ => rfl, fun hm => ?_⟩⟩
  obtain ⟨i, f, hc, -⟩ := hm
  cases hc

/-- Where nothing is refused, only pages of open files are marked dirty. -/
theorem run_tidy {config : Config} {tree : FileTree} {cache : Cache}
    (h : Cache.ofConfig config tree = .ok cache) (actions : List Action) :
    Running (fun opens => Tidy config.frames opens opens)
      ((start cache fun _ _ => none).run actions) :=
  run_keeps (Tended.upheld ..) (start_tidy h) actions

end Workspace
end PagedHeap
