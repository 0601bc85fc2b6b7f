import PagedHeap.Cache
import PagedHeap.Proofs.Computation
import PagedHeap.Proofs.DiskAccess
import PagedHeap.Proofs.PoolRequests

/-! Requests to a cache in terms of its pool. Reading and adding a page come down to one claim of a
frame, behind one operation of the disk. -/
namespace PagedHeap.Cache
variable {c : Cache} {id : PageId}

/-- A page is written back as the disk writes it, and a write that fails leaves the disk as it is. -/
lemma writeBack_cases {p : Page} {d d' : Disk} {r : Except StoreError Unit}
    (h : writeBack id p d = (r, d')) :
    r = .ok () ∧ d.writePage id p = .ok d' ∨ (∃ e, r = .error e) ∧ d' = d := by
  unfold writeBack at h
  split at h
  · next hw =>
    cases h
    exact Or.inl ⟨rfl, hw⟩
  · cases h
    exact Or.inr ⟨⟨_, rfl⟩, rfl⟩

lemma read_of_fetch {i : Nat} {pool : Pool} (h : c.pool.fetch id = some (i, pool)) :
    read id c = (.ok i, { c with pool }) := by
  unfold read
  rw [bind_apply, show (get : CacheM Cache) c = (.ok c, c) from rfl]
  simp only [h]
  rfl

lemma read_of_error {e : StoreError} (h : c.pool.fetch id = none)
    (hd : c.disk.readPage id = .error e) : read id c = (.error e, c) := by
  unfold read
  rw [bind_apply, show (get : CacheM Cache) c = (.ok c, c) from rfl]
  simp only [h]
  rw [bind_apply]
  simp [onDisk, hd, bind, Except.bind]

lemma read_of_ok {page : Page} (h : c.pool.fetch id = none)
    (hd : c.disk.readPage id = .ok page) :
    read id c = onPool (Pool.claim writeBack id page) c := by
  unfold read
  rw [bind_apply, show (get : CacheM Cache) c = (.ok c, c) from rfl]
  simp only [h]
  rw [bind_apply]
  simp [onDisk, hd, bind, Except.bind, pure, Except.pure]

lemma alloc_of_error {file : UInt32} {e : StoreError} (hd : c.disk.allocPage file = .error e) :
    alloc file c = (.error e, c) := by
  unfold alloc
  rw [bind_apply]
  simp [onDisk, hd]

lemma alloc_of_ok {file n : UInt32} {disk : Disk} (hd : c.disk.allocPage file = .ok (n, disk)) :
    alloc file c =
      ((onPool (Pool.claim writeBack ⟨file, n⟩ Page.blank) { c with disk }).1.map (n, ·),
        (onPool (Pool.claim writeBack ⟨file, n⟩ Page.blank) { c with disk }).2) := by
  unfold alloc
  rw [bind_apply]
  simp only [onDisk, hd]
  rw [bind_apply]
  rcases onPool (Pool.claim writeBack ⟨file, n⟩ Page.blank) { c with disk } with ⟨_ | _, _⟩ <;> rfl

lemma flushFile_apply (file : UInt32) (c : Cache) : flushFile file c =
    ((c.pool.flush writeBack (fun id => id.file = file) c.disk).1.map fun _ => (),
      ⟨(c.pool.flush writeBack (fun id => id.file = file) c.disk).2.1,
        (c.pool.flush writeBack (fun id => id.file = file) c.disk).2.2⟩) := by
  unfold flushFile
  rw [bind_apply, onPool]
  rcases c.pool.flush writeBack (fun id => id.file = file) c.disk with ⟨_ | _, _, _⟩ <;> rfl

/-- A frame is claimed from the pool, with these contents for a page that was not cached. -/
structure Claims (id : PageId) (contents : Page) (c : Cache) (r : Except StoreError Nat)
    (c' : Cache) : Prop where
  wf : c'.pool.Wf
  claimed : Pool.Claimed writeBack id contents c.pool c.disk (r, c'.pool, c'.disk)

lemma claims_onPool (hw : c.pool.Wf) (hid : id ≠ Frame.unassigned) (contents : Page) :
    Claims id contents c (onPool (Pool.claim writeBack id contents) c).1
      (onPool (Pool.claim writeBack id contents) c).2 :=
  have h := hw.claim hid writeBack contents c.disk
  ⟨h.1, h.2⟩

/-- Reading a page claims a frame for it, unless it would have to come from the disk and does not. -/
theorem read_cases (hw : c.pool.Wf) (id : PageId) :
    (∃ e, c.pool.cached id = none ∧ c.disk.readPage id = .error e ∧ read id c = (.error e, c)) ∨
      ∃ contents, (c.pool.cached id = none → c.disk.readPage id = .ok contents) ∧
        Claims id contents c (read id c).1 (read id c).2 := by
  cases hf : c.pool.fetch id with
  | some found =>
    obtain ⟨i, pool⟩ := found
    obtain ⟨hpool, f, hc, hnow⟩ := hw.fetch hf
    rw [read_of_fetch hf]
    exact Or.inr ⟨Page.blank, fun hn => (by rw [hc] at hn; cases hn), ⟨hpool, .hit hc hnow⟩⟩
  | none =>
    cases hd : c.disk.readPage id with
    | error e => exact Or.inl ⟨e, Pool.fetch_eq_none_iff.mp hf, rfl, read_of_error hf hd⟩
    | ok page =>
      obtain ⟨h, -, hlt, -⟩ := Disk.readPage_eq_ok_iff.mp hd
      rw [read_of_ok hf hd]
      exact Or.inr ⟨page, fun _ => rfl, claims_onPool hw
        (PageId.ne_unassigned (Disk.page_ne_noPage_of_lt hlt)) page⟩

theorem alloc_cases (hw : c.pool.Wf) (file : UInt32) :
    (∃ e, c.disk.allocPage file = .error e ∧ alloc file c = (.error e, c)) ∨
      ∃ n disk r, c.disk.allocPage file = .ok (n, disk) ∧
        Claims ⟨file, n⟩ Page.blank { c with disk } r (alloc file c).2 ∧
        (alloc file c).1 = r.map (n, ·) := by
  cases hd : c.disk.allocPage file with
  | error e => exact Or.inl ⟨e, rfl, alloc_of_error hd⟩
  | ok found =>
    obtain ⟨n, disk⟩ := found
    obtain ⟨h, -, -, hne, -⟩ := Disk.allocPage_eq_ok_iff.mp hd
    have hid : (⟨file, n⟩ : PageId) ≠ Frame.unassigned := PageId.ne_unassigned hne
    rw [alloc_of_ok hd]
    exact Or.inr ⟨n, disk, _, rfl, claims_onPool (c := { c with disk }) hw hid Page.blank, rfl⟩

end PagedHeap.Cache
