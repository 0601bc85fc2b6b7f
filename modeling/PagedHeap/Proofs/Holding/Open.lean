import PagedHeap.Proofs.Holding

/-! Opening, creating and closing heap files. A heap file that is opened holds two pins more than
were held before; one that could not be opened, one that is created and one that is closed hold
none. -/
namespace PagedHeap
variable {I : List Hold → Store → Prop} {J : UInt32 → List Hold → Store → Prop}
  {rest : List Hold} {id : UInt32} {name : String}

/-- A handle on an opened file adds pins to those that are held, and gives them all back. -/
structure Opens (I : List Hold → Store → Prop) (J : UInt32 → List Hold → Store → Prop)
    (rest : List Hold) (name : String) : Prop where
  openFile : Ensures (I rest) (Store.openFile name) fun r s =>
    match r with
    | .ok id => J id rest s
    | .error _ => I rest s
  closeFile : ∀ id, Ensures (J id rest) (Store.closeFile id) fun _ => I rest

/-- A heap file that is opened has its header page pinned. -/
abbrev OpensHeap (I : List Hold → Store → Prop) (J : UInt32 → List Hold → Store → Prop)
    (rest : List Hold) (name : String) : Prop :=
  Ensures (I rest) (Store.openHeap name) fun r s =>
    match r with
    | .ok f => Kept (J f.id) rest f.id name f s
    | .error _ => I rest s

/-- The last two steps of closing a heap file: its dirty pages are written, and it is closed. -/
abbrev Store.leave (id : UInt32) : StoreM Unit :=
  Store.settle [Store.flushFile id, Store.closeFile id]

lemma Lasting.settle_giveBack (hI : Lasting id I) (hs : List Hold)
    (hfile : ∀ h ∈ hs, h.id.file = id) :
    Ensures (I (hs ++ rest)) (Store.settle (hs.map Store.giveBack)) fun _ => I rest := by
  induction hs with
  | nil => exact fun s h => h
  | cons h hs ih =>
    obtain ⟨hh, hrest⟩ := List.forall_mem_cons.mp hfile
    exact fun s hs => ih hrest _ (hI.unpin _ h hh s hs)

namespace HeapFile

theorem shutdown_ensures (hI : Lasting id I) {T : Store → Prop}
    (hleave : Ensures (I rest) (Store.leave id) fun _ => T) :
    HandleM.Ensures (Kept I rest id name) shutdown fun _ _ s => T s := by
  intro f s h
  obtain rfl := h.id_eq
  rw [shutdown_apply h.isOpen, teardown, Store.settle_append]
  exact hleave _ (hI.settle_giveBack f.holds (fun _ => file_of_holds) s h.holds)

theorem closeInsertion_ensures (hI : Lasting id I) {T : Store → Prop}
    (hleave : Ensures (I rest) (Store.leave id) fun _ => T) :
    HandleM.Ensures (Kept I rest id name) closeInsertion fun _ _ s => T s :=
  .change (fun f s h => markDirty_keeps hI f s h) (shutdown_ensures hI hleave)

end HeapFile

namespace Store

lemma firstPage_eq_zero {d : Disk} {n : UInt32} (h : d.firstPage id = .ok n) : n = 0 := by
  unfold Disk.firstPage at h
  cases hp : d.numPages id with
  | error e => simp [hp, bind, Except.bind] at h
  | ok m =>
    by_cases hm : m = 0
    · simp [hp, hm, bind, Except.bind, throw, throwThe, MonadExceptOf.throw] at h
    · simpa [hp, hm, bind, Except.bind, pure, Except.pure, eq_comm] using h

theorem pinFirst_ensures (hI : Browsed id I) :
    Ensures (I rest) (pinFirst id) fun r s =>
      match r with
      | .ok (header, current) =>
        I (current.hold id :: header.hold id :: rest) s ∧ header.number = 0
      | .error _ => I rest s := by
  intro s h
  rw [pinFirst_apply]
  cases hn : s.cache.disk.firstPage id with
  | error e => exact h
  | ok n =>
    dsimp only
    have hread := hI.read rest n s h
    rcases hr : readPage ⟨id, n⟩ s with ⟨e | i, s'⟩ <;> rw [hr] at hread
    · exact hread
    · dsimp only
      cases FileHeader.ofPage (s'.contents i) with
      | none => exact hI.unpin rest n i s' hread
      | some hd =>
        dsimp only
        have hfirst := hI.read _ hd.first s' hread
        rcases hr : readPage ⟨id, hd.first⟩ s' with ⟨e | j, s''⟩ <;> rw [hr] at hfirst
        · exact hI.unpin rest n i s'' hfirst
        · exact ⟨hfirst, firstPage_eq_zero hn⟩

theorem openHeap_ensures (hJ : ∀ id, Browsed id (J id)) (ho : Opens I J rest name) :
    OpensHeap I J rest name := by
  intro s h
  rw [openHeap_apply]
  have hopen := ho.openFile s h
  rcases hr : openFile name s with ⟨e | id, s'⟩ <;> rw [hr] at hopen
  · exact hopen
  · dsimp only
    have hpin := pinFirst_ensures (hJ id) s' hopen
    rcases hr : pinFirst id s' with ⟨e | ⟨header, current⟩, s''⟩ <;> rw [hr] at hpin
    · exact ho.closeFile id s'' hpin
    · exact ⟨hpin.1, rfl, rfl, rfl, _, rfl, hpin.2⟩

theorem openInsertion_ensures (hJ : ∀ id, Lasting id (J id)) (ho : OpensHeap I J rest name)
    (hleave : ∀ id, Ensures (J id rest) (leave id) fun _ => I rest) :
    Ensures (I rest) (openInsertion name) fun r s =>
      match r with
      | .ok f => Kept (J f.id) rest f.id name f s
      | .error _ => I rest s := by
  intro s h
  rw [openInsertion_apply]
  have hopen := ho s h
  rcases hr : openHeap name s with ⟨e | f, s'⟩ <;> rw [hr] at hopen
  · exact hopen
  · dsimp only
    have hseek := HeapFile.seekLast_keeps (hJ f.id) f s' hopen
    rcases hr : HeapFile.seekLast f s' with ⟨⟨e | _, g⟩, s''⟩ <;> rw [hr] at hseek
    · exact HeapFile.closeInsertion_ensures (hJ f.id) (hleave f.id) g s'' hseek
    · obtain ⟨hs, hid, hname, hopen, hheader⟩ := hseek
      exact ⟨hid ▸ hs, rfl, hname, hopen, hheader⟩

theorem openScan_ensures (ho : OpensHeap I J rest name) :
    Ensures (I rest) (openScan name) fun r s =>
      match r with
      | .ok scan => Kept (J scan.file.id) rest scan.file.id name scan.file s
      | .error _ => I rest s := by
  intro s h
  rw [openScan, bind_apply]
  have hopen := ho s h
  rcases hr : openHeap name s with ⟨e | f, s'⟩ <;> rw [hr] at hopen <;> exact hopen

theorem formatHeap_ensures (hI : Writable id I) (name : String) :
    HandleM.Ensures (fun _ => I rest) (formatHeap id name) fun _ _ => I rest := by
  rintro ⟨⟩ s h
  rw [formatHeap_apply]
  have hheader := hI.alloc rest s h
  rcases hr : allocPage id s with ⟨e | ⟨header, i⟩, s'⟩ <;> rw [hr] at hheader
  · exact hheader
  · dsimp only
    have hdata := hI.alloc _ s' hheader
    rcases hr : allocPage id s' with ⟨e | ⟨data, j⟩, s''⟩ <;> rw [hr] at hdata
    · exact hI.unpin rest ⟨⟨id, header⟩, i, false⟩ rfl s'' hdata
    · have hboth := hI.edit ((FileHeader.new name data).toPage
        ((s''.overwrite j (Page.empty data)).contents i))
        (hI.perm (List.Perm.swap ..) (hI.edit (Page.empty data) hdata))
      exact hI.toLasting.settle_giveBack [⟨⟨id, data⟩, j, true⟩, ⟨⟨id, header⟩, i, true⟩] (by simp) _
        (hI.perm (List.Perm.swap ..) hboth)

theorem createHeap_ensures (hJ : ∀ id, Writable id (J id)) (ho : Opens I J rest name)
    (hcreate : Ensures (I rest) (createFile name) fun _ => I rest) :
    Ensures (I rest) (createHeap name) fun _ => I rest := by
  intro s h
  rw [createHeap_apply]
  have hcreated := hcreate s h
  rcases hr : createFile name s with ⟨e | _, s'⟩ <;> rw [hr] at hcreated
  · exact hcreated
  · dsimp only
    have hopen := ho.openFile s' hcreated
    rcases hr : openFile name s' with ⟨e | id, s''⟩ <;> rw [hr] at hopen
    · exact hopen
    · have hfill : J id rest (fill id name s'').2 := by
        have hformat := formatHeap_ensures (hJ id) name () s'' hopen
        unfold fill
        rcases hr : formatHeap id name () s'' with ⟨⟨e | _, _⟩, t⟩ <;> rw [hr] at hformat
        · exact hformat
        · exact (hJ id).flush rest t hformat
      exact ho.closeFile id _ hfill

end Store
end PagedHeap
