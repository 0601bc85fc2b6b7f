import PagedHeap.Proofs.Runs
import PagedHeap.Proofs.ServedFiles

/-! What is granted where nothing is refused. As long as fewer pins are held than there are frames, a
page that is there can be pinned, and a page added; so a heap file can be created, and one that is
there be opened, while two frames are left, and records be inserted and read while one is left. -/
namespace PagedHeap

open Function (update)

namespace Disk
variable {d : Disk} {name : String} {id : UInt32} {h : OpenFile}

/-- A file that is there can be opened, as long as there is an id for it, and its openings can be
counted. -/
lemma openFile_ok (hk : (d.number? name).isSome = true)
    (hid : (d.ids.find? name).isSome = true ∨ d.nextId.toNat + 1 < UInt32.size)
    (hfew : ∀ id, d.uses id + 1 < UInt32.size) :
    ∃ id d', d.openFile name = .ok (id, d') := by
  have hthere : ∃ l k, d.place name = .file l k := by
    unfold number? at hk
    cases hp : d.place name with
    | file l k => exact ⟨l, k, rfl⟩
    | directory | free | missing | blocked => rw [hp] at hk; cases hk
  obtain ⟨l, k, hp⟩ := hthere
  cases ha : d.openAs? name with
  | some found =>
    obtain ⟨hi, hf⟩ := openAs?_eq_some_iff.mp ha
    exact ⟨_, _, openFile_eq_ok_iff.mpr (.again hi hf (uses_of_find? hf ▸ hfew _))⟩
  | none =>
    cases hi : d.ids.find? name with
    | some i => exact ⟨_, _, openFile_eq_ok_iff.mpr (.bound hp ha hi)⟩
    | none =>
      have hroom := hid.resolve_left (by simp [hi])
      exact ⟨_, _, openFile_eq_ok_iff.mpr (.new hp ha hi hroom)⟩

lemma firstPage_ok (hf : d.opened.find? id = some h) (hp : h.pages ≠ 0) : d.firstPage id = .ok 0 := by
  simp [firstPage, numPages, handle_of_find? hf, hp, bind, Except.bind, pure, Except.pure]

end Disk

namespace Tended
variable {own : String → Prop} {F : String → Option (List Page)} {t : Prop} {n : Nat}
  {files opens : List (UInt32 × String)} {holds : List Hold} {s : Store} {id : PageId}
  {file page : UInt32} {name : String} {d : Disk} {e : StoreError} {ps : List Page}

theorem readPage_ok (hs : Tidy n files opens holds s) (hsub : files ⊆ opens)
    (hsound : Sound own opens holds s) (hroom : holds.length < min n Frame.maxPins)
    (hfile : (file, name) ∈ opens) (hlt : page.toNat < s.cache.disk.extent name) :
    ∃ i s', Store.readPage ⟨file, page⟩ s = (.ok i, s') := by
  have hread := (hs.serves hsub).readPage hsound hfile page
  have hafter := hs.readPage ⟨file, page⟩
  rcases hr : Store.readPage ⟨file, page⟩ s with ⟨e | i, s'⟩ <;> rw [hr] at hread hafter
  · rcases hread.2 with ⟨-, hle⟩ | ⟨hshort, -⟩
    · exact absurd hle (Nat.not_le_of_lt hlt)
    · exact absurd hshort (Tended.not_short hafter hroom)
  · exact ⟨i, s', rfl⟩

/-- A page can be added to an open file that does not get too long by it. -/
theorem allocPage_ok (hs : Tidy n files opens holds s) (hsub : files ⊆ opens)
    (hsound : Sound own opens holds s) (hroom : holds.length < min n Frame.maxPins)
    (hfile : (file, name) ∈ opens) (hlt : s.cache.disk.extent name + 1 < UInt32.size) :
    ∃ r s', Store.allocPage file s = (.ok r, s') := by
  have halloc := (hs.serves hsub).allocPage hsound hfile
  have hafter := hs.allocPage file
  rcases hr : Store.allocPage file s with ⟨e | r, s'⟩ <;> rw [hr] at halloc hafter
  · rcases halloc.2 with hshort | ⟨-, hfull⟩
    · exact absurd hshort (Tended.not_short hafter hroom)
    · exact absurd hfull (Nat.ne_of_lt hlt)
  · exact ⟨r, s', rfl⟩

end Tended

namespace Shown
variable {own : String → Prop} {F : String → Option (List Page)} {t : Prop} {n : Nat}
  {opens : List (UInt32 × String)} {holds : List Hold} {s : Store} {name : String} {ps : List Page}
  {hd : FileHeader} {body : List UInt32} {spare : Option UInt32}

/-- A file that is there can be opened. -/
lemma openFile_ok (hs : Shown own F t opens holds s) (ht : Tidy n opens opens holds s)
    (hn : own name) (hps : F name = some ps)
    (hid : (s.cache.disk.ids.find? name).isSome = true ∨
      s.cache.disk.nextId.toNat + 1 < UInt32.size) (hfew : opens.length + 1 < UInt32.size) :
    ∃ id s', Store.openFile name s = (.ok id, s') ∧ Shown own F t ((id, name) :: opens) holds s' ∧
      Tidy n opens ((id, name) :: opens) holds s' := by
  have hthere := ((pages_iff hs.sound hn).mp ((hs.shows hn).trans hps)).1
  obtain ⟨id, d, hopen⟩ := Disk.openFile_ok hthere hid fun id => by
    rw [ht.accounted.opened.uses]
    exact Nat.lt_of_le_of_lt (Nat.add_le_add_right List.countP_le_length 1) hfew
  have hopened := openFile hn s hs
  have htidy := Tended.openFile opens opens holds name s ht
  have hok : (Store.openFile name s).1 = .ok id := by
    rw [Store.openFile, Store.onDisk_apply, hopen]
  rcases ho : Store.openFile name s with ⟨e | id', s'⟩ <;> rw [ho] at hok hopened htidy
  · cases hok
  · exact ⟨id', s', rfl, hopened, htidy⟩

theorem openHeap_ok (hs : Shown own F t opens holds s) (ht : Tidy n opens opens holds s)
    (hn : own name) (hroom : holds.length + 2 ≤ min n Frame.maxPins)
    (hid : (s.cache.disk.ids.find? name).isSome = true ∨
      s.cache.disk.nextId.toNat + 1 < UInt32.size) (hfew : opens.length + 1 < UInt32.size)
    (hps : F name = some ps) (hl : Heap.Layout t ps hd body spare) :
    ∃ f s', Store.openHeap name s = (.ok f, s') := by
  rw [Store.openHeap_apply]
  obtain ⟨id, s₁, ho, hopened, htidy⟩ := hs.openFile_ok ht hn hps hid hfew
  rw [ho]
  have hsub := List.subset_cons_self (id, name) opens
  have hfirst : 0 < ps.length ∧ hd.first.toNat < ps.length := by
    have hpage := hl.page_lt (List.mem_append_left _ hl.first_mem)
    exact ⟨by omega, hpage⟩
  have hextent := hopened.length_eq hn hps
  have hlt : ∀ {s' : Store} {holds' : List Hold}, Shown own F t ((id, name) :: opens) holds' s' →
      ∀ page : UInt32, page.toNat < ps.length → page.toNat < s'.cache.disk.extent name :=
    fun h page hpage => (h.length_eq hn hps).symm ▸ hpage
  obtain ⟨g, hg, hname⟩ := htidy.accounted.opened.named _ List.mem_cons_self
  have hpages : g.pages ≠ 0 := by
    rintro hzero
    have := hopened.sound.orderly.extent_eq hg
    rw [hname, hextent, hzero] at this
    simp only [UInt32.toNat_zero] at this
    omega
  dsimp only
  rw [Store.pinFirst_apply, Disk.firstPage_ok hg hpages]
  obtain ⟨i, s₂, hread⟩ := htidy.readPage_ok hsub hopened.sound (by omega)
    List.mem_cons_self (hlt hopened 0 hfirst.1)
  have hshown := hopened.readPage ⟨id, 0⟩
  have htidy₂ := htidy.readPage ⟨id, 0⟩
  rw [hread] at hshown htidy₂
  have hpage : Heap.page? ps 0 = some (s₂.contents i) :=
    hshown.sound.contents List.mem_cons_self List.mem_cons_self ((hshown.shows hn).trans hps)
  have hheader : FileHeader.ofPage (s₂.contents i) = some hd := by
    have := hl.header
    rwa [Heap.header?, hpage, Option.bind_some] at this
  dsimp only
  rw [hread]
  dsimp only
  rw [hheader]
  obtain ⟨j, s₃, hread'⟩ := htidy₂.readPage_ok hsub hshown.sound (by simpa using by omega)
    List.mem_cons_self (hlt hshown hd.first hfirst.2)
  dsimp only
  rw [hread']
  exact ⟨_, _, rfl⟩

/-- A new heap file can be created where its name leads to a free place. -/
theorem createHeap_ok {d : Disk} (hs : Shown own F t opens holds s)
    (ht : Tidy n opens opens holds s) (hn : own name) (hroom : holds.length + 2 ≤ min n Frame.maxPins)
    (hid : s.cache.disk.nextId.toNat + 1 < UInt32.size) (hfew : opens.length + 1 < UInt32.size)
    (hc : s.cache.disk.create name = .ok d) :
    (Store.createHeap name s).1 = .ok () ∧
      ((Store.createHeap name s).2.cache.disk.ids.find? name).isSome = true := by
  rw [Store.createHeap_apply]
  have hcreated := createFile hn hs
  have hnext := (hs.sound.orderly.created hn hc).bindings.2.2
  rw [Store.createFile, Store.updateDisk_apply, hc] at hcreated ⊢
  obtain ⟨-, hs₁⟩ := hcreated
  have ht₁ := ht.ofDisk hs₁.sound.accounted
  obtain ⟨file, s₂, ho, hs₂, ht₂⟩ :=
    hs₁.openFile_ok ht₁ hn (Function.update_self ..) (Or.inr (hnext ▸ hid)) hfew
  dsimp only
  rw [ho]
  have hsub := List.subset_cons_self (file, name) opens
  obtain ⟨⟨header, i⟩, s₃, ha⟩ := ht₂.allocPage_ok hsub hs₂.sound (by omega)
    List.mem_cons_self (by rw [hs₂.length_eq hn (Function.update_self ..)]; decide)
  have hs₃ := hs₂.allocPage List.mem_cons_self (Function.update_self ..)
  have ht₃ := ht₂.allocPage file
  rw [ha] at hs₃ ht₃
  obtain ⟨⟨data, j⟩, s₄, ha'⟩ := ht₃.allocPage_ok hsub hs₃.2.2.sound
    (by simpa using by omega) List.mem_cons_self
    (by rw [hs₃.2.2.length_eq hn (Function.update_self ..)]; decide)
  have ht₄ := ht₃.allocPage file
  rw [ha'] at ht₄
  obtain ⟨hset, ht₅⟩ := Tended.setUp List.mem_cons_self (ht₄.mono hsub)
  have hfill : (Store.fill file name s₂).1 = .ok () ∧
      Tidy n ((file, name) :: opens) ((file, name) :: opens) holds (Store.fill file name s₂).2 := by
    unfold Store.fill
    rw [Store.formatHeap_apply, ha]
    dsimp only
    rw [ha']
    dsimp only
    rw [hset]
    exact ⟨ht₅.flushFile_ok, ht₅.flushFile file⟩
  have hfilled := hfill.2.accounted.opened
  obtain ⟨g, hopen, rfl⟩ := hfilled.named _ List.mem_cons_self
  obtain ⟨d', hclosed, -⟩ := hfilled.closeFile
  simp only [Store.settle, hfill.1, Store.closeFile, Store.updateDisk_apply, hclosed]
  obtain ⟨_, -, rfl⟩ := Disk.closeFile_eq_ok_iff.mp hclosed
  exact ⟨rfl, Option.isSome_iff_exists.mpr ⟨_, (hfilled.bound hopen).1⟩⟩

end Shown

namespace HeapFile
open HandleM
variable {c : Site} {t : Prop} {ps : List Page} {hd : FileHeader} {f : HeapFile} {s : Store}
  {n : Nat} {body : List UInt32} {spare : Option UInt32} {m : UInt32}

lemma switchTo_ok (h : c.On t ps f s) (ht : c.Neat n f s)
    (hroom : c.rest.length + 1 < min n Frame.maxPins) (hm : m.toNat < ps.length) :
    (switchTo m f s).1.1 = .ok () := by
  obtain ⟨-, hswitch⟩ := switchTo_served h (serves_of_neat ht) m
  have hneat := switchTo_keeps (c.writable n).toLasting m f s ht
  rcases hs : switchTo m f s with ⟨⟨e | u, g⟩, s'⟩ <;> rw [hs] at hswitch hneat
  obtain ⟨rfl, ⟨-, hnone⟩ | ⟨hshort, -⟩⟩ := hswitch
  · exact absurd (List.getElem?_eq_none_iff.mp hnone) (Nat.not_le_of_lt hm)
  · exact absurd hshort (not_short_of_left hneat rfl hroom)

lemma seekLast_ok (hl : Heap.Layout t ps hd body spare) (h : c.On t ps f s) (ht : c.Neat n f s)
    (hroom : c.rest.length + 1 < min n Frame.maxPins) : (seekLast f s).1.1 = .ok () := by
  unfold seekLast
  rw [h.lastPage hl.header]
  dsimp only
  split
  · rfl
  · exact switchTo_ok h ht hroom (hl.page_lt (List.mem_append_left _ hl.last_mem))

/-- No request of an insertion fails while the others leave three frames, and the file does not get too
long. -/
theorem insert_smooth {b : Bytes} (hl : Heap.Layout t ps hd body spare) (h : c.On t ps f s)
    (ht : c.Neat n f s) (hlen : b.length ≤ Page.maxRecord)
    (hroom : c.rest.length + 2 < min n Frame.maxPins) (hsize : ps.length + 1 < UInt32.size) :
    ∃ added, s.Smooth added (insert b f s).2 := by
  have hneat := insert_keeps (c.writable n) b f s ht
  obtain ⟨page, hlast, -⟩ := hl.data _ hl.last_mem
  rcases insert_served h (serves_of_neat ht) hl hlast hlen with
    hsmooth | ⟨e, -, hshort | ⟨-, -, hfull⟩⟩
  · exact hsmooth
  · exact absurd hshort (not_short_of_neat hneat hroom)
  · exact absurd hfull (Nat.ne_of_lt hsize)

end HeapFile

theorem Shown.openInsertion_ok {own : String → Prop} {F : String → Option (List Page)} {t : Prop}
    {n : Nat} {opens : List (UInt32 × String)} {holds : List Hold} {s : Store} {name : String}
    {ps : List Page} {hd : FileHeader} {body : List UInt32} {spare : Option UInt32}
    (hs : Shown own F t opens holds s) (ht : Tidy n opens opens holds s) (hn : own name)
    (hroom : holds.length + 2 ≤ min n Frame.maxPins)
    (hid : (s.cache.disk.ids.find? name).isSome = true ∨
      s.cache.disk.nextId.toNat + 1 < UInt32.size) (hfew : opens.length + 1 < UInt32.size)
    (hps : F name = some ps) (hl : Heap.Layout t ps hd body spare) :
    ∃ f s', Store.openInsertion name s = (.ok f, s') := by
  obtain ⟨f, s₁, hopen⟩ := hs.openHeap_ok ht hn hroom hid hfew hps hl
  have hon := hs.openHeap_on hn hopen hps
  have hneat := Tended.admits name opens holds s ht
  rw [hopen] at hneat
  have hok := HeapFile.seekLast_ok hl hon hneat hroom
  rw [Store.openInsertion_apply, hopen]
  dsimp only
  rcases hseek : HeapFile.seekLast f s₁ with ⟨⟨res, g⟩, s₂⟩
  rw [hseek] at hok
  obtain rfl : res = .ok () := hok
  exact ⟨g, s₂, rfl⟩

namespace Workspace
open HandleM
variable {own : String → Prop} {w : Workspace} {n : Nat} {key name : String} {d : Disk}
  {ps : List Page} {hd : FileHeader} {body : List UInt32} {spare : Option UInt32}

lemma create_handles (w : Workspace) (name : String) :
    (perform (.create name) w).2.handles = w.handles := by
  rw [perform, map_apply]
  rfl

lemma few_openings {I : List (UInt32 × String) → List Hold → Store → Prop} (h : Running I w)
    (hroom : (heldBy w.handles).length + 2 ≤ min n Frame.maxPins) :
    (openings w.handles).length + 1 < UInt32.size := by
  have hle := h.length_openings_le
  have hmax : Frame.maxPins + 1 = UInt32.size := rfl
  omega

/-- A heap file can be created in a workspace with two frames left. -/
theorem create_ok (hw : Standing own w) (ht : Running (fun opens => Tidy n opens opens) w)
    (hn : own name) (hroom : (heldBy w.handles).length + 2 ≤ min n Frame.maxPins)
    (hid : w.store.cache.disk.nextId.toNat + 1 < UInt32.size)
    (hc : w.store.cache.disk.create name = .ok d) :
    (perform (.create name) w).1 = .ok (.answer .done) ∧
      ((perform (.create name) w).2.store.cache.disk.ids.find? name).isSome = true := by
  obtain ⟨hok, hbound⟩ := hw.running.inv.createHeap_ok ht.inv hn hroom hid (few_openings ht hroom) hc
  rw [perform, map_apply]
  have hres : (onStore (Store.createHeap name) w).1 = .ok () := hok
  rw [hres]
  exact ⟨rfl, hbound⟩

/-- What can be opened is held under the name that it was opened for. -/
lemma openAs_ok {opening : StoreM Handle} {new : Handle} (h : (opening w.store).1 = .ok new)
    (key : String) : (openAs key opening w).1 = .ok () ∧
      (openAs key opening w).2.handles = w.handles.insert key new := by
  unfold openAs
  rcases ho : opening w.store with ⟨e | new', s⟩ <;> rw [ho] at h
  · cases h
  · obtain rfl := Except.ok.inj h
    exact ⟨rfl, rfl⟩

/-- A heap file that is there can be opened for scanning in a workspace with two frames left. -/
theorem openScan_ok (hw : Standing own w) (ht : Running (fun opens => Tidy n opens opens) w)
    (hn : own name) (hroom : (heldBy w.handles).length + 2 ≤ min n Frame.maxPins)
    (hid : (w.store.cache.disk.ids.find? name).isSome = true ∨
      w.store.cache.disk.nextId.toNat + 1 < UInt32.size)
    (hps : w.pages name = some ps) (hl : Heap.Layout w.store.Torn ps hd body spare) (key : String) :
    (perform (.openScan key name) w).1 = .ok (.answer .done) := by
  obtain ⟨f, s, hopen⟩ := hw.running.inv.openHeap_ok ht.inv hn hroom hid (few_openings ht hroom) hps hl
  have hopening : ∃ scan, ((do return .scan (← Store.openScan name) : StoreM Handle) w.store).1 =
      .ok (.scan scan) := by
    rw [bind_apply, Store.openScan, bind_apply, hopen]
    exact ⟨_, rfl⟩
  obtain ⟨scan, hopening⟩ := hopening
  rw [perform, map_apply]
  exact congrArg (Except.map fun _ => Reply.answer Answer.done) (openAs_ok hopening key).1

theorem openInserter_ok (hw : Standing own w) (ht : Running (fun opens => Tidy n opens opens) w)
    (hn : own name) (hroom : (heldBy w.handles).length + 2 ≤ min n Frame.maxPins)
    (hid : (w.store.cache.disk.ids.find? name).isSome = true ∨
      w.store.cache.disk.nextId.toNat + 1 < UInt32.size)
    (hps : w.pages name = some ps) (hl : Heap.Layout w.store.Torn ps hd body spare) (key : String) :
    ∃ f, f.name = name ∧
      (perform (.openInserter key name) w).2.handles = w.handles.insert key (.inserter f) := by
  have hfew := few_openings ht hroom
  obtain ⟨f, s, hopen⟩ := hw.running.inv.openInsertion_ok ht.inv hn hroom hid hfew hps hl
  have hname := (hw.running.inv.openInsertion hw.formed hn hopen).1
  have hopening : ((do return .inserter (← Store.openInsertion name) : StoreM Handle) w.store).1 =
      .ok (.inserter f) := by
    rw [bind_apply, hopen]
    rfl
  rw [perform, map_apply]
  exact ⟨f, hname, (openAs_ok hopening key).2⟩

/-- The store serves those who have files open, and is not short of pins as long as there are fewer
than frames. -/
structure Supplied (n : Nat) (w : Workspace) : Prop where
  serves : w.store.Serves (openings w.handles)
  ample : (heldBy w.handles).length < min n Frame.maxPins → ∀ e, ¬ w.store.Short e

/-- Where nothing is ever refused there are frames as long as few are pinned. -/
theorem run_supplied {cache : Cache} {gate : Gate} (h : HoldsHeapFiles own cache)
    (hgate : ∀ k r, gate k r = none) (actions : List Action) :
    Supplied cache.pool.size ((start cache gate).run actions) := by
  obtain rfl : gate = fun _ _ => none := funext fun k => funext fun r => hgate k r
  obtain ⟨config, tree, hc⟩ := h.mounted
  have ht := (run_tidy hc actions).inv
  obtain ⟨tree', -, rfl⟩ := ofConfig_eq_ok hc
  rw [show (Pool.ofSize config.frames).size = config.frames from Pool.size_ofSize _]
  exact ⟨ht.serves (List.Subset.refl _), fun hroom _ => ht.not_short hroom⟩

/-- Those who have files open go on being served, whatever is done. -/
lemma Standing.serves_perform (h : Standing own w) (hs : w.store.Serves (openings w.handles))
    (a : Action) : (perform a w).2.store.Serves (openings (perform a w).2.handles) := by
  have ht : Running (fun opens => Tended w.store.cache.pool.size w.store.refused opens opens) w :=
    ⟨h.running.distinct, h.running.files,
      ⟨h.running.inv.sound.accounted, rfl, hs.gate, fun _ => rfl, hs.marked⟩⟩
  exact (perform_keeps (Tended.upheld ..) ht a).inv.serves (List.Subset.refl _)

/-- A workspace in which a file was just created, and can be opened. -/
structure Created (own : String → Prop) (n : Nat) (name : String) (w : Workspace) : Prop where
  standing : Standing own w
  tidy : Running (fun opens => Tidy n opens opens) w
  bound : (w.store.cache.disk.ids.find? name).isSome = true
  room : (heldBy w.handles).length + 2 ≤ min n Frame.maxPins
  pages : w.pages name = some (Shown.newPages name)

theorem created (hw : Standing own w) (ht : Running (fun opens => Tidy n opens opens) w)
    (hn : own name) (hroom : (heldBy w.handles).length + 2 ≤ min n Frame.maxPins)
    (hid : w.store.cache.disk.nextId.toNat + 1 < UInt32.size)
    (hc : w.store.cache.disk.create name = .ok d) :
    Created own n name (perform (.create name) w).2 := by
  obtain ⟨hok, hbound⟩ := create_ok hw ht hn hroom hid hc
  exact ⟨(perform_outcome hw (.create name) hn).standing,
    perform_keeps (Tended.upheld ..) ht (.create name), hbound, by rwa [create_handles],
    create_pages hw hn hok⟩

/-- What was just created can be opened for scanning. -/
theorem Created.openScan (h : Created own n name w) (hn : own name) (key : String) :
    (perform (.openScan key name) w).1 = .ok (.answer .done) := by
  obtain ⟨hd, hl, -⟩ := Shown.layout_newPages w.store.Torn name
  exact openScan_ok h.standing h.tidy hn h.room (Or.inl h.bound) h.pages hl key

theorem Created.openInserter (h : Created own n name w) (hn : own name) (key : String) :
    ∃ f, f.name = name ∧
      (perform (.openInserter key name) w).2.handles = w.handles.insert key (.inserter f) := by
  obtain ⟨hd, hl, -⟩ := Shown.layout_newPages w.store.Torn name
  exact openInserter_ok h.standing h.tidy hn h.room (Or.inl h.bound) h.pages hl key

lemma created_small :
    Created (· = "t") 4 "t" (perform (.create "t") (start .small fun _ _ => none)).2 := by
  obtain ⟨d, hc⟩ := Cache.create_small
  exact created (start_standing .small fun _ _ => none) (start_tidy Cache.ofConfig_small) rfl
    (by decide) (by decide) hc

/-- In a new directory a file can be created, and then opened for scanning. -/
theorem create_small :
    let created := perform (.create "t") (start .small fun _ _ => none)
    created.1 = .ok (.answer .done) ∧
      ∀ key, (perform (.openScan key "t") created.2).1 = .ok (.answer .done) := by
  have hstart := start_standing .small fun _ _ => none
  have htidy := start_tidy Cache.ofConfig_small
  obtain ⟨d, hc⟩ := Cache.create_small
  exact ⟨(create_ok hstart htidy rfl (by decide) (by decide) hc).1, created_small.openScan rfl⟩

section Filled
variable {f : HeapFile} {p : Page} {b : Bytes}

lemma perform_insert (hf : w.handles.find? key = some (.inserter f)) (b : Bytes) :
    perform (.insert key b) w =
      ((HeapFile.insert b f w.store).1.1.map fun r => .answer (.inserted r),
        { store := (HeapFile.insert b f w.store).2
          handles := w.handles.insert key (.inserter (HeapFile.insert b f w.store).1.2) }) := by
  rw [perform, map_apply, insert_apply, hf]
  unfold withFile
  dsimp only
  rcases HeapFile.insert b f w.store with ⟨⟨_ | _, _⟩, _⟩ <;> rfl

/-- A record can be inserted where there is room for it, while three frames are left. -/
theorem insert_ok (hw : Standing own w) (ht : Running (fun opens => Tidy n opens opens) w)
    (hf : w.handles.find? key = some (.inserter f)) (hps : w.pages f.name = some ps)
    (hl : Heap.Layout w.store.Torn ps hd body spare) (hlast : Heap.page? ps hd.last = some p)
    (hlen : b.length ≤ Page.maxRecord) (hfits : p.shown.Fits b)
    (hroom : (heldBy (w.handles.erase key)).length + 2 < min n Frame.maxPins)
    (hsize : ps.length + 1 < UInt32.size) (hcount : hd.records.toNat + 1 < UInt32.size) :
    (perform (.insert key b) w).1 = .ok (.answer (.inserted ⟨hd.last, p.shown.vacancy⟩)) ∧
      ∃ qs, (perform (.insert key b) w).2.pages f.name = some qs ∧ Heap.PutLast hd p b ps qs := by
  obtain ⟨qs, -, -, -, hqs, -, -, hon⟩ := hw.on hf
  cases hps.symm.trans hqs
  have hon : (w.site own key (.inserter f)).On w.store.Torn ps f w.store := hon
  have hpages : w.pages (Handle.inserter f).file.name = some ps := hps
  have hn : own f.name := hw.own_of_find hf
  have hins := HeapFile.insertion_on hl hlast hlen hon
  have hperform := perform_insert hf b
  have hneat := ht.alone (Tended.upheld ..).toManaged hf
  obtain ⟨added, hsmooth⟩ := HeapFile.insert_smooth hl hon hneat hlen hroom hsize
  rcases hi : HeapFile.insert b f w.store with ⟨⟨res, g⟩, s⟩
  rw [hi] at hins hperform hsmooth
  rw [hperform]
  cases hins with
  | here _ reaches _ =>
    obtain ⟨-, -, qs, hP, hmoved⟩ := hw.reaches (.inserter g) hpages reaches (fun _ hg => hg)
      fun hP => .inserted hP.inserted hP.counted
    exact ⟨rfl, qs, (hmoved hn).trans (Function.update_self ..), hP⟩
  | behind crowded _ _ => exact absurd hfits crowded
  | uncounted _ limit _ => exact absurd limit (Nat.ne_of_lt hcount)
  | failed _ broken _ => exact (hsmooth.not_broken broken).elim

/-- A record can be put into the first slot of a file that was just created, if nothing is held. -/
theorem Created.insert (h : Created own n name w) (hn : own name)
    (hnone : ∀ other, w.handles.find? other = none) (hlen : b.length ≤ Page.maxRecord)
    (hroom : 2 < min n Frame.maxPins) (key : String) :
    let opened := (perform (.openInserter key name) w).2
    (perform (.insert key b) opened).1 = .ok (.answer (.inserted ⟨1, 0⟩)) ∧
      (perform (.insert key b) opened).2.content name = update (fun _ => none) ⟨1, 0⟩ (some b) ∧
      ∃ g, (perform (.insert key b) opened).2.handles.find? key = some (.inserter g) ∧
        g.name = name := by
  intro opened
  obtain ⟨f, hname, hhandles⟩ := h.openInserter hn key
  have hst : Standing own opened := (perform_outcome h.standing (.openInserter key name) hn).standing
  have ht : Running (fun opens => Tidy n opens opens) opened :=
    perform_keeps (Tended.upheld ..) h.tidy (.openInserter key name)
  have hpages : opened.pages name = some (Shown.newPages name) :=
    ((perform_outcome h.standing (.openInserter key name) hn).spares hn id).trans h.pages
  have hothers : heldBy (opened.handles.erase key) = [] :=
    heldBy_erase hst.running.distinct fun other hne => by
      rw [find?_perform (by simpa [Action.handle?] using Ne.symm hne)]
      exact hnone other
  have hf : opened.handles.find? key = some (.inserter f) := by
    rw [hhandles]
    exact (Table.find?_insert ..).trans (if_pos rfl)
  clear_value opened
  subst hname
  obtain ⟨hd, hl, hcontent, hcount⟩ := Shown.layout_newPages opened.store.Torn f.name
  have hlast : hd.last = 1 := List.mem_singleton.mp hl.last_mem
  have hrecords : hd.records.toNat + 1 < UInt32.size := by
    rw [← Heap.count_eq hl.header, hcount]
    decide
  have hpage : Heap.page? (Shown.newPages f.name) hd.last = some (Page.empty 1) := by rw [hlast]; rfl
  have hsize : (Shown.newPages f.name).length + 1 < UInt32.size := by
    show 2 + 1 < UInt32.size
    decide
  obtain ⟨hins, qs, hqs, hput⟩ := insert_ok hst ht hf hpages hl hpage hlen
    (Page.fits_empty 1 hlen) (by rwa [hothers]) hsize hrecords
  rw [hlast, Page.shown_empty] at hins
  refine ⟨hins, ?_, (HeapFile.insert b f opened.store).1.2, ?_, ?_⟩
  · rw [content_of_pages hqs, hput.inserted.put, hcontent, hlast, Page.shown_empty]
    rfl
  · rw [perform_insert hf]
    exact (Table.find?_insert ..).trans (if_pos rfl)
  · have hneat := ht.alone (Tended.upheld ..).toManaged hf
    exact (HeapFile.insert_keeps ((opened.site own key (.inserter f)).writable n) b f _ hneat).name_eq

/-- A workspace in which a record was put into a new file, and the file is open for scanning. -/
structure Filled (w : Workspace) (b : Bytes) (scan : Scan) : Prop where
  held : w.handles.find? "s" = some (.scan scan)
  name : scan.file.name = "t"
  first : scan.position = ⟨some 1, none, false⟩
  alone : ∀ key, key ≠ "s" → w.handles.find? key = none
  content : w.content "t" = update (fun _ => none) ⟨1, 0⟩ (some b)

/-- A file that is open can be opened for scanning too. -/
theorem openScan_held {old : Handle} (hw : Standing own w)
    (ht : Running (fun opens => Tidy n opens opens) w) (hf : w.handles.find? key = some old)
    (hroom : (heldBy w.handles).length + 2 ≤ min n Frame.maxPins) (other : String) :
    (perform (.openScan other old.file.name) w).1 = .ok (.answer .done) := by
  obtain ⟨ps, hd, body, spare, hps, hl, -⟩ := hw.on hf
  have hopened := hw.running.inv.sound.accounted.opened
  obtain ⟨g, hopen, hname⟩ := hopened.named old.opening
    ((openings_perm hw.running.distinct hf).mem_iff.mpr List.mem_cons_self)
  have hbound : (w.store.cache.disk.ids.find? old.file.name).isSome = true :=
    Option.isSome_iff_exists.mpr ⟨_, (congrArg _ hname).symm.trans (hopened.bound hopen).1⟩
  exact openScan_ok hw ht (hw.own_of_find hf) hroom (Or.inl hbound) hps hl other

/-- A file that was filled can be opened for scanning, and then be left to the scan. -/
lemma filled_of_open {g : HeapFile} (hw : Standing (· = "t") w)
    (ht : Running (fun opens => Tidy 4 opens opens) w)
    (hg : w.handles.find? "i" = some (.inserter g)) (hname : g.name = "t")
    (hothers : ∀ key, key ≠ "i" → w.handles.find? key = none)
    (hcontent : w.content "t" = update (fun _ => none) ⟨1, 0⟩ (some b)) :
    (perform (.openScan "s" "t") w).1 = .ok (.answer .done) ∧
      ∃ scan, Filled (perform (.close "i") (perform (.openScan "s" "t") w).2).2 b scan ∧
        scan.filter = none := by
  have hroom : (heldBy w.handles).length + 2 ≤ min 4 Frame.maxPins :=
    Nat.add_le_add_right (length_heldBy_le hw.running.distinct hg hothers) 2
  have hok := openScan_held hw ht hg hroom "s"
  rw [show (Handle.inserter g).file.name = "t" from hname] at hok
  obtain ⟨scan, hheld, hscan, hstart⟩ := held_openScan hw rfl hok
  obtain ⟨ps, hd, body, spare, hps, hl, hcur⟩ := hstart.first
  have hrecord : Heap.content ps ⟨1, 0⟩ = some b := by
    rw [← content_of_pages hps, hcontent, Function.update_self]
  have hfirst : hd.first = 1 := by
    have hle := UInt32.le_iff_toNat_le.mp (hl.first_le (hl.mem_body_of_content hrecord))
    have hpos : hd.first.toNat ≠ 0 := fun h0 => hl.pos hl.first_mem (UInt32.toNat_inj.mp h0)
    exact UInt32.toNat_inj.mp (Nat.le_antisymm hle (Nat.pos_of_ne_zero hpos))
  have hout := perform_outcome hw (.openScan "s" "t") rfl
  have hout' := perform_outcome hout.standing (.close "i") trivial
  refine ⟨hok, scan, ⟨?_, hscan, ?_, fun key hne => ?_, ?_⟩, hstart.filter⟩
  · rw [find?_perform (by simp [Action.handle?])]
    exact hheld
  · rw [Scan.position, hcur, hstart.cursor, hstart.finished, hfirst]
  · by_cases hkey : key = "i"
    · rw [hkey]
      exact find?_perform_close _
    · rw [find?_perform (by simpa [Action.handle?] using Ne.symm hkey),
        find?_perform (by simpa [Action.handle?] using Ne.symm hne)]
      exact hothers key hkey
  · rw [content, hout'.spares rfl id, hout.spares rfl id, ← content, hcontent]

/-- A record is put into a new file. -/
def filling (b : Bytes) : List Action := [.create "t", .openInserter "i" "t", .insert "i" b]

/-- It gets the first slot of the first page, and the file can be scanned. -/
lemma filled_small (hlen : b.length ≤ Page.maxRecord) :
    let run := (start .small fun _ _ => none).run
    (perform (.insert "i" b) (run [.create "t", .openInserter "i" "t"])).1 =
        .ok (.answer (.inserted ⟨1, 0⟩)) ∧
      (perform (.openScan "s" "t") (run (filling b))).1 = .ok (.answer .done) ∧
      ∃ scan, Filled (run (filling b ++ [.openScan "s" "t", .close "i"])) b scan ∧
        scan.filter = none := by
  intro run
  have hstart : ∀ key, (start .small fun _ _ => none).handles.find? key = none := fun _ => rfl
  obtain ⟨hins, hcontent, g, hg, hname⟩ := created_small.insert rfl
    (fun other => by rw [create_handles, hstart]) hlen (by decide) "i"
  have hst : Standing (· = "t") (run (filling b)) :=
    run_standing (start_standing .small fun _ _ => none) (by simp [filling, Action.On])
  have hothers : ∀ key, key ≠ "i" → (run (filling b)).handles.find? key = none := fun key hne =>
    (find?_run (by simp [filling, Action.handle?, hne.symm]) _).trans (hstart key)
  have ht : Running (fun opens => Tidy 4 opens opens) (run (filling b)) :=
    run_tidy Cache.ofConfig_small _
  have hrun : run (filling b) = (perform (.insert "i" b) (perform (.openInserter "i" "t")
    (perform (.create "t") (start .small fun _ _ => none)).2).2).2 := rfl
  rw [← hrun] at hcontent hg
  have hfilled := filled_of_open hst ht hg hname hothers hcontent
  rw [show run (filling b ++ [.openScan "s" "t", .close "i"]) =
    (run (filling b)).run [.openScan "s" "t", .close "i"] from run_append ..]
  exact ⟨hins, hfilled⟩

end Filled

end Workspace
end PagedHeap
