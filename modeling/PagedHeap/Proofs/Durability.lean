import PagedHeap.Proofs.DiskHistory
import PagedHeap.Proofs.Granted

/-! What is on the disk where nothing is refused. A cached page that is not on the disk as it is in
its frame is marked dirty, or somebody who holds it will have it marked. So a file that nobody has
open is on the disk as it is seen, and a new cache over the same directory opens it with the same
header and the same records. -/
namespace PagedHeap

open Function (update)

/-- A disk that is mounted anew over the same directory has the same files in order. -/
lemma Orderly.remounted {own : String → Prop} {d : Disk} (ho : Orderly own d) :
    Orderly own { tree := d.tree, dir := d.dir } where
  apart := ho.apart
  number_lt := ho.number_lt
  number_inj := ho.number_inj
  bound hi := by cases hi
  opened hf := by cases hf
  size := ho.size

/-- A new cache over the directory of a disk. -/
def Disk.remount (d : Disk) (frames : Nat) : Cache :=
  { pool := Pool.ofSize frames, disk := { tree := d.tree, dir := d.dir } }

namespace Disk
variable {d : Disk} {own : String → Prop} {config : Config} {frames : Nat}

lemma ofConfig_eq_remount (h : d.Mounted) (hv : config.validate = .ok ())
    (hdir : config.dataDir = d.dir) :
    Cache.ofConfig config d.tree = .ok (d.remount config.frames) := by
  simp [Cache.ofConfig, hv, hdir, h.mount_eq, remount, bind, Except.bind, pure, Except.pure]

/-- The store over a new cache shows the files as they are on the disk. -/
lemma remount_shown (ho : Orderly own d)
    (hc : Cache.ofConfig config d.tree = .ok (d.remount frames)) :
    Shown own (d.remount frames).pages False [] [] { cache := d.remount frames } := by
  have ha := (Workspace.start_accounted hc fun _ _ => none).inv
  refine ⟨⟨ha, ho.remounted, fun hi => ?_, fun hi => ?_, fun hi => ?_⟩, fun _ => rfl,
    False.elim⟩ <;> cases hi

end Disk

namespace Workspace
variable {own : String → Prop} {w : Workspace} {n : Nat} {name : String} {ps : List Page}
  {hd : FileHeader} {body : List UInt32} {spare : Option UInt32} {id : PageId}

/-- A handle holds the page, and reports a change of it when it gives it back. -/
def Reports (w : Workspace) (id : PageId) : Prop :=
  ∃ key h p, w.handles.find? key = some h ∧ (h.file.current = some p ∨ h.file.header = some p) ∧
    p.hold h.file.id = ⟨id, p.frame, true⟩

/-- No change of a cached page is forgotten: what is not on the disk is marked dirty, or will be. -/
def Truthful (w : Workspace) : Prop :=
  ∀ id i f, w.store.cache.pool.cached id = some (i, f) →
    ∃ name, w.store.cache.disk.ids.find? name = some id.file ∧
      (f.contents ≠ w.store.cache.disk.stored name id.page → f.dirty = true ∨ w.Reports id)

/-- A heap file is on the disk as it is: none of its cached pages is marked dirty, and any new cache
over the same directory that has room for two pages opens it with the same header and records. -/
structure Durable (w : Workspace) (name : String) : Prop where
  clean : ∀ id, w.store.cache.disk.ids.find? name = some id.file → ¬ w.store.cache.pool.Marked id
  reopens : ∀ config : Config, config.validate = .ok () → 2 ≤ config.frames →
    config.dataDir = w.store.cache.disk.dir →
    ∃ cache f s hd, Cache.ofConfig config w.store.cache.disk.tree = .ok cache ∧
      Store.openHeap name { cache } = (.ok f, s) ∧
      (w.pages name).bind Heap.header? = some hd ∧ f.fileHeader s = some hd ∧
      content { store := s } name = w.content name

/-- What is held dirty is held by a handle. -/
lemma reports_of_held (hdistinct : w.handles.Distinct) {h : Hold} (hh : h ∈ heldBy w.handles)
    (hdirty : h.dirty = true) : w.Reports h.id := by
  obtain ⟨⟨key, handle⟩, he, hh⟩ := List.mem_flatMap.mp hh
  obtain ⟨p, hp, rfl⟩ := List.mem_map.mp hh
  have hp' : handle.file.current = some p ∨ handle.file.header = some p := by
    rcases List.mem_append.mp hp with hp | hp
    · exact Or.inl (Option.mem_toList.mp hp)
    · exact Or.inr (Option.mem_toList.mp hp)
  refine ⟨key, handle, p, hdistinct.find?_eq_some_iff.mpr he, hp', ?_⟩
  have hd : p.dirty = true := hdirty
  simp [PinnedPage.hold, hd]

variable (hw : Standing own w) (ht : Running (fun opens => Tidy n opens opens) w)
include hw ht

/-- Only those who hold a page may still have to report a change of it. -/
theorem truthful (hr : w.store.cache.disk.Rooted) : w.Truthful := by
  intro id i f hc
  have hf := hw.running.inv.sound.faithful
  obtain ⟨name, hi⟩ := hr id.file (hf.issued hc)
  refine ⟨name, hi, fun hne => ?_⟩
  rcases hf.truthful hc hi with hdirty | hst | hr | ⟨h, hh, rfl, hdirty⟩
  · exact Or.inl hdirty
  · exact absurd hst hne
  · exact absurd (ht.inv.returned id) hr
  · exact Or.inr (reports_of_held hw.running.distinct hh hdirty)

/-- No page of a file is marked that nobody has open. -/
theorem clean_of_closed (id : PageId) (hclosed : w.store.cache.disk.isOpen name = false)
    (hi : w.store.cache.disk.ids.find? name = some id.file) : ¬ w.store.cache.pool.Marked id := by
  intro hm
  obtain ⟨name', ho⟩ := ht.inv.marked hm
  obtain ⟨-, hi', -⟩ := hw.running.inv.sound.opened ho
  obtain rfl := ht.inv.accounted.opened.inj hi hi'
  have hopen := ht.inv.accounted.opened.isOpen_iff.mpr ⟨_, ho, rfl⟩
  rw [hopen] at hclosed
  cases hclosed

theorem stored_of_closed (hclosed : w.store.cache.disk.isOpen name = false) (page : UInt32) :
    w.store.cache.page name page = w.store.cache.disk.stored name page := by
  have hf := hw.running.inv.sound.faithful
  cases hi : w.store.cache.disk.ids.find? name with
  | none => exact Cache.page_of_away fun file hfile => by cases hi.symm.trans hfile
  | some file =>
    cases hc : w.store.cache.pool.cached ⟨file, page⟩ with
    | none =>
      refine Cache.page_of_away fun file' hfile => ?_
      cases hi.symm.trans hfile
      exact hc
    | some e =>
      rw [Cache.page_of_cached (i := e.1) (f := e.2) hi hc]
      rcases hf.truthful (i := e.1) (f := e.2) hc hi with hdirty | hst | hr | ⟨h, hh, hid, -⟩
      · exact absurd ⟨e.1, e.2, hc, hdirty⟩
          (clean_of_closed hw ht ⟨file, page⟩ hclosed hi)
      · exact hst
      · exact absurd (ht.inv.returned _) hr
      · obtain ⟨⟨key, handle⟩, he, hh⟩ := List.mem_flatMap.mp hh
        have ho : (handle.file.id, handle.file.name) ∈ openings w.handles :=
          List.mem_map.mpr ⟨_, he, rfl⟩
        have hfile := HeapFile.file_of_holds hh
        rw [hid] at hfile
        obtain ⟨-, hi', -⟩ := hw.running.inv.sound.opened ho
        rw [← hfile] at hi'
        have hname := ht.inv.accounted.opened.inj hi hi'
        have hopen := ht.inv.accounted.opened.isOpen_iff.mpr ⟨_, ho, hname.symm⟩
        rw [hopen] at hclosed
        cases hclosed

lemma pages_remount (hclosed : w.store.cache.disk.isOpen name = false) (frames : Nat) :
    (w.store.cache.disk.remount frames).pages name = w.pages name := by
  refine Cache.pages_congr rfl rfl fun page => ?_
  rw [stored_of_closed hw ht hclosed]
  exact Cache.page_of_away fun file hfile => by cases hfile

theorem durable_of_closed (hmounted : w.store.cache.disk.Mounted)
    (hclosed : w.store.cache.disk.isOpen name = false) (hn : own name)
    (hps : w.pages name = some ps) (hl : Heap.Layout w.store.Torn ps hd body spare) :
    w.Durable name := by
  refine ⟨fun id hi => clean_of_closed hw ht id hclosed hi, fun config hv hroom hdir => ?_⟩
  have hc := Disk.ofConfig_eq_remount hmounted hv hdir
  have hshown := Disk.remount_shown hw.running.inv.sound.orderly hc
  have hpages := (pages_remount hw ht hclosed config.frames).trans hps
  have hl' : Heap.Layout False ps hd body spare :=
    hl.mono fun ⟨id, hr⟩ => hr (ht.inv.returned id)
  have htidy := (start_tidy hc).inv
  have hids : (0 : UInt32).toNat + 1 < UInt32.size := by decide
  obtain ⟨f, s, hopen⟩ := hshown.openHeap_ok htidy hn (le_min hroom (by decide)) (Or.inr hids)
    (by decide) hpages hl'
  have hkept := Shown.admits hn [] [] _ hshown
  rw [hopen] at hkept
  have hsame : update (w.store.cache.disk.remount config.frames).pages name (some ps) =
      (w.store.cache.disk.remount config.frames).pages := Shown.update_same hpages
  let c : Site := ⟨own, (w.store.cache.disk.remount config.frames).pages, [(f.id, name)], [], f.id,
    name, List.mem_cons_self⟩
  have hon : c.On False ps f s := by
    show Kept (Shown own (update _ name (some ps)) False [(f.id, name)]) [] f.id name f s
    rw [hsame]
    exact hkept
  have hafter : s.cache.pages name = some ps := (hkept.holds.shows hn).trans hpages
  refine ⟨_, f, s, hd, hc, hopen, by rw [hps]; exact hl.header, hon.fileHeader.trans hl.header, ?_⟩
  unfold content
  rw [hps, pages, hafter]

omit hw ht

/-- Where nothing is refused, no change of a page is ever forgotten, and a heap file is durable when
it was closed as often as it was opened, and from its creation on if it was not opened at all. -/
theorem run_durable {cache : Cache} {actions : List Action} (h : Ready own cache)
    (hon : ∀ a ∈ actions, a.On own) :
    let run := (start cache fun _ _ => none).run
    (run actions).Truthful ∧
    (∀ before name after r, actions = before ++ .create name :: after →
      (perform (.create name) (run before)).1 = .ok r →
      (run actions).store.cache.disk.isOpen name = false → (run actions).Durable name) ∧
    ∀ before name after, actions = before ++ after →
      (run before).store.cache.disk.isOpen name = true →
      (run actions).store.cache.disk.isOpen name = false → (run actions).Durable name := by
  intro run
  obtain ⟨config, tree, hc⟩ := h.mounted
  have hstart := start_standing h fun _ _ => none
  have hstanding := fun {xs : List Action} (hxs : ∀ a ∈ xs, a.On own) => run_standing hstart hxs
  have htidy := run_tidy hc
  have hmounted := run_mounted (start_accounted hc fun _ _ => none) (start_mounted hc)
  have hrooted := run_rooted (start_accounted hc fun _ _ => none) (start_rooted hc) fun a ha =>
    (hon a ha).ne_destroy
  refine ⟨truthful (hstanding hon) (htidy actions) hrooted, ?_, ?_⟩
  · rintro before name after r rfl hok hclosed
    obtain ⟨hbefore, hrest⟩ := List.forall_mem_append.mp hon
    obtain ⟨hname, hafter⟩ := List.forall_mem_cons.mp hrest
    have hst := hstanding hbefore
    obtain ⟨ps, hd, body, spare, hps, hl, -⟩ := create_layout hst hname hok
    obtain ⟨qs, hd', body', spare', hqs, hl', -⟩ :=
      run_layout (perform_outcome hst _ hname).standing hafter hname hps hl
    have hrun : run (before ++ .create name :: after) =
        ((perform (.create name) (run before)).2).run after := run_append ..
    rw [← hrun] at hqs hl'
    exact durable_of_closed (hstanding hon) (htidy _) (hmounted _) hclosed hname hqs hl'
  · rintro before name after rfl hopen hclosed
    obtain ⟨hbefore, hafter⟩ := List.forall_mem_append.mp hon
    have hst := hstanding hbefore
    obtain ⟨⟨id, name⟩, ho, rfl⟩ := (htidy before).inv.accounted.opened.isOpen_iff.mp hopen
    obtain ⟨⟨key, handle⟩, he, heq⟩ := List.mem_map.mp ho
    cases heq
    have hf := hst.running.distinct.find?_eq_some_iff.mpr he
    have hn := hst.own_of_find hf
    obtain ⟨ps, hd, body, spare, hps, hl, -⟩ := (hst.placed hf).layout
    obtain ⟨qs, hd', body', spare', hqs, hl', -⟩ := run_layout hst hafter hn hps hl
    have hrun : run (before ++ after) = (run before).run after := run_append ..
    rw [← hrun] at hqs hl'
    exact durable_of_closed (hstanding hon) (htidy _) (hmounted _) hclosed hn hqs hl'

/-- A file is created, and a record put into it by a handle that is closed then. -/
theorem run_durable_insert :
    let filling : List Action := [.create "t", .openInserter "i" "t", .insert "i" [1, 2, 3]]
    let finished := (start .small fun _ _ => none).run (filling ++ [.close "i"])
    Ready (· = "t") .small ∧ (∀ a ∈ filling ++ [.close "i"], a.On (· = "t")) ∧
      finished.store.cache.disk.isOpen "t" = false ∧ finished.Durable "t" := by
  dsimp only
  generalize hfilling : [Action.create "t", .openInserter "i" "t", .insert "i" [1, 2, 3]] = filling
  have hon : ∀ a ∈ filling ++ [.close "i"], a.On (· = "t") := by simp [← hfilling, Action.On]
  have hnone : ∀ key, ((start .small fun _ _ => none).run
      (filling ++ [.close "i"])).handles.find? key = none :=
    find?_run_close (fun _ => rfl) (by simp [← hfilling, Action.handle?])
  have hclosed := (run_accounted (start_accounted Cache.ofConfig_small fun _ _ => none)
    (filling ++ [.close "i"])).not_open "t" fun key handle hf =>
      (Option.some_ne_none handle (hf.symm.trans (hnone key))).elim
  have hactions : filling ++ [.close "i"] = [] ++ .create "t" :: (filling.tail ++ [.close "i"]) := by
    rw [← hfilling]
    rfl
  exact ⟨.small, hon, hclosed,
    (run_durable .small hon).2.1 [] "t" _ _ hactions create_small.1 hclosed⟩

end Workspace
end PagedHeap
