import PagedHeap.Proofs.ForgottenIds
import PagedHeap.Proofs.Granted
import PagedHeap.Proofs.Provenance

/-! Files that are removed and created anew. The new file has no records but those that were put into
it since, and an id that was never in use. What is still cached of the old one has no way to it. -/
namespace PagedHeap

open Function (update)

namespace Workspace
variable {own : String → Prop} {w w' : Workspace} {a : Action} {actions : List Action}
  {name key : String} {old : Handle} {res : Except StoreError (Reply Answer)}

/-- A heap file that nobody has open can be removed, and created anew. -/
theorem recreate_ok {n : Nat} {ps : List Page} (hw : Standing own w)
    (ht : Running (fun opens => Tidy n opens opens) w) (hn : own name)
    (hps : w.pages name = some ps) (hclosed : w.store.cache.disk.isOpen name = false)
    (hpath : Path.trailing (w.store.cache.disk.path name) = false)
    (hroom : (heldBy w.handles).length + 2 ≤ min n Frame.maxPins)
    (hid : w.store.cache.disk.nextId.toNat + 1 < UInt32.size) :
    (perform (.destroy name) w).1 = .ok (.answer .done) ∧
      (perform (.create name) (perform (.destroy name) w).2).1 = .ok (.answer .done) := by
  obtain ⟨l, k, hplace⟩ : ∃ l k, w.store.cache.disk.place name = .file l k := by
    have hthere : (w.store.cache.disk.number? name).isSome = true := by
      rw [pages, Cache.pages_eq] at hps
      split at hps
      · next hk => exact hk
      · cases hps
    rw [Disk.number?] at hthere
    cases hp : w.store.cache.disk.place name <;> rw [hp] at hthere
    case file l k => exact ⟨l, k, rfl⟩
    all_goals cases hthere
  obtain ⟨d, hr⟩ : ∃ d, w.store.cache.disk.destroy name = .ok d :=
    ⟨_, Disk.destroy_eq_ok_iff.mpr ⟨hclosed, l, k, hplace, rfl⟩⟩
  obtain ⟨l', hfree⟩ := Disk.place_of_destroy hr
  have ht' := perform_keeps (Tended.upheld ..) ht (.destroy name)
  have hdestroy := perform_destroy name w
  rw [hr] at hdestroy
  rw [hdestroy] at ht' ⊢
  refine ⟨rfl, (create_ok (destroy_standing hw hn hr).1 ht' hn hroom ?_
    (Disk.create_eq_ok_iff.mpr ⟨?_, l', hfree, rfl⟩)).1⟩
  all_goals obtain ⟨-, -, -, -, rfl⟩ := Disk.destroy_eq_ok_iff.mp hr
  · exact hid
  · exact hpath

/-- The action neither removes the file of a name nor is an insertion into it. -/
structure Leaves (w : Workspace) (name : String) (a : Action) : Prop where
  notDestroyed : a ≠ .destroy name
  notInserted : ∀ {key b h}, a = .insert key b → w.handles.find? key = some h → h.file.name ≠ name

/-- So do all actions of a run. -/
def LeavesAll (w : Workspace) (name : String) (actions : List Action) : Prop :=
  ∀ before a after, actions = before ++ a :: after → (w.run before).Leaves name a

/-- A file without records is not touched by what does not fill it. -/
lemma Leaves.not_touches {ps : List Page} (hl : w.Leaves name a) (he : Effect own w a res w')
    (hps : w.pages name = some ps) (hempty : ∀ r, w.content name r = none) :
    ¬ Touches w name a res := by
  intro ht
  have hno : ∀ {scan : Scan} {key r b}, w.handles.find? key = some (.scan scan) →
      w.content scan.file.name r = some b →
      ¬ ∃ h, w.handles.find? key = some h ∧ h.file.name = name := by
    rintro scan key r b hf hb ⟨h, hf', rfl⟩
    cases hf.symm.trans hf'
    cases (hempty r).symm.trans hb
  cases a with
  | create file => cases hps.symm.trans ht.2
  | insert key b =>
    obtain ⟨h, hf, hname⟩ := ht
    exact hl.notInserted rfl hf hname
  | delete key =>
    rcases res with e | (_ | _ | _)
    case ok.answer =>
      obtain ⟨scan, r, b, hf, -, hb, -⟩ := he
      exact hno hf hb ht
    all_goals exact ht
  | update key b =>
    rcases res with e | (_ | _ | _)
    case ok.answer =>
      obtain ⟨scan, r, b₀, hf, -, hb, -⟩ := he
      exact hno hf hb ht
    all_goals exact ht
  | _ => exact ht

/-- A file that is as it was created stays so until it is filled. -/
lemma new_perform (h : Standing own w) (ha : a.Within own) (hn : own name) (hl : w.Leaves name a)
    (hnew : w.pages name = some (Shown.newPages name)) :
    (perform a w).2.pages name = some (Shown.newPages name) := by
  have hempty : ∀ r, w.content name r = none := fun r => by
    obtain ⟨-, -, hcontent, -⟩ := Shown.layout_newPages w.store.Torn name
    rw [content_of_pages hnew, hcontent]
  refine (perform_spares h ha hn hl.notDestroyed ?_).trans hnew
  rcases ha.cases with hon | ⟨file, -, rfl⟩
  · rcases (perform_outcome h a hon).effect with ⟨key, b, rfl, -⟩ | heffect
    · rintro ⟨old, hf, hname⟩
      exact hl.notInserted rfl hf hname
    · exact hl.not_touches heffect hnew hempty
  · exact fun ht => ht

lemma new_run (h : Standing own w) (hwithin : ∀ a ∈ actions, a.Within own) (hn : own name)
    (hl : w.LeavesAll name actions) (hnew : w.pages name = some (Shown.newPages name)) :
    (w.run actions).pages name = some (Shown.newPages name) := by
  induction actions generalizing w with
  | nil => exact hnew
  | cons a rest ih =>
    obtain ⟨ha, hrest⟩ := List.forall_mem_cons.mp hwithin
    refine ih (perform_standing h ha) hrest (fun before a' after he => ?_)
      (new_perform h ha hn (hl [] a rest rfl) hnew)
    exact hl (a :: before) a' after (congrArg (a :: ·) he)

/-- A handle on a file that is as it was created reads two pages and no records from the header. -/
lemma new_counts (h : Standing own w) (hf : w.handles.find? key = some old)
    (hnew : w.pages old.file.name = some (Shown.newPages old.file.name)) :
    old.file.pageCount w.store = 2 ∧ old.file.recordCount w.store = 0 := by
  obtain ⟨ps, hd, body, spare, hps, -, -, hon⟩ := h.on hf
  cases hps.symm.trans hnew
  obtain ⟨hd', hl, -, hcount⟩ := Shown.layout_newPages w.store.Torn old.file.name
  have hheader : old.file.fileHeader w.store = some hd' := hon.fileHeader.trans hl.header
  rw [HeapFile.pageCount, HeapFile.recordCount, hheader]
  rw [Heap.count_eq hl.header] at hcount
  exact ⟨UInt32.toNat_inj.mp hl.count, UInt32.toNat_inj.mp hcount⟩

/-- A handle has its file open under the id that is bound to the name. -/
lemma Standing.id_of_find (h : Standing own w) (hf : w.handles.find? key = some old) :
    w.store.cache.disk.ids.find? old.file.name = some old.file.id :=
  (h.running.inv.sound.opened (List.mem_map.mpr ⟨_, Table.mem_of_find? hf, rfl⟩)).2.1

lemma Standing.accounted (h : Standing own w) : Running Accounted w :=
  ⟨h.running.distinct, h.running.files, h.running.inv.sound.accounted⟩

/-- What there is to see of a file that was created anew, after actions on it. -/
structure Recreated (own : String → Prop) (name : String) (past : Workspace → Prop) (again : Workspace)
    (actions : List Action) : Prop where
  /-- Its id is none that was in use before. -/
  ids : ∀ {key h u other id}, (again.run actions).handles.find? key = some h →
    h.file.name = name → past u → u.store.cache.disk.ids.find? other = some id → h.file.id ≠ id
  /-- Nor is it that of a handle from then. -/
  handles : ∀ {key h u key' h'}, (again.run actions).handles.find? key = some h →
    h.file.name = name → past u → u.handles.find? key' = some h' → h.file.id ≠ h'.file.id
  /-- It is empty at first. -/
  empty : again.LeavesAll name actions → (again.run actions).content name = (fun _ => none) ∧
    ∀ {key h}, (again.run actions).handles.find? key = some h → h.file.name = name →
      h.file.pageCount (again.run actions).store = 2 ∧
      h.file.recordCount (again.run actions).store = 0
  /-- All records that are read were put there since. -/
  reads : ∀ {key h}, (again.run actions).handles.find? key = some h → h.file.name = name →
    (again.run actions).ReadsOnly key name (again.PutIn actions name)
  /-- What becomes of cached pages of its predecessors does not change it. -/
  inert : ∀ {u id}, past u → u.store.cache.disk.ids.find? name = some id →
    (again.run actions).store.cache.Inert id name
  /-- Nor does what is done to other files, or changes none. -/
  steady : ∀ {a}, a.Within own → a ≠ .destroy name →
    ¬ Touches (again.run actions) name a (perform a (again.run actions)).1 →
    (perform a (again.run actions)).2.pages name = (again.run actions).pages name

/-- The file of a name was removed at some time between two workspaces. -/
def Severed (name : String) (u w : Workspace) : Prop :=
  ∃ d d', u.store.cache.disk.Later d ∧ d.destroy name = .ok d' ∧ d'.Later w.store.cache.disk

namespace Severed
variable {u : Workspace} {other : String} {id new : UInt32}

lemma ne (hs : Severed name u w) (hu : Standing own u)
    (hnew : w.store.cache.disk.ids.find? name = some new)
    (hid : u.store.cache.disk.ids.find? other = some id) : new ≠ id := by
  obtain ⟨d, d', hl, hr, hl'⟩ := hs
  have hlt := UInt32.lt_of_lt_of_le (hu.running.inv.sound.accounted.opened.below hid) hl.next
  rintro rfl
  exact UInt32.not_le.mpr hlt (hl'.le_of_destroy hr hnew)

lemma inert (hs : Severed name u w) (hu : Standing own u) (hw : Standing own w)
    (hid : u.store.cache.disk.ids.find? name = some id) : w.store.cache.Inert id name := by
  obtain ⟨d, d', hl, hr, hl'⟩ := hs
  have ha := hw.running.inv.sound.accounted
  have hforgotten := hl.forgotten_of_destroy hu.running.inv.sound.accounted.opened hid hr
  exact Cache.inert_of_forgotten ha.pinned.wf ha.opened (hforgotten.later hl') name

end Severed

lemma severed_run {before earlier after : List Action} {r : Reply Answer} (h : Running Accounted w)
    (hearlier : earlier <+: before)
    (hdestroyed : (perform (.destroy name) (w.run before)).1 = .ok r) :
    Severed name (w.run earlier) (w.run (before ++ .destroy name :: after)) := by
  obtain ⟨rest, rfl⟩ := hearlier
  have hbefore := run_keeps Accounted.upheld h earlier
  rw [run_append _ (earlier ++ rest)]
  rw [perform_destroy] at hdestroyed
  have hstep := perform_keeps Accounted.upheld (run_keeps Accounted.upheld h (earlier ++ rest))
    (.destroy name)
  show Severed _ _ ((perform (.destroy name) (w.run (earlier ++ rest))).2.run after)
  rw [perform_destroy] at hstep ⊢
  rw [run_append] at hdestroyed hstep ⊢
  have hlater := run_later hbefore rest
  cases hr : ((w.run earlier).run rest).store.cache.disk.destroy name with
  | error e =>
    rw [hr] at hdestroyed
    cases hdestroyed
  | ok d =>
    rw [hr] at hstep
    exact ⟨_, d, hlater, hr, run_later hstep after⟩

lemma nextId_le_one (h : Standing (· = name) w) (hr : w.store.cache.disk.Rooted) :
    w.store.cache.disk.nextId.toNat ≤ 1 := by
  have hbound : ∀ id < w.store.cache.disk.nextId, w.store.cache.disk.ids.find? name = some id := by
    intro id hlt
    obtain ⟨m, hm⟩ := hr id hlt
    obtain rfl : m = name := (h.running.inv.sound.orderly.bound hm).1
    exact hm
  refine Nat.le_of_not_lt fun hlt => ?_
  have hzero := hbound 0 (UInt32.lt_iff_toNat_lt.mpr (Nat.lt_of_succ_lt hlt))
  cases hzero.symm.trans (hbound 1 (UInt32.lt_iff_toNat_lt.mpr hlt))

end Workspace
end PagedHeap
