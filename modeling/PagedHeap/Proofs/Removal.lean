import PagedHeap.Proofs.Effects

/-! Removing files. The pool is not told of it: pages of the file stay where they are, but no name
leads to them any more. So the other files are seen as before, and what was in order still is. -/
namespace PagedHeap

open Function (update)

lemma Disk.place_of_destroy {d d' : Disk} {name : String} (hr : d.destroy name = .ok d') :
    ∃ l, d'.place name = .free l := by
  obtain ⟨l, k, hp, hd⟩ := differs_destroy hr
  have hspot : d'.spot? name = some l := (hd.place name).spot?_eq.symm.trans (congrArg Place.spot? hp)
  have hnone : d'.number? name = none := (FileTree.place_entry hspot).symm.trans hd.tree.free
  rw [spot?] at hspot
  rw [number?] at hnone
  cases hq : d'.place name <;> rw [hq] at hspot hnone
  case free l' => exact ⟨l', rfl⟩
  case file => cases hnone
  all_goals cases hspot

namespace Orderly
variable {own : String → Prop} {opens : List (UInt32 × String)} {d d' : Disk} {name m : String}

/-- A name comes to lead to no file and to have no id, and the others are left as they were. -/
structure Removed (own : String → Prop) (name : String) (d d' : Disk) : Prop where
  closed : d.isOpen name = false
  gone : d'.number? name = none
  others : ∀ {m}, own m → m ≠ name → d'.number? m = d.number? m
  spot : ∀ m, d'.spot? m = d.spot? m
  ids : ∀ m, d'.ids.find? m = if m = name then none else d.ids.find? m
  files : d'.tree.next = d.tree.next ∧ d'.tree.read = d.tree.read
  bindings : d'.opened = d.opened ∧ d'.nextId = d.nextId

lemma removed (ho : Orderly own d) (hn : own name) (hr : d.destroy name = .ok d') :
    Removed own name d d' := by
  obtain ⟨l, k, hp, hd⟩ := Disk.differs_destroy hr
  obtain ⟨hclosed, l', k', hp', rfl⟩ := Disk.destroy_eq_ok_iff.mp hr
  obtain ⟨rfl, rfl⟩ := Place.file.inj (hp.symm.trans hp')
  have hspot : d.spot? name = some l := congrArg Place.spot? hp
  have hsame := fun m => (hd.place m).spot?_eq
  refine ⟨hclosed, ?_, fun {m} hm hne => ?_, fun m => (hsame m).symm, fun m => Table.find?_erase ..,
    ⟨rfl, rfl⟩, rfl, rfl⟩
  · obtain ⟨l', hfree⟩ := Disk.place_of_destroy hr
    exact congrArg Place.number? hfree
  · refine ((hd.place m).number?_eq fun hl => hne ?_).symm
    exact ho.apart hm hn ((hsame m).trans hl) hspot

namespace Removed

lemma ne_of_bound (h : Removed own name d d') {id : UInt32} (hi : d'.ids.find? m = some id) :
    m ≠ name ∧ d.ids.find? m = some id := by
  rw [h.ids] at hi
  split at hi
  · cases hi
  · next hne => exact ⟨hne, hi⟩

lemma number_before (h : Removed own name d d') {k : Nat} (hm : own m) (hk : d'.number? m = some k) :
    m ≠ name ∧ d.number? m = some k := by
  have hne : m ≠ name := by
    rintro rfl
    cases h.gone.symm.trans hk
  exact ⟨hne, (h.others hm hne).symm.trans hk⟩

theorem orderly (h : Removed own name d d') (hd : Opened opens d) (ho : Orderly own d) :
    Orderly own d' where
  apart {m m' l} hm hm' hl hl' :=
    ho.apart hm hm' ((h.spot m).symm.trans hl) ((h.spot m').symm.trans hl')
  number_lt hm hk := h.files.1.symm ▸ ho.number_lt hm (h.number_before hm hk).2
  number_inj hm hm' hk hk' :=
    ho.number_inj hm hm' (h.number_before hm hk).2 (h.number_before hm' hk').2
  bound {m i} hi := by
    obtain ⟨hne, hi⟩ := h.ne_of_bound hi
    obtain ⟨hm, k, hk⟩ := ho.bound hi
    exact ⟨hm, k, (h.others hm hne).trans hk⟩
  opened {i g} hg := by
    rw [h.bindings.1] at hg
    have hi := (hd.bound hg).1
    have hne : g.name ≠ name := by
      rintro rfl
      have hopen : d.isOpen g.name = true := Option.isSome_iff_exists.mpr
        ⟨(i, g), Disk.openAs?_eq_some_iff.mpr ⟨hi, hg⟩⟩
      cases h.closed.symm.trans hopen
    rw [h.others (ho.bound hi).1 hne, h.files.2]
    exact ho.opened hg
  size hm hk := by
    rw [h.files.2]
    exact ho.size hm (h.number_before hm hk).2

lemma contentsOf_self (h : Removed own name d d') : d'.contentsOf name = none := by
  rw [Disk.contentsOf_eq, h.gone]
  rfl

lemma contentsOf_other (h : Removed own name d d') (hm : own m) (hne : m ≠ name) :
    d'.contentsOf m = d.contentsOf m := by
  rw [Disk.contentsOf_eq, Disk.contentsOf_eq, h.others hm hne, h.files.2]

end Removed
end Orderly

/-- What is cached of a removed file is of no account, and no other file has changed. -/
theorem Faithful.destroy {own : String → Prop} {excused : PageId → Prop} {c : Cache} {d : Disk}
    {name : String} (ho : Orderly own c.disk) (hf : Faithful excused c)
    (h : Orderly.Removed own name c.disk d) :
    Faithful excused { c with disk := d } ∧ Cache.pages { c with disk := d } name = none ∧
      ∀ {m}, own m → m ≠ name → Cache.pages { c with disk := d } m = c.pages m := by
  have hother : ∀ {m i}, d.ids.find? m = some i →
      c.disk.ids.find? m = some i ∧ d.file m = c.disk.file m := by
    intro m i hi
    obtain ⟨hne, hi'⟩ := h.ne_of_bound hi
    exact ⟨hi', congrArg (·.getD {}) (h.contentsOf_other (ho.bound hi').1 hne)⟩
  refine ⟨⟨fun {id i f} hc => ?_, fun {id i f m} hc hm => ?_, fun {id i f m} hc hm => ?_⟩, ?_,
    fun {m} hm hne => ?_⟩
  · exact lt_of_lt_of_eq (hf.issued hc) h.bindings.2.symm
  · obtain ⟨hm', hfile⟩ := hother hm
    unfold Disk.extent
    rw [hfile]
    exact hf.resident hc hm'
  · obtain ⟨hm', hfile⟩ := hother hm
    unfold Disk.stored
    rw [hfile]
    exact hf.truthful hc hm'
  · unfold Cache.pages
    rw [h.contentsOf_self]
    rfl
  · have hcontents := h.contentsOf_other hm hne
    unfold Cache.pages Cache.page Disk.stored Disk.file
    dsimp only
    rw [hcontents, h.ids, if_neg hne]

/-- A file is removed that is not open, or nothing is. -/
theorem Shown.destroyFile {own : String → Prop} {F : String → Option (List Page)} {t : Prop}
    {opens : List (UInt32 × String)} {holds : List Hold} {s : Store} {name : String} {d : Disk}
    (hn : own name) (hs : Shown own F t opens holds s) (hr : s.cache.disk.destroy name = .ok d) :
    Shown own (update F name none) t opens holds { s with cache := { s.cache with disk := d } } := by
  have ⟨⟨ha, ho, hf⟩, hshows, htorn⟩ := hs
  have hremoved := ho.removed hn hr
  obtain ⟨hf', hgone, hsame⟩ := hf.destroy ho hremoved
  have hacc : Accounted opens holds { s with cache := { s.cache with disk := d } } :=
    ⟨ha.pinned.ofDisk d, ha.opened.destroy hr⟩
  refine ⟨⟨hacc, hremoved.orderly ha.opened ho, hf'⟩, fun {m} hm => ?_, htorn⟩
  by_cases hm' : m = name
  · rw [hm', Function.update_self]
    exact hgone
  · rw [Function.update_of_ne hm', ← hshows hm]
    exact hsame hm hm'

/-- The action is on these files, if it is on a file at all. -/
def Action.Within (own : String → Prop) (a : Action) : Prop := ∀ file, a.file? = some file → own file

lemma Action.Within.cases {own : String → Prop} {a : Action} (h : a.Within own) :
    a.On own ∨ ∃ file, own file ∧ a = .destroy file := by
  cases a with
  | destroy file => exact Or.inr ⟨file, h file rfl, rfl⟩
  | create file | openReader _ file | openInserter _ file | openScan _ file =>
    exact Or.inl (h file rfl)
  | _ => exact Or.inl trivial

namespace Workspace
open HandleM
variable {own : String → Prop} {w : Workspace} {actions : List Action} {name : String}

/-- The removal of a file is an operation of the disk. -/
lemma perform_destroy (name : String) (w : Workspace) : perform (.destroy name) w =
    match w.store.cache.disk.destroy name with
    | .ok disk =>
      (.ok (.answer .done), { w with store.cache.disk := disk })
    | .error e => (.error e, w) := by
  rw [perform, map_apply]
  unfold onStore
  rw [Store.destroyHeap, Store.destroyFile, Store.updateDisk_apply]
  cases w.store.cache.disk.destroy name <;> rfl

theorem destroy_standing (h : Standing own w) (hn : own name) {d : Disk}
    (hr : w.store.cache.disk.destroy name = .ok d) :
    let w' : Workspace := { w with store.cache.disk := d }
    Standing own w' ∧ ∀ {m}, own m → w'.pages m = update w.pages name none m := by
  intro w'
  have hrunning : Running (Shown own (update w.pages name none) w.store.Torn) w' :=
    h.running.beside fun hs => hs.destroyFile hn hr
  have hclosed := (h.running.inv.sound.orderly.removed hn hr).closed
  refine Standing.of_running hrunning (fun m ps hm hps => ?_) fun {key old} hf => ?_
  · rw [Function.update_apply] at hps
    split at hps
    · cases hps
    · exact h.formed m ps hm hps
  · rw [Function.update_of_ne]
    · exact h.placed hf
    · intro hname
      have hopen := h.running.inv.sound.accounted.opened.isOpen_iff.mpr
        ⟨_, List.mem_map.mpr ⟨_, Table.mem_of_find? hf, rfl⟩, hname⟩
      cases hclosed.symm.trans hopen

theorem perform_standing (h : Standing own w) {a : Action} (ha : a.Within own) :
    Standing own (perform a w).2 := by
  rcases ha.cases with ha | ⟨file, hn, rfl⟩
  · exact (perform_outcome h a ha).standing
  · rw [perform_destroy]
    split
    · next hr => exact (destroy_standing h hn hr).1
    · exact h

theorem perform_spares (h : Standing own w) {a : Action} (ha : a.Within own) (hn : own name)
    (hne : a ≠ .destroy name) (ht : ¬ Touches w name a (perform a w).1) :
    (perform a w).2.pages name = w.pages name := by
  rcases ha.cases with hon | ⟨file, hfile, rfl⟩
  · exact (perform_outcome h a hon).spares hn ht
  · have hother : name ≠ file := fun he => hne (congrArg Action.destroy he.symm)
    rw [perform_destroy]
    split
    · next hr => exact ((destroy_standing h hfile hr).2 hn).trans (Function.update_of_ne hother ..)
    · rfl

theorem run_within (h : Standing own w) (hwithin : ∀ a ∈ actions, a.Within own) :
    Standing own (w.run actions) := by
  induction actions generalizing w with
  | nil => exact h
  | cons a rest ih =>
    obtain ⟨ha, hrest⟩ := List.forall_mem_cons.mp hwithin
    exact ih (perform_standing h ha) hrest

/-- What a run does not touch or remove it leaves as it is. -/
theorem run_spares (h : Standing own w) (hwithin : ∀ a ∈ actions, a.Within own) (hn : own name)
    (hlooks : ∀ a ∈ actions, ∀ w res, a ≠ .destroy name ∧ ¬ Touches w name a res) :
    (w.run actions).pages name = w.pages name := by
  induction actions generalizing w with
  | nil => rfl
  | cons a rest ih =>
    obtain ⟨ha, hrest⟩ := List.forall_mem_cons.mp hwithin
    obtain ⟨hlook, hlooks'⟩ := List.forall_mem_cons.mp hlooks
    obtain ⟨hne, ht⟩ := hlook w (perform a w).1
    exact (ih (perform_standing h ha) hrest hlooks').trans (perform_spares h ha hn hne ht)

end Workspace
end PagedHeap
