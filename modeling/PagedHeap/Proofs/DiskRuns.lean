import PagedHeap.Proofs.DiskNames
import PagedHeap.Proofs.DiskSteps

/-! Runs of a disk. Files are created, opened, closed and destroyed, and their pages written, in any
order. Which id a name has and how often it is open can be read off a log of the calls and their
answers, without looking at the disk. -/
namespace PagedHeap

inductive DiskCall
  | create (name : String)
  | openFile (name : String)
  | closeFile (id : UInt32)
  | destroy (name : String)
  | writePage (id : PageId) (contents : Page)
  | allocPage (file : UInt32)

namespace DiskCall

/-- Does what is asked, step by step, and gives the id that was asked for, if one was. -/
def act : DiskCall → DiskM (Option UInt32)
  | create name => do DiskM.create name; return none
  | openFile name => return some (← DiskM.openFile name)
  | closeFile id => do DiskM.closeFile id; return none
  | destroy name => do DiskM.destroy name; return none
  | writePage id contents => do DiskM.writePage id contents; return none
  | allocPage file => do let _ ← DiskM.allocPage file; return none

/-- What a call comes to if it is done in one step. -/
def outcome (d : Disk) : DiskCall → Except StoreError (Option UInt32 × Disk)
  | create name => (d.create name).map fun d => (none, d)
  | openFile name => (d.openFile name).map fun r => (some r.1, r.2)
  | closeFile id => (d.closeFile id).map fun d => (none, d)
  | destroy name => (d.destroy name).map fun d => (none, d)
  | writePage id contents => (d.writePage id contents).map fun d => (none, d)
  | allocPage file => (d.allocPage file).map fun r => (none, r.2)

/-- Every call is done as a whole or not at all. -/
theorem act_apply (call : DiskCall) (d : Disk) : call.act d = DiskM.commit d (call.outcome d) := by
  cases call with
  | create name =>
    rw [act, bind_apply, DiskM.create_apply, outcome]
    cases d.create name <;> rfl
  | openFile name =>
    rw [act, bind_apply, DiskM.openFile_apply, outcome]
    cases d.openFile name <;> rfl
  | closeFile id =>
    rw [act, bind_apply, DiskM.closeFile_apply, outcome]
    cases d.closeFile id <;> rfl
  | destroy name =>
    rw [act, bind_apply, DiskM.destroy_apply, outcome]
    cases d.destroy name <;> rfl
  | writePage id contents =>
    rw [act, bind_apply, DiskM.writePage_apply, outcome]
    cases d.writePage id contents <;> rfl
  | allocPage file =>
    rw [act, bind_apply, DiskM.allocPage_apply, outcome]
    cases d.allocPage file <;> rfl

/-- Whether a call names no file but by a plain name. -/
def Plainly : DiskCall → Prop
  | create name | openFile name | destroy name => Plain name
  | _ => True

/-- What a call does that succeeds. -/
inductive Done (d : Disk) : DiskCall → Option UInt32 → Disk → Prop
  | create {name d'} (h : d.create name = .ok d') : Done d (.create name) none d'
  | openFile {name id d'} (h : d.openFile name = .ok (id, d')) :
      Done d (.openFile name) (some id) d'
  | closeFile {id d'} (h : d.closeFile id = .ok d') : Done d (.closeFile id) none d'
  | destroy {name d'} (h : d.destroy name = .ok d') : Done d (.destroy name) none d'
  | writePage {id contents d'} (h : d.Written d') : Done d (.writePage id contents) none d'
  | allocPage {file d'} (h : d.Written d') : Done d (.allocPage file) none d'

lemma exists_of_map_eq_ok {α β : Type} {f : α → β} {x : Except StoreError α} {b : β}
    (h : x.map f = .ok b) : ∃ a, x = .ok a ∧ f a = b := by
  cases x with
  | error => cases h
  | ok a => exact ⟨a, rfl, Except.ok.inj h⟩

theorem done_of_outcome {d d' : Disk} {call : DiskCall} {r : Option UInt32}
    (h : call.outcome d = .ok (r, d')) : Done d call r d' := by
  cases call with
  | create | openFile | closeFile | destroy =>
    obtain ⟨_, hd, he⟩ := exists_of_map_eq_ok h
    cases he
    constructor
    exact hd
  | writePage =>
    obtain ⟨_, hd, he⟩ := exists_of_map_eq_ok h
    cases he
    obtain ⟨g, hf, hp, rfl⟩ := Disk.writePage_eq_ok_iff.mp hd
    exact .writePage (.page .refl hf hp)
  | allocPage =>
    obtain ⟨_, hd, he⟩ := exists_of_map_eq_ok h
    cases he
    obtain ⟨g, hf, -, hp, he⟩ := Disk.allocPage_eq_ok_iff.mp hd
    rw [he]
    exact .allocPage (.page .refl hf hp)

end DiskCall

/-- A log of the calls of a disk, the last one first, each with the id or the error that it gave. -/
abbrev DiskLog := List (DiskCall × Except StoreError (Option UInt32))

namespace DiskLog

/-- The id under which a file was last opened by a name, if it was not destroyed since. -/
def idOf (name : String) : DiskLog → Option UInt32
  | [] => none
  | (.openFile other, .ok (some id)) :: rest => if other = name then some id else idOf name rest
  | (.destroy other, .ok _) :: rest => if other = name then none else idOf name rest
  | _ :: rest => idOf name rest

def opens (id : UInt32) : DiskLog → Nat
  | [] => 0
  | (.openFile _, .ok (some other)) :: rest => opens id rest + if other = id then 1 else 0
  | _ :: rest => opens id rest

def closes (id : UInt32) : DiskLog → Nat
  | [] => 0
  | (.closeFile other, .ok _) :: rest => closes id rest + if other = id then 1 else 0
  | _ :: rest => closes id rest

def bindings : DiskLog → Nat
  | [] => 0
  | (.openFile name, .ok (some _)) :: rest => bindings rest + if idOf name rest = none then 1 else 0
  | _ :: rest => bindings rest

end DiskLog

structure DiskUse where
  disk : Disk
  log : DiskLog := []

namespace DiskUse

def answer (u : DiskUse) (call : DiskCall) : Except StoreError (Option UInt32) :=
  (call.act u.disk).1

def step (u : DiskUse) (call : DiskCall) : DiskUse where
  disk := (call.act u.disk).2
  log := (call, u.answer call) :: u.log

lemma answer_eq (u : DiskUse) (call : DiskCall) :
    u.answer call = (call.outcome u.disk).map Prod.fst := by
  rw [answer, call.act_apply]
  cases call.outcome u.disk <;> rfl

@[simp] lemma answer_create (u : DiskUse) (name : String) :
    u.answer (.create name) = (u.disk.create name).map fun _ => none := by
  rw [answer_eq, DiskCall.outcome]
  cases u.disk.create name <;> rfl

@[simp] lemma answer_openFile (u : DiskUse) (name : String) :
    u.answer (.openFile name) = (u.disk.openFile name).map fun r => some r.1 := by
  rw [answer_eq, DiskCall.outcome]
  cases u.disk.openFile name <;> rfl

@[simp] lemma answer_closeFile (u : DiskUse) (id : UInt32) :
    u.answer (.closeFile id) = (u.disk.closeFile id).map fun _ => none := by
  rw [answer_eq, DiskCall.outcome]
  cases u.disk.closeFile id <;> rfl

@[simp] lemma answer_destroy (u : DiskUse) (name : String) :
    u.answer (.destroy name) = (u.disk.destroy name).map fun _ => none := by
  rw [answer_eq, DiskCall.outcome]
  cases u.disk.destroy name <;> rfl

def run (u : DiskUse) (calls : List DiskCall) : DiskUse := calls.foldl step u

variable {u : DiskUse} {call : DiskCall} {name other : String} {id : UInt32} {d' : Disk}

/-- The log tells what is bound and what is open on the disk. -/
structure Sound (u : DiskUse) : Prop where
  opened : ∃ opens, Opened opens u.disk
  uses : ∀ id, u.disk.uses id + u.log.closes id = u.log.opens id
  named : ∀ name, u.disk.ids.find? name = u.log.idOf name
  next : u.disk.nextId.toNat = u.log.bindings
  mounted : u.disk.Mounted
  plain : ∀ {name id}, u.disk.ids.find? name = some id → Plain name
  there : ∀ {id h}, u.disk.opened.find? id = some h → u.disk.present h.name = true

/-- A call fails and changes nothing, or does what it is to do. -/
theorem step_cases (u : DiskUse) (call : DiskCall) :
    (∃ e, u.answer call = .error e ∧ u.step call = { u with log := (call, .error e) :: u.log }) ∨
      ∃ r d', u.answer call = .ok r ∧ call.Done u.disk r d' ∧
        u.step call = { disk := d', log := (call, .ok r) :: u.log } := by
  cases hc : call.outcome u.disk with
  | error e =>
    have hact : call.act u.disk = (.error e, u.disk) := by rw [call.act_apply, hc, DiskM.commit]
    exact Or.inl ⟨e, by rw [answer, hact], by rw [step, answer, hact]⟩
  | ok r =>
    have hact : call.act u.disk = (.ok r.1, r.2) := by rw [call.act_apply, hc, DiskM.commit]
    exact Or.inr ⟨r.1, r.2, by rw [answer, hact], DiskCall.done_of_outcome hc,
      by rw [step, answer, hact]⟩

/-- An entry of the log that is neither an opening nor a closing that succeeded, nor a file that was
destroyed. -/
def Idle (entry : DiskCall × Except StoreError (Option UInt32)) : Prop :=
  ∀ log : DiskLog, (∀ name, DiskLog.idOf name (entry :: log) = log.idOf name) ∧
    (∀ id, DiskLog.opens id (entry :: log) = log.opens id) ∧
    (∀ id, DiskLog.closes id (entry :: log) = log.closes id) ∧
    DiskLog.bindings (entry :: log) = log.bindings

lemma idle_error (call : DiskCall) (e : StoreError) : Idle (call, .error e) := fun _ => by
  cases call <;> exact ⟨fun _ => rfl, fun _ => rfl, fun _ => rfl, rfl⟩

lemma Sound.idle {entry : DiskCall × Except StoreError (Option UInt32)} (h : u.Sound)
    (he : Idle entry) : Sound { u with log := entry :: u.log } := by
  obtain ⟨hid, hopens, hcloses, hbindings⟩ := he u.log
  refine ⟨h.opened, fun id => ?_, fun name => ?_, ?_, h.mounted, h.plain, h.there⟩
  · rw [hopens, hcloses]
    exact h.uses id
  · rw [hid]
    exact h.named name
  · rw [hbindings]
    exact h.next

lemma Sound.written (h : u.Sound) (hw : u.disk.Written d') : Sound { u with disk := d' } := by
  induction hw with
  | refl => exact h
  | @page d₁ f at' p _ here bounded ih =>
    obtain ⟨opens, hopened⟩ := ih.opened
    have hafter : Opened opens (d₁.written f at' p) := hopened.written (.page .refl here bounded)
    refine ⟨⟨_, hafter⟩, fun i => ?_, ih.named, ih.next, ih.mounted.mono rfl (List.Subset.refl _),
      ih.plain, fun {i g} hg => ?_⟩
    · rw [hafter.uses, ← hopened.uses]
      exact ih.uses i
    · rw [Disk.present, Disk.place_written]
      simp only [Disk.written, Table.find?_insert] at hg
      split at hg
      · cases hg
        have hthere := ih.there here
        exact hthere
      · exact ih.there hg

lemma Sound.openFile (h : u.Sound) (hn : Plain name) (ho : u.disk.openFile name = .ok (id, d')) :
    Sound { disk := d', log := (.openFile name, .ok (some id)) :: u.log } := by
  obtain ⟨opens, hopened⟩ := h.opened
  have hafter := hopened.openFile ho
  refine ⟨⟨_, hafter⟩, fun i => ?_, fun other => ?_, ?_, h.mounted.openFile ho, fun {m i} hi => ?_,
    fun {i g} hg => ?_⟩
  · have huses := h.uses i
    rw [hopened.uses] at huses
    rw [hafter.uses, List.countP_cons]
    simp only [DiskLog.closes, DiskLog.opens, decide_eq_true_eq]
    omega
  · rw [DiskLog.idOf, ← h.named]
    cases Disk.openFile_eq_ok_iff.mp ho with
    | again hi | bound _ _ hi =>
      split
      · next hname => rw [← hname, hi]
      · rfl
    | new =>
      rw [Table.find?_insert]
      simp only [eq_comm]
  · rw [DiskLog.bindings, ← h.named, ← h.next]
    cases Disk.openFile_eq_ok_iff.mp ho with
    | again hi | bound _ _ hi => simp [hi]
    | new _ _ hi hroom => simpa [hi] using Disk.toNat_add_one hroom
  · cases Disk.openFile_eq_ok_iff.mp ho with
    | again | bound => exact h.plain hi
    | new =>
      rw [Table.find?_insert] at hi
      split at hi
      · next hname => exact hname ▸ hn
      · exact h.plain hi
  · cases Disk.openFile_eq_ok_iff.mp ho with
    | again _ hf =>
      rw [Table.find?_insert] at hg
      split at hg
      · cases hg
        have hthere := h.there hf
        exact hthere
      · exact h.there hg
    | bound hp | new hp =>
      rw [Table.find?_insert] at hg
      split at hg
      · cases hg
        exact congrArg Place.occupied hp
      · exact h.there hg

lemma Sound.closeFile (h : u.Sound) (hc : u.disk.closeFile id = .ok d') :
    Sound { disk := d', log := (.closeFile id, .ok none) :: u.log } := by
  obtain ⟨opens, hopened⟩ := h.opened
  obtain ⟨g, hf, rfl⟩ := Disk.closeFile_eq_ok_iff.mp hc
  obtain ⟨rest, hperm⟩ := hopened.exists_perm hf
  obtain ⟨d₁, hd₁, hafter⟩ := (hopened.perm hperm).closeFile
  obtain rfl : d₁ = u.disk.closed id g := Except.ok.inj (hd₁.symm.trans hc)
  refine ⟨⟨_, hafter⟩, fun i => ?_, h.named, h.next, h.mounted.closeFile hc, h.plain,
    fun {i k} hk => ?_⟩
  · have huses := h.uses i
    rw [hopened.uses, hperm.countP_eq, List.countP_cons] at huses
    rw [hafter.uses]
    simp only [DiskLog.closes, DiskLog.opens, decide_eq_true_eq] at huses ⊢
    omega
  · rw [Disk.find?_closed] at hk
    split at hk
    · split at hk
      · cases hk
      · cases hk
        have hthere := h.there hf
        exact hthere
    · exact h.there hk

lemma Sound.create (h : u.Sound) (hc : u.disk.create name = .ok d') :
    Sound { disk := d', log := (.create name, .ok none) :: u.log } := by
  obtain ⟨opens, hopened⟩ := h.opened
  have hafter := hopened.create hc
  obtain ⟨l, -, hd⟩ := Disk.differs_create hc
  have hbooks : d'.ids = u.disk.ids ∧ d'.opened = u.disk.opened ∧ d'.nextId = u.disk.nextId := by
    obtain ⟨-, l, -, rfl⟩ := Disk.create_eq_ok_iff.mp hc
    exact ⟨rfl, rfl, rfl⟩
  refine ⟨⟨_, hafter⟩, fun i => ?_, fun m => ?_, ?_, h.mounted.create hc, fun {m i} hi => ?_,
    fun {i g} hg => ?_⟩
  · rw [hafter.uses, ← hopened.uses]
    exact h.uses i
  · rw [hbooks.1]
    exact h.named m
  · rw [hbooks.2.2]
    exact h.next
  · exact h.plain (hbooks.1 ▸ hi)
  · exact (hd.place g.name).occupied (h.there (hbooks.2.1 ▸ hg))

lemma Sound.destroy (h : u.Sound) (hn : Plain name) (hr : u.disk.destroy name = .ok d') :
    Sound { disk := d', log := (.destroy name, .ok none) :: u.log } := by
  obtain ⟨opens, hopened⟩ := h.opened
  have hafter := hopened.destroy hr
  have hmounted := h.mounted.destroy hr
  obtain ⟨l, k, hp, hd⟩ := Disk.differs_destroy hr
  have hbooks : d'.ids = u.disk.ids.erase name ∧ d'.opened = u.disk.opened ∧
      d'.nextId = u.disk.nextId := by
    obtain ⟨-, l, k, -, rfl⟩ := Disk.destroy_eq_ok_iff.mp hr
    exact ⟨rfl, rfl, rfl⟩
  have hids : ∀ m, d'.ids.find? m = if m = name then none else u.disk.ids.find? m := fun m => by
    rw [hbooks.1, Table.find?_erase]
  refine ⟨⟨_, hafter⟩, fun i => ?_, fun m => ?_, ?_, hmounted, fun {m i} hi => ?_,
    fun {i g} hg => ?_⟩
  · rw [hafter.uses, ← hopened.uses]
    exact h.uses i
  · rw [hids, DiskLog.idOf, ← h.named]
    simp only [eq_comm]
  · rw [hbooks.2.2]
    exact h.next
  · rw [hids] at hi
    split at hi
    · cases hi
    · exact h.plain hi
  · have hbound := (hafter.bound hg).1
    rw [hids] at hbound
    split at hbound
    · cases hbound
    · next hne =>
      rw [hbooks.2.1] at hg
      have hspot : d'.spot? name = some l := by
        rw [Disk.spot?, ← (hd.place name).spot?_eq, hp]
        rfl
      have hother : d'.spot? g.name ≠ some l := fun hl =>
        hne (hmounted.spot?_inj (h.plain (hopened.bound hg).1) hn hl hspot)
      exact ((hd.place g.name).occupied_eq hother).symm.trans (h.there hg)

/-- The log stays right, call after call. -/
theorem Sound.step (h : u.Sound) (hcall : call.Plainly) : (u.step call).Sound := by
  rcases u.step_cases call with ⟨e, -, hstep⟩ | ⟨r, d', -, done, hstep⟩ <;> rw [hstep]
  · exact h.idle (idle_error call e)
  · cases done with
    | create hd => exact h.create hd
    | openFile hd => exact h.openFile hcall hd
    | closeFile hd => exact h.closeFile hd
    | destroy hd => exact h.destroy hcall hd
    | writePage hw | allocPage hw =>
      exact (h.written hw).idle fun _ => ⟨fun _ => rfl, fun _ => rfl, fun _ => rfl, rfl⟩

theorem Sound.run (h : u.Sound) {calls : List DiskCall} (hcalls : ∀ call ∈ calls, call.Plainly) :
    (u.run calls).Sound := by
  induction calls generalizing u with
  | nil => exact h
  | cons call rest ih =>
    obtain ⟨hcall, hrest⟩ := List.forall_mem_cons.mp hcalls
    exact ih (h.step hcall) hrest

lemma sound_mount {dir : String} {tree : FileTree} {d : Disk} (hd : Disk.mount dir tree = .ok d) :
    Sound { disk := d } := by
  have hmounted := Disk.Mounted.of_mount hd
  obtain ⟨tree', -, rfl⟩ := Disk.mount_eq_ok_iff.mp hd
  exact ⟨⟨[], nofun, nofun, nofun, fun _ => rfl, nofun⟩, fun _ => rfl, fun _ => rfl, rfl, hmounted,
    nofun, nofun⟩

lemma later_step (u : DiskUse) (call : DiskCall) : u.disk.Later (u.step call).disk := by
  rcases u.step_cases call with ⟨e, -, hstep⟩ | ⟨r, d', -, done, hstep⟩ <;> rw [hstep]
  · exact .refl _
  · cases done with
    | create hd => exact .create hd
    | openFile hd => exact .openFile hd
    | closeFile hd => exact .closeFile hd
    | destroy hd => exact .destroy hd
    | writePage hw | allocPage hw => exact .written hw

lemma later_run (u : DiskUse) (calls : List DiskCall) : u.disk.Later (u.run calls).disk := by
  induction calls generalizing u with
  | nil => exact .refl _
  | cons call rest ih => exact (u.later_step call).trans (ih (u.step call))

lemma run_append (u : DiskUse) (before after : List DiskCall) :
    u.run (before ++ after) = (u.run before).run after := List.foldl_append

end DiskUse
end PagedHeap
