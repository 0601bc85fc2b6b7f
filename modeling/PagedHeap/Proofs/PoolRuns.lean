import Mathlib.Data.List.Count
import Mathlib.Data.List.Range
import PagedHeap.Proofs.PoolRoom

/-! Runs of a pool. Whatever is asked of it, and whatever the sinks it writes to do, the frames are
shared out between the free list and the table, and each page has the pins that were taken of it and
not yet dropped, as far as so many can be counted. -/
namespace PagedHeap

inductive PoolCall (σ : Type)
  /-- To pin a page, of zeros if it is new. -/
  | new (id : PageId) (sink : Sink σ)
  /-- To pin a page, with these contents if it is new. -/
  | load (id : PageId) (contents : Page) (sink : Sink σ)
  /-- To pin a page that is cached. -/
  | fetch (id : PageId)
  /-- To drop a pin of a page. -/
  | unpin (id : PageId) (dirty : Bool)
  /-- To write out a page. -/
  | flushPage (id : PageId) (sink : Sink σ)
  /-- To write out the pages of a file. -/
  | flushFile (file : UInt32) (sink : Sink σ)
  /-- To write out all pages. -/
  | flushAll (sink : Sink σ)
  /-- Somebody who was given the frame writes to it. -/
  | write (frame : Nat) (contents : Page)

namespace PoolCall

inductive Answer
  | frame (number : Nat)
  | absent
  | written (count : Nat)
  | flushed (whether : Bool)
  | done
  deriving DecidableEq

variable {σ : Type}

def perform : PoolCall σ → Pool → σ → Except StoreError Answer × Pool × σ
  | new id sink, pool, s =>
    let (r, pool, s) := pool.claim sink id Page.blank s
    (r.map .frame, pool, s)
  | load id contents sink, pool, s =>
    let (r, pool, s) := pool.claim sink id contents s
    (r.map .frame, pool, s)
  | fetch id, pool, s =>
    match pool.fetch id with
    | some (i, pool) => (.ok (.frame i), pool, s)
    | none => (.ok .absent, pool, s)
  | unpin id dirty, pool, s =>
    match pool.unpin id dirty with
    | .ok pool => (.ok .done, pool, s)
    | .error e => (.error e, pool, s)
  | flushPage id sink, pool, s =>
    let (r, pool, s) := pool.flushPage sink id s
    (r.map .flushed, pool, s)
  | flushFile file sink, pool, s =>
    let (r, pool, s) := pool.flush sink (fun id => id.file = file) s
    (r.map .written, pool, s)
  | flushAll sink, pool, s =>
    let (r, pool, s) := pool.flush sink (fun _ => true) s
    (r.map .written, pool, s)
  | write frame contents, pool, s =>
    (.ok .done, pool.modifyFrame frame fun f => { f with contents }, s)

def wants? : PoolCall σ → Option PageId
  | new id _ | load id _ _ | fetch id => some id
  | _ => none

def gives? : PoolCall σ → Option PageId
  | unpin id _ => some id
  | _ => none

/-- How many pins of a page a call takes, by what comes of it. -/
def taken (call : PoolCall σ) (answer : Except StoreError Answer) (id : PageId) : Nat :=
  match answer with
  | .ok (.frame _) => if call.wants? = some id then 1 else 0
  | _ => 0

/-- How many pins of a page a call drops, by what comes of it. -/
def dropped (call : PoolCall σ) (answer : Except StoreError Answer) (id : PageId) : Nat :=
  match answer with
  | .ok _ => if call.gives? = some id then 1 else 0
  | .error _ => 0

/-- Whether a call asks for a page with an id that can be told from none. -/
def Proper (call : PoolCall σ) : Prop := call.wants? ≠ some Frame.unassigned

lemma taken_of_none {call : PoolCall σ} (h : call.wants? = none) (answer : Except StoreError Answer)
    (id : PageId) : call.taken answer id = 0 := by
  cases answer with
  | error => rfl
  | ok a => cases a <;> simp [taken, h]

lemma dropped_of_none {call : PoolCall σ} (h : call.gives? = none)
    (answer : Except StoreError Answer) (id : PageId) : call.dropped answer id = 0 := by
  cases answer <;> simp [dropped, h]

end PoolCall

/-- For each page how many pins were taken and dropped since it is cached. -/
structure PinTally where
  taken : PageId → Nat := fun _ => 0
  dropped : PageId → Nat := fun _ => 0

/-- A pool in use, and the tally of its users. -/
structure PoolUse (σ : Type) where
  pool : Pool
  behind : σ
  tally : PinTally := {}

namespace PoolUse
variable {σ : Type}

/-- The tally after a call. A page that was not cached before it starts anew. -/
def note (u : PoolUse σ) (call : PoolCall σ) (answer : Except StoreError PoolCall.Answer) :
    PinTally where
  taken id := (if u.pool.contains id then u.tally.taken id else 0) + call.taken answer id
  dropped id := (if u.pool.contains id then u.tally.dropped id else 0) + call.dropped answer id

/-- The pins of a page that are still to be dropped. -/
def outstanding (u : PoolUse σ) (id : PageId) : Nat :=
  if u.pool.contains id then u.tally.taken id - u.tally.dropped id else 0

def step (u : PoolUse σ) (call : PoolCall σ) : PoolUse σ where
  pool := (call.perform u.pool u.behind).2.1
  behind := (call.perform u.pool u.behind).2.2
  tally := u.note call (call.perform u.pool u.behind).1

def run (n : Nat) (behind : σ) (calls : List (PoolCall σ)) : PoolUse σ :=
  calls.foldl step { pool := Pool.ofSize n, behind }

lemma run_append (n : Nat) (behind : σ) (before after : List (PoolCall σ)) :
    run n behind (before ++ after) = after.foldl step (run n behind before) :=
  List.foldl_append

end PoolUse

namespace Pool
variable {σ : Type} {sink : Sink σ} {pool : Pool} {id : PageId} {i : Nat} {s : σ}

/-- The free list and the table share out the frames. -/
theorem Wf.perm (h : pool.Wf) :
    (pool.free ++ pool.table.entries.map Prod.snd).Perm (List.range pool.size) := by
  have hfind : ∀ {e}, e ∈ pool.table.entries → pool.find? e.1 = some e.2 := fun he =>
    h.distinct.find?_eq_some_iff.mpr he
  have hnodup : (pool.table.entries.map Prod.snd).Nodup := by
    refine (List.Nodup.of_map _ h.distinct).map_on fun a ha b hb hab => ?_
    have hid : a.1 = b.1 := h.find?_inj (hfind ha) (hab ▸ hfind hb)
    exact Prod.ext hid hab
  have hapart : pool.free.Disjoint (pool.table.entries.map Prod.snd) := by
    intro i hi hm
    obtain ⟨e, he, rfl⟩ := List.mem_map.mp hm
    exact h.unbound hi (hfind he)
  refine (List.perm_ext_iff_of_nodup (h.nodup.append hnodup hapart) List.nodup_range).mpr
    fun i => ?_
  rw [List.mem_append, List.mem_range]
  constructor
  · rintro (hi | hi)
    · exact h.lt hi
    · obtain ⟨e, he, rfl⟩ := List.mem_map.mp hi
      exact (h.bound (hfind he)).1
  · intro hi
    by_cases hf : i ∈ pool.free
    · exact Or.inl hf
    · exact Or.inr (List.mem_map_of_mem (Table.mem_of_find? (h.covered hi hf)))

/-- Every frame is on the free list once and bound to no page, or is bound to one page, its own. -/
structure Partitioned (pool : Pool) : Prop where
  keys : pool.table.keys.Nodup
  frames : ∀ i < pool.size,
    (pool.free.count i = 1 ∧ ∀ e ∈ pool.table.entries, e.2 ≠ i) ∨
      (i ∉ pool.free ∧ ∃ id, (pool.frame i).page? = some id ∧
        pool.table.entries.filter (·.2 = i) = [(id, i)])
  count : pool.free.length + pool.table.size = pool.size

theorem Wf.partitioned (h : pool.Wf) : pool.Partitioned where
  keys := h.distinct
  frames i hi := by
    have hone : pool.free.count i + (pool.table.entries.map Prod.snd).count i = 1 := by
      rw [← List.count_append, h.perm.count_eq]
      exact List.count_eq_one_of_mem List.nodup_range (List.mem_range.mpr hi)
    by_cases hf : i ∈ pool.free
    · have hpos : 0 < pool.free.count i := List.count_pos_iff.mpr hf
      have hout : i ∉ pool.table.entries.map Prod.snd := List.count_eq_zero.mp (by omega)
      exact Or.inl ⟨by omega, fun e he hei => hout (hei ▸ List.mem_map_of_mem he)⟩
    · have hfind := h.covered hi hf
      have hmem := Table.mem_of_find? hfind
      refine Or.inr ⟨hf, (pool.frame i).bound,
        (Frame.page?_eq_some_iff _ _).mpr ⟨rfl, (h.bound hfind).2.2⟩, ?_⟩
      have hlen : (pool.table.entries.filter (·.2 = i)).length = 1 := by
        have hzero : pool.free.count i = 0 := List.count_eq_zero.mpr hf
        rw [hzero, Nat.zero_add, List.count, List.countP_map] at hone
        rw [← List.countP_eq_length_filter, ← hone]
        exact List.countP_congr fun e _ => by simp
      obtain ⟨e, he⟩ := List.length_eq_one_iff.mp hlen
      have hin : ((pool.frame i).bound, i) ∈ pool.table.entries.filter (·.2 = i) :=
        List.mem_filter.mpr ⟨hmem, by simp⟩
      rw [he, List.mem_singleton] at hin
      rw [he, hin]
  count := by simpa [Table.size] using h.perm.length_eq

end Pool

namespace PoolUse
variable {σ : Type} {u : PoolUse σ}

/-- The pool is in order, and the pins of every cached page are those of the tally, counted round. -/
structure Sound (n : Nat) (u : PoolUse σ) : Prop where
  wf : u.pool.Wf
  size : u.pool.size = n
  dropped : ∀ id, u.pool.contains id = true → u.tally.dropped id ≤ u.tally.taken id
  pins : ∀ id, u.pool.pins id = u.outstanding id % UInt32.size

lemma pins_of_away {id : PageId} (h : u.pool.contains id = false) : u.pool.pins id = 0 := by
  rw [Pool.pins, Pool.cached, Pool.contains_eq_false_iff.mp h]
  rfl

lemma Sound.next {n : Nat} {call : PoolCall σ} (h : u.Sound n) (hw : (u.step call).pool.Wf)
    (hs : (u.step call).pool.size = u.pool.size)
    (hp : ∀ id, call.dropped (call.perform u.pool u.behind).1 id ≤ u.pool.pins id ∧
      (u.step call).pool.pins id = (u.pool.pins id +
        call.taken (call.perform u.pool u.behind).1 id -
          call.dropped (call.perform u.pool u.behind).1 id) % UInt32.size) :
    (u.step call).Sound n := by
  have hcount : ∀ id,
      (u.step call).tally.dropped id ≤ (u.step call).tally.taken id ∧
      (u.step call).pool.pins id =
        ((u.step call).tally.taken id - (u.step call).tally.dropped id) % UInt32.size := by
    intro id
    obtain ⟨hle, hnow⟩ := hp id
    have hpins := h.pins id
    have hdropped := h.dropped id
    simp only [step, note, outstanding, UInt32.size] at hnow hpins ⊢
    by_cases hc : u.pool.contains id = true
    · have hdropped := hdropped hc
      simp only [hc, if_true] at hpins ⊢
      omega
    · simp only [hc, Bool.false_eq_true, if_false] at hpins ⊢
      omega
  refine ⟨hw, hs.trans h.size, fun id _ => (hcount id).1, fun id => ?_⟩
  by_cases hc : (u.step call).pool.contains id = true
  · rw [outstanding, if_pos hc]
    exact (hcount id).2
  · rw [pins_of_away (Bool.eq_false_iff.mpr hc), outstanding, if_neg hc, Nat.zero_mod]

lemma Sound.claim {n : Nat} {call : PoolCall σ} {id : PageId} {contents : Page} {sink : Sink σ}
    (h : u.Sound n) (hid : id ≠ Frame.unassigned) (hwants : call.wants? = some id)
    (hgives : call.gives? = none)
    (hcall : call.perform u.pool u.behind =
      ((u.pool.claim sink id contents u.behind).1.map .frame,
        (u.pool.claim sink id contents u.behind).2)) : (u.step call).Sound n := by
  obtain ⟨hw, hclaimed⟩ := h.wf.claim hid sink contents u.behind
  refine h.next ?_ ?_ fun other => ?_
  · rw [step, hcall]
    exact hw
  · rw [step, hcall]
    exact Pool.size_claim ..
  · rw [step, hcall]
    generalize u.pool.claim sink id contents u.behind = r at hclaimed
    obtain ⟨_ | i, pool', s'⟩ := r
    · have hsame : pool'.pins other = u.pool.pins other := by
        rw [Pool.pins, Pool.pins, hclaimed.cached_of_error other]
      refine ⟨Nat.zero_le _, hsame.trans ?_⟩
      exact (Nat.mod_eq_of_lt (u.pool.pins_lt other)).symm
    · refine ⟨by simp [PoolCall.dropped, hgives, Except.map], ?_⟩
      rw [hclaimed.pins_mod]
      simp [PoolCall.dropped, PoolCall.taken, Except.map, hwants, hgives, eq_comm]

lemma Sound.same {n : Nat} {call : PoolCall σ} (h : u.Sound n) (hwants : call.wants? = none)
    (hgives : call.gives? = none) (hw : (u.step call).pool.Wf)
    (hs : Pool.SamePins u.pool (u.step call).pool) : (u.step call).Sound n := by
  refine h.next hw hs.size fun id => ?_
  rw [hs.pins, PoolCall.dropped_of_none hgives, PoolCall.taken_of_none hwants]
  exact ⟨Nat.zero_le _, (Nat.mod_eq_of_lt (u.pool.pins_lt id)).symm⟩

lemma Sound.fetch {n : Nat} (h : u.Sound n) (id : PageId) : (u.step (.fetch id)).Sound n := by
  cases hf : u.pool.fetch id with
  | none =>
    have hcall : (PoolCall.fetch id).perform u.pool u.behind = (.ok .absent, u.pool, u.behind) := by
      simp only [PoolCall.perform, hf]
    refine h.next ?_ ?_ fun other => ?_ <;> rw [PoolUse.step, hcall]
    · exact h.wf
    · exact ⟨Nat.zero_le _, (Nat.mod_eq_of_lt (u.pool.pins_lt other)).symm⟩
  | some found =>
    obtain ⟨i, pool'⟩ := found
    have hcall : (PoolCall.fetch id).perform u.pool u.behind = (.ok (.frame i), pool', u.behind) := by
      simp only [PoolCall.perform, hf]
    obtain ⟨hw, f, hc, hnow⟩ := h.wf.fetch hf
    have hclaimed : Pool.Claimed (fun _ _ s => (.ok (), s)) id Page.blank u.pool u.behind
        (.ok i, pool', u.behind) := .hit hc hnow
    refine h.next ?_ ?_ fun other => ?_ <;> rw [PoolUse.step, hcall]
    · exact hw
    · exact Pool.size_fetch hf
    · simp [hclaimed.pins_mod, PoolCall.dropped, PoolCall.taken, PoolCall.wants?, PoolCall.gives?,
        eq_comm]

lemma Sound.unpin {n : Nat} (h : u.Sound n) (id : PageId) (dirty : Bool) :
    (u.step (.unpin id dirty)).Sound n := by
  cases hp : u.pool.unpin id dirty with
  | error e =>
    have hcall : (PoolCall.unpin id dirty).perform u.pool u.behind = (.error e, u.pool, u.behind) := by
      simp only [PoolCall.perform, hp]
    refine h.next ?_ ?_ fun other => ?_ <;> rw [PoolUse.step, hcall]
    · exact h.wf
    · exact ⟨Nat.zero_le _, (Nat.mod_eq_of_lt (u.pool.pins_lt other)).symm⟩
  | ok pool' =>
    have hcall : (PoolCall.unpin id dirty).perform u.pool u.behind = (.ok .done, pool', u.behind) := by
      simp only [PoolCall.perform, hp]
    obtain ⟨i, f, hc, hpins, hw, hnow⟩ := h.wf.unpin_cached hp
    refine h.next ?_ ?_ fun other => ?_ <;> rw [PoolUse.step, hcall]
    · exact hw
    · exact Pool.size_unpin hp
    · simp only [PoolCall.dropped, PoolCall.taken, PoolCall.gives?, Option.some.injEq]
      have hlt := u.pool.pins_lt other
      by_cases ho : id = other
      · subst ho
        rw [if_pos rfl]
        have hbefore : u.pool.pins id = f.pins := by simp [Pool.pins, hc]
        have hafter : pool'.pins id = f.pins - 1 := by simp [Pool.pins, hnow, Frame.pins_drop hpins]
        rw [hbefore] at hlt
        rw [hbefore, hafter, Nat.mod_eq_of_lt (by omega)]
        exact ⟨by omega, rfl⟩
      · rw [if_neg ho, Nat.add_zero, Nat.sub_zero, Nat.mod_eq_of_lt hlt]
        exact ⟨Nat.zero_le _, by simp [Pool.pins, hnow, Ne.symm ho]⟩

/-- Each call keeps the pool in order and is accounted for. -/
theorem Sound.step {n : Nat} (h : u.Sound n) {call : PoolCall σ} (hcall : call.Proper) :
    (u.step call).Sound n := by
  cases call with
  | new id sink => exact h.claim (fun hid => hcall (congrArg some hid)) rfl rfl rfl
  | load id contents sink => exact h.claim (fun hid => hcall (congrArg some hid)) rfl rfl rfl
  | fetch id => exact h.fetch id
  | unpin id dirty => exact h.unpin id dirty
  | flushPage id sink =>
    obtain ⟨hw, hs⟩ := h.wf.flush_same sink (fun other => other = id) u.behind
    exact h.same rfl rfl hw hs
  | flushFile file sink =>
    obtain ⟨hw, hs⟩ := h.wf.flush_same sink (fun id => id.file = file) u.behind
    exact h.same rfl rfl hw hs
  | flushAll sink =>
    obtain ⟨hw, hs⟩ := h.wf.flush_same sink (fun _ => true) u.behind
    exact h.same rfl rfl hw hs
  | write frame contents =>
    have hsame : Pool.SamePins u.pool u.pool := ⟨rfl, fun _ => rfl, fun _ => rfl⟩
    exact h.same rfl rfl (h.wf.modifyFrame frame (fun f => { f with contents }) rfl)
      (hsame.modifyFrame (fun f => { f with contents }) (fun _ => rfl) frame)

theorem sound_run (n : Nat) (behind : σ) (calls : List (PoolCall σ))
    (hcalls : ∀ call ∈ calls, call.Proper) : (run n behind calls).Sound n := by
  have hfrom : ∀ u : PoolUse σ, u.Sound n → (calls.foldl PoolUse.step u).Sound n := by
    induction calls with
    | nil => exact fun _ hu => hu
    | cons call rest ih =>
      obtain ⟨hcall, hrest⟩ := List.forall_mem_cons.mp hcalls
      exact fun u hu => ih hrest _ (hu.step hcall)
  exact hfrom _ ⟨Pool.wf_ofSize n, Pool.size_ofSize n, fun id hc => (by cases hc), fun id => rfl⟩

/-- How a pool of `n` frames stands between its calls. The pins that were taken of a page and not
dropped are those of its frame if there are fewer than 2^32. -/
structure Structured (n : Nat) (u : PoolUse σ) : Prop where
  size : u.pool.size = n
  frames : u.pool.Partitioned
  counted : ∀ {id i}, u.pool.find? id = some i →
    (u.pool.frame i).pins = u.outstanding id % UInt32.size
  pins : ∀ {id i}, u.pool.find? id = some i → u.outstanding id < UInt32.size →
    (u.pool.frame i).pins + u.tally.dropped id = u.tally.taken id
  /-- Dropping a pin fails if there is none, and only then. -/
  refused : ∀ id dirty e, u.outstanding id < UInt32.size →
    ((PoolCall.perform (.unpin id dirty) u.pool u.behind).1 = .error e ↔
      e = .pageNotPinned id ∧
        (u.pool.contains id = false ∨ u.tally.taken id = u.tally.dropped id))
  unchanged : ∀ id dirty e, (PoolCall.perform (.unpin id dirty) u.pool u.behind).1 = .error e →
    (PoolCall.perform (.unpin id dirty) u.pool u.behind).2 = (u.pool, u.behind)

lemma Sound.pins_of_lt {n : Nat} (h : u.Sound n) {id : PageId}
    (hfew : u.outstanding id < UInt32.size) : u.pool.pins id = u.outstanding id := by
  rw [h.pins, Nat.mod_eq_of_lt hfew]

lemma Sound.no_pins_iff {n : Nat} (h : u.Sound n) {id : PageId}
    (hfew : u.outstanding id < UInt32.size) : u.pool.pins id = 0 ↔
      u.pool.contains id = false ∨ u.tally.taken id = u.tally.dropped id := by
  rw [h.pins_of_lt hfew, outstanding]
  cases hc : u.pool.contains id with
  | false => simp
  | true =>
    have hdropped := h.dropped id hc
    simp only [if_true, Bool.true_eq_false, false_or]
    omega

/-- After any calls, each frame is on the free list or holds one page of its own, and each page has
the pins that were taken and not dropped since it is cached. -/
theorem run_structured (n : Nat) (behind : σ) (calls : List (PoolCall σ))
    (hcalls : ∀ call ∈ calls, call.Proper) : (run n behind calls).Structured n := by
  have h := sound_run n behind calls hcalls
  generalize run n behind calls = u at h
  have hframe : ∀ {id i}, u.pool.find? id = some i →
      u.pool.contains id = true ∧ u.pool.pins id = (u.pool.frame i).pins := by
    intro id i hi
    refine ⟨?_, by simp [Pool.pins, Pool.cached, hi]⟩
    rw [← Bool.not_eq_false, Pool.contains_eq_false_iff, hi]
    exact Option.some_ne_none i
  refine ⟨h.size, h.wf.partitioned, fun {id i} hi => ?_, fun {id i} hi hfew => ?_,
    fun id dirty e hfew => ?_, fun id dirty e he => ?_⟩
  · rw [← (hframe hi).2, h.pins]
  · obtain ⟨hc, hpins⟩ := hframe hi
    have hdropped := h.dropped id hc
    rw [← hpins, h.pins_of_lt hfew, outstanding, if_pos hc]
    omega
  · rw [← h.no_pins_iff hfew, ← Pool.unpin_eq_error_iff dirty]
    cases hp : u.pool.unpin id dirty <;> simp [PoolCall.perform, hp]
  · cases hp : u.pool.unpin id dirty with
    | error e' => simp [PoolCall.perform, hp]
    | ok pool' => simp [PoolCall.perform, hp] at he

/-- However often the only page of a pool is pinned, it stands in its frame, and its pins are counted
round. -/
lemma run_fetches (id : PageId) (sink : Sink σ) (behind : σ) (k : Nat) :
    (run 1 behind (.new id sink :: List.replicate k (.fetch id))).pool =
      Pool.single id Page.blank (UInt32.ofNat (k + 1)) := by
  induction k with
  | zero => rfl
  | succ k ih =>
    rw [List.replicate_succ', ← List.cons_append, run_append, List.foldl_cons, List.foldl_nil,
      PoolUse.step, PoolCall.perform, ih, Pool.fetch_single, ← UInt32.ofNat_one, ← UInt32.ofNat_add]

/-- A page is pinned, given back dirty and cannot be written out to make room for another. -/
theorem run_structured_stuck :
    let calls : List (PoolCall Unit) := [.new ⟨0, 0⟩ fun _ _ s => (.ok (), s),
      .unpin ⟨0, 0⟩ true, .load ⟨0, 1⟩ Page.blank fun _ _ s => (.error (.io "write"), s)]
    (∀ call ∈ calls, call.Proper) ∧ (run 1 () calls).Structured 1 := by
  have hcalls : ∀ call ∈ ([.new ⟨0, 0⟩ fun _ _ s => (.ok (), s), .unpin ⟨0, 0⟩ true,
      .load ⟨0, 1⟩ Page.blank fun _ _ s => (.error (.io "write"), s)] : List (PoolCall Unit)),
      call.Proper := by
    simp [PoolCall.Proper, PoolCall.wants?, Frame.unassigned, noPage]
  exact ⟨hcalls, run_structured 1 () _ hcalls⟩

end PoolUse
end PagedHeap
