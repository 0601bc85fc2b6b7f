import PagedHeap.Proofs.PoolRuns

/-! What a call writes, and what it does to each page. The writes are those that a sink which keeps a
log of them is asked for in place of the call's own; keeping the log changes nothing else.
`PoolCall.Passage` lists what can become of a page: it is not there, comes, leaves, or stays in its
frame. -/
namespace PagedHeap

structure Write where
  id : PageId
  contents : Page
  granted : Bool
  deriving DecidableEq

variable {σ : Type}

/-- A sink that also keeps a log of its writes. -/
def Sink.logged (sink : Sink σ) : Sink (σ × List Write) := fun id contents t =>
  let (r, s) := sink id contents t.1
  (r, s, t.2 ++ [⟨id, contents, r.isOk⟩])

lemma Sink.logged_eq {sink : Sink σ} {id : PageId} {contents : Page} {r : Except StoreError Unit}
    {s s' : σ} {log : List Write} (h : sink.logged id contents (s, []) = (r, s', log)) :
    sink id contents s = (r, s') ∧ log = [⟨id, contents, r.isOk⟩] := by
  cases h
  exact ⟨rfl, rfl⟩

/-- What is left of an outcome without the log. -/
def unlogged {α : Type} (r : α × Pool × σ × List Write) : α × Pool × σ := (r.1, r.2.1, r.2.2.1)

namespace Pool
variable {sink : Sink σ} {pool pool' : Pool} {id : PageId} {i : Nat} {s s' : σ}

lemma vacate_logged (sink : Sink σ) (pool : Pool) (t : σ × List Write) :
    unlogged (pool.vacate sink.logged t) = pool.vacate sink t.1 := by
  unfold Pool.vacate
  split
  · rfl
  · dsimp only
    split
    · rfl
    · next i _ =>
      split
      · rfl
      · next old _ =>
        split
        · simp only [Sink.logged]
          generalize sink old _ t.1 = r
          rcases r with ⟨_ | _, _⟩ <;> rfl
        · rfl

lemma claim_logged (sink : Sink σ) (id : PageId) (contents : Page) (pool : Pool)
    (t : σ × List Write) :
    unlogged (pool.claim sink.logged id contents t) = pool.claim sink id contents t.1 := by
  unfold Pool.claim
  split
  · rfl
  · rw [← vacate_logged]
    rcases pool.vacate sink.logged t with ⟨_ | _, _, _⟩ <;> rfl

lemma flushEach_logged (sink : Sink σ) (pages : List (PageId × Nat)) (pool : Pool)
    (t : σ × List Write) :
    unlogged (flushEach sink.logged pages pool t) = flushEach sink pages pool t.1 := by
  induction pages generalizing pool t with
  | nil => rfl
  | cons e rest ih =>
    obtain ⟨id, i⟩ := e
    rcases hs : sink id (pool.frame i).contents t.1 with ⟨_ | _, s⟩
    · simp [flushEach, Sink.logged, unlogged, hs]
    · have hrest := ih (pool.modifyFrame i Frame.clean)
        (s, t.2 ++ [⟨id, (pool.frame i).contents, true⟩])
      simp only [flushEach, Sink.logged, hs, ← hrest]
      rfl

lemma flush_logged (sink : Sink σ) (select : PageId → Bool) (pool : Pool) (t : σ × List Write) :
    unlogged (pool.flush sink.logged select t) = pool.flush sink select t.1 :=
  flushEach_logged ..

/-- The frame whose page has to leave if room for another is to be made. -/
def victim? (pool : Pool) : Option Nat :=
  match pool.free with
  | _ :: _ => none
  | [] => (pool.clock.sweep fun i => !(pool.frame i).pinned).victim

lemma victim?_of_free (h : pool.free = []) :
    pool.victim? = (pool.clock.sweep fun i => !(pool.frame i).pinned).victim := by
  simp only [victim?, h]

lemma Wf.pins_victim (h : pool.Wf) (hv : pool.victim? = some i) : (pool.frame i).pins = 0 := by
  unfold victim? at hv
  split at hv
  · cases hv
  · next hfree =>
    obtain ⟨id, -, -, hpins⟩ := h.victim hfree hv
    exact hpins

/-- A frame that was found and was in use is the victim. -/
lemma Wf.victim_of_vacate (h : pool.Wf) (hv : (pool.vacate sink s).1 = .ok i)
    (hi : pool.find? id = some i) : pool.victim? = some i := by
  have hvacancy := h.vacancy sink s
  generalize pool.vacate sink s = r at hvacancy hv
  cases hvacancy with
  | unused free =>
    cases hv
    exact absurd hi (h.unbound (free ▸ List.mem_cons_self))
  | full | stuck => cases hv
  | clean free _ chosen =>
    cases hv
    exact (victim?_of_free free).trans chosen
  | washed free _ chosen =>
    cases hv
    exact (victim?_of_free free).trans chosen

/-- What writing out makes of a page: it stays where it is, and is clean if it was written. -/
inductive Washed (log : List Write) (id : PageId) :
    Option (Nat × Frame) → Option (Nat × Frame) → Prop
  | absent (unwritten : ∀ w ∈ log, w.id ≠ id) : Washed log id none none
  | there {i f dirty} (dirty_iff : dirty = true ↔ f.dirty = true ∧ ⟨id, f.contents, true⟩ ∉ log)
      (written : ∀ w ∈ log, w.id = id → w.contents = f.contents) :
      Washed log id (some (i, f)) (some (i, { f with dirty }))

lemma Washed.refl (id : PageId) (e : Option (Nat × Frame)) : Washed [] id e e := by
  cases e with
  | none => exact .absent nofun
  | some e => exact .there (by simp) nofun

lemma Washed.other {log : List Write} {e e' : Option (Nat × Frame)} {w : Write}
    (h : Washed log id e e') (hw : w.id ≠ id) : Washed (log ++ [w]) id e e' := by
  cases h with
  | absent unwritten =>
    refine .absent fun x hx => ?_
    rcases List.mem_append.mp hx with hx | hx
    · exact unwritten x hx
    · exact List.mem_singleton.mp hx ▸ hw
  | @there i f dirty dirty_iff written =>
    refine .there ?_ fun x hx hid => ?_
    · have hne : (⟨id, f.contents, true⟩ : Write) ≠ w := fun h => hw (h ▸ rfl)
      simp [dirty_iff, hne]
    · rcases List.mem_append.mp hx with hx | hx
      · exact written x hx hid
      · exact absurd (List.mem_singleton.mp hx ▸ hid) hw

lemma Washed.self {log : List Write} {e : Option (Nat × Frame)} {f : Frame}
    (h : Washed log id e (some (i, f))) (granted : Bool) :
    Washed (log ++ [⟨id, f.contents, granted⟩]) id e
      (some (i, if granted then f.clean else f)) := by
  cases h with
  | @there _ f dirty dirty_iff written =>
    have hall : ∀ w ∈ log ++ [⟨id, f.contents, granted⟩], w.id = id → w.contents = f.contents := by
      intro w hw hid
      rcases List.mem_append.mp hw with hw | hw
      · exact written w hw hid
      · exact List.mem_singleton.mp hw ▸ rfl
    cases granted with
    | true => exact .there (by simp) hall
    | false => exact .there (by simpa using dirty_iff) hall

theorem Wf.flush_washed (h : pool.Wf) (sink : Sink σ) (select : PageId → Bool) (s : σ)
    (id : PageId) :
    Washed (pool.flush sink.logged select (s, [])).2.2.2 id (pool.cached id)
      ((pool.flush sink.logged select (s, [])).2.1.cached id) := by
  refine (h.flush (s := (s, []))
    (P := fun pool' t => ∀ id, Washed t.2 id (pool.cached id) (pool'.cached id))
    sink.logged select (fun {pool' t here i} hw hp _ hi => ?_) fun id => Washed.refl id _).2 id
  have hhere := hp here
  rw [cached_eq_some_iff.mpr ⟨hi, rfl⟩] at hhere
  rcases hs : sink here (pool'.frame i).contents t.1 with ⟨_ | _, s'⟩ <;>
    simp only [Sink.logged, hs] <;> intro id
  · by_cases hid : id = here
    · subst hid
      rw [cached_eq_some_iff.mpr ⟨hi, rfl⟩]
      exact hhere.self false
    · exact (hp id).other (Ne.symm hid)
  · rw [hw.cached_modifyFrame hi]
    by_cases hid : id = here
    · subst hid
      rw [if_pos rfl]
      exact hhere.self true
    · rw [if_neg hid]
      exact (hp id).other (Ne.symm hid)

end Pool

namespace PoolCall

def logged : PoolCall σ → PoolCall (σ × List Write)
  | new id sink => new id sink.logged
  | load id contents sink => load id contents sink.logged
  | fetch id => fetch id
  | unpin id dirty => unpin id dirty
  | flushPage id sink => flushPage id sink.logged
  | flushFile file sink => flushFile file sink.logged
  | flushAll sink => flushAll sink.logged
  | write frame contents => write frame contents

/-- Keeping a log changes nothing else. -/
theorem perform_logged (call : PoolCall σ) (pool : Pool) (t : σ × List Write) :
    unlogged (call.logged.perform pool t) = call.perform pool t.1 := by
  cases call with
  | new id sink =>
    simp only [logged, perform, ← Pool.claim_logged]
    rfl
  | load id contents sink =>
    simp only [logged, perform, ← Pool.claim_logged]
    rfl
  | fetch id =>
    simp only [logged, perform]
    cases pool.fetch id <;> rfl
  | unpin id dirty =>
    simp only [logged, perform]
    cases pool.unpin id dirty <;> rfl
  | flushPage id sink =>
    simp only [logged, perform, Pool.flushPage, ← Pool.flush_logged]
    rfl
  | flushFile file sink =>
    simp only [logged, perform, ← Pool.flush_logged]
    rfl
  | flushAll sink =>
    simp only [logged, perform, ← Pool.flush_logged]
    rfl
  | write frame contents => rfl

def writes (call : PoolCall σ) (pool : Pool) (s : σ) : List Write :=
  (call.logged.perform pool (s, [])).2.2.2

/-- The frame whose page has to leave for a call to be granted. -/
def victim? : PoolCall σ → Pool → Option Nat
  | .new id _, pool | .load id _ _, pool => if pool.contains id then none else pool.victim?
  | _, _ => none

/-- Whether a call gives a page back dirty, by what comes of it. -/
def soils : PoolCall σ → Except StoreError Answer → PageId → Bool
  | unpin id dirty, .ok _, other => dirty && id = other
  | _, _, _ => false

/-- What stands in a frame after a call, as far as somebody writes to it. -/
def overwrites : PoolCall σ → Nat → Page → Page
  | write frame contents, i, old => if frame = i then contents else old
  | _, _, old => old

/-- Whether a call is to write out pages. -/
def flushes : PoolCall σ → Bool
  | flushPage .. | flushFile .. | flushAll _ => true
  | _ => false

/-- What a call does to the frame of a page that stays where it is. -/
structure Altered (call : PoolCall σ) (answer : Except StoreError Answer) (log : List Write)
    (id : PageId) (i : Nat) (f f' : Frame) : Prop where
  bound : f'.bound = f.bound
  pinned : call.dropped answer id ≤ f.pins
  pins : f'.pins = (f.pins + call.taken answer id - call.dropped answer id) % UInt32.size
  contents : f'.contents = call.overwrites i f.contents
  dirty_iff : f'.dirty = true ↔
    call.soils answer id = true ∨ f.dirty = true ∧ ⟨id, f.contents, true⟩ ∉ log
  written : ∀ w ∈ log, w.id = id → w.contents = f.contents
  flushed : ⟨id, f.contents, true⟩ ∈ log → call.flushes = true
  answered : call.taken answer id ≠ 0 → answer = .ok (.frame i)

/-- What can become of a page, by the frame that it has before and after a call. -/
inductive Passage (call : PoolCall σ) (pool : Pool) (answer : Except StoreError Answer)
    (log : List Write) (id : PageId) : Option (Nat × Frame) → Option (Nat × Frame) → Prop
  /-- It is not in the pool. -/
  | absent (unclaimed : call.taken answer id = 0) (unsoiled : call.soils answer id = false)
      (unwritten : ∀ w ∈ log, w.id ≠ id) : Passage call pool answer log id none none
  /-- It comes into the pool, as it was asked for. -/
  | came {i contents} (claimed : call.taken answer id = 1) (answered : answer = .ok (.frame i))
      (unsoiled : call.soils answer id = false) (unwritten : ∀ w ∈ log, w.id ≠ id) :
      Passage call pool answer log id none (some (i, (Frame.assign id contents).pin))
  /-- It leaves the pool as the victim of the call. -/
  | left {i f} (unclaimed : call.taken answer id = 0) (unsoiled : call.soils answer id = false)
      (victim : call.victim? pool = some i)
      (written : log = if f.dirty then [⟨id, f.contents, true⟩] else []) :
      Passage call pool answer log id (some (i, f)) none
  | stayed {i f f'} (altered : Altered call answer log id i f f') :
      Passage call pool answer log id (some (i, f)) (some (i, f'))

variable {call : PoolCall σ} {pool pool' : Pool} {answer : Except StoreError Answer}
  {log : List Write} {id other : PageId} {i : Nat} {f : Frame}

lemma soils_of_none (h : call.gives? = none) (answer : Except StoreError Answer) (id : PageId) :
    call.soils answer id = false := by
  cases call with
  | unpin => cases h
  | _ => rfl

lemma Altered.refl (htaken : call.taken answer id = 0) (hdropped : call.dropped answer id = 0)
    (hsoils : call.soils answer id = false) (hover : call.overwrites i f.contents = f.contents)
    (hlog : ∀ w ∈ log, w.id = id → w.contents = f.contents ∧ w.granted = false) :
    Altered call answer log id i f f where
  bound := rfl
  pinned := hdropped ▸ Nat.zero_le _
  pins := by rw [htaken, hdropped, Nat.add_zero, Nat.sub_zero, Nat.mod_eq_of_lt f.pins_lt]
  contents := hover.symm
  dirty_iff := by
    have hout : (⟨id, f.contents, true⟩ : Write) ∉ log := fun h => by
      cases (hlog _ h rfl).2
    simp [hsoils, hout]
  written w hw hid := (hlog w hw hid).1
  flushed h := by cases (hlog _ h rfl).2
  answered h := absurd htaken h

/-- Nothing becomes of a page that a call does not ask for, apart from writes of it that fail. -/
lemma Passage.refl (htaken : call.taken answer id = 0) (hdropped : call.dropped answer id = 0)
    (hsoils : call.soils answer id = false) (hover : ∀ i c, call.overwrites i c = c)
    (hlog : ∀ w ∈ log, w.id = id → ∃ i f, pool.cached id = some (i, f) ∧
      w.contents = f.contents ∧ w.granted = false) :
    Passage call pool answer log id (pool.cached id) (pool.cached id) := by
  cases hc : pool.cached id with
  | none =>
    refine .absent htaken hsoils fun w hw hid => ?_
    obtain ⟨i, f, hf, -⟩ := hlog w hw hid
    cases hc.symm.trans hf
  | some e =>
    refine .stayed (Altered.refl htaken hdropped hsoils (hover _ _) fun w hw hid => ?_)
    obtain ⟨i, f, hf, hw'⟩ := hlog w hw hid
    cases hc.symm.trans hf
    exact hw'

lemma Passage.idle (htaken : call.taken answer id = 0) (hdropped : call.dropped answer id = 0)
    (hsoils : call.soils answer id = false) (hover : ∀ i c, call.overwrites i c = c) :
    Passage call pool answer [] id (pool.cached id) (pool.cached id) :=
  Passage.refl htaken hdropped hsoils hover (List.forall_mem_nil _)

section Wanted
variable (hwants : call.wants? = some id)
include hwants

lemma taken_of_wants (r : Except StoreError Nat) (other : PageId) :
    call.taken (r.map .frame) other = if r.isOk ∧ other = id then 1 else 0 := by
  cases r <;> simp [taken, hwants, Except.map, Except.isOk, Except.toBool, eq_comm]

lemma gives_of_wants : call.gives? = none := by
  cases call with
  | unpin => cases hwants
  | _ => rfl

lemma overwrites_of_wants (i : Nat) (c : Page) : call.overwrites i c = c := by
  cases call with
  | write => cases hwants
  | _ => rfl

/-- Nothing becomes of a page that a call does not get a frame for, apart from writes of it that
fail. -/
lemma Passage.aside {r : Except StoreError Nat} (hother : r.isOk → other ≠ id)
    (hlog : ∀ w ∈ log, w.id = other → ∃ i f, pool.cached other = some (i, f) ∧
      w.contents = f.contents ∧ w.granted = false) :
    Passage call pool (r.map .frame) log other (pool.cached other) (pool.cached other) :=
  have hgives := gives_of_wants hwants
  Passage.refl ((taken_of_wants hwants r other).trans (if_neg fun h => hother h.1 h.2))
    (dropped_of_none hgives _ _) (soils_of_none hgives _ _) (overwrites_of_wants hwants) hlog

/-- A page that is in the pool is pinned once more, in the frame that it has. -/
lemma passage_here (here : pool.cached id = some (i, f))
    (now : ∀ other, pool'.cached other = if other = id then some (i, f.pin) else pool.cached other)
    (other : PageId) :
    Passage call pool (.ok (.frame i)) [] other (pool.cached other) (pool'.cached other) := by
  have hgives := gives_of_wants hwants
  rw [now]
  by_cases ho : other = id
  · subst ho
    rw [if_pos rfl, here]
    have htaken : call.taken (.ok (.frame i)) other = 1 :=
      (taken_of_wants hwants (.ok i) other).trans (if_pos ⟨rfl, rfl⟩)
    have hdropped := dropped_of_none hgives (.ok (.frame i)) other
    refine .stayed ⟨rfl, hdropped ▸ Nat.zero_le _, ?_, (overwrites_of_wants hwants _ _).symm, ?_,
      by simp, by simp, fun _ => rfl⟩
    · rw [htaken, hdropped, Nat.sub_zero, Frame.pins_pin]
    · simp [soils_of_none hgives, Frame.pin]
  · rw [if_neg ho]
    exact Passage.aside (r := .ok i) hwants (fun _ => ho) (List.forall_mem_nil _)

/-- A page comes into a frame that was found for it, and the page that was in it leaves. -/
lemma passage_away {sink : Sink σ} {contents : Page} {s s' : σ} {between : Pool}
    (h : pool.Wf) (hvictim : call.victim? pool = pool.victim?) (away : pool.cached id = none)
    (hfirst : (pool.vacate sink.logged (s, [])).1 = .ok i)
    (vacated : pool.Vacated sink.logged (s, []) (.ok i, between, s', log))
    (now : ∀ other, pool'.cached other =
      if other = id then some (i, (Frame.assign id contents).pin) else between.cached other)
    (other : PageId) :
    Passage call pool (.ok (.frame i)) log other (pool.cached other) (pool'.cached other) := by
  have hsoils := soils_of_none (gives_of_wants hwants) (.ok (.frame i))
  have htaken := taken_of_wants hwants (.ok i)
  have hcame : (∀ w ∈ log, w.id ≠ id) → other = id →
      Passage call pool (.ok (.frame i)) log other (pool.cached other) (pool'.cached other) := by
    rintro hlog rfl
    rw [away, now, if_pos rfl]
    exact .came ((htaken other).trans (if_pos ⟨rfl, rfl⟩)) rfl (hsoils _) hlog
  cases vacated with
  | unused _ same =>
    by_cases ho : other = id
    · exact hcame (List.forall_mem_nil _) ho
    · rw [now, if_neg ho, same]
      exact Passage.aside (r := .ok i) hwants (fun _ => ho) (List.forall_mem_nil _)
  | @evicted _ victim f _ _ _ there _ written now' =>
    have hlog : log = if f.dirty then [⟨victim, f.contents, true⟩] else [] := by
      rcases written with ⟨hd, hs⟩ | ⟨hd, hs⟩
      · rw [hd, (Prod.mk.inj hs).2]
        rfl
      · rw [hd, (Sink.logged_eq hs).2]
        rfl
    have hfrom : ∀ w ∈ log, w.id = victim := by
      rw [hlog]
      split <;> simp
    have hne : victim ≠ id := by
      rintro rfl
      cases away.symm.trans there
    by_cases ho : other = id
    · exact hcame (fun w hw hw' => hne ((hfrom w hw).symm.trans hw')) ho
    · rw [now, if_neg ho, now']
      by_cases hv : other = victim
      · subst hv
        rw [if_pos rfl, there]
        exact .left ((htaken other).trans (if_neg fun h => ho h.2)) (hsoils _) (hvictim.trans
          (h.victim_of_vacate hfirst (Pool.cached_eq_some_iff.mp there).1)) hlog
      · rw [if_neg hv]
        exact Passage.aside (r := .ok i) hwants (fun _ => ho)
          fun w hw hw' => absurd (hw'.symm.trans (hfrom w hw)) hv

/-- Where no frame was found, every page stays, though one may have been written in vain. -/
lemma passage_failed {sink : Sink σ} {s s' : σ} {e : StoreError}
    (vacated : pool.Vacated sink.logged (s, []) (.error e, pool', s', log)) (other : PageId) :
    Passage call pool (.error e) log other (pool.cached other) (pool'.cached other) := by
  cases vacated with
  | full _ same =>
    rw [same]
    exact Passage.aside (r := .error _) hwants (fun h => by cases h) (List.forall_mem_nil _)
  | @stuck j victim f e _ _ _ there _ failed same =>
    rw [same]
    refine Passage.aside (r := .error _) hwants (fun h => by cases h) fun w hw hw' => ?_
    rw [(Sink.logged_eq failed).2, List.mem_singleton] at hw
    subst hw
    exact ⟨j, f, hw' ▸ there, rfl, rfl⟩

end Wanted

lemma passage_claim {sink : Sink σ} {contents : Page} {s s' : σ} {r : Except StoreError Nat}
    (hcall : call = .new id sink ∧ contents = Page.blank ∨ call = .load id contents sink)
    (h : pool.Wf) (hid : id ≠ Frame.unassigned)
    (hr : pool.claim sink.logged id contents (s, []) = (r, pool', s', log)) (other : PageId) :
    Passage call pool (r.map .frame) log other (pool.cached other) (pool'.cached other) := by
  have hwants : call.wants? = some id := by rcases hcall with ⟨rfl, -⟩ | rfl <;> rfl
  have hclaimed := (h.claim hid sink.logged contents (s, [])).2
  rw [hr] at hclaimed
  cases hclaimed with
  | hit here now => exact passage_here hwants here now other
  | @miss i _ _ _ away vacated now =>
    have hout : pool.contains id = false :=
      Pool.contains_eq_false_iff.mpr (Pool.cached_eq_none_iff.mp away)
    have hvictim : call.victim? pool = pool.victim? := by
      rcases hcall with ⟨rfl, -⟩ | rfl <;> simp [PoolCall.victim?, hout]
    have hfirst : (pool.vacate sink.logged (s, [])).1 = .ok i := by
      rw [← Pool.claim_of_away away contents, hr]
    exact passage_away hwants h hvictim away hfirst vacated now other
  | failed vacated => exact passage_failed hwants vacated other

lemma log_fetch (pool : Pool) (t : σ × List Write) :
    (perform (.fetch id) pool t).2.2.2 = t.2 := by
  simp only [perform]
  cases pool.fetch id <;> rfl

lemma log_unpin (pool : Pool) (dirty : Bool) (t : σ × List Write) :
    (perform (.unpin id dirty) pool t).2.2.2 = t.2 := by
  simp only [perform]
  cases pool.unpin id dirty <;> rfl

lemma passage_fetch (h : pool.Wf) {s : σ} (other : PageId) :
    Passage (.fetch id : PoolCall σ) pool (perform (.fetch id) pool s).1 [] other
      (pool.cached other) ((perform (.fetch id) pool s).2.1.cached other) := by
  cases hf : pool.fetch id with
  | none =>
    simp only [perform, hf]
    exact Passage.idle rfl rfl rfl (fun _ _ => rfl)
  | some found =>
    obtain ⟨i, pool'⟩ := found
    obtain ⟨-, f, hc, hnow⟩ := h.fetch hf
    simp only [perform, hf]
    exact passage_here rfl hc hnow other

lemma passage_unpin (h : pool.Wf) {s : σ} (dirty : Bool) (other : PageId) :
    Passage (.unpin id dirty : PoolCall σ) pool (perform (.unpin id dirty) pool s).1 [] other
      (pool.cached other) ((perform (.unpin id dirty) pool s).2.1.cached other) := by
  cases hu : pool.unpin id dirty with
  | error e =>
    simp only [perform, hu]
    exact Passage.idle rfl rfl rfl (fun _ _ => rfl)
  | ok pool' =>
    obtain ⟨i, f, hc, hpins, -, hnow⟩ := h.unpin_cached hu
    simp only [perform, hu]
    rw [hnow]
    by_cases ho : other = id
    · subst ho
      rw [if_pos rfl, hc]
      have hlt := f.pins_lt
      refine .stayed ⟨rfl, ?_, ?_, rfl, ?_, by simp, by simp, fun h => absurd rfl h⟩
      · simp only [dropped, gives?, if_true]
        omega
      · simp only [dropped, taken, gives?, if_true, Nat.add_zero, Frame.pins_drop hpins]
        rw [Nat.mod_eq_of_lt (by omega)]
      · simp [soils, or_comm]
    · rw [if_neg ho]
      exact Passage.idle rfl (by simp [dropped, gives?, Ne.symm ho])
        (by simp [soils, Ne.symm ho]) (fun _ _ => rfl)

lemma passage_washed (hflushes : call.flushes = true)
    (h : Pool.Washed log id (pool.cached id) (pool'.cached id)) :
    Passage call pool answer log id (pool.cached id) (pool'.cached id) := by
  have hquiet : call.wants? = none ∧ call.gives? = none ∧ ∀ i c, call.overwrites i c = c := by
    cases call with
    | flushPage | flushFile | flushAll => exact ⟨rfl, rfl, fun _ _ => rfl⟩
    | _ => cases hflushes
  obtain ⟨hwants, hgives, hover⟩ := hquiet
  have htaken := taken_of_none hwants answer id
  have hdropped := dropped_of_none hgives answer id
  have hsoils := soils_of_none hgives answer id
  revert h
  generalize pool.cached id = e, pool'.cached id = e'
  rintro (unwritten | ⟨dirty_iff, written⟩)
  · exact .absent htaken hsoils unwritten
  · refine .stayed ⟨rfl, hdropped ▸ Nat.zero_le _, ?_, (hover _ _).symm,
      by simpa [hsoils] using dirty_iff, written, fun _ => hflushes, fun h => absurd htaken h⟩
    rw [htaken, hdropped]
    exact (Nat.mod_eq_of_lt (Frame.pins_lt _)).symm

lemma passage_write (h : pool.Wf) (frame : Nat) (contents : Page) {s : σ} (other : PageId) :
    Passage (.write frame contents : PoolCall σ) pool (perform (.write frame contents) pool s).1 []
      other (pool.cached other) ((perform (.write frame contents) pool s).2.1.cached other) := by
  simp only [perform, Pool.cached, Pool.find?_modifyFrame]
  cases hi : pool.find? other with
  | none => exact .absent rfl rfl (List.forall_mem_nil _)
  | some i =>
    refine .stayed ?_
    rw [Pool.frame_modifyFrame]
    by_cases hf : frame = i
    · rw [if_pos ⟨hf, (h.bound hi).1⟩]
      exact ⟨rfl, Nat.zero_le _, (Nat.mod_eq_of_lt (Frame.pins_lt _)).symm, by simp [overwrites, hf],
        by simp [soils], by simp, by simp, fun h => absurd rfl h⟩
    · rw [if_neg fun h => hf h.1]
      exact Altered.refl rfl rfl rfl (by simp [overwrites, hf]) (List.forall_mem_nil _)

end PoolCall

namespace PoolUse
variable {u : PoolUse σ} {call : PoolCall σ} {n : Nat}

def answer (u : PoolUse σ) (call : PoolCall σ) : Except StoreError PoolCall.Answer :=
  (call.perform u.pool u.behind).1

def writes (u : PoolUse σ) (call : PoolCall σ) : List Write := call.writes u.pool u.behind

/-- Every page takes one of the ways that there are. -/
theorem Sound.passage (h : u.Sound n) (hcall : call.Proper) (id : PageId) :
    call.Passage u.pool (u.answer call) (u.writes call) id (u.pool.cached id)
      ((u.step call).pool.cached id) := by
  have hlogged : unlogged (call.logged.perform u.pool (u.behind, [])) =
      call.perform u.pool u.behind := call.perform_logged u.pool (u.behind, [])
  rw [answer, writes, PoolCall.writes, PoolUse.step, ← hlogged]
  cases call with
  | new wanted sink =>
    exact PoolCall.passage_claim (Or.inl ⟨rfl, rfl⟩) h.wf (fun hid => hcall (congrArg some hid))
      rfl id
  | load wanted contents sink =>
    exact PoolCall.passage_claim (Or.inr rfl) h.wf (fun hid => hcall (congrArg some hid)) rfl id
  | fetch wanted =>
    rw [hlogged, PoolCall.logged, PoolCall.log_fetch]
    exact PoolCall.passage_fetch h.wf id
  | unpin given dirty =>
    rw [hlogged, PoolCall.logged, PoolCall.log_unpin]
    exact PoolCall.passage_unpin h.wf dirty id
  | flushPage one sink =>
    exact PoolCall.passage_washed rfl
      (h.wf.flush_washed sink (fun other => other = one) u.behind id)
  | flushFile file sink =>
    exact PoolCall.passage_washed rfl
      (h.wf.flush_washed sink (fun other => other.file = file) u.behind id)
  | flushAll sink =>
    exact PoolCall.passage_washed rfl
      (h.wf.flush_washed sink (fun _ => true) u.behind id)
  | write frame contents => exact PoolCall.passage_write h.wf frame contents id

end PoolUse
end PagedHeap
