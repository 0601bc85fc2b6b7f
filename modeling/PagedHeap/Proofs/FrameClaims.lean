import PagedHeap.Proofs.PageBytes
import PagedHeap.Proofs.PoolWrites

/-! Pinning a page, cached or not. A page that is not cached gets an unused frame, or that of a page
which nobody has pinned and which was written out if it was dirty. Where no frame is to be had the
frames, the table and the free list are as they were. -/
namespace PagedHeap
variable {σ : Type} {sink : Sink σ} {id : PageId} {bytes : Bytes} {pool : Pool} {s : σ}

/-- A frame that was just given to a page: pinned once and clean. -/
structure Frame.Fresh (id : PageId) (bytes : Bytes) (f : Frame) : Prop where
  page : f.page? = some id
  pins : f.pins = 1
  clean : f.dirty = false
  bytes : f.contents.toBytes = bytes

/-- Pools that differ by the clock alone. -/
structure Pool.SameButClock (pool pool' : Pool) : Prop where
  frames : pool'.frames = pool.frames
  table : pool'.table = pool.table
  free : pool'.free = pool.free
  size : pool'.clock.size = pool.clock.size

/-- What comes of pinning a page, with what is written, by what the pool was before. -/
inductive Pool.Pinned (sink : Sink σ) (id : PageId) (bytes : Bytes) (pool : Pool) (s : σ) :
    Except StoreError PoolCall.Answer → List Write → Pool → σ → Prop
  /-- The page is cached. It keeps what it holds. -/
  | resident {i pool'} (here : pool.find? id = some i) (table : pool'.table = pool.table)
      (free : pool'.free = pool.free)
      (frames : ∀ j, pool'.frame j = if j = i then (pool.frame i).pin else pool.frame j) :
      Pinned sink id bytes pool s (.ok (.frame i)) [] pool' s
  /-- It gets the next unused frame. -/
  | unused {i rest pool'} (away : pool.find? id = none) (free : pool.free = i :: rest)
      (free' : pool'.free = rest)
      (table : ∀ other, pool'.find? other = if other = id then some i else pool.find? other)
      (fresh : (pool'.frame i).Fresh id bytes)
      (frames : ∀ j, j ≠ i → pool'.frame j = pool.frame j) :
      Pinned sink id bytes pool s (.ok (.frame i)) [] pool' s
  /-- It gets the frame of a page that nobody has pinned. -/
  | evicted {i victim pool' s'} (away : pool.find? id = none) (free : pool.free = [])
      (there : pool.find? victim = some i) (unpinned : (pool.frame i).pins = 0)
      (saved : if (pool.frame i).dirty then sink victim (pool.frame i).contents s = (.ok (), s')
        else s' = s)
      (free' : pool'.free = [])
      (table : ∀ other, pool'.find? other =
        if other = id then some i else if other = victim then none else pool.find? other)
      (fresh : (pool'.frame i).Fresh id bytes)
      (frames : ∀ j, j ≠ i → pool'.frame j = pool.frame j) :
      Pinned sink id bytes pool s (.ok (.frame i))
        (if (pool.frame i).dirty then [⟨victim, (pool.frame i).contents, true⟩] else []) pool' s'
  /-- Every frame is pinned. -/
  | full {pool'} (away : pool.find? id = none) (free : pool.free = []) (full : pool.Full)
      (same : pool.SameButClock pool') : Pinned sink id bytes pool s (.error .poolFull) [] pool' s
  /-- The page that would have to leave cannot be written out. -/
  | stuck {i victim e pool' s'} (away : pool.find? id = none) (free : pool.free = [])
      (there : pool.find? victim = some i) (unpinned : (pool.frame i).pins = 0)
      (dirty : (pool.frame i).dirty = true)
      (failed : sink victim (pool.frame i).contents s = (.error e, s'))
      (same : pool.SameButClock pool') :
      Pinned sink id bytes pool s (.error e) [⟨victim, (pool.frame i).contents, false⟩] pool' s'

namespace Pool

lemma fresh_place {contents : Page} {i : Nat} (hi : i < pool.size) (hid : id ≠ Frame.unassigned) :
    ((pool.place i id contents).frame i).Fresh id contents.toBytes := by
  rw [frame_place hi, if_pos rfl]
  exact ⟨(Frame.page?_eq_some_iff _ _).mpr ⟨rfl, hid⟩, rfl, rfl, rfl⟩

lemma find?_forget (victim other : PageId) :
    (pool.forget victim).find? other = if other = victim then none else pool.find? other :=
  Table.find?_erase ..

lemma Wf.pinned_evicted {victim : PageId} {i : Nat} {s' : σ} (h : pool.Wf) (sink : Sink σ) (s : σ)
    (contents : Page) (between : Pool) (hid : id ≠ Frame.unassigned) (away : pool.find? id = none)
    (free : pool.free = []) (there : pool.find? victim = some i) (unpinned : (pool.frame i).pins = 0)
    (saved : if (pool.frame i).dirty then sink victim (pool.frame i).contents s = (.ok (), s')
      else s' = s)
    (hsize : between.size = pool.size) (hfree : between.free = [])
    (hfind : ∀ other, between.find? other = if other = victim then none else pool.find? other)
    (hframes : ∀ j, j ≠ i → between.frame j = pool.frame j) :
    Pinned sink id contents.toBytes pool s (.ok (.frame i))
      (if (pool.frame i).dirty then [⟨victim, (pool.frame i).contents, true⟩] else [])
      (between.place i id contents) s' := by
  have hi : i < between.size := hsize ▸ (h.bound there).1
  refine .evicted away free there unpinned saved hfree (fun other => ?_) (fresh_place hi hid)
    fun j hj => ?_
  · rw [find?_place, hfind]
  · rw [frame_place hi, if_neg (Ne.symm hj), hframes j hj]

/-- Pinning a page takes one of these ways. -/
theorem Wf.pinned (h : pool.Wf) (hid : id ≠ Frame.unassigned) (sink : Sink σ) (contents : Page)
    (s : σ) :
    Pinned sink id contents.toBytes pool s
      ((pool.claim sink.logged id contents (s, [])).1.map .frame)
      (pool.claim sink.logged id contents (s, [])).2.2.2
      (pool.claim sink.logged id contents (s, [])).2.1
      (pool.claim sink.logged id contents (s, [])).2.2.1 := by
  cases hf : pool.find? id with
  | some i =>
    have hfetch : pool.fetch id = some (i, pool.pinFrame i) := by simp [Pool.fetch, hf]
    rw [claim_of_fetch hfetch]
    refine .resident hf rfl rfl fun j => ?_
    change (pool.modifyFrame i Frame.pin).frame j = _
    rw [frame_modifyFrame]
    by_cases hj : j = i
    · subst hj
      rw [if_pos ⟨rfl, (h.bound hf).1⟩, if_pos rfl]
    · rw [if_neg fun hij => hj hij.1.symm, if_neg hj]
  | none =>
    have hfetch : pool.fetch id = none := by simp [Pool.fetch, hf]
    have hvacancy := h.vacancy sink.logged (s, [])
    simp only [Pool.claim, hfetch]
    generalize pool.vacate sink.logged (s, []) = r at hvacancy
    have hclock : ∀ {clock : Clock}, ({ pool with clock } : Pool).Wf →
        pool.SameButClock { pool with clock } :=
      fun hw => ⟨rfl, rfl, rfl, hw.marks.trans h.marks.symm⟩
    cases hvacancy with
    | @unused i rest free =>
      have hi : i < pool.size := h.lt (free ▸ List.mem_cons_self)
      refine .unused hf free rfl (find?_place contents) (fresh_place hi hid) fun j hj => ?_
      exact (frame_place hi contents j).trans (if_neg (Ne.symm hj))
    | full free turned barred => exact .full hf free barred (hclock turned)
    | @clean i victim clock free _ _ there unpinned clean =>
      have hevicted := h.pinned_evicted sink s contents (({ pool with clock } : Pool).forget victim)
        hid hf free there unpinned (by rw [clean]; rfl) rfl free (find?_forget victim)
        fun _ _ => rfl
      rwa [clean] at hevicted
    | @washed i victim t clock free _ _ there unpinned dirty written =>
      obtain ⟨s', log⟩ := t
      obtain ⟨hsink, rfl⟩ := Sink.logged_eq written
      have hevicted := h.pinned_evicted sink s contents
        ((({ pool with clock } : Pool).modifyFrame i Frame.clean).forget victim) hid hf free there
        unpinned (by rw [dirty]; exact hsink) (size_modifyFrame ..) free (find?_forget victim)
        fun j hj => ?_
      · rwa [dirty] at hevicted
      · exact (frame_modifyFrame _ i j _).trans (if_neg fun hij => hj hij.1.symm)
    | @stuck i victim e t clock free turned there unpinned dirty failed =>
      obtain ⟨s', log⟩ := t
      obtain ⟨hsink, rfl⟩ := Sink.logged_eq failed
      exact .stuck hf free there unpinned dirty hsink (hclock turned)

variable {answer : Except StoreError PoolCall.Answer} {log : List Write} {pool' : Pool} {s' : σ}

lemma Wf.not_full_of_unpinned {victim : PageId} {i : Nat} (h : pool.Wf)
    (there : pool.find? victim = some i) (unpinned : (pool.frame i).pins = 0) : ¬ pool.Full :=
  fun hfull => hfull i (h.bound there).1 unpinned

/-- A page that is not cached is refused for want of a frame exactly if every frame is pinned. -/
lemma Pinned.refused_iff (h : Pinned sink id bytes pool s answer log pool' s') (hw : pool.Wf)
    (away : pool.find? id = none) :
    answer = .error .poolFull ∧ log = [] ↔ pool.free = [] ∧ pool.Full := by
  cases h with
  | resident here => cases away.symm.trans here
  | unused _ free => simp [free]
  | evicted _ _ there unpinned => simp [hw.not_full_of_unpinned there unpinned]
  | full _ free full => simp [free, full]
  | stuck _ _ there unpinned => simp [hw.not_full_of_unpinned there unpinned]

lemma Pinned.frame_resident (h : Pinned sink id bytes pool s answer log pool' s') {i : Nat}
    (here : pool.find? id = some i) : pool'.frame i = (pool.frame i).pin := by
  cases h with
  | @resident j _ here' _ _ frames =>
    obtain rfl := Option.some.inj (here.symm.trans here')
    exact (frames i).trans (if_pos rfl)
  | unused away | evicted away | full away | stuck away => cases here.symm.trans away

lemma Pinned.refused_iff_of_sink (h : Pinned sink id bytes pool s answer log pool' s')
    (hw : pool.Wf) (away : pool.find? id = none)
    (hsink : ∀ victim contents, (sink victim contents s).1 ≠ .error .poolFull) :
    answer = .error .poolFull ↔ pool.free = [] ∧ pool.Full := by
  rw [← h.refused_iff hw away]
  refine ⟨fun hanswer => ⟨hanswer, ?_⟩, And.left⟩
  cases h with
  | resident | unused | evicted => cases hanswer
  | full => rfl
  | stuck _ _ _ _ _ failed =>
    cases hanswer
    exact absurd (congrArg Prod.fst failed) (hsink _ _)

end Pool

namespace PoolCall

/-- The call that pins a page, with the data that are for it if it is not cached; without any, the
page is of zeros then. -/
def pinning (id : PageId) (sink : Sink σ) : Option Bytes → PoolCall σ
  | none => .new id sink
  | some data => .load id (Page.ofBytes data) sink

/-- The data as the bytes of a page. -/
def filled : Option Bytes → Bytes
  | none => List.replicate pageSize 0
  | some data => data.take pageSize ++ List.replicate (pageSize - data.length) 0

end PoolCall

namespace PoolUse
variable {u : PoolUse σ} {n : Nat}

theorem Sound.pinned (h : u.Sound n) (hid : id ≠ Frame.unassigned) (sink : Sink σ)
    (data : Option Bytes) :
    u.pool.Pinned sink id (PoolCall.filled data) u.behind (u.answer (.pinning id sink data))
      (u.writes (.pinning id sink data)) (u.step (.pinning id sink data)).pool
      (u.step (.pinning id sink data)).behind := by
  have hlogged : unlogged ((PoolCall.pinning id sink data).logged.perform u.pool (u.behind, [])) =
      (PoolCall.pinning id sink data).perform u.pool u.behind := PoolCall.perform_logged ..
  rw [answer, writes, PoolCall.writes, PoolUse.step, ← hlogged]
  cases data with
  | none =>
    have hblank : PoolCall.filled none = Page.blank.toBytes := (Page.toBytes_ofBytes []).symm
    rw [hblank]
    exact h.wf.pinned hid sink Page.blank u.behind
  | some data =>
    rw [PoolCall.filled, ← Page.toBytes_ofBytes]
    exact h.wf.pinned hid sink (Page.ofBytes data) u.behind

lemma Sound.pins_lt_max {i : Nat} (h : u.Sound n) (here : u.pool.find? id = some i)
    (hfew : u.outstanding id + 1 < UInt32.size) : (u.pool.frame i).pins < Frame.maxPins := by
  have hpins := h.pins_of_lt (Nat.lt_of_succ_lt hfew)
  rw [Pool.pins, Pool.cached_eq_some_iff.mpr ⟨here, rfl⟩] at hpins
  exact hpins.trans_lt (Nat.lt_sub_of_add_lt hfew)

/-- After any calls, pinning a page takes one of the ways that there are. A page that is cached has one
pin more then, if that can be counted. A page that is not cached is refused for want of a frame exactly
if there is no unused frame and every frame is pinned. -/
theorem run_pinned (n : Nat) (behind : σ) (calls : List (PoolCall σ))
    (hcalls : ∀ call ∈ calls, call.Proper) (hid : id ≠ Frame.unassigned) (sink : Sink σ)
    (data : Option Bytes) :
    let u := run n behind calls
    let call := PoolCall.pinning id sink data
    u.pool.Pinned sink id (PoolCall.filled data) u.behind (u.answer call) (u.writes call)
        (u.step call).pool (u.step call).behind ∧
      (∀ i, u.pool.find? id = some i → u.outstanding id + 1 < UInt32.size →
        ((u.step call).pool.frame i).pins = (u.pool.frame i).pins + 1) ∧
      (u.pool.find? id = none →
        (u.answer call = .error .poolFull ∧ u.writes call = [] ↔ u.pool.free = [] ∧ u.pool.Full) ∧
        ((∀ victim contents, (sink victim contents u.behind).1 ≠ .error .poolFull) →
          (u.answer call = .error .poolFull ↔ u.pool.free = [] ∧ u.pool.Full))) := by
  have h := sound_run n behind calls hcalls
  have hpinned := h.pinned hid sink data
  refine ⟨hpinned, fun i here hfew => ?_, fun away =>
    ⟨hpinned.refused_iff h.wf away, hpinned.refused_iff_of_sink h.wf away⟩⟩
  rw [hpinned.frame_resident here, Frame.pins_pin_of_lt (h.pins_lt_max here hfew)]

/-- A dirty page stays where it is because it cannot be written out. -/
theorem run_pinned_stuck :
    let calls : List (PoolCall Unit) := [.new ⟨0, 0⟩ fun _ _ s => (.ok (), s), .unpin ⟨0, 0⟩ true]
    let sink : Sink Unit := fun _ _ s => (.error (.io "write"), s)
    let u := run 1 () calls
    let call := PoolCall.pinning ⟨0, 1⟩ sink (some [7])
    (∀ call ∈ calls, call.Proper) ∧ (⟨0, 1⟩ : PageId) ≠ Frame.unassigned ∧
      u.pool.Pinned sink ⟨0, 1⟩ (PoolCall.filled (some [7])) u.behind (u.answer call)
        (u.writes call) (u.step call).pool (u.step call).behind := by
  have hcalls : ∀ call ∈ ([.new ⟨0, 0⟩ fun _ _ s => (.ok (), s), .unpin ⟨0, 0⟩ true] :
      List (PoolCall Unit)), call.Proper := by
    simp [PoolCall.Proper, PoolCall.wants?, Frame.unassigned, noPage]
  have hid : (⟨0, 1⟩ : PageId) ≠ Frame.unassigned := by decide
  exact ⟨hcalls, hid, (run_pinned 1 () _ hcalls hid _ (some [7])).1⟩

/-- A page that has as many pins as can be counted has none after it was pinned once more. And if
somebody binds a frame to another page the pool still takes the first page to be there, after it gave
the frame to a third. -/
theorem not_pinned_unbounded :
    let grant : Sink Unit := fun _ _ s => (.ok (), s)
    let pinned := fun k => run 1 () (.new ⟨0, 0⟩ grant :: List.replicate k (.fetch ⟨0, 0⟩))
    let full := pinned (UInt32.size - 2)
    let bound : PoolUse Unit :=
      { pinned 0 with
        pool := (pinned 0).pool.modifyFrame 0 fun _ => Frame.assign ⟨0, 5⟩ Page.blank }
    let later := bound.step (.new ⟨0, 1⟩ grant)
    ((full.pool.frame 0).pins = UInt32.size - 1 ∧
        ((full.step (.new ⟨0, 0⟩ grant)).pool.frame 0).pins = 0) ∧
      (bound.pool.frame 0).page? = some ⟨0, 5⟩ ∧
        bound.answer (.new ⟨0, 1⟩ grant) = .ok (.frame 0) ∧
        (later.pool.frame 0).page? = some ⟨0, 1⟩ ∧ later.pool.find? ⟨0, 0⟩ = some 0 := by
  intro grant pinned full bound later
  have hpinned : ∀ k, (pinned k).pool = Pool.single ⟨0, 0⟩ Page.blank (UInt32.ofNat (k + 1)) :=
    run_fetches ⟨0, 0⟩ grant ()
  have hlast : UInt32.ofNat (UInt32.size - 2 + 1) = UInt32.ofNat (UInt32.size - 1) := by decide
  have hfull : full.pool = Pool.single ⟨0, 0⟩ Page.blank (UInt32.ofNat (UInt32.size - 1)) :=
    (hpinned _).trans (congrArg _ hlast)
  clear_value full
  have hround : (full.step (.new ⟨0, 0⟩ grant)).pool = Pool.single ⟨0, 0⟩ Page.blank 0 := by
    rw [PoolUse.step, PoolCall.perform, hfull, Pool.claim_single]
    rfl
  refine ⟨⟨?_, ?_⟩, ?_⟩
  · rw [hfull]
    decide
  · rw [hround]
    decide
  · decide +kernel

end PoolUse
end PagedHeap
