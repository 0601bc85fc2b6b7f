import PagedHeap.Proofs.PoolWrites

/-! Pinned pages stay. A page leaves the pool only as a victim, and no pins are counted of a victim; so
from the call that pins a page to the one that drops its last pin it keeps its frame, and only those
who write to the frame change what stands there. All this is as long as the pins can be counted. -/
namespace PagedHeap.PoolUse
variable {σ : Type} {u : PoolUse σ} {call : PoolCall σ} {n : Nat} {id : PageId} {i : Nat} {f : Frame}

lemma Sound.pins_victim (h : u.Sound n) (hv : call.victim? u.pool = some i) :
    (u.pool.frame i).pins = 0 := by
  cases call with
  | new | load =>
    simp only [PoolCall.victim?] at hv
    split at hv
    · cases hv
    · exact h.wf.pins_victim hv
  | _ => cases hv

lemma Sound.not_victim (h : u.Sound n) (hc : u.pool.cached id = some (i, f))
    (hp : u.pool.pins id ≠ 0) : call.victim? u.pool ≠ some i := by
  intro hv
  obtain ⟨-, rfl⟩ := Pool.cached_eq_some_iff.mp hc
  exact hp (by simp [Pool.pins, hc, h.pins_victim hv])

lemma Sound.stays (h : u.Sound n) (hcall : call.Proper) (hc : u.pool.cached id = some (i, f))
    (hv : call.victim? u.pool ≠ some i) :
    ∃ f', (u.step call).pool.cached id = some (i, f') ∧
      call.Altered (u.answer call) (u.writes call) id i f f' := by
  have hpassage := h.passage hcall id
  rw [hc] at hpassage
  generalize (u.step call).pool.cached id = now at hpassage ⊢
  cases hpassage with
  | left _ _ victim _ => exact absurd victim hv
  | @stayed _ _ f' altered => exact ⟨f', rfl, altered⟩

lemma Sound.claimed (h : u.Sound n) (hcall : call.Proper) (hwants : call.wants? = some id)
    (hanswer : u.answer call = .ok (.frame i)) :
    ∃ f, (u.step call).pool.cached id = some (i, f) := by
  have hpassage := h.passage hcall id
  have htaken : call.taken (u.answer call) id = 1 := by simp [hanswer, PoolCall.taken, hwants]
  generalize u.pool.cached id = before, (u.step call).pool.cached id = now at hpassage ⊢
  cases hpassage with
  | absent unclaimed | left unclaimed => cases unclaimed.symm.trans htaken
  | came _ answered =>
    cases hanswer.symm.trans answered
    exact ⟨_, rfl⟩
  | stayed altered =>
    cases hanswer.symm.trans (altered.answered (by omega))
    exact ⟨_, rfl⟩

/-- Pins of a page were taken and not dropped, and not more than can be counted. -/
structure Held (id : PageId) (u : PoolUse σ) : Prop where
  pinned : u.outstanding id ≠ 0
  few : u.outstanding id < UInt32.size

lemma Sound.pins_of_held (h : u.Sound n) (hp : u.Held id) : u.pool.pins id ≠ 0 :=
  (h.pins_of_lt hp.few).trans_ne hp.pinned

/-- A page is pinned before each of the calls, one after another. -/
def Pinned (id : PageId) : PoolUse σ → List (PoolCall σ) → Prop
  | _, [] => True
  | u, call :: rest => u.Held id ∧ Pinned id (u.step call) rest

/-- What stands in a frame after some calls, as far as somebody writes to it. -/
def overwritten (i : Nat) (contents : Page) (calls : List (PoolCall σ)) : Page :=
  calls.foldl (fun contents call => call.overwrites i contents) contents

/-- A pinned page keeps its frame, call after call. -/
lemma Sound.keeps {calls : List (PoolCall σ)} (h : u.Sound n) (hcalls : ∀ call ∈ calls, call.Proper)
    (hc : u.pool.cached id = some (i, f)) (hp : Pinned id u calls) :
    ∃ f', (calls.foldl PoolUse.step u).pool.cached id = some (i, f') ∧
      f'.contents = overwritten i f.contents calls := by
  induction calls generalizing u f with
  | nil => exact ⟨f, hc, rfl⟩
  | cons call rest ih =>
    obtain ⟨hcall, hrest⟩ := List.forall_mem_cons.mp hcalls
    obtain ⟨g, hg, altered⟩ := h.stays hcall hc (h.not_victim hc (h.pins_of_held hp.1))
    obtain ⟨f', hf', hcontents⟩ := ih (h.step hcall) hrest hg hp.2
    exact ⟨f', hf', by rw [hcontents, altered.contents]; rfl⟩

/-- How a run deals with pinned pages. -/
structure KeepsPinned (n : Nat) (behind : σ) (calls : List (PoolCall σ)) : Prop where
  /-- No pins are counted of a victim. -/
  victims : ∀ before call after, calls = before ++ call :: after → ∀ i,
    call.victim? (run n behind before).pool = some i →
      ((run n behind before).pool.frame i).pins = 0
  /-- Whoever loses a frame is the victim. -/
  leaves : ∀ before call after, calls = before ++ call :: after → ∀ id i,
    (run n behind before).pool.find? id = some i →
      ((run n behind before).step call).pool.find? id ≠ some i →
      call.victim? (run n behind before).pool = some i
  /-- A call changes no more than the pins and the mark of the frame of a pinned page. -/
  changes : ∀ before call after, calls = before ++ call :: after → ∀ id i,
    let u := run n behind before
    u.pool.find? id = some i → u.Held id →
      call.Altered (u.answer call) (u.writes call) id i (u.pool.frame i)
        ((u.step call).pool.frame i)
  /-- From the call that pins it a page stays where it is for as long as it is pinned. -/
  stays : ∀ before claim during after, calls = before ++ claim :: (during ++ after) → ∀ id i,
    let start := (run n behind before).step claim
    let u := run n behind (before ++ claim :: during)
    claim.wants? = some id → (run n behind before).answer claim = .ok (.frame i) →
      Pinned id start during →
      u.pool.find? id = some i ∧ (u.pool.frame i).page? = some id ∧
        (u.pool.frame i).contents = overwritten i (start.pool.frame i).contents during

/-- A pinned page is never taken away, whatever is asked of a pool and whatever becomes of its writes,
as long as its pins can be counted. -/
theorem run_keepsPinned (n : Nat) (behind : σ) (calls : List (PoolCall σ))
    (hcalls : ∀ call ∈ calls, call.Proper) : KeepsPinned n behind calls where
  victims := by
    rintro before call after rfl i hv
    have hsound := sound_run n behind before fun c hc => hcalls c (by simp [hc])
    exact hsound.pins_victim hv
  leaves := by
    rintro before call after rfl id i hi hleft
    have hsound := sound_run n behind before fun c hc => hcalls c (by simp [hc])
    by_contra hv
    obtain ⟨f', hf', -⟩ := hsound.stays (hcalls call (by simp))
      (Pool.cached_eq_some_iff.mpr ⟨hi, rfl⟩) hv
    exact hleft (Pool.cached_eq_some_iff.mp hf').1
  changes := by
    rintro before call after rfl id i u hi hp
    have hsound := sound_run n behind before fun c hc => hcalls c (by simp [hc])
    have hc := Pool.cached_eq_some_iff.mpr ⟨hi, rfl⟩
    obtain ⟨f', hf', altered⟩ := hsound.stays (hcalls call (by simp)) hc
      (hsound.not_victim hc (hsound.pins_of_held hp))
    rw [(Pool.cached_eq_some_iff.mp hf').2]
    exact altered
  stays := by
    rintro before claim during after rfl id i start u hwants hanswer hp
    have hsound := sound_run n behind before fun c hc => hcalls c (by simp [hc])
    have hclaim : claim.Proper := hcalls claim (by simp)
    obtain ⟨f, hf⟩ := hsound.claimed hclaim hwants hanswer
    obtain ⟨f', hf', hcontents⟩ := (hsound.step hclaim).keeps
      (fun c hc => hcalls c (by simp [hc])) hf hp
    have hu : u = during.foldl PoolUse.step start := run_append n behind before (claim :: during)
    obtain ⟨hi, rfl⟩ := Pool.cached_eq_some_iff.mp (hu ▸ hf')
    refine ⟨hi, (Frame.page?_eq_some_iff _ _).mpr ⟨?_, fun hid => hclaim (hid ▸ hwants)⟩, ?_⟩
    · have hafter := sound_run n behind (before ++ claim :: during)
        fun c hc => hcalls c (by simp at hc ⊢; tauto)
      exact (hafter.wf.bound hi).2.1
    · rw [hcontents, (Pool.cached_eq_some_iff.mp hf).2]

/-- One of two frames is pinned and stays, while two pages take turns in the other one. -/
theorem run_keepsPinned_turns :
    let grant : Sink Unit := fun _ _ s => (.ok (), s)
    let calls : List (PoolCall Unit) := [.new ⟨0, 0⟩ grant, .new ⟨0, 1⟩ grant, .unpin ⟨0, 1⟩ true,
      .new ⟨0, 2⟩ grant, .unpin ⟨0, 2⟩ true, .load ⟨0, 1⟩ Page.blank grant]
    (∀ call ∈ calls, call.Proper) ∧ Pinned ⟨0, 0⟩ ((run 2 () []).step (.new ⟨0, 0⟩ grant)) calls.tail ∧
      (run 2 () calls).pool.find? ⟨0, 0⟩ = some 0 := by
  intro grant calls
  have hcalls : ∀ call ∈ calls, call.Proper := by
    simp [calls, PoolCall.Proper, PoolCall.wants?, Frame.unassigned, noPage]
  have hpinned : Pinned ⟨0, 0⟩ ((run 2 () []).step (.new ⟨0, 0⟩ grant)) calls.tail := by
    refine ⟨⟨?_, ?_⟩, ⟨?_, ?_⟩, ⟨?_, ?_⟩, ⟨?_, ?_⟩, ⟨?_, ?_⟩, trivial⟩ <;> decide
  exact ⟨hcalls, hpinned, ((run_keepsPinned 2 () calls hcalls).stays [] _ calls.tail [] rfl ⟨0, 0⟩ 0
    rfl rfl hpinned).1⟩

/-- A page of which no pins are counted makes room for another one. -/
lemma gone_of_single {v : PoolUse σ} {other : PageId} {p : Page} (hv : v.pool = Pool.single id p 0)
    (hid : id ≠ Frame.unassigned) (ho : other ≠ id) (sink : Sink σ) :
    v.pool.find? id = some 0 ∧ (v.step (.new other sink)).pool.find? id = none := by
  rw [PoolUse.step, PoolCall.perform, hv, Pool.claim_single_other sink _ _ _ hid ho]
  simp [Pool.single, Pool.find?, Table.find?, ho]

/-- A page leaves though no pin of it was dropped: after one pin more than can be counted, or when
somebody drops a pin in the frame itself. -/
theorem not_keepsPinned_unbounded :
    let grant : Sink Unit := fun _ _ s => (.ok (), s)
    let pinned := fun k => run 1 () (.new ⟨0, 0⟩ grant :: List.replicate k (.fetch ⟨0, 0⟩))
    let dropped : PoolUse Unit :=
      { pinned 0 with pool := (pinned 0).pool.modifyFrame 0 fun f => (f.release false).getD f }
    ((pinned (UInt32.size - 1)).pool.find? ⟨0, 0⟩ = some 0 ∧
        ((pinned (UInt32.size - 1)).step (.new ⟨0, 1⟩ grant)).pool.find? ⟨0, 0⟩ = none) ∧
      dropped.pool.find? ⟨0, 0⟩ = some 0 ∧
        (dropped.step (.new ⟨0, 1⟩ grant)).pool.find? ⟨0, 0⟩ = none := by
  intro grant pinned dropped
  have hid : (⟨0, 0⟩ : PageId) ≠ Frame.unassigned := by decide
  have hother : (⟨0, 1⟩ : PageId) ≠ ⟨0, 0⟩ := by decide
  have hpinned : ∀ k, (pinned k).pool = Pool.single ⟨0, 0⟩ Page.blank (UInt32.ofNat (k + 1)) :=
    run_fetches ⟨0, 0⟩ grant ()
  have hround : UInt32.ofNat (UInt32.size - 1 + 1) = 0 := by decide
  have hdropped : dropped.pool = Pool.single ⟨0, 0⟩ Page.blank 0 := by
    change (pinned 0).pool.modifyFrame 0 (fun f => (f.release false).getD f) = _
    rw [hpinned]
    simp [Pool.modifyFrame, Pool.single, Frame.release, Frame.pins, Frame.drop]
  clear_value pinned
  exact ⟨gone_of_single ((hpinned _).trans (congrArg _ hround)) hid hother grant,
    gone_of_single hdropped hid hother grant⟩

end PagedHeap.PoolUse
