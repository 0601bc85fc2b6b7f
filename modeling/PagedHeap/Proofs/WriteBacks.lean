import PagedHeap.Proofs.PoolWrites

/-! Dirty pages are written before they are replaced. A watch over a run keeps, from what is asked,
answered and written alone, which pages were given back dirty since they were last loaded or written
out; these are the ones with a dirty mark, so none of them leaves the pool but by a write that was
granted. A page whose id stands for no page is lost, since its frame does not show that it holds it. -/
namespace PagedHeap
variable {σ : Type}

namespace PoolUse
variable {u : PoolUse σ} {n : Nat} {id : PageId}

/-- None of the calls is granted a page, one after another. -/
def Unclaimed (id : PageId) : PoolUse σ → List (PoolCall σ) → Prop
  | _, [] => True
  | u, call :: rest => call.taken (u.answer call) id = 0 ∧ Unclaimed id (u.step call) rest

lemma Sound.away {calls : List (PoolCall σ)} (h : u.Sound n) (hcalls : ∀ call ∈ calls, call.Proper)
    (haway : u.pool.cached id = none) (hun : Unclaimed id u calls) :
    (calls.foldl PoolUse.step u).pool.cached id = none := by
  induction calls generalizing u with
  | nil => exact haway
  | cons call rest ih =>
    obtain ⟨hcall, hrest⟩ := List.forall_mem_cons.mp hcalls
    refine ih (h.step hcall) hrest ?_ hun.2
    have hpassage := h.passage hcall id
    rw [haway] at hpassage
    generalize (u.step call).pool.cached id = now at hpassage ⊢
    cases hpassage with
    | absent => rfl
    | came claimed => cases hun.1.symm.trans claimed

end PoolUse

/-- A pool in use, and the pages that were given back dirty since they were last loaded or written
out. -/
structure Watch (σ : Type) where
  use : PoolUse σ
  unsaved : PageId → Bool := fun _ => false

namespace Watch
variable {w : Watch σ} {n : Nat}

def loads (w : Watch σ) (call : PoolCall σ) (id : PageId) : Bool :=
  !w.use.pool.contains id && call.taken (w.use.answer call) id ≠ 0

def saves (w : Watch σ) (call : PoolCall σ) (id : PageId) : Bool :=
  (w.use.writes call).any fun e => e.id = id && e.granted

/-- A call, and the pages that are unsaved after it. -/
def step (w : Watch σ) (call : PoolCall σ) : Watch σ where
  use := w.use.step call
  unsaved id := call.soils (w.use.answer call) id ||
    w.unsaved id && !w.loads call id && !w.saves call id

def run (n : Nat) (behind : σ) (calls : List (PoolCall σ)) : Watch σ :=
  calls.foldl step { use := { pool := Pool.ofSize n, behind } }

lemma use_run (n : Nat) (behind : σ) (calls : List (PoolCall σ)) :
    (run n behind calls).use = PoolUse.run n behind calls := by
  have hfrom : ∀ w : Watch σ, (calls.foldl step w).use = calls.foldl PoolUse.step w.use := by
    induction calls with
    | nil => exact fun _ => rfl
    | cons call rest ih => exact fun w => ih (w.step call)
  exact hfrom _

/-- The unsaved pages are those with a dirty mark. -/
def Exact (w : Watch σ) : Prop :=
  ∀ id, w.unsaved id = true ↔ ∃ i f, w.use.pool.cached id = some (i, f) ∧ f.dirty = true

lemma Exact.unsaved_eq {id : PageId} {i : Nat} {f : Frame} (h : w.Exact)
    (hc : w.use.pool.cached id = some (i, f)) : w.unsaved id = f.dirty := by
  rw [Bool.eq_iff_iff, h id, hc]
  exact ⟨fun ⟨_, _, he, hd⟩ => by cases he; exact hd, fun hd => ⟨_, _, rfl, hd⟩⟩

lemma Exact.unsaved_of_away {id : PageId} (h : w.Exact) (hc : w.use.pool.cached id = none) :
    w.unsaved id = false := by
  rw [← Bool.not_eq_true, h id, hc]
  exact nofun

lemma Exact.step {call : PoolCall σ} (h : w.Exact) (hs : w.use.Sound n) (hcall : call.Proper) :
    (w.step call).Exact := by
  intro id
  have hpassage := hs.passage hcall id
  have hin : w.use.pool.contains id = (w.use.pool.cached id).isSome := by
    simp [Pool.contains, Table.contains, Pool.cached, Pool.find?]
  simp only [Watch.step, loads, saves, hin]
  generalize hb : w.use.pool.cached id = before, (w.use.step call).pool.cached id = now at *
  cases hpassage with
  | absent _ unsoiled _ => simp [unsoiled, h.unsaved_of_away hb]
  | came _ _ unsoiled _ => simp [unsoiled, h.unsaved_of_away hb, Frame.assign, Frame.pin]
  | @left i f _ unsoiled _ written =>
    cases hd : f.dirty <;> simp [unsoiled, h.unsaved_eq hb, written, hd]
  | @stayed i f f' altered =>
    have hsaved : ((w.use.writes call).any fun e => e.id = id && e.granted) = true ↔
        (⟨id, f.contents, true⟩ : Write) ∈ w.use.writes call := by
      simp only [List.any_eq_true, Bool.and_eq_true, decide_eq_true_eq]
      constructor
      · rintro ⟨⟨_, contents, _⟩, he, rfl, rfl⟩
        exact altered.written _ he rfl ▸ he
      · exact fun he => ⟨_, he, rfl, rfl⟩
    simp [h.unsaved_eq hb, altered.dirty_iff, ← hsaved]

lemma run_exact (n : Nat) (behind : σ) (calls : List (PoolCall σ))
    (hcalls : ∀ call ∈ calls, call.Proper) : (run n behind calls).Exact := by
  have hfrom : ∀ w : Watch σ, w.Exact → w.use.Sound n → (calls.foldl Watch.step w).Exact := by
    induction calls with
    | nil => exact fun _ hw _ => hw
    | cons call rest ih =>
      obtain ⟨hcall, hrest⟩ := List.forall_mem_cons.mp hcalls
      exact fun w hw hs => ih hrest _ (hw.step hs hcall) (hs.step hcall)
  refine hfrom _ (fun id => ?_) (PoolUse.sound_run n behind [] nofun)
  simp [Pool.cached, Pool.find?, Pool.ofSize]

/-- Whenever a frame is given from an unsaved page to another, the call that does it writes that page
once, with what stands in the frame, and is granted the write; and the page is out of the pool until
it is claimed again. -/
def WrittenBack (n : Nat) (behind : σ) (calls : List (PoolCall σ)) : Prop :=
  ∀ before call during after, calls = before ++ call :: (during ++ after) → ∀ id i,
    let w := run n behind before
    w.use.pool.find? id = some i → ((w.step call).use.pool.frame i).bound ≠ id →
      w.unsaved id = true →
      w.use.writes call = [⟨id, (w.use.pool.frame i).contents, true⟩] ∧
        (PoolUse.Unclaimed id (w.step call).use during →
          (run n behind (before ++ call :: during)).use.pool.contains id = false)

/-- No dirty page is dropped, whatever is asked of a pool and whatever becomes of its writes. -/
theorem run_writtenBack (n : Nat) (behind : σ) (calls : List (PoolCall σ))
    (hcalls : ∀ call ∈ calls, call.Proper) : WrittenBack n behind calls := by
  rintro before call during after rfl id i w hi hbound hunsaved
  have hbefore : ∀ c ∈ before, c.Proper := fun c hc =>
    hcalls c (List.mem_append_left _ hc)
  have hcall : call.Proper := hcalls call (by simp)
  have hduring : ∀ c ∈ during, c.Proper := fun c hc => hcalls c (by simp [hc])
  have hsound : w.use.Sound n := by
    rw [show w.use = _ from use_run n behind before]
    exact PoolUse.sound_run n behind before hbefore
  have hdirty : (w.use.pool.frame i).dirty = true := by
    obtain ⟨j, f, hc, hd⟩ := (run_exact n behind before hbefore id).mp hunsaved
    obtain ⟨hj, rfl⟩ := Pool.cached_eq_some_iff.mp hc
    cases hi.symm.trans hj
    exact hd
  have hpassage := hsound.passage hcall id
  rw [Pool.cached_eq_some_iff.mpr ⟨hi, rfl⟩] at hpassage
  cases hnow : (w.use.step call).pool.cached id with
  | none =>
    rw [hnow] at hpassage
    cases hpassage with
    | left _ _ _ written =>
      refine ⟨by rw [written, if_pos hdirty], fun hun => ?_⟩
      rw [use_run, PoolUse.run_append, ← use_run]
      exact Pool.contains_eq_false_iff.mpr
        (Pool.cached_eq_none_iff.mp ((hsound.step hcall).away hduring hnow hun))
  | some e =>
    rw [hnow] at hpassage
    cases hpassage with
    | @stayed _ _ f' altered =>
      refine absurd ?_ hbound
      rw [show ((w.step call).use.pool.frame i) = f' from (Pool.cached_eq_some_iff.mp hnow).2,
        altered.bound]
      exact (hsound.wf.bound hi).2.1

/-- A page is given back dirty, and another takes its frame. -/
theorem run_writtenBack_evicted :
    let grant : Sink Unit := fun _ _ s => (.ok (), s)
    let before : List (PoolCall Unit) := [.new ⟨0, 0⟩ grant, .unpin ⟨0, 0⟩ true]
    let w := run 1 () before
    (∀ call ∈ before ++ [.new ⟨0, 1⟩ grant], call.Proper) ∧ w.use.pool.find? ⟨0, 0⟩ = some 0 ∧
      ((w.step (.new ⟨0, 1⟩ grant)).use.pool.frame 0).bound ≠ ⟨0, 0⟩ ∧
      w.unsaved ⟨0, 0⟩ = true ∧
      w.use.writes (.new ⟨0, 1⟩ grant) = [⟨⟨0, 0⟩, (w.use.pool.frame 0).contents, true⟩] := by
  intro grant before w
  have hcalls : ∀ call ∈ before ++ [.new ⟨0, 1⟩ grant], call.Proper := by
    simp [before, PoolCall.Proper, PoolCall.wants?, Frame.unassigned, noPage]
  have hfind : w.use.pool.find? ⟨0, 0⟩ = some 0 := by rfl
  have hbound : ((w.step (.new ⟨0, 1⟩ grant)).use.pool.frame 0).bound ≠ ⟨0, 0⟩ := by decide
  have hunsaved : w.unsaved ⟨0, 0⟩ = true := by rfl
  exact ⟨hcalls, hfind, hbound, hunsaved,
    (run_writtenBack 1 () _ hcalls before _ [] [] rfl ⟨0, 0⟩ 0 hfind hbound hunsaved).1⟩

/-- A page with the id that stands for none is given back dirty and then replaced, and nothing is
written. -/
theorem not_writtenBack_unassigned :
    ¬ WrittenBack 1 () [.new Frame.unassigned fun _ _ s => (.ok (), s),
      .unpin Frame.unassigned true, .new ⟨0, 1⟩ fun _ _ s => (.ok (), s)] := by
  intro h
  have hlost := (h [.new Frame.unassigned fun _ _ s => (.ok (), s), .unpin Frame.unassigned true]
    (.new ⟨0, 1⟩ fun _ _ s => (.ok (), s)) [] [] rfl Frame.unassigned 0 rfl (by decide) rfl).1
  cases hlost

end Watch
end PagedHeap
