import PagedHeap.Proofs.PoolRequests

/-! When a pool has room. The clock finds a frame that may be taken in two rounds, if there is one, so
that a request for a frame fails only if every frame is pinned or a page cannot be written out. -/
namespace PagedHeap.Pool
variable {σ : Type} {sink : Sink σ} {pool pool' : Pool} {id : PageId} {i : Nat} {s s' : σ}
  {e : StoreError}

lemma contains_eq_false_iff : pool.contains id = false ↔ pool.find? id = none := by
  simp [contains, Table.contains, find?]

/-- Every frame holds a page that somebody uses. -/
def Full (pool : Pool) : Prop := ∀ i < pool.size, (pool.frame i).pins ≠ 0

/-- Nobody has pinned a frame on the free list. -/
def Idle (pool : Pool) : Prop := ∀ i ∈ pool.free, (pool.frame i).pins = 0

lemma idle_ofSize (n : Nat) : (ofSize n).Idle := by
  intro i hi
  have hi' : i < n := List.mem_range.mp hi
  simp [frame, ofSize, hi', Frame.pins]

lemma Idle.mono (h : pool.Idle) (hfree : ∀ i ∈ pool'.free, i ∈ pool.free)
    (hframe : ∀ i ∈ pool'.free, (pool'.frame i).pins = (pool.frame i).pins) : pool'.Idle :=
  fun i hi => (hframe i hi).trans (h i (hfree i hi))

lemma Idle.modifyFrame (h : pool.Idle) (change : Frame → Frame)
    (hc : ∀ f, (change f).pins = f.pins) : (pool.modifyFrame i change).Idle := by
  refine h.mono (fun _ hi => hi) fun j _ => ?_
  rw [frame_modifyFrame]
  split
  · exact hc _
  · rfl

lemma Idle.modifyFrame_bound (h : pool.Idle) (hw : pool.Wf) (hi : pool.find? id = some i)
    (change : Frame → Frame) : (pool.modifyFrame i change).Idle := by
  refine h.mono (fun _ hi => hi) fun j hj => ?_
  have hne : i ≠ j := by
    rintro rfl
    exact hw.unbound hj hi
  rw [frame_modifyFrame, if_neg fun hij => hne hij.1]

lemma idle_vacate (hw : pool.Wf) (h : pool.Idle) {r : Except StoreError Nat}
    (hv : pool.vacate sink s = (r, pool', s')) :
    pool'.Idle ∧ ∀ i, r = .ok i → i ∉ pool'.free := by
  have hnone : ∀ {q : Pool}, q.free = [] → q.Idle ∧ ∀ i, r = .ok i → i ∉ q.free :=
    fun hq => ⟨fun i hi => by simp [hq] at hi, fun i _ hi => by simp [hq] at hi⟩
  have hvacancy := hw.vacancy sink s
  rw [hv] at hvacancy
  cases hvacancy with
  | unused free =>
    have hnodup := free ▸ hw.nodup
    refine ⟨h.mono (fun i hi => free ▸ List.mem_cons_of_mem _ hi) fun _ _ => rfl, ?_⟩
    rintro _ ⟨rfl⟩
    exact (List.nodup_cons.mp hnodup).1
  | full free _ _ => exact hnone free
  | clean free _ _ _ _ _ => exact hnone free
  | washed free _ _ _ _ _ _ => exact hnone free
  | stuck free _ _ _ _ _ => exact hnone free

theorem Idle.claim (h : pool.Idle) (hw : pool.Wf) (sink : Sink σ) (id : PageId) (contents : Page)
    (s : σ) : (pool.claim sink id contents s).2.1.Idle := by
  unfold Pool.claim
  split
  · next i pool' hf =>
    obtain ⟨j, hj, hp⟩ := Option.map_eq_some_iff.mp hf
    cases hp
    exact h.modifyFrame_bound hw hj Frame.pin
  · split
    · next hv => exact (idle_vacate hw h hv).1
    · next i between s' hv =>
      obtain ⟨hidle, hout⟩ := idle_vacate hw h hv
      refine hidle.mono (fun _ hj => hj) fun j hj => ?_
      have hne : i ≠ j := fun hij => hout i rfl (hij ▸ hj)
      change (((between.modifyFrame i fun _ => Frame.assign id contents).modifyFrame i
        Frame.pin).frame j).pins = _
      rw [frame_modifyFrame, if_neg fun hij => hne hij.1, frame_modifyFrame,
        if_neg fun hij => hne hij.1]

lemma Idle.unpin {dirty : Bool} (h : pool.Idle) (hw : pool.Wf)
    (hu : pool.unpin id dirty = .ok pool') : pool'.Idle := by
  unfold Pool.unpin at hu
  split at hu
  · cases hu
  · next i hi =>
    split at hu
    · cases hu
    · cases hu
      exact h.modifyFrame_bound hw hi _

lemma Idle.flush (h : pool.Idle) (hw : pool.Wf) (sink : Sink σ) (select : PageId → Bool) (s : σ) :
    (pool.flush sink select s).2.1.Idle := by
  refine (hw.flush (P := fun pool' _ => pool'.Idle) sink select
    (fun {pool' s' id i} _ hp _ _ => ?_) h).2
  split
  · exact hp.modifyFrame Frame.clean fun _ => rfl
  · exact hp

/-- The search for a frame fails only if every frame is pinned or a page cannot be written out. -/
theorem Wf.vacate_error (h : pool.Wf) (hv : pool.vacate sink s = (.error e, pool', s')) :
    (e = .poolFull ∧ pool.free = [] ∧ pool.Full) ∨
      ∃ id i f, pool.cached id = some (i, f) ∧ f.dirty = true ∧
        sink id f.contents s = (.error e, s') := by
  have hvacancy := h.vacancy sink s
  rw [hv] at hvacancy
  cases hvacancy with
  | full free _ barred => exact Or.inl ⟨rfl, free, barred⟩
  | @stuck i victim _ _ _ _ _ there _ dirty failed =>
    exact Or.inr ⟨victim, i, _, cached_eq_some_iff.mpr ⟨there, rfl⟩, dirty, failed⟩

/-- A claim fails only as the search for a frame does. -/
theorem Wf.claim_error (h : pool.Wf) {contents : Page}
    (hc : (pool.claim sink id contents s).1 = .error e) :
    (e = .poolFull ∧ pool.free = [] ∧ pool.Full) ∨
      ∃ id i f s', pool.cached id = some (i, f) ∧ f.dirty = true ∧
        sink id f.contents s = (.error e, s') := by
  unfold Pool.claim at hc
  split at hc
  · cases hc
  · split at hc
    · next hv =>
      cases hc
      exact (h.vacate_error hv).imp_right fun ⟨id, i, f, hd⟩ => ⟨id, i, f, _, hd⟩
    · cases hc

theorem Wf.full_of_claim (h : pool.Wf) {contents : Page}
    (hc : (pool.claim sink id contents s).1 = .error e) (hfree : pool.free = [])
    (hfull : pool.Full) : (pool.claim sink id contents s).2.1.free = [] ∧
      (pool.claim sink id contents s).2.1.Full := by
  unfold Pool.claim at hc ⊢
  split at hc
  · cases hc
  · have hvacancy := h.vacancy sink s
    generalize pool.vacate sink s = r at hvacancy hc ⊢
    cases hvacancy with
    | full | stuck => exact ⟨hfree, hfull⟩
    | unused | clean | washed => cases hc

/-- If every frame is pinned there is none to be had, and nothing is written. -/
theorem Wf.vacate_of_full (hw : pool.Wf) (hi : pool.Idle) (h : pool.Full) (sink : Sink σ) (s : σ) :
    ∃ pool', pool.vacate sink s = (.error .poolFull, pool', s) := by
  have hvacancy := hw.vacancy sink s
  generalize pool.vacate sink s = r at hvacancy
  cases hvacancy with
  | @unused i rest free =>
    have hmem : i ∈ pool.free := free ▸ List.mem_cons_self
    exact absurd (hi i hmem) (h i (hw.lt hmem))
  | full => exact ⟨_, rfl⟩
  | clean _ _ _ there unpinned => exact absurd unpinned (h _ (hw.bound there).1)
  | washed _ _ _ there unpinned => exact absurd unpinned (h _ (hw.bound there).1)
  | stuck _ _ there unpinned => exact absurd unpinned (h _ (hw.bound there).1)

lemma claim_of_fetch {j : Nat} (h : pool.fetch id = some (j, pool')) (contents : Page) :
    pool.claim sink id contents s = (.ok j, pool', s) := by
  simp [Pool.claim, h]

/-- A page that is not cached is given a frame exactly if one is found. -/
lemma claim_of_away (haway : pool.cached id = none) (contents : Page) :
    (pool.claim sink id contents s).1 = (pool.vacate sink s).1 := by
  unfold Pool.claim
  rw [fetch_eq_none_iff.mpr haway]
  dsimp only
  rcases pool.vacate sink s with ⟨_ | _, _, _⟩ <;> rfl

/-- If all pages can be written out, a page that is not cached is refused a frame exactly if every
frame is pinned. -/
theorem Wf.claim_error_iff (hw : pool.Wf) (hi : pool.Idle) (haway : pool.cached id = none)
    (hsink : ∀ {id i f e s'}, pool.cached id = some (i, f) → sink id f.contents s ≠ (.error e, s'))
    (contents : Page) :
    (pool.claim sink id contents s).1 = .error e ↔ e = .poolFull ∧ pool.Full := by
  rw [claim_of_away haway]
  constructor
  · intro he
    rcases hv : pool.vacate sink s with ⟨r, pool', s'⟩
    rw [hv] at he
    dsimp only at he
    rw [he] at hv
    rcases hw.vacate_error hv with ⟨he, -, hfull⟩ | ⟨_, _, _, hc, -, hs⟩
    · exact ⟨he, hfull⟩
    · exact absurd hs (hsink hc)
  · rintro ⟨rfl, hfull⟩
    obtain ⟨pool', hv⟩ := hw.vacate_of_full hi hfull sink s
    rw [hv]

section Single
variable {other : PageId} {p q : Page} {count : UInt32}

/-- The pool of one frame in which a clean page stands, with so many pins as they are counted. -/
def single (id : PageId) (p : Page) (count : UInt32) : Pool where
  frames := #[{ bound := id, count, contents := p }]
  table := ⟨[(id, 0)]⟩
  free := []
  clock := ⟨#[true], 0⟩

lemma claim_ofSize_one (sink : Sink σ) (id : PageId) (p : Page) (s : σ) :
    (ofSize 1).claim sink id p s = (.ok 0, single id p 1, s) := rfl

lemma fetch_single (id : PageId) (p : Page) (count : UInt32) :
    (single id p count).fetch id = some (0, single id p (count + 1)) := by
  have hfind : (single id p count).find? id = some 0 := by simp [single, find?, Table.find?]
  rw [fetch, hfind]
  rfl

lemma claim_single (sink : Sink σ) (id : PageId) (p q : Page) (count : UInt32) (s : σ) :
    (single id p count).claim sink id q s = (.ok 0, single id p (count + 1), s) := by
  rw [claim_of_fetch (fetch_single id p count)]

lemma sweep_single {evictable : Nat → Bool} (h : evictable 0 = true) :
    (⟨#[true], 0⟩ : Clock).sweep evictable = ⟨some 0, [0, 0], ⟨#[false], 0⟩⟩ := by
  simp [Clock.sweep, Clock.sweepFrom, Clock.size, Clock.marked, Clock.clear, Clock.advance, h]

/-- A page without pins makes room for another one. -/
lemma claim_single_other (sink : Sink σ) (p q : Page) (s : σ) (hid : id ≠ Frame.unassigned)
    (ho : other ≠ id) : (single id p 0).claim sink other q s = (.ok 0, single other q 1, s) := by
  have haway : (single id p 0).fetch other = none := by
    simp [fetch, single, find?, Table.find?, Ne.symm ho]
  have hpage : ((single id p 0).frame 0).page? = some id :=
    (Frame.page?_eq_some_iff _ _).mpr ⟨rfl, hid⟩
  have hvacate : (single id p 0).vacate sink s =
      (.ok 0, { single id p 0 with table := ⟨[]⟩, clock := ⟨#[false], 0⟩ }, s) := by
    have hswept : ((single id p 0).clock.sweep fun i => !((single id p 0).frame i).pinned) =
        ⟨some 0, [0, 0], ⟨#[false], 0⟩⟩ := sweep_single rfl
    have hforget : (⟨[(id, 0)]⟩ : Table PageId Nat).erase id = ⟨[]⟩ := by simp [Table.erase]
    unfold vacate
    dsimp only [single] at hswept hpage ⊢
    rw [hswept]
    dsimp only [frame] at hpage ⊢
    rw [hpage]
    simp only [forget, hforget]
    rfl
  rw [claim, haway]
  dsimp only
  rw [hvacate]
  rfl

end Single

end PagedHeap.Pool
