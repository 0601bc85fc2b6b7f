import PagedHeap.Proofs.PoolStructure

/-! What becomes of the pages in a pool when a frame is claimed, a pin is dropped or pages are
written out. A claim gives up at most one page, which nobody has pinned and which was written to the
sink if it was dirty. -/
namespace PagedHeap.Pool
variable {σ : Type} {sink : Sink σ} {pool : Pool} {id : PageId} {i : Nat} {s : σ}

/-- How the search for a frame goes, and the pool that it leaves. -/
inductive Vacancy (sink : Sink σ) (pool : Pool) (s : σ) :
    Except StoreError Nat × Pool × σ → Prop
  /-- There is an unused frame. -/
  | unused {i rest} (free : pool.free = i :: rest) :
      Vacancy sink pool s (.ok i, { pool with free := rest }, s)
  /-- Every frame is pinned. -/
  | full {clock : Clock} (free : pool.free = []) (turned : ({ pool with clock } : Pool).Wf)
      (barred : ∀ i < pool.size, (pool.frame i).pins ≠ 0) :
      Vacancy sink pool s (.error .poolFull, { pool with clock }, s)
  /-- The page that the clock chooses is clean. -/
  | clean {i victim} {clock : Clock} (free : pool.free = []) (turned : ({ pool with clock } : Pool).Wf)
      (chosen : (pool.clock.sweep fun i => !(pool.frame i).pinned).victim = some i)
      (there : pool.find? victim = some i) (unpinned : (pool.frame i).pins = 0)
      (clean : (pool.frame i).dirty = false) :
      Vacancy sink pool s (.ok i, ({ pool with clock } : Pool).forget victim, s)
  /-- The page that the clock chooses is dirty and is written out. -/
  | washed {i victim s'} {clock : Clock} (free : pool.free = [])
      (turned : ({ pool with clock } : Pool).Wf)
      (chosen : (pool.clock.sweep fun i => !(pool.frame i).pinned).victim = some i)
      (there : pool.find? victim = some i) (unpinned : (pool.frame i).pins = 0)
      (dirty : (pool.frame i).dirty = true)
      (written : sink victim (pool.frame i).contents s = (.ok (), s')) :
      Vacancy sink pool s
        (.ok i, (({ pool with clock } : Pool).modifyFrame i Frame.clean).forget victim, s')
  /-- The page that the clock chooses is dirty and cannot be written out. -/
  | stuck {i victim e s'} {clock : Clock} (free : pool.free = [])
      (turned : ({ pool with clock } : Pool).Wf) (there : pool.find? victim = some i)
      (unpinned : (pool.frame i).pins = 0) (dirty : (pool.frame i).dirty = true)
      (failed : sink victim (pool.frame i).contents s = (.error e, s')) :
      Vacancy sink pool s (.error e, { pool with clock }, s')

/-- The ways in which the search for a frame can end. A frame that was found is a spare one. -/
inductive Vacated (sink : Sink σ) (pool : Pool) (s : σ) :
    Except StoreError Nat × Pool × σ → Prop
  /-- An unused frame was taken. -/
  | unused {i pool'} (shaped : pool'.Shaped (i :: pool'.free))
      (same : ∀ other, pool'.cached other = pool.cached other) :
      Vacated sink pool s (.ok i, pool', s)
  /-- A page left the pool. -/
  | evicted {i victim f pool' s'} (shaped : pool'.Shaped (i :: pool'.free))
      (there : pool.cached victim = some (i, f)) (unpinned : f.pins = 0)
      (written : f.dirty = false ∧ s' = s ∨
        f.dirty = true ∧ sink victim f.contents s = (.ok (), s'))
      (now : ∀ other, pool'.cached other =
        if other = victim then none else pool.cached other) :
      Vacated sink pool s (.ok i, pool', s')
  /-- Every frame was pinned. -/
  | full {pool'} (shaped : pool'.Wf) (same : ∀ other, pool'.cached other = pool.cached other) :
      Vacated sink pool s (.error .poolFull, pool', s)
  /-- A page could not be written out to make room. -/
  | stuck {i victim f e pool' s'} (shaped : pool'.Wf)
      (there : pool.cached victim = some (i, f)) (dirty : f.dirty = true)
      (failed : sink victim f.contents s = (.error e, s'))
      (same : ∀ other, pool'.cached other = pool.cached other) :
      Vacated sink pool s (.error e, pool', s')

/-- The ways in which a claim of a frame for a page can end. -/
inductive Claimed (sink : Sink σ) (id : PageId) (contents : Page) (pool : Pool) (s : σ) :
    Except StoreError Nat × Pool × σ → Prop
  /-- The page was cached. -/
  | hit {i f pool'} (here : pool.cached id = some (i, f))
      (now : ∀ other, pool'.cached other =
        if other = id then some (i, f.pin) else pool.cached other) :
      Claimed sink id contents pool s (.ok i, pool', s)
  /-- The page was put into a frame that was found for it. -/
  | miss {i between pool' s'} (away : pool.cached id = none)
      (vacated : Vacated sink pool s (.ok i, between, s'))
      (now : ∀ other, pool'.cached other =
        if other = id then some (i, (Frame.assign id contents).pin) else between.cached other) :
      Claimed sink id contents pool s (.ok i, pool', s')
  /-- No frame was to be had. -/
  | failed {e pool' s'} (vacated : Vacated sink pool s (.error e, pool', s')) :
      Claimed sink id contents pool s (.error e, pool', s')

lemma Shaped.withClock {spare : List Nat} (h : pool.Shaped spare) {clock : Clock}
    (hsize : clock.size = pool.size) (hhand : 0 < pool.size → clock.hand < pool.size) :
    ({ pool with clock } : Pool).Shaped spare :=
  h.congr rfl rfl (fun _ => rfl) hsize hhand

/-- Taking the page out of an unpinned frame makes the frame a spare one. -/
lemma Shaped.forget {spare : List Nat} (h : pool.Shaped spare) (hi : pool.find? id = some i) :
    (pool.forget id).Shaped (i :: spare) := by
  have hbound := h.bound hi
  have hfind : ∀ other, (pool.forget id).find? other =
      if other = id then none else pool.find? other := fun other => Table.find?_erase ..
  have hkeep : ∀ {other j}, (pool.forget id).find? other = some j →
      other ≠ id ∧ pool.find? other = some j := by
    intro other j hj
    rw [hfind] at hj
    split at hj
    · cases hj
    · next ho => exact ⟨ho, hj⟩
  constructor
  · exact h.distinct.erase id
  · intro other j hj
    exact h.bound (hkeep hj).2
  · exact List.nodup_cons.mpr ⟨fun hs => h.unbound hs hi, h.nodup⟩
  · intro j hj
    rcases List.mem_cons.mp hj with rfl | hj
    · exact hbound.1
    · exact h.lt hj
  · intro j other hj ho
    rcases List.mem_cons.mp hj with rfl | hj
    · exact (hkeep ho).1 (h.find?_inj (hkeep ho).2 hi)
    · exact h.unbound hj (hkeep ho).2
  · intro j hj hn
    rw [List.mem_cons, not_or] at hn
    have hb := h.covered hj hn.2
    rw [hfind, if_neg]
    · exact hb
    · intro hid
      rw [show (pool.forget id).frame j = pool.frame j from rfl] at hid
      rw [hid, hi] at hb
      exact hn.1 (Option.some.inj hb).symm
  · exact h.marks
  · exact h.hand

lemma cached_place {spare : List Nat} (h : pool.Shaped (i :: spare)) (contents : Page)
    (other : PageId) : (pool.place i id contents).cached other =
      if other = id then some (i, (Frame.assign id contents).pin) else pool.cached other := by
  have hi := h.lt List.mem_cons_self
  by_cases ho : other = id
  · simp [cached, ho, frame_place hi]
  · rw [if_neg ho, cached, cached, find?_place, if_neg ho]
    cases hj : pool.find? other with
    | none => rfl
    | some j =>
      have hij : i ≠ j := by
        rintro rfl
        exact h.unbound List.mem_cons_self hj
      simp [frame_place hi, hij]

lemma cached_forget (other : PageId) :
    (pool.forget id).cached other = if other = id then none else pool.cached other := by
  simp only [cached, find?, forget, Table.find?_erase]
  split <;> rfl

lemma Wf.victim (h : pool.Wf) (hfree : pool.free = [])
    (hv : (pool.clock.sweep fun i => !(pool.frame i).pinned).victim = some i) :
    ∃ id, pool.find? id = some i ∧ (pool.frame i).page? = some id ∧ (pool.frame i).pins = 0 := by
  obtain ⟨hi, hp⟩ := (h.swept _).of_victim hv
  have hc := h.covered (h.marks ▸ hi) (by simp [hfree])
  refine ⟨_, hc, ?_, by simpa [Frame.pinned] using hp⟩
  exact (Frame.page?_eq_some_iff _ _).mpr ⟨rfl, (h.bound hc).2.2⟩

lemma Wf.sweep (h : pool.Wf) (evictable : Nat → Bool) :
    (pool.clock.sweep evictable).clock.size = pool.size ∧
      (0 < pool.size → (pool.clock.sweep evictable).clock.hand < pool.size) := by
  have hswept := h.swept evictable
  rw [← h.marks]
  exact ⟨hswept.size, hswept.hand_lt (by rw [h.marks]; exact h.hand)⟩

/-- All that the search for a frame can do. -/
theorem Wf.vacancy (h : pool.Wf) (sink : Sink σ) (s : σ) :
    Vacancy sink pool s (pool.vacate sink s) := by
  unfold Pool.vacate
  split
  · next hfree => exact .unused hfree
  · next hfree =>
    have hsweep := h.sweep fun i => !(pool.frame i).pinned
    have hturned := h.withClock hsweep.1 hsweep.2
    dsimp only
    split
    · next hnone =>
      refine .full hfree hturned fun i hi hpins => ?_
      have hbarred := (h.swept _).victim_eq_none_iff.mp hnone i (h.marks ▸ hi)
      simp [Frame.pinned, hpins] at hbarred
    · next i hv =>
      obtain ⟨victim, hi, hp, hpins⟩ := h.victim hfree hv
      split
      · next hn => cases hp.symm.trans hn
      · next old ho =>
        obtain rfl : victim = old := Option.some.inj (hp.symm.trans ho)
        split
        · next hd =>
          split
          · next hs => exact .stuck hfree hturned hi hpins hd hs
          · next hs => exact .washed hfree hturned hv hi hpins hd hs
        · next hd => exact .clean hfree hturned hv hi hpins (Bool.eq_false_iff.mpr hd)

theorem Wf.vacate (h : pool.Wf) (sink : Sink σ) (s : σ) :
    Vacated sink pool s (pool.vacate sink s) := by
  have hvacancy := h.vacancy sink s
  generalize pool.vacate sink s = r at hvacancy
  cases hvacancy with
  | unused free =>
    rw [Wf, free] at h
    exact .unused (h.congr rfl rfl (fun _ => rfl) h.marks h.hand) fun _ => rfl
  | full _ turned _ => exact .full turned fun _ => rfl
  | clean _ turned _ there unpinned clean =>
    exact .evicted (turned.forget there) (cached_eq_some_iff.mpr ⟨there, rfl⟩) unpinned
      (Or.inl ⟨clean, rfl⟩) cached_forget
  | @washed i _ _ _ _ turned _ there unpinned dirty written =>
    have hclean := turned.modifyFrame i Frame.clean rfl
    refine .evicted (hclean.forget there) (cached_eq_some_iff.mpr ⟨there, rfl⟩) unpinned
      (Or.inr ⟨dirty, written⟩) fun other => ?_
    rw [cached_forget, turned.cached_modifyFrame there]
    split <;> rfl
  | stuck _ turned there _ dirty failed =>
    exact .stuck turned (cached_eq_some_iff.mpr ⟨there, rfl⟩) dirty failed fun _ => rfl

theorem Wf.claim (h : pool.Wf) (hid : id ≠ Frame.unassigned) (sink : Sink σ) (contents : Page)
    (s : σ) : (pool.claim sink id contents s).2.1.Wf ∧
      Claimed sink id contents pool s (pool.claim sink id contents s) := by
  unfold Pool.claim
  split
  · next i pool' hf =>
    obtain ⟨hw, f, hc, hnow⟩ := h.fetch hf
    exact ⟨hw, .hit hc hnow⟩
  · next hf =>
    have haway : pool.cached id = none := fetch_eq_none_iff.mp hf
    have hv := h.vacate sink s
    split
    · next e pool' s' he =>
      rw [he] at hv
      refine ⟨?_, .failed hv⟩
      cases hv with
      | full shaped _ => exact shaped
      | stuck shaped _ _ _ _ => exact shaped
    · next i between s' he =>
      rw [he] at hv
      have hbetween : between.Shaped (i :: between.free) ∧ between.find? id = none := by
        cases hv with
        | unused shaped same => exact ⟨shaped, cached_eq_none_iff.mp (same id ▸ haway)⟩
        | evicted shaped _ _ _ now =>
          refine ⟨shaped, cached_eq_none_iff.mp ?_⟩
          rw [now]
          split
          · rfl
          · exact haway
      exact ⟨hbetween.1.place hid hbetween.2 contents,
        .miss haway hv (cached_place hbetween.1 contents)⟩

theorem Wf.unpin_ok {f : Frame} (h : pool.Wf) (hc : pool.cached id = some (i, f))
    (hpins : f.pins ≠ 0) (dirty : Bool) :
    ∃ pool', pool.unpin id dirty = .ok pool' ∧ pool'.Wf ∧
      ∀ other, pool'.cached other = if other = id
        then some (i, f.drop dirty)
        else pool.cached other := by
  obtain ⟨hi, rfl⟩ := cached_eq_some_iff.mp hc
  let change : Frame → Frame := fun _ => (pool.frame i).drop dirty
  refine ⟨pool.modifyFrame i change, ?_, h.modifyFrame i change rfl, h.cached_modifyFrame hi change⟩
  simp [Pool.unpin, hi, Frame.release, hpins, change]

lemma pins_lt (pool : Pool) (id : PageId) : pool.pins id < UInt32.size := by
  unfold pins
  cases pool.cached id with
  | none => exact Nat.succ_pos _
  | some e => exact e.2.pins_lt

lemma find?_eq_map_cached (pool : Pool) (id : PageId) :
    pool.find? id = (pool.cached id).map Prod.fst := by simp [cached, Function.comp_def]

/-- The pins of a page are at least those that are counted somewhere, so it is cached if there are
any. -/
lemma exists_cached_of_pins (h : pool.pins id ≠ 0) :
    ∃ i f, pool.cached id = some (i, f) ∧ f.pins = pool.pins id := by
  cases hc : pool.cached id with
  | none => simp [pins, hc] at h
  | some e => exact ⟨e.1, e.2, rfl, by simp [pins, hc]⟩

theorem unpin_eq_error_iff {e : StoreError} (dirty : Bool) :
    pool.unpin id dirty = .error e ↔ e = .pageNotPinned id ∧ pool.pins id = 0 := by
  unfold Pool.unpin pins cached
  cases hi : pool.find? id with
  | none => simp [eq_comm]
  | some i =>
    by_cases hp : (pool.frame i).pins = 0 <;> simp [Frame.release, hp, eq_comm]

/-- What becomes of the pages where a pin is dropped. -/
theorem Wf.unpin_cached {pool' : Pool} {dirty : Bool} (h : pool.Wf)
    (hu : pool.unpin id dirty = .ok pool') :
    ∃ i f, pool.cached id = some (i, f) ∧ f.pins ≠ 0 ∧ pool'.Wf ∧
      ∀ other, pool'.cached other = if other = id
        then some (i, f.drop dirty)
        else pool.cached other := by
  have hpins : pool.pins id ≠ 0 := fun h0 => by
    rw [(unpin_eq_error_iff _).mpr ⟨rfl, h0⟩] at hu
    cases hu
  obtain ⟨i, f, hc, hf⟩ := exists_cached_of_pins hpins
  obtain ⟨pool₁, hp₁, hw, hnow⟩ := h.unpin_ok hc (by omega) dirty
  obtain rfl : pool₁ = pool' := Except.ok.inj (hp₁.symm.trans hu)
  exact ⟨i, f, hc, by omega, hw, hnow⟩

lemma pins_modifyFrame (change : Frame → Frame) (h : ∀ f, (change f).pins = f.pins) (i : Nat)
    (id : PageId) : (pool.modifyFrame i change).pins id = pool.pins id := by
  simp only [pins, cached, find?_modifyFrame]
  cases pool.find? id with
  | none => rfl
  | some j =>
    simp only [Option.map_some, Option.getD_some, frame_modifyFrame]
    split
    · exact h _
    · rfl

section Claimed
variable {contents : Page} {pool' : Pool} {s' : σ} {e : StoreError}

lemma Vacated.cached_of_error (h : Vacated sink pool s (.error e, pool', s')) (other : PageId) :
    pool'.cached other = pool.cached other := by
  cases h with
  | full _ same => exact same other
  | stuck _ _ _ _ same => exact same other

/-- A page leaves the pool only if nobody has it pinned. -/
lemma Vacated.cached_of_ok (h : Vacated sink pool s (.ok i, pool', s')) (other : PageId) :
    pool'.cached other = pool.cached other ∨
      pool'.cached other = none ∧ pool.pins other = 0 := by
  cases h with
  | unused _ same => exact Or.inl (same other)
  | evicted _ there unpinned _ now =>
    rw [now]
    split
    · next ho =>
      subst ho
      exact Or.inr ⟨rfl, by simp [pins, there, unpinned]⟩
    · exact Or.inl rfl

lemma Claimed.cached_of_error (h : Claimed sink id contents pool s (.error e, pool', s'))
    (other : PageId) : pool'.cached other = pool.cached other := by
  cases h with
  | failed vacated => exact vacated.cached_of_error other

lemma Claimed.find?_self (h : Claimed sink id contents pool s (.ok i, pool', s')) :
    pool'.find? id = some i := by
  rw [find?_eq_map_cached]
  cases h with
  | hit _ now => simp [now]
  | miss _ _ now => simp [now]

lemma Claimed.cached_other (h : Claimed sink id contents pool s (.ok i, pool', s'))
    {other : PageId} (ho : other ≠ id) :
    pool'.cached other = pool.cached other ∨
      pool'.cached other = none ∧ pool.pins other = 0 := by
  cases h with
  | hit _ now => exact Or.inl (by rw [now, if_neg ho])
  | miss _ vacated now =>
    rw [now, if_neg ho]
    exact vacated.cached_of_ok other

/-- A claim adds one pin, to the page that it is for. -/
theorem Claimed.pins_mod (h : Claimed sink id contents pool s (.ok i, pool', s'))
    (other : PageId) :
    pool'.pins other = (pool.pins other + if other = id then 1 else 0) % UInt32.size := by
  by_cases ho : other = id
  · subst ho
    rw [if_pos rfl, pins, pins]
    cases h with
    | hit here now =>
      simp only [now, here, if_true, Option.map_some, Option.getD_some, Frame.pins_pin]
    | miss away _ now =>
      simp only [now, away, if_true, Option.map_some, Option.getD_some, Frame.pins_pin_assign]
      rfl
  · rw [if_neg ho, Nat.add_zero]
    rcases h.cached_other ho with hc | ⟨hc, hp⟩
    · rw [Nat.mod_eq_of_lt (pool.pins_lt other), pins, pins, hc]
    · rw [hp, pins, hc]
      rfl

/-- All pins are counted unless they were as many as can be. -/
theorem Claimed.pins_eq (h : Claimed sink id contents pool s (.ok i, pool', s'))
    (hfew : pool.pins id < Frame.maxPins) (other : PageId) :
    pool'.pins other = pool.pins other + if other = id then 1 else 0 := by
  rw [h.pins_mod, Nat.mod_eq_of_lt]
  split
  · next ho => exact ho ▸ Nat.add_lt_of_lt_sub hfew
  · exact pool.pins_lt other

theorem Claimed.find?_pinned (h : Claimed sink id contents pool s (.ok i, pool', s'))
    {other : PageId} {j : Nat} (hj : pool.find? other = some j) (hp : pool.pins other ≠ 0) :
    pool'.find? other = some j := by
  by_cases ho : other = id
  · subst ho
    cases h with
    | hit here now =>
      rw [find?_eq_map_cached, now, if_pos rfl]
      rw [find?_eq_map_cached, here] at hj
      exact hj
    | miss away _ _ => rw [cached_eq_none_iff.mp away] at hj; cases hj
  · rw [find?_eq_map_cached] at hj ⊢
    rcases h.cached_other ho with hc | ⟨_, hp'⟩
    · rw [hc, hj]
    · exact absurd hp' hp

lemma Claimed.find?_old (h : Claimed sink id contents pool s (.ok i, pool', s'))
    {other : PageId} {j : Nat} (hj : pool'.find? other = some j) :
    other = id ∨ pool.find? other = some j := by
  by_cases ho : other = id
  · exact Or.inl ho
  · rw [find?_eq_map_cached] at hj
    rcases h.cached_other ho with hc | ⟨hc, _⟩
    · exact Or.inr (by rw [find?_eq_map_cached, ← hc, hj])
    · rw [hc] at hj
      cases hj

end Claimed

lemma Wf.mem_dirtyPages {select : PageId → Bool} {e : PageId × Nat} (h : pool.Wf)
    (he : e ∈ pool.dirtyPages select) : select e.1 = true ∧ pool.find? e.1 = some e.2 := by
  have he := List.mem_filter.mp (List.mem_mergeSort.mp he)
  simp only [Bool.and_eq_true] at he
  exact ⟨he.2.1, h.distinct.find?_eq_some_iff.mpr he.1⟩

/-- Writing out keeps whatever the single writes keep, until one of them fails. -/
theorem Wf.flush_cases {P : Pool → σ → Prop} {Q : StoreError → Pool → σ → Prop} (h : pool.Wf)
    (sink : Sink σ) (select : PageId → Bool)
    (step : ∀ {pool : Pool} {s : σ} {id i}, pool.Wf → P pool s → select id = true →
      pool.find? id = some i →
      match sink id (pool.frame i).contents s with
      | (.ok _, s') => P (pool.modifyFrame i Frame.clean) s'
      | (.error e, s') => Q e pool s')
    (hp : P pool s) :
    match pool.flush sink select s with
    | (.ok _, pool', s') => pool'.Wf ∧ P pool' s'
    | (.error e, pool', s') => pool'.Wf ∧ Q e pool' s' := by
  have hall : ∀ e ∈ pool.dirtyPages select, select e.1 = true ∧ pool.find? e.1 = some e.2 :=
    fun e he => h.mem_dirtyPages he
  rw [Pool.flush]
  generalize pool.dirtyPages select = pages at hall
  induction pages generalizing pool s with
  | nil => exact ⟨h, hp⟩
  | cons e rest ih =>
    obtain ⟨id, i⟩ := e
    have hhead := hall _ List.mem_cons_self
    have hstep := step h hp hhead.1 hhead.2
    rw [flushEach]
    split at hstep
    · next s' hs =>
      have hrest := ih (h.modifyFrame i Frame.clean rfl) hstep fun e he =>
        hall e (List.mem_cons_of_mem _ he)
      simp only [hs]
      rcases hr : flushEach sink rest (pool.modifyFrame i Frame.clean) s' with ⟨_ | _, _, _⟩ <;>
        rw [hr] at hrest <;> exact hrest
    · next e s' hs =>
      simp only [hs]
      exact ⟨h, hstep⟩

/-- What also a write that fails does not break is kept in any case. -/
theorem Wf.flush {P : Pool → σ → Prop} (h : pool.Wf) (sink : Sink σ) (select : PageId → Bool)
    (step : ∀ {pool : Pool} {s : σ} {id i}, pool.Wf → P pool s → select id = true →
      pool.find? id = some i →
      match sink id (pool.frame i).contents s with
      | (.ok _, s') => P (pool.modifyFrame i Frame.clean) s'
      | (.error _, s') => P pool s')
    (hp : P pool s) :
    (pool.flush sink select s).2.1.Wf ∧
      P (pool.flush sink select s).2.1 (pool.flush sink select s).2.2 := by
  have hcases := h.flush_cases (Q := fun _ => P) sink select step hp
  split at hcases
  · next hr => rw [hr]; exact hcases
  · next hr => rw [hr]; exact hcases

/-- A pool that differs in marks and contents only has the same pages, with the same pins. -/
structure SamePins (pool pool' : Pool) : Prop where
  size : pool'.size = pool.size
  find : ∀ id, pool'.find? id = pool.find? id
  pins : ∀ id, pool'.pins id = pool.pins id

lemma SamePins.modifyFrame {first : Pool} (h : SamePins first pool) (change : Frame → Frame)
    (hc : ∀ f, (change f).pins = f.pins) (i : Nat) : SamePins first (pool.modifyFrame i change) where
  size := (size_modifyFrame ..).trans h.size
  find := h.find
  pins id := (pins_modifyFrame change hc i id).trans (h.pins id)

theorem Wf.flush_same (h : pool.Wf) (sink : Sink σ) (select : PageId → Bool) (s : σ) :
    (pool.flush sink select s).2.1.Wf ∧ SamePins pool (pool.flush sink select s).2.1 := by
  refine h.flush (P := fun pool' _ => SamePins pool pool') sink select
    (fun {pool' s' id i} _ hp _ _ => ?_) ⟨rfl, fun _ => rfl, fun _ => rfl⟩
  split
  · exact hp.modifyFrame Frame.clean (fun _ => rfl) i
  · exact hp

section Size
variable {pool' : Pool}

lemma size_fetch (h : pool.fetch id = some (i, pool')) : pool'.size = pool.size := by
  obtain ⟨j, -, hp⟩ := Option.map_eq_some_iff.mp h
  cases hp
  exact size_modifyFrame ..

lemma size_vacate (sink : Sink σ) (pool : Pool) (s : σ) :
    (pool.vacate sink s).2.1.size = pool.size := by
  unfold Pool.vacate
  split
  · rfl
  · dsimp only
    split
    · rfl
    · split
      · rfl
      · split
        · split
          · rfl
          · exact size_modifyFrame ..
        · rfl

lemma size_claim (sink : Sink σ) (id : PageId) (contents : Page) (pool : Pool) (s : σ) :
    (pool.claim sink id contents s).2.1.size = pool.size := by
  have hvacate := size_vacate sink pool s
  unfold Pool.claim
  split
  · next hf => exact size_fetch hf
  · split
    · next he => rw [he] at hvacate; exact hvacate
    · next he => rw [he] at hvacate; exact (size_place _).trans hvacate

lemma size_unpin {dirty : Bool} (h : pool.unpin id dirty = .ok pool') : pool'.size = pool.size := by
  unfold Pool.unpin at h
  split at h
  · cases h
  · split at h
    · cases h
    · cases h
      exact size_modifyFrame ..

end Size

end PagedHeap.Pool
