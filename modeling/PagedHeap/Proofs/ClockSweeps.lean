import Mathlib.Data.List.Induction
import Mathlib.Data.Nat.Find
import Mathlib.Logic.Function.Iterate
import PagedHeap.Clock

/-! What the clock chooses. The frames are counted from the hand on: the frame looked at in the
`m`-th place is `Clock.ahead m`, and it is taken if it may be and either had no mark or has been
passed over before. `Clock.Swept` lists the three ways in which a sweep can end. -/
namespace PagedHeap.Clock
variable {evictable : Nat → Bool} {c : Clock} {d i j k m n : Nat}

/-- The frame that is `d` places after the hand, going round. -/
def ahead (c : Clock) (d : Nat) : Nat := (c.hand + d) % c.size

/-- Going round from the hand, a frame with the property is first met `d` places on. -/
structure FirstAhead (c : Clock) (P : Nat → Prop) (d : Nat) : Prop where
  lt : d < c.size
  holds : P (c.ahead d)
  before : ∀ k < d, ¬ P (c.ahead k)

/-- The ways in which a sweep can end. -/
inductive Swept (evictable : Nat → Bool) (c : Clock) : Sweep → Prop
  /-- No frame may be taken. All are looked at twice and the clock is as it was. -/
  | stuck (barred : ∀ i < c.size, evictable i = false) :
      Swept evictable c ⟨none, (List.range (2 * c.size)).map c.ahead, c⟩
  /-- The first frame without a mark is taken, of those that may be. Those that were passed over
  have lost their marks. -/
  | unmarked {d clock} (first : c.FirstAhead (fun i => evictable i ∧ c.marked i = false) d)
      (size : clock.size = c.size)
      (marks : ∀ j, clock.marked j ↔ c.marked j ∧ ¬ (evictable j ∧ ∃ k < d, c.ahead k = j))
      (hand : clock.hand = c.ahead (d + 1)) :
      Swept evictable c ⟨some (c.ahead d), (List.range (d + 1)).map c.ahead, clock⟩
  /-- All those that may be taken are marked. They lose their marks, and the first is taken in the
  second round. -/
  | marked {d clock} (all : ∀ i < c.size, evictable i → c.marked i)
      (first : c.FirstAhead (fun i => evictable i) d) (size : clock.size = c.size)
      (marks : ∀ j, clock.marked j ↔ c.marked j ∧ ¬ evictable j)
      (hand : clock.hand = c.ahead (d + 1)) :
      Swept evictable c ⟨some (c.ahead d), (List.range (c.size + d + 1)).map c.ahead, clock⟩

section Ahead

lemma ahead_lt (h : 0 < c.size) (d : Nat) : c.ahead d < c.size := Nat.mod_lt _ h

lemma ahead_zero (h : c.hand < c.size) : c.ahead 0 = c.hand := Nat.mod_eq_of_lt h

@[simp] lemma ahead_add_size (c : Clock) (d : Nat) : c.ahead (c.size + d) = c.ahead d := by
  rw [ahead, ahead, Nat.add_left_comm, Nat.add_mod_left]

/-- In one round every frame is met. -/
lemma exists_ahead (hc : c.hand < c.size) (hi : i < c.size) : ∃ d < c.size, c.ahead d = i := by
  refine ⟨(i + (c.size - c.hand)) % c.size, Nat.mod_lt _ (by omega), ?_⟩
  rw [ahead, Nat.add_mod_mod, show c.hand + (i + (c.size - c.hand)) = i + c.size by omega,
    Nat.add_mod_right, Nat.mod_eq_of_lt hi]

/-- In one round no frame is met twice. -/
lemma ahead_ne (hkd : k < d) (hd : d < c.size + k) : c.ahead k ≠ c.ahead d := by
  intro h
  have hmod : (d - k) % c.size = 0 := by
    rw [show d - k = c.hand + d - (c.hand + k) by omega]
    exact Nat.sub_mod_eq_zero_of_mod_eq h.symm
  rw [Nat.mod_eq_of_lt (by omega)] at hmod
  omega

/-- If there is such a frame at all, there is a first one. -/
lemma exists_firstAhead {P : Nat → Prop} (hc : c.hand < c.size) (hi : i < c.size) (h : P i) :
    ∃ d, c.FirstAhead P d := by
  classical
  obtain ⟨d, hd, rfl⟩ := exists_ahead hc hi
  have hex : ∃ d, P (c.ahead d) := ⟨d, h⟩
  exact ⟨Nat.find hex, Nat.lt_of_le_of_lt (Nat.find_min' hex h) hd, Nat.find_spec hex,
    fun k hk => Nat.find_min hex hk⟩

end Ahead

lemma ext_marked {c c' : Clock} (hsize : c.size = c'.size)
    (hmarks : ∀ j, c.marked j = c'.marked j) (hhand : c.hand = c'.hand) : c = c' := by
  rcases c with ⟨marks, hand⟩
  rcases c' with ⟨marks', hand'⟩
  obtain rfl : hand = hand' := hhand
  congr 1
  refine Array.ext hsize fun j hj hj' => ?_
  simpa [marked, hj, hj'] using hmarks j

lemma marked_clear_iff (c : Clock) (i j : Nat) :
    (c.clear i).marked j ↔ c.marked j ∧ i ≠ j := by
  simp only [marked, clear, Array.getElem?_setIfInBounds]
  split
  · next h => split <;> simp [h]
  · next h => simp [h]

section Passing

/-- The frame at the hand is passed over. -/
def pass (evictable : Nat → Bool) (c : Clock) : Clock :=
  (if evictable c.hand then c.clear c.hand else c).advance

def hit (evictable : Nat → Bool) (c : Clock) : Bool := evictable c.hand && !c.marked c.hand

@[simp] lemma size_pass (evictable : Nat → Bool) (c : Clock) :
    (c.pass evictable).size = c.size := by
  rw [pass, size_advance]
  split
  · exact size_clear ..
  · rfl

lemma hand_pass (evictable : Nat → Bool) (c : Clock) :
    (c.pass evictable).hand = (c.hand + 1) % c.size := by
  rw [pass, advance]
  split
  · rw [size_clear]
    rfl
  · rfl

lemma ahead_pass (evictable : Nat → Bool) (c : Clock) (d : Nat) :
    (c.pass evictable).ahead d = c.ahead (d + 1) := by
  rw [ahead, ahead, hand_pass, size_pass, Nat.mod_add_mod, Nat.add_assoc, Nat.add_comm 1]

lemma marked_pass_iff (evictable : Nat → Bool) (c : Clock) (j : Nat) :
    (c.pass evictable).marked j ↔ c.marked j ∧ ¬ (evictable j ∧ c.hand = j) := by
  change (if evictable c.hand then c.clear c.hand else c).marked j ↔ _
  split
  · next h =>
    rw [marked_clear_iff]
    refine and_congr_right fun _ => not_congr ⟨?_, And.right⟩
    rintro rfl
    exact ⟨h, rfl⟩
  · next h =>
    refine (and_iff_left ?_).symm
    rintro ⟨hj, rfl⟩
    exact h hj

@[simp] lemma size_passed (evictable : Nat → Bool) (m : Nat) (c : Clock) :
    ((pass evictable)^[m] c).size = c.size := by
  induction m generalizing c with
  | zero => rfl
  | succ m ih => rw [Function.iterate_succ_apply, ih, size_pass]

lemma hand_passed (evictable : Nat → Bool) (m : Nat) (hc : c.hand < c.size) :
    ((pass evictable)^[m] c).hand = c.ahead m := by
  induction m generalizing c with
  | zero => exact (ahead_zero hc).symm
  | succ m ih =>
    have hlt : (c.pass evictable).hand < (c.pass evictable).size := by
      rw [hand_pass, size_pass]
      exact Nat.mod_lt _ (by omega)
    rw [Function.iterate_succ_apply, ih hlt, ahead_pass]

lemma marked_passed_iff (evictable : Nat → Bool) (m : Nat) (hc : c.hand < c.size) (j : Nat) :
    ((pass evictable)^[m] c).marked j ↔
      c.marked j ∧ ¬ (evictable j ∧ ∃ k < m, c.ahead k = j) := by
  induction m with
  | zero => simp
  | succ m ih =>
    rw [Function.iterate_succ_apply', marked_pass_iff, hand_passed evictable m hc, ih, and_assoc,
      ← not_or, ← and_or_left]
    simp only [Nat.lt_succ_iff_lt_or_eq, or_and_right, exists_or, exists_eq_left]

/-- The frame in the `m`-th place is taken if it may be and either had no mark or has been passed
over before. -/
lemma hit_passed_iff (evictable : Nat → Bool) (m : Nat) (hc : c.hand < c.size) :
    hit evictable ((pass evictable)^[m] c) ↔
      evictable (c.ahead m) ∧ (c.marked (c.ahead m) = false ∨ ∃ k < m, c.ahead k = c.ahead m) := by
  have hmarked := marked_passed_iff evictable m hc (c.ahead m)
  rw [hit, hand_passed evictable m hc, Bool.and_eq_true, Bool.not_eq_true', ← Bool.not_eq_true,
    hmarked, ← Bool.not_eq_true]
  refine and_congr_right fun he => ?_
  rw [not_and_or, not_not, and_iff_right he]

end Passing

section Sweeping

lemma sweepFrom_hit (h : hit evictable c) :
    sweepFrom evictable (n + 1) c = ⟨some c.hand, [c.hand], c.advance⟩ := if_pos h

lemma sweepFrom_miss (h : ¬ hit evictable c) :
    sweepFrom evictable (n + 1) c =
      { sweepFrom evictable n (c.pass evictable) with
        asked := c.hand :: (sweepFrom evictable n (c.pass evictable)).asked } := if_neg h

/-- Where `m` frames are passed over, the search goes on behind them. -/
lemma sweepFrom_passed (n : Nat) (hc : c.hand < c.size)
    (h : ∀ k < m, ¬ hit evictable ((pass evictable)^[k] c)) :
    sweepFrom evictable (m + n) c =
      { sweepFrom evictable n ((pass evictable)^[m] c) with
        asked := (List.range m).map c.ahead ++
          (sweepFrom evictable n ((pass evictable)^[m] c)).asked } := by
  induction m generalizing n with
  | zero => rw [Nat.zero_add]; rfl
  | succ m ih =>
    rw [Nat.add_right_comm, Nat.add_assoc, ih (n + 1) fun k hk => h k (Nat.lt_succ_of_lt hk),
      sweepFrom_miss (h m (Nat.lt_succ_self m)), hand_passed evictable m hc,
      Function.iterate_succ_apply', List.range_succ, List.map_append, List.append_assoc]
    rfl

lemma sweepFrom_taken (hc : c.hand < c.size)
    (h : ∀ k < m, ¬ hit evictable ((pass evictable)^[k] c))
    (hm : hit evictable ((pass evictable)^[m] c)) (hn : m < n) :
    sweepFrom evictable n c =
      ⟨some (c.ahead m), (List.range (m + 1)).map c.ahead, ((pass evictable)^[m] c).advance⟩ := by
  obtain ⟨n, rfl⟩ : ∃ n', n = m + (n' + 1) := ⟨n - m - 1, by omega⟩
  rw [sweepFrom_passed (n + 1) hc h, sweepFrom_hit hm, hand_passed evictable m hc,
    List.range_succ, List.map_append]
  rfl

lemma hand_advance_passed (evictable : Nat → Bool) (m : Nat) (hc : c.hand < c.size) :
    ((pass evictable)^[m] c).advance.hand = c.ahead (m + 1) := by
  rw [advance, size_passed, hand_passed evictable m hc, ahead, ahead, Nat.mod_add_mod,
    Nat.add_assoc]

lemma swept_stuck (hc : c.hand < c.size) (h : ∀ i < c.size, evictable i = false) :
    Swept evictable c (c.sweep evictable) := by
  have hpos : 0 < c.size := Nat.zero_lt_of_lt hc
  have hbarred : ∀ k, ¬ evictable (c.ahead k) = true := fun k => by simp [h _ (ahead_lt hpos k)]
  have hmiss : ∀ k, ¬ hit evictable ((pass evictable)^[k] c) := fun k hk =>
    hbarred k ((hit_passed_iff evictable k hc).mp hk).1
  have hclock : (pass evictable)^[2 * c.size] c = c := by
    refine ext_marked (size_passed ..) (fun j => Bool.eq_iff_iff.mpr ?_) ?_
    · rw [marked_passed_iff evictable _ hc]
      refine and_iff_left ?_
      rintro ⟨hj, k, -, rfl⟩
      exact hbarred k hj
    · rw [hand_passed evictable _ hc, Nat.two_mul, ahead_add_size, ← Nat.add_zero c.size,
        ahead_add_size, ahead_zero hc]
  have hsweep := sweepFrom_passed (m := 2 * c.size) 0 hc fun k _ => hmiss k
  rw [Nat.add_zero, hclock, sweepFrom, List.append_nil] at hsweep
  rw [sweep, hsweep]
  exact .stuck h

lemma swept_unmarked (hc : c.hand < c.size)
    (h : c.FirstAhead (fun i => evictable i ∧ c.marked i = false) d) :
    Swept evictable c (c.sweep evictable) := by
  have hd := h.lt
  have hmiss : ∀ k < d, ¬ hit evictable ((pass evictable)^[k] c) := by
    intro k hk hhit
    obtain ⟨he, hm | ⟨k', hk', heq⟩⟩ := (hit_passed_iff evictable k hc).mp hhit
    · exact h.before k hk ⟨he, hm⟩
    · exact ahead_ne hk' (by omega) heq
  have hhit := (hit_passed_iff evictable d hc).mpr ⟨h.holds.1, Or.inl h.holds.2⟩
  rw [sweep, sweepFrom_taken hc hmiss hhit (by omega)]
  exact .unmarked h (size_passed ..) (marked_passed_iff evictable d hc)
    (hand_advance_passed evictable d hc)

lemma swept_marked (hc : c.hand < c.size) (hall : ∀ i < c.size, evictable i → c.marked i)
    (h : c.FirstAhead (fun i => evictable i) d) : Swept evictable c (c.sweep evictable) := by
  have hd := h.lt
  have hpos : 0 < c.size := Nat.zero_lt_of_lt hc
  have hmiss : ∀ k < c.size + d, ¬ hit evictable ((pass evictable)^[k] c) := by
    intro k hk hhit
    obtain ⟨he, hm⟩ := (hit_passed_iff evictable k hc).mp hhit
    rw [hall _ (ahead_lt hpos k) he] at hm
    obtain ⟨k', hk', heq⟩ := hm.resolve_left Bool.noConfusion
    rcases Nat.lt_or_ge k c.size with hlt | hge
    · exact ahead_ne hk' (by omega) heq
    · obtain ⟨r, rfl⟩ := Nat.exists_eq_add_of_le hge
      exact h.before r (by omega) (by simpa using he)
  have hhit : hit evictable ((pass evictable)^[c.size + d] c) :=
    (hit_passed_iff evictable _ hc).mpr
      ⟨by simpa using h.holds, Or.inr ⟨d, by omega, (ahead_add_size c d).symm⟩⟩
  have hmarks : ∀ j, ((pass evictable)^[c.size + d] c).advance.marked j ↔
      c.marked j ∧ ¬ evictable j := by
    intro j
    refine (marked_passed_iff evictable _ hc j).trans (and_congr_right fun hj => not_congr ?_)
    refine and_iff_left_of_imp fun _ => ?_
    have hlt : j < c.size := by
      by_contra hge
      simp [marked, Array.getElem?_eq_none (Nat.le_of_not_lt hge)] at hj
    obtain ⟨k, hk, heq⟩ := exists_ahead hc hlt
    exact ⟨k, by omega, heq⟩
  rw [sweep, sweepFrom_taken hc hmiss hhit (by omega), ahead_add_size]
  refine .marked hall h (size_passed ..) hmarks ?_
  rw [hand_advance_passed evictable _ hc, Nat.add_assoc, ahead_add_size]

/-- Every sweep ends in one of the three ways. -/
theorem sweep_swept (evictable : Nat → Bool) (hc : 0 < c.size → c.hand < c.size) :
    Swept evictable c (c.sweep evictable) := by
  rcases Nat.eq_zero_or_pos c.size with h0 | hpos
  · have hsweep : c.sweep evictable = ⟨none, (List.range (2 * c.size)).map c.ahead, c⟩ := by
      simp [sweep, h0, sweepFrom]
    rw [hsweep]
    exact .stuck fun i hi => absurd hi (by omega)
  · have hlt := hc hpos
    by_cases hnone : ∀ i < c.size, evictable i = false
    · exact swept_stuck hlt hnone
    · push Not at hnone
      obtain ⟨i, hi, he⟩ := hnone
      rw [ne_eq, Bool.not_eq_false] at he
      by_cases hall : ∀ i < c.size, evictable i → c.marked i
      · obtain ⟨d, hd⟩ := exists_firstAhead (P := fun i => evictable i) hlt hi he
        exact swept_marked hlt hall hd
      · push Not at hall
        obtain ⟨j, hj, hej, hm⟩ := hall
        obtain ⟨d, hd⟩ := exists_firstAhead (P := fun i => evictable i ∧ c.marked i = false) hlt hj
          ⟨hej, Bool.eq_false_iff.mpr hm⟩
        exact swept_unmarked hlt hd

variable {r : Sweep}

/-- Two rounds find a frame if there is one that may be taken. -/
lemma Swept.victim_eq_none_iff (h : Swept evictable c r) :
    r.victim = none ↔ ∀ i < c.size, evictable i = false := by
  have hfound : ∀ {P : Nat → Prop} {d}, c.FirstAhead P d → (∀ i, P i → evictable i) →
      ¬ ∀ i < c.size, evictable i = false := by
    intro P d hd himp hnone
    have he := himp _ hd.holds
    rw [hnone _ (ahead_lt (Nat.zero_lt_of_lt hd.lt) d)] at he
    cases he
  cases h with
  | stuck barred => exact ⟨fun _ => barred, fun _ => rfl⟩
  | unmarked first => exact ⟨nofun, fun hnone => absurd hnone (hfound first fun _ => And.left)⟩
  | marked _ first => exact ⟨nofun, fun hnone => absurd hnone (hfound first fun _ => id)⟩

lemma Swept.of_victim (h : Swept evictable c r) (hv : r.victim = some i) :
    i < c.size ∧ evictable i = true := by
  cases h with
  | stuck _ => cases hv
  | unmarked first =>
    cases hv
    exact ⟨ahead_lt (Nat.zero_lt_of_lt first.lt) _, first.holds.1⟩
  | marked _ first =>
    cases hv
    exact ⟨ahead_lt (Nat.zero_lt_of_lt first.lt) _, first.holds⟩

lemma Swept.size (h : Swept evictable c r) : r.clock.size = c.size := by
  cases h with
  | stuck _ => rfl
  | unmarked _ size => exact size
  | marked _ _ size => exact size

lemma Swept.hand_lt (h : Swept evictable c r) (hc : 0 < c.size → c.hand < c.size)
    (hpos : 0 < c.size) : r.clock.hand < c.size := by
  cases h with
  | stuck _ => exact hc hpos
  | unmarked _ _ _ hand => exact hand ▸ ahead_lt hpos _
  | marked _ _ _ _ hand => exact hand ▸ ahead_lt hpos _

end Sweeping

section Running

inductive Move
  | access (id : UInt32)
  | evict (canEvict : UInt32 → Bool)

def Move.apply (c : Clock) : Move → Clock
  | access id => c.access id.toNat
  | evict canEvict => (c.evict canEvict).clock

def run (n : Nat) (moves : List Move) : Clock := moves.foldl Move.apply (ofSize n)

lemma Move.apply_placed (move : Move) (hc : 0 < c.size → c.hand < c.size) :
    (move.apply c).size = c.size ∧ (0 < c.size → (move.apply c).hand < c.size) := by
  cases move with
  | access id => exact ⟨size_access c id.toNat, hc⟩
  | evict canEvict =>
    have h := sweep_swept (fun i => canEvict (UInt32.ofNat i)) hc
    exact ⟨h.size, h.hand_lt hc⟩

lemma run_placed (n : Nat) (moves : List Move) :
    (run n moves).size = n ∧ (0 < n → (run n moves).hand < n) := by
  induction moves using List.reverseRecOn with
  | nil => exact ⟨size_ofSize n, id⟩
  | append_singleton moves move ih =>
    obtain ⟨hsize, hhand⟩ := ih
    have h := move.apply_placed (c := run n moves) (by rwa [hsize])
    rw [hsize] at h
    rwa [run, List.foldl_append]

/-- A frame may be taken if one of its id may be, and every id up to the number of frames is one of a
frame. -/
lemma barred_iff (canEvict : UInt32 → Bool) (n : Nat) :
    (∀ i < n, canEvict (UInt32.ofNat i) = false) ↔
      ∀ id : UInt32, id.toNat < n → canEvict id = false := by
  constructor
  · intro h id hid
    rw [← UInt32.ofNat_toNat (x := id)]
    exact h id.toNat hid
  · intro h i hi
    refine h _ (Nat.lt_of_le_of_lt ?_ hi)
    rw [UInt32.toNat_ofNat']
    exact Nat.mod_le ..

end Running
end PagedHeap.Clock
