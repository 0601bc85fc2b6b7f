import Mathlib.Tactic.Common
import Mathlib.Tactic.IntervalCases
import PagedHeap.Text.Utf8

/-! Texts in UTF-8. What was written can be read again, and the longest start of a text that fits into
so many bytes is what is before the last boundary between characters that can be found there, looking
at the bytes from behind. -/
namespace PagedHeap.Utf8
variable {room : Nat} {cs start : List Char} {c : Char} {bs : Bytes}

@[simp] lemma encode_nil : encode [] = [] := rfl

lemma encode_cons (c : Char) (cs : List Char) :
    encode (c :: cs) = String.utf8EncodeChar c ++ encode cs := List.flatMap_cons

lemma length_encode_cons (c : Char) (cs : List Char) :
    (encode (c :: cs)).length = c.utf8Size + (encode cs).length := by
  rw [encode_cons, List.length_append, String.length_utf8EncodeChar]

section Reading

lemma first?_encode (c : Char) (bs : Bytes) : first? (String.utf8EncodeChar c ++ bs) = some c := by
  have hbytes : ByteArray.mk (String.utf8EncodeChar c ++ bs).toArray =
      (String.utf8EncodeChar c).toByteArray ++ bs.toByteArray := by
    apply ByteArray.ext
    simp
  rw [first?, hbytes]
  exact ByteArray.utf8DecodeChar?_utf8EncodeChar_append

lemma decodeSteps_encode {k : Nat} (hk : (encode cs).length ≤ k) :
    decodeSteps k (encode cs) = cs := by
  induction cs generalizing k with
  | nil => cases k <;> rfl
  | cons c cs ih =>
    have hpos := c.utf8Size_pos
    rw [length_encode_cons] at hk
    obtain ⟨k, rfl⟩ : ∃ k', k = k' + 1 := ⟨k - 1, by omega⟩
    obtain ⟨b, rest, hb⟩ := List.exists_cons_of_ne_nil (String.utf8EncodeChar_ne_nil (c := c))
    have hdrop : (encode (c :: cs)).drop c.utf8Size = encode cs := by
      rw [encode_cons, ← String.length_utf8EncodeChar, List.drop_left]
    have hfirst : first? (encode (c :: cs)) = some c := encode_cons c cs ▸ first?_encode c _
    rw [encode_cons, hb, List.cons_append] at hfirst hdrop ⊢
    rw [decodeSteps, hfirst]
    dsimp only
    rw [hdrop, ih (by omega)]

theorem decode_encode (cs : List Char) : decode (encode cs) = cs :=
  decodeSteps_encode (Nat.le_refl _)

end Reading

section Fitting

/-- A start of a text that fits is within the longest one. -/
theorem prefix_fitting (hstart : start <+: cs) (hlen : (encode start).length ≤ room) :
    start <+: fitting room cs := by
  induction cs generalizing room start with
  | nil => exact List.prefix_nil.mp hstart ▸ List.nil_prefix
  | cons c cs ih =>
    cases start with
    | nil => exact List.nil_prefix
    | cons d start =>
      obtain ⟨rfl, hrest⟩ := List.cons_prefix_cons.mp hstart
      rw [length_encode_cons] at hlen
      rw [fitting, if_pos (by omega)]
      exact List.cons_prefix_cons.mpr ⟨rfl, ih hrest (by omega)⟩

lemma fitting_starts (room : Nat) (cs : List Char) : fitting room cs <+: cs := by
  obtain ⟨rest, h⟩ := exists_fitting_append room cs
  exact ⟨rest, h.symm⟩

lemma fitting_eq_self (h : (encode cs).length ≤ room) : fitting room cs = cs :=
  (fitting_starts room cs).eq_of_length_le (prefix_fitting (List.prefix_refl cs) h).length_le

/-- Cutting a text again takes nothing more away. -/
theorem fitting_fitting (room : Nat) (cs : List Char) :
    fitting room (fitting room cs) = fitting room cs :=
  fitting_eq_self (length_encode_fitting room cs)

end Fitting

section Boundaries

/-- Whether a byte at a position, or the end of the bytes there, is not within a character. -/
def startsAt (bs : Bytes) (n : Nat) : Bool :=
  match bs[n]? with
  | some b => !continues b
  | none => n = bs.length

/-- Whether bytes can be cut at a position. -/
def isBoundary (bs : Bytes) (n : Nat) : Bool := n = 0 || startsAt bs n

/-- The last boundary that is not behind a position. -/
def boundaryBefore (bs : Bytes) : Nat → Nat
  | 0 => 0
  | n+1 => if isBoundary bs (n + 1) then n + 1 else boundaryBefore bs n

/-- All bytes of a character but the first continue it. -/
lemma continues_getElem (c : Char) {i : Nat} (hi : i < (String.utf8EncodeChar c).length) :
    continues (String.utf8EncodeChar c)[i] = decide (i ≠ 0) := by
  have hbyte : ∀ n, continues (UInt8.ofNat n) = decide (128 ≤ n % 256 ∧ n % 256 ≤ 191) := by
    intro n
    simp [continues, UInt8.le_iff_toNat_le]
  revert hi
  fun_cases String.utf8EncodeChar c <;> intro hi
  all_goals
    simp only [List.length_cons, List.length_nil] at hi
    interval_cases i <;>
      simp only [List.getElem_cons_zero, List.getElem_cons_succ, hbyte, decide_eq_decide] <;> omega

lemma startsAt_encode_cons (c : Char) (cs : List Char) (n : Nat) :
    startsAt (encode (c :: cs)) n =
      if n < c.utf8Size then decide (n = 0) else startsAt (encode cs) (n - c.utf8Size) := by
  have hlen := String.length_utf8EncodeChar c
  unfold startsAt
  rw [length_encode_cons, encode_cons]
  by_cases hn : n < c.utf8Size
  · rw [if_pos hn, List.getElem?_append_left (by omega),
      List.getElem?_eq_getElem (by omega : n < (String.utf8EncodeChar c).length)]
    dsimp only
    rw [continues_getElem]
    simp
  · rw [if_neg hn, List.getElem?_append_right (by omega), hlen]
    have hend : n = c.utf8Size + (encode cs).length ↔ n - c.utf8Size = (encode cs).length := by
      omega
    simp only [hend]

/-- A text can be cut before its first character. -/
lemma startsAt_encode_zero (cs : List Char) : startsAt (encode cs) 0 = true := by
  cases cs with
  | nil => rfl
  | cons c cs => rw [startsAt_encode_cons, if_pos c.utf8Size_pos, decide_eq_true rfl]

lemma boundaryBefore_succ (bs : Bytes) (n : Nat) : boundaryBefore bs (n + 1) =
    if startsAt bs (n + 1) then n + 1 else boundaryBefore bs n := by
  simp [boundaryBefore, isBoundary]

lemma boundaryBefore_encode_cons (c : Char) (cs : List Char) (room : Nat) :
    boundaryBefore (encode (c :: cs)) room =
      if c.utf8Size ≤ room then c.utf8Size + boundaryBefore (encode cs) (room - c.utf8Size)
      else 0 := by
  have hpos := c.utf8Size_pos
  induction room with
  | zero =>
    rw [if_neg (by omega)]
    rfl
  | succ n ih =>
    rw [boundaryBefore_succ, startsAt_encode_cons, ih]
    rcases Nat.lt_trichotomy (n + 1) c.utf8Size with hlt | heq | hgt
    · simp [hlt, Nat.not_le.mpr hlt, Nat.not_le.mpr (Nat.lt_of_succ_lt hlt)]
    · simp [← heq, startsAt_encode_zero, boundaryBefore]
    · obtain ⟨k, rfl⟩ : ∃ k, n = c.utf8Size + k := Nat.exists_eq_add_of_le (by omega)
      have hk : c.utf8Size + k + 1 - c.utf8Size = k + 1 := by omega
      simp only [Nat.not_lt.mpr hgt.le, hgt.le, hk, Nat.le_add_right, Nat.add_sub_cancel_left,
        boundaryBefore_succ, if_true, if_false]
      split <;> rfl

/-- The longest start of a text that fits ends at the last boundary. -/
theorem encode_fitting (room : Nat) (cs : List Char) :
    encode (fitting room cs) = (encode cs).take (boundaryBefore (encode cs) room) := by
  induction cs generalizing room with
  | nil => simp [fitting]
  | cons c cs ih =>
    rw [boundaryBefore_encode_cons, fitting]
    split
    · rw [encode_cons, encode_cons, ih, ← String.length_utf8EncodeChar, List.take_length_add_append]
    · rfl

end Boundaries

end PagedHeap.Utf8
