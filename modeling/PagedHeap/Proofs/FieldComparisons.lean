import Mathlib.Data.List.Lex
import Mathlib.Order.Compare
import Mathlib.Order.Monotone.Basic
import Mathlib.Tactic.Common
import Mathlib.Tactic.Positivity
import Mathlib.Tactic.Ring
import PagedHeap.Predicate

/-! What filters ask of records. `Bytes.signed`, `Bytes.text` and `Bytes.float` say what the bytes
of a window stand for: a number in two's complement, the bytes before the first NUL, a
floating-point number. A filter asks of a record that its window stands to the value in the order of
what they stand for; of a record that ends before the window it asks in vain, whatever the
comparison. -/
namespace PagedHeap

namespace Bytes

/-- The number in two's complement that bytes write: all digits but the last count as they are, and
the last from −128 up to 127. -/
def signed : Bytes → Int
  | [] => 0
  | [b] => if b.toNat < 128 then b.toNat else b.toNat - 256
  | b :: c :: rest => b.toNat + 256 * signed (c :: rest)

/-- The bytes before the first NUL, as numbers without a sign. -/
def text (bs : Bytes) : List Nat := (bs.takeWhile (· ≠ 0)).map UInt8.toNat

/-- How large a floating-point number is, by its bits less the sign, counted in the smallest number
above zero: the lowest 23 bits are the fraction, and the others scale it and the unit before it. With
the highest scale and no fraction stands infinity, which is larger than the finite numbers. -/
def floatSize (bits : Nat) : Nat :=
  if bits / 2 ^ 23 = 0 then bits else (2 ^ 23 + bits % 2 ^ 23) * 2 ^ (bits / 2 ^ 23 - 1)

/-- The floating-point number that four bytes write, counted in the smallest one above zero; none for
what is not a number, which has the highest scale and a fraction. The highest bit is the sign. -/
def float (bs : Bytes) : Option Int :=
  let bits := value bs
  if bits / 2 ^ 23 % 2 ^ 8 = 255 ∧ bits % 2 ^ 23 ≠ 0 then none
  else if bits / 2 ^ 31 = 0 then some (floatSize (bits % 2 ^ 31))
  else some (-floatSize (bits % 2 ^ 31))

example : signed [255, 255, 255, 255] = -1 := by decide
example : text [97, 98, 0, 99] = [97, 98] := by decide

lemma integer_eq_signed {bs : Bytes} (h : bs.length = 4) : Predicate.integer bs = bs.signed := by
  obtain ⟨a, b, c, d, rfl⟩ := List.length_eq_four.mp h
  have ha := a.toNat_lt
  have hb := b.toNat_lt
  have hc := c.toNat_lt
  have hd := d.toNat_lt
  unfold Predicate.integer
  simp only [UInt32.size, Int.bmod_def, value, signed]
  split_ifs <;> omega

lemma floatSize_strictMono : StrictMono floatSize := by
  intro m n hmn
  simp only [floatSize]
  have hm := Nat.div_add_mod m (2 ^ 23)
  have hn := Nat.div_add_mod n (2 ^ 23)
  have hlow : m % 2 ^ 23 < 2 ^ 23 := Nat.mod_lt _ (by decide)
  rcases (Nat.div_le_div_right hmn.le : m / 2 ^ 23 ≤ n / 2 ^ 23).eq_or_lt with he | hlt
  · rw [he] at hm ⊢
    split_ifs with h0
    · exact hmn
    · exact Nat.mul_lt_mul_of_pos_right (by omega) (by positivity)
  · have hscaled : ¬ n / 2 ^ 23 = 0 := by omega
    rw [if_neg hscaled]
    have hunit : 2 ^ 23 * 2 ^ (n / 2 ^ 23 - 1) ≤
        (2 ^ 23 + n % 2 ^ 23) * 2 ^ (n / 2 ^ 23 - 1) := Nat.mul_le_mul_right _ (by omega)
    refine lt_of_lt_of_le ?_ hunit
    split_ifs with h0
    · have : 1 ≤ 2 ^ (n / 2 ^ 23 - 1) := Nat.one_le_two_pow
      calc m < 2 ^ 23 * 1 := by omega
        _ ≤ _ := Nat.mul_le_mul_left _ this
    · calc (2 ^ 23 + m % 2 ^ 23) * 2 ^ (m / 2 ^ 23 - 1)
          < (2 ^ 23 * 2) * 2 ^ (m / 2 ^ 23 - 1) :=
            Nat.mul_lt_mul_of_pos_right (by omega) (by positivity)
        _ = 2 ^ 23 * 2 ^ (m / 2 ^ 23 - 1 + 1) := by rw [pow_succ]; ring
        _ ≤ 2 ^ 23 * 2 ^ (n / 2 ^ 23 - 1) :=
            Nat.mul_le_mul_left _ (Nat.pow_le_pow_right (by decide) (by omega))

/-- The place of a number on the line of floating-point numbers, by its place in their order. -/
def floatAt (place : Int) : Int :=
  if 0 ≤ place then floatSize place.toNat else -floatSize (-place).toNat

lemma floatAt_lt_floatAt {a b : Int} (hab : a < b) : floatAt a < floatAt b := by
  have hsize (m n : Nat) : floatSize m < floatSize n ↔ m < n := floatSize_strictMono.lt_iff_lt
  have hzero : floatSize 0 = 0 := rfl
  simp only [floatAt]
  split_ifs with ha hb hb
  · exact Int.ofNat_lt.mpr ((hsize _ _).mpr (by omega))
  · omega
  · have := (hsize 0 (-a).toNat).mpr (by omega)
    omega
  · have := (hsize (-b).toNat (-a).toNat).mpr (by omega)
    omega

lemma floatAt_natCast (n : Nat) : floatAt n = floatSize n := by simp [floatAt]

lemma floatAt_neg_natCast (n : Nat) : floatAt (-n) = -floatSize n := by
  simp only [floatAt, neg_neg, Int.toNat_natCast]
  split_ifs with h
  · obtain rfl : n = 0 := by omega
    rfl
  · rfl

lemma value_lt {bs : Bytes} (h : bs.length = 4) : value bs < 2 ^ 32 := by
  obtain ⟨a, b, c, d, rfl⟩ := List.length_eq_four.mp h
  have ha := a.toNat_lt
  have hb := b.toNat_lt
  have hc := c.toNat_lt
  have hd := d.toNat_lt
  simp only [value]
  omega

/-- The places are those of the numbers, in the same order. -/
lemma float_eq_map {bs : Bytes} (h : bs.length = 4) :
    float bs = (Predicate.floatPlace (value bs)).map floatAt := by
  have hlt := value_lt h
  have hsign : Predicate.signBit = 2 ^ 31 := rfl
  simp only [float, Predicate.floatPlace]
  rw [hsign]
  generalize value bs = bits at hlt
  by_cases hnan : 0x7F800000 < bits % 2 ^ 31
  · rw [if_pos (by omega), if_pos hnan, Option.map_none]
  · rw [if_neg (by omega), if_neg hnan]
    by_cases hpositive : bits < 2 ^ 31
    · rw [if_pos (by omega), if_pos hpositive, Option.map_some, Int.ofNat_eq_natCast,
        floatAt_natCast]
    · rw [if_neg (by omega), if_neg hpositive, Option.map_some, Int.ofNat_eq_natCast,
        floatAt_neg_natCast]

lemma text_cons (b : UInt8) (bs : Bytes) :
    text (b :: bs) = if b = 0 then [] else b.toNat :: text bs := by
  by_cases h : b = 0 <;> simp [text, h]

end Bytes

/-- What a comparison asks of two values in their order. -/
def Comparison.Asks {α : Type} [LT α] [LE α] : Comparison → α → α → Prop
  | .lt, a, b => a < b
  | .le, a, b => a ≤ b
  | .eq, a, b => a = b
  | .ge, a, b => b ≤ a
  | .gt, a, b => b < a
  | .ne, a, b => a ≠ b

lemma Comparison.holds_iff_asks {α : Type} [LinearOrder α] {o : Ordering} {a b : α}
    (h : o.Compares a b) (c : Comparison) : c.holds (some o) ↔ c.Asks a b := by
  cases o with
  | lt =>
    have hab : a < b := h
    cases c <;> simp [holds, Asks, hab, hab.le, hab.ne, hab.not_gt]
  | eq =>
    have hab : a = b := h
    cases c <;> simp [holds, Asks, hab]
  | gt =>
    have hab : b < a := h
    cases c <;> simp [holds, Asks, hab, hab.le, hab.ne', hab.not_gt]

/-- What a comparison asks of a field and a value of one type. Floating-point numbers have their
order; what is not a number is unequal to everything, and nothing else holds of it. -/
def FieldType.Asks (type : FieldType) (c : Comparison) (field value : Bytes) : Prop :=
  match type with
  | .integer => c.Asks field.signed value.signed
  | .string => c.Asks field.text value.text
  | .float =>
    match field.float, value.float with
    | some a, some b => c.Asks a b
    | _, _ => c = .ne

/-- How the answers to the comparisons of one field with one value go together. -/
structure Comparison.Lawful (answer : Comparison → Prop) : Prop where
  ne : answer .ne ↔ ¬ answer .eq
  le : answer .le ↔ answer .lt ∨ answer .eq
  ge : answer .ge ↔ answer .gt ∨ answer .eq
  not_lt_eq : ¬ (answer .lt ∧ answer .eq)
  not_lt_gt : ¬ (answer .lt ∧ answer .gt)
  not_eq_gt : ¬ (answer .eq ∧ answer .gt)

lemma Comparison.lawful_holds (o : Option Ordering) : Lawful fun c => c.holds o := by
  rcases o with _ | _ | _ | _ <;> constructor <;> decide

namespace Predicate
open Bytes

lemma compares_cons {o : Ordering} {as bs : List Nat} (h : o.Compares as bs) (a : Nat) :
    o.Compares (a :: as) (a :: bs) := by
  cases o with
  | lt => exact List.Lex.cons h
  | eq => exact congrArg (a :: ·) h
  | gt => exact List.Lex.cons h

/-- A text is before another one if it ends, or has a smaller byte, where they part. -/
lemma text_lt_text {a b : UInt8} (h : a.toNat < b.toNat) (as bs : Bytes) :
    text (a :: as) < text (b :: bs) := by
  have hb : b ≠ 0 := by
    rintro rfl
    exact Nat.not_lt_zero _ h
  rw [text_cons, text_cons, if_neg hb]
  split_ifs
  · exact List.Lex.nil
  · exact List.Lex.rel h

/-- Two windows of one length compare as the texts that they hold. The induction follows the
comparison: bytes that differ decide, a NUL in both ends both texts, and otherwise the texts agree so
far. -/
lemma compareText_compares {as bs : Bytes} (h : as.length = bs.length) :
    (compareText as bs).Compares (text as) (text bs) := by
  induction as generalizing bs with
  | nil =>
    rw [List.length_eq_zero_iff.mp h.symm]
    rfl
  | cons a as ih =>
    obtain _ | ⟨b, bs⟩ := bs
    · cases h
    rw [compareText]
    by_cases hab : a = b
    · subst hab
      rw [if_neg (not_not.mpr rfl), text_cons, text_cons]
      by_cases hnul : a = 0
      · simp only [if_pos hnul]
        rfl
      · simp only [if_neg hnul]
        exact compares_cons (ih (Nat.succ.inj h)) a.toNat
    · rw [if_pos hab]
      rcases Nat.lt_or_gt_of_ne (mt UInt8.toNat_inj.mp hab) with hlt | hgt
      · rw [compare_lt_iff_lt.mpr hlt]
        exact text_lt_text hlt as bs
      · rw [compare_gt_iff_gt.mpr hgt]
        exact text_lt_text hgt bs as

lemma compare_compares {α : Type} [LinearOrder α] (a b : α) : (compare a b).Compares a b := by
  rw [← cmp_eq_compare]
  exact cmp_compares a b

lemma holds_compareAs {type : FieldType} {field value : Bytes} (h : field.length = value.length)
    (hnumber : type = .integer ∨ type = .float → value.length = 4) (c : Comparison) :
    c.holds (compareAs type field value) ↔ type.Asks c field value := by
  cases type with
  | integer =>
    have hvalue := hnumber (.inl rfl)
    simp only [compareAs, FieldType.Asks, integer_eq_signed hvalue,
      integer_eq_signed (h.trans hvalue)]
    exact Comparison.holds_iff_asks (compare_compares _ _) c
  | string => exact Comparison.holds_iff_asks (compareText_compares h) c
  | float =>
    have hvalue := hnumber (.inr rfl)
    simp only [compareAs, FieldType.Asks, float_eq_map hvalue, float_eq_map (h.trans hvalue)]
    cases floatPlace (Bytes.value field) with
    | none => cases c <;> simp [Comparison.holds]
    | some a =>
      cases floatPlace (Bytes.value value) with
      | none => cases c <;> simp [Comparison.holds]
      | some b =>
        have hmono : StrictMono floatAt := fun _ _ => floatAt_lt_floatAt
        exact Comparison.holds_iff_asks (hmono.compares.mpr (compare_compares a b)) c

/-- Parameters without a filter: an empty field, a number that is not of four bytes, or a value that
is too short for the field. -/
def Unfit (length : Nat) (type : FieldType) (value : Bytes) : Prop :=
  length = 0 ∨ ((type = .integer ∨ type = .float) ∧ length ≠ 4) ∨ value.length < length

section
variable {offset length : Nat} {type : FieldType} {value : Bytes}

lemma new_refused (h : Unfit length type value) (c : Comparison) :
    ∃ reason, new offset length type value c = .error (.badScanParameter reason) := by
  unfold new
  by_cases hempty : length = 0
  · rw [if_pos hempty]
    exact ⟨_, rfl⟩
  rw [if_neg hempty]
  by_cases hinteger : type = .integer ∧ length ≠ 4
  · rw [if_pos hinteger]
    exact ⟨_, rfl⟩
  rw [if_neg hinteger]
  by_cases hfloat : type = .float ∧ length ≠ 4
  · rw [if_pos hfloat]
    exact ⟨_, rfl⟩
  have hshort : value.length < length := by
    rcases h with h | h | h
    · exact absurd h hempty
    · tauto
    · exact h
  rw [if_neg hfloat, if_pos hshort]
  exact ⟨_, rfl⟩

lemma new_accepted (h : ¬ Unfit length type value) (c : Comparison) :
    new offset length type value c = .ok ⟨offset, length, type, value.take length, c⟩ := by
  simp only [Unfit, not_or, not_and_or] at h
  obtain ⟨hempty, hnumber, hshort⟩ := h
  unfold new
  rw [if_neg hempty, if_neg (by tauto), if_neg (by tauto), if_neg hshort]
  rfl

lemma holds_outside {p : Predicate} {record : Bytes} (h : record.length < p.offset + p.length) :
    p.holds record = false := if_pos h

lemma holds_inside {p : Predicate} {record : Bytes} (h : p.offset + p.length ≤ record.length) :
    p.holds record =
      p.comparison.holds (compareAs p.type ((record.drop p.offset).take p.length) p.value) :=
  if_neg (Nat.not_lt.mpr h)

end

/-- What the filters with these parameters do, one for each comparison. -/
structure Filters (offset length : Nat) (type : FieldType) (value : Bytes)
    (filter : Comparison → Predicate) : Prop where
  /-- They are made from every value that begins with the same bytes, as many as the field has. -/
  made : ∀ value', value'.take length = value.take length →
    ∀ c, new offset length type value' c = .ok (filter c)
  /-- They hold of no record that ends before the window does. -/
  outside : ∀ record : Bytes, record.length < offset + length →
    ∀ c, (filter c).holds record = false
  /-- That is so also where the end of the window has no machine word and the sum starts anew. -/
  wrapped : ∀ record : Bytes, record.length < UInt64.size →
    (UInt64.ofNat offset + UInt64.ofNat length).toNat ≠ offset + length →
    ∀ c, (filter c).holds record = false
  /-- Of other records they hold as what is in the window compares with the value. -/
  inside : ∀ record : Bytes, offset + length ≤ record.length → ∀ c,
    ((filter c).holds record ↔
      type.Asks c ((record.drop offset).take length) (value.take length))
  lawful : ∀ record : Bytes, offset + length ≤ record.length →
    Comparison.Lawful fun c => (filter c).holds record
  /-- Numbers without a point and texts always compare. -/
  total : type ≠ .float → ∀ record : Bytes, offset + length ≤ record.length →
    (filter .lt).holds record ∨ (filter .eq).holds record ∨ (filter .gt).holds record

/-- The machine adds right unless the sum has no machine word. -/
lemma toNat_add_ofNat {m n : Nat} (h : m + n < UInt64.size) :
    (UInt64.ofNat m + UInt64.ofNat n).toNat = m + n := by
  rw [UInt64.toNat_add, UInt64.toNat_ofNat', UInt64.toNat_ofNat', ← Nat.add_mod]
  exact Nat.mod_eq_of_lt h

lemma filters {offset length : Nat} {type : FieldType} {value : Bytes}
    (h : ¬ Unfit length type value) :
    Filters offset length type value fun c => ⟨offset, length, type, value.take length, c⟩ := by
  have hlong : length ≤ value.length := by
    simp only [Unfit, not_or, Nat.not_lt] at h
    exact h.2.2
  have hcut : (value.take length).length = length := List.length_take_of_le hlong
  have hwindow (record : Bytes) (hin : offset + length ≤ record.length) :
      ((record.drop offset).take length).length = (value.take length).length := by
    rw [hcut, List.length_take_of_le]
    rw [List.length_drop]
    omega
  have hinside (record : Bytes) (hin : offset + length ≤ record.length) (c : Comparison) :
      holds ⟨offset, length, type, value.take length, c⟩ record ↔
        type.Asks c ((record.drop offset).take length) (value.take length) := by
    rw [holds_inside hin]
    refine holds_compareAs (hwindow record hin) (fun hnumber => ?_) c
    by_contra hfour
    exact h (.inr (.inl ⟨hnumber, hcut ▸ hfour⟩))
  refine ⟨fun value' hvalue c => ?_, fun record hout c => holds_outside hout,
    fun record hlt hwrap c => holds_outside ?_, hinside, fun record hin => ?_,
    fun htype record hin => ?_⟩
  · rw [← hvalue]
    refine new_accepted (fun hunfit => h ?_) c
    have hlong' : length ≤ value'.length := by
      rw [← hcut, ← hvalue]
      exact List.length_take_le' _ _
    exact hunfit.imp_right (Or.imp_right fun hshort => absurd hlong' (Nat.not_le.mpr hshort))
  · by_contra hin
    exact hwrap (toNat_add_ofNat (lt_of_le_of_lt (Nat.not_lt.mp hin) hlt))
  · rw [funext fun c => congrArg (· = true)
      (holds_inside (p := ⟨offset, length, type, value.take length, c⟩) hin)]
    exact Comparison.lawful_holds
      (compareAs type ((record.drop offset).take length) (value.take length))
  · simp only [hinside record hin]
    cases type with
    | integer => exact lt_trichotomy _ _
    | string => exact lt_trichotomy _ _
    | float => exact absurd rfl htype

/-- There is a filter exactly for parameters that are not unfit. Of the value only as many bytes
count as the field has. A filter holds of no record that ends before its window, and otherwise as
the field compares with the value: numbers in two's complement as numbers, texts up to their first
NUL byte by byte, and floating-point numbers as such. -/
theorem new_filters (offset length : Nat) (type : FieldType) (value : Bytes) :
    (∀ c, (∃ reason, new offset length type value c = .error (.badScanParameter reason)) ↔
      Unfit length type value) ∧
    (Unfit length type value ∨ ∃ filter, Filters offset length type value filter) := by
  refine ⟨fun c => ⟨fun ⟨reason, hreason⟩ => ?_, fun h => new_refused h c⟩, ?_⟩
  · by_contra h
    rw [new_accepted h c] at hreason
    cases hreason
  · by_cases h : Unfit length type value
    · exact .inl h
    · exact .inr ⟨_, filters h⟩

end Predicate
end PagedHeap
