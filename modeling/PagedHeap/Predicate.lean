import PagedHeap.Bytes
import PagedHeap.Error

/-! Filters of scans. A filter compares a window of the record, at a fixed position and of a fixed
length, with a value of that length. A record that ends before the window does never matches. -/
namespace PagedHeap

inductive FieldType
  | integer
  | float
  /-- Bytes up to the first NUL. -/
  | string
  deriving DecidableEq, Repr

/-- What is asked of a field in comparison with the value. -/
inductive Comparison
  | lt
  | le
  | eq
  | ge
  | gt
  | ne
  deriving DecidableEq, Repr

/-- Whether a comparison holds of fields that compare so. Fields that cannot be ordered are unequal,
and nothing else holds of them. -/
def Comparison.holds : Comparison → Option Ordering → Bool
  | ne, none => true
  | _, none => false
  | lt, some o => o.isLT
  | le, some o => o.isLE
  | eq, some o => o.isEq
  | ge, some o => o.isGE
  | gt, some o => o.isGT
  | ne, some o => o.isNe

structure Predicate where
  offset : Nat
  length : Nat
  type : FieldType
  value : Bytes
  comparison : Comparison
  deriving DecidableEq, Repr

namespace Predicate

/-- The signed number that four bytes write in two's complement. -/
def integer (bs : Bytes) : Int := (Bytes.value bs : Int).bmod UInt32.size

def signBit : Nat := 0x80000000

/-- The place of a floating-point number, given by its bits, in the order of these numbers; none for
what is not a number. Numbers of one sign are in the order of their bits, and the two zeros are at
one place. -/
def floatPlace (bits : Nat) : Option Int :=
  let magnitude : Nat := bits % signBit
  if 0x7F800000 < magnitude then none
  else if bits < signBit then some (Int.ofNat magnitude)
  else some (-Int.ofNat magnitude)

/-- Compares two windows byte by byte up to where both have a NUL. -/
def compareText : Bytes → Bytes → Ordering
  | a :: as, b :: bs =>
    if a ≠ b then compare a.toNat b.toNat else if a = 0 then .eq else compareText as bs
  | _, _ => .eq

/-- Compares a field with a value of the same length; none if they cannot be ordered. -/
def compareAs : FieldType → Bytes → Bytes → Option Ordering
  | .integer, field, value => some (compare (integer field) (integer value))
  | .float, field, value => do
    return compare (← floatPlace (Bytes.value field)) (← floatPlace (Bytes.value value))
  | .string, field, value => some (compareText field value)

/-- The filter with these parameters. The value is cut to the length of the field. -/
def new (offset length : Nat) (type : FieldType) (value : Bytes) (comparison : Comparison) :
    Except StoreError Predicate := do
  if length = 0 then throw (.badScanParameter "field length must be at least 1")
  if type = .integer ∧ length ≠ 4 then
    throw (.badScanParameter ("integer field must be 4 bytes, got " ++ toString length))
  if type = .float ∧ length ≠ 4 then
    throw (.badScanParameter ("float field must be 4 bytes, got " ++ toString length))
  if value.length < length then
    throw (.badScanParameter ("filter value has " ++ toString value.length ++
      " bytes, field needs " ++ toString length))
  return { offset, length, type, value := value.take length, comparison }

def holds (p : Predicate) (record : Bytes) : Bool :=
  if record.length < p.offset + p.length then false
  else p.comparison.holds (compareAs p.type ((record.drop p.offset).take p.length) p.value)

example : integer [255, 255, 255, 255] = -1 := by decide
example : compareText [97, 0, 1] [97, 0, 2] = .eq := by decide
example : floatPlace 0x80000000 = floatPlace 0 := by decide
example : floatPlace 0x7FC00000 = none := by decide

end Predicate
end PagedHeap
