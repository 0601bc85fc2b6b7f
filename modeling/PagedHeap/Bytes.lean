/-! Byte strings, and numbers written in them with the least significant byte first. -/
namespace PagedHeap

/-- A string of bytes, such as the contents of a record. -/
abbrev Bytes := List UInt8

namespace Bytes

/-- The low `k` bytes of a number, least significant first. -/
def littleEndian : Nat → Nat → Bytes
  | 0, _ => []
  | k+1, n => UInt8.ofNat n :: littleEndian k (n / 256)

/-- How many different strings of `k` bytes there are. -/
def count : Nat → Nat
  | 0 => 1
  | k+1 => 256 * count k

/-- The number whose digits to base 256 the bytes are, least significant first. -/
def value : Bytes → Nat
  | [] => 0
  | b :: rest => b.toNat + 256 * value rest

@[simp] theorem length_littleEndian (k n : Nat) : (littleEndian k n).length = k := by
  induction k generalizing n with
  | zero => rfl
  | succ k ih => simp [littleEndian, ih]

theorem value_littleEndian (k n : Nat) : value (littleEndian k n) = n % count k := by
  induction k generalizing n with
  | zero => simp [littleEndian, value, count, Nat.mod_one]
  | succ k ih =>
    rw [littleEndian, value, ih, count, Nat.mod_mul]
    simp

example : littleEndian 4 258 = [2, 1, 0, 0] := by decide
example : value [2, 1, 0, 0] = 258 := by decide

end Bytes
end PagedHeap
