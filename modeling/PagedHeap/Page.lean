import PagedHeap.Bytes

/-! Pages: blocks of 16384 bytes, the unit in which files are read, cached and written. A page is
looked at through `Page.byte`, which is zero outside the page, and changed through `Page.put`, which
does nothing there; the larger accesses are put together from these two. -/
namespace PagedHeap

abbrev pageSize : Nat := 16384

structure Page where
  bytes : Vector UInt8 pageSize
  deriving DecidableEq

namespace Page

def blank : Page := ⟨Vector.replicate pageSize 0⟩

instance : Inhabited Page := ⟨blank⟩

def byte (p : Page) (i : Nat) : UInt8 := p.bytes[i]?.getD 0

def put (p : Page) (i : Nat) (b : UInt8) : Page := ⟨p.bytes.setIfInBounds i b⟩

def slice (p : Page) (start n : Nat) : Bytes := (List.range n).map fun k => p.byte (start + k)

/-- Writes bytes one after another from a position on. -/
def splice (p : Page) (start : Nat) : Bytes → Page
  | [] => p
  | b :: rest => (p.put start b).splice (start + 1) rest

/-- The bytes as a page: cut at the end of the page, or filled up with zeros. -/
def ofBytes (bs : Bytes) : Page := blank.splice 0 bs

def toBytes (p : Page) : Bytes := p.bytes.toList

def word16 (p : Page) (i : Nat) : Nat := (p.byte i).toNat + 256 * (p.byte (i + 1)).toNat

/-- The number in the four bytes from a position on. -/
def word32 (p : Page) (i : Nat) : Nat := p.word16 i + 65536 * p.word16 (i + 2)

/-- Writes a number modulo 2^16 into two bytes. -/
def setWord16 (p : Page) (i n : Nat) : Page :=
  (p.put i (UInt8.ofNat n)).put (i + 1) (UInt8.ofNat (n / 256))

/-- Writes a number modulo 2^32 into four bytes. -/
def setWord32 (p : Page) (i n : Nat) : Page :=
  (p.setWord16 i n).setWord16 (i + 2) (n / 65536)

theorem byte_of_ge (p : Page) (i : Nat) (h : pageSize ≤ i) : p.byte i = 0 := by
  simp [byte, Vector.getElem?_eq_none h]

theorem ext_byte {p q : Page} (h : ∀ i < pageSize, p.byte i = q.byte i) : p = q := by
  cases p with | mk v => cases q with | mk w =>
  refine congrArg Page.mk (Vector.ext fun i hi => ?_)
  have := h i hi
  simpa only [byte, Vector.getElem?_eq_getElem hi, Option.getD_some] using this

@[simp] theorem byte_blank (i : Nat) : blank.byte i = 0 := by
  by_cases h : i < pageSize
  · simp [byte, blank, Vector.getElem?_eq_getElem h]
  · exact byte_of_ge _ _ (Nat.le_of_not_lt h)

theorem byte_put (p : Page) (i j : Nat) (b : UInt8) :
    (p.put i b).byte j = if i = j ∧ j < pageSize then b else p.byte j := by
  by_cases h : j < pageSize
  · simp only [byte, put, Vector.getElem?_setIfInBounds]
    by_cases hij : i = j <;> simp [hij, h]
  · simp [byte_of_ge _ _ (Nat.le_of_not_lt h), h]

/-- Splicing changes the bytes it covers and no others. -/
theorem byte_splice (p : Page) (start j : Nat) (bs : Bytes) :
    (p.splice start bs).byte j =
      if start ≤ j ∧ j < start + bs.length ∧ j < pageSize then bs[j - start]?.getD 0
      else p.byte j := by
  induction bs generalizing p start with
  | nil => rw [if_neg (by simp only [List.length_nil]; omega)]; rfl
  | cons b rest ih =>
    rw [splice, ih, byte_put]
    by_cases hj : j = start
    · subst hj
      rw [if_neg (by omega)]
      by_cases hp : j < pageSize <;> simp [hp]
    · rw [if_neg (c := start = j ∧ j < pageSize) (by omega)]
      by_cases hs : start + 1 ≤ j
      · have hsub : j - start = (j - (start + 1)) + 1 := by omega
        simp only [hsub, List.getElem?_cons_succ, List.length_cons,
          show start ≤ j ↔ start + 1 ≤ j by omega,
          show j < start + (rest.length + 1) ↔ j < start + 1 + rest.length by omega]
      · rw [if_neg (by omega), if_neg (by omega)]

@[simp] theorem length_slice (p : Page) (start n : Nat) : (p.slice start n).length = n := by
  simp [slice]

theorem getElem?_slice (p : Page) (start n k : Nat) :
    (p.slice start n)[k]? = if k < n then some (p.byte (start + k)) else none := by
  by_cases h : k < n <;> simp [slice, h]

end Page
end PagedHeap
