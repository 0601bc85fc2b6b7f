import PagedHeap.Bytes

/-! UTF-8. Writing is exact. Reading puts one replacement character in place of each longest start
of a character that cannot be continued to a whole one. -/
namespace PagedHeap.Utf8

def encode (cs : List Char) : Bytes := cs.flatMap String.utf8EncodeChar

/-- The longest start of a text that takes at most so many bytes. -/
def fitting : Nat → List Char → List Char
  | _, [] => []
  | room, c :: rest =>
    if c.utf8Size ≤ room then c :: fitting (room - c.utf8Size) rest else []

/-- The character at the start of the bytes, if there is a whole one. -/
def first? (bs : Bytes) : Option Char := (ByteArray.mk bs.toArray).utf8DecodeChar? 0

/-- Whether a byte can continue a character. -/
def continues (b : UInt8) : Bool := 0x80 ≤ b && b ≤ 0xBF

/-- Whether two bytes can start a character of at least three bytes. -/
def starts (a b : UInt8) : Bool :=
  if a = 0xE0 then 0xA0 ≤ b && b ≤ 0xBF
  else if a = 0xED then 0x80 ≤ b && b ≤ 0x9F
  else if a = 0xF0 then 0x90 ≤ b && b ≤ 0xBF
  else if a = 0xF4 then 0x80 ≤ b && b ≤ 0x8F
  else 0xE1 ≤ a && a ≤ 0xF3 && continues b

/-- How many bytes at the start are replaced together, where no whole character stands: those that
could still be continued to one, and at least one. -/
def brokenLength : Bytes → Nat
  | a :: b :: rest =>
    if starts a b then
      match rest with
      | c :: _ => if 0xF0 ≤ a && continues c then 3 else 2
      | [] => 2
    else 1
  | _ => 1

def replacement : Char := '\uFFFD'

/-- The text that bytes write, taking at most so many steps. -/
def decodeSteps : Nat → Bytes → List Char
  | 0, _ => []
  | _, [] => []
  | k+1, b :: rest =>
    match first? (b :: rest) with
    | some c => c :: decodeSteps k ((b :: rest).drop c.utf8Size)
    | none => replacement :: decodeSteps k ((b :: rest).drop (brokenLength (b :: rest)))

/-- The text that bytes write. Each step takes at least one byte. -/
def decode (bs : Bytes) : List Char := decodeSteps bs.length bs

/-- What is left is the start of the text. -/
theorem exists_fitting_append (room : Nat) (cs : List Char) :
    ∃ rest, cs = fitting room cs ++ rest := by
  induction cs generalizing room with
  | nil => exact ⟨[], rfl⟩
  | cons c cs ih =>
    unfold fitting
    split
    · obtain ⟨rest, h⟩ := ih (room - c.utf8Size)
      exact ⟨rest, by rw [List.cons_append, ← h]⟩
    · exact ⟨c :: cs, rfl⟩

theorem length_encode_fitting (room : Nat) (cs : List Char) :
    (encode (fitting room cs)).length ≤ room := by
  induction cs generalizing room with
  | nil => simp [fitting, encode]
  | cons c cs ih =>
    unfold fitting
    split
    · have := ih (room - c.utf8Size)
      simp only [encode, List.flatMap_cons, List.length_append,
        String.length_utf8EncodeChar] at this ⊢
      omega
    · simp [encode]

example : decode [0x41, 0xC3, 0xA9] = ['A', 'é'] := by decide
example : decode [0xC0, 0x80] = [replacement, replacement] := by decide
example : decode [0xED, 0xA0, 0x80] = [replacement, replacement, replacement] := by decide
example : decode [0xF0, 0x9F, 0x98, 0x41] = [replacement, 'A'] := by decide

end PagedHeap.Utf8
