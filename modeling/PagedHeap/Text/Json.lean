/-! JSON texts. `Json.parse` accepts exactly the grammar of the format and keeps of a text what its
readers need: a number only where it is a plain non-negative integer, and a string only where its
escapes spell characters. An escape can name half of a character; such a string is still a string of
the grammar, so it passes where nobody asks for its contents. -/
namespace PagedHeap

/-- A JSON value, with the fields of an object in the order in which they are written. -/
inductive Json
  | null
  | bool (b : Bool)
  | number (natural : Option Nat)
  | text (content : Option String)
  | array (items : List Json)
  | object (fields : List (Option String × Json))

namespace Json

/-- Drops blanks: space, tab, line feed and carriage return. -/
def skipBlank (cs : List Char) : List Char :=
  cs.dropWhile fun c => c = ' ' || c = '\t' || c = '\n' || c = '\r'

def hexDigit (c : Char) : Option Nat :=
  if '0' ≤ c ∧ c ≤ '9' then some (c.toNat - '0'.toNat)
  else if 'a' ≤ c ∧ c ≤ 'f' then some (c.toNat - 'a'.toNat + 10)
  else if 'A' ≤ c ∧ c ≤ 'F' then some (c.toNat - 'A'.toNat + 10)
  else none

def hexUnit (a b c d : Char) : Option Nat := do
  return (← hexDigit a) * 4096 + (← hexDigit b) * 256 + (← hexDigit c) * 16 + (← hexDigit d)

/-- The character that a one-letter escape stands for. -/
def shortEscape : Char → Option Char
  | '"' => some '"'
  | '\\' => some '\\'
  | '/' => some '/'
  | 'b' => some '\x08'
  | 'f' => some '\x0c'
  | 'n' => some '\n'
  | 'r' => some '\r'
  | 't' => some '\t'
  | _ => none

inductive Piece
  | char (c : Char)
  | unit (n : Nat)

/-- The pieces of a string up to its closing quote, and what follows the quote. -/
def readPieces : List Char → Option (List Piece × List Char)
  | [] => none
  | '"' :: rest => some ([], rest)
  | '\\' :: 'u' :: a :: b :: c :: d :: rest => do
    let n ← hexUnit a b c d
    let (pieces, rest) ← readPieces rest
    return (.unit n :: pieces, rest)
  | '\\' :: e :: rest => do
    let c ← shortEscape e
    let (pieces, rest) ← readPieces rest
    return (.char c :: pieces, rest)
  | c :: rest =>
    if c.toNat < 32 then none
    else do
      let (pieces, rest) ← readPieces rest
      return (.char c :: pieces, rest)

/-- The characters that the pieces spell: a unit of the upper half range must be followed by one of
the lower half range, and the two together name one character. -/
def spell : List Piece → Option (List Char)
  | [] => some []
  | .char c :: rest => do return c :: (← spell rest)
  | .unit high :: .unit low :: rest =>
    if 0xD800 ≤ high ∧ high < 0xDC00 then
      if 0xDC00 ≤ low ∧ low < 0xE000 then do
        return Char.ofNat (0x10000 + (high - 0xD800) * 1024 + (low - 0xDC00)) :: (← spell rest)
      else none
    else if 0xDC00 ≤ high ∧ high < 0xE000 then none
    else do return Char.ofNat high :: (← spell (.unit low :: rest))
  | .unit n :: rest =>
    if 0xD800 ≤ n ∧ n < 0xE000 then none else do return Char.ofNat n :: (← spell rest)

def readText (cs : List Char) : Option (Option String × List Char) := do
  let (pieces, rest) ← readPieces cs
  return ((spell pieces).map String.ofList, rest)

def readDigits (cs : List Char) : Option (List Char × List Char) :=
  match cs.takeWhile Char.isDigit with
  | [] => none
  | ds => some (ds, cs.dropWhile Char.isDigit)

def decimal (ds : List Char) : Nat := ds.foldl (fun n c => 10 * n + (c.toNat - '0'.toNat)) 0

/-- Skips a fraction, if there is one; the flag tells whether there was. -/
def skipFraction : List Char → Option (Bool × List Char)
  | '.' :: rest => do return (true, (← readDigits rest).2)
  | cs => some (false, cs)

/-- Skips an exponent, if there is one; the flag tells whether there was. -/
def skipExponent : List Char → Option (Bool × List Char)
  | c :: rest =>
    if c = 'e' || c = 'E' then
      match rest with
      | '+' :: digits => do return (true, (← readDigits digits).2)
      | '-' :: digits => do return (true, (← readDigits digits).2)
      | digits => do return (true, (← readDigits digits).2)
    else some (false, c :: rest)
  | [] => some (false, [])

/-- A number without its sign: no superfluous leading zero, and digits on both sides of a point. -/
def readUnsigned (cs : List Char) : Option (Option Nat × List Char) := do
  let (ds, rest) ← readDigits cs
  if ds.head? = some '0' ∧ ds.length ≠ 1 then none
  else
    let (fraction, rest) ← skipFraction rest
    let (exponent, rest) ← skipExponent rest
    return (if fraction || exponent then none else some (decimal ds), rest)

/-- A number; what follows a minus sign is not a natural number, not even a zero. -/
def readNumber : List Char → Option (Option Nat × List Char)
  | '-' :: rest => do return (none, (← readUnsigned rest).2)
  | cs => readUnsigned cs

mutual

/-- A value, and what follows it. The first argument bounds the depth of the recursion. -/
def readValue : Nat → List Char → Option (Json × List Char)
  | 0, _ => none
  | k+1, cs =>
    match skipBlank cs with
    | '"' :: rest => do
      let (content, rest) ← readText rest
      return (.text content, rest)
    | '[' :: rest =>
      match skipBlank rest with
      | ']' :: rest => some (.array [], rest)
      | rest => do
        let (items, rest) ← readItems k rest
        return (.array items, rest)
    | '\x7b' :: rest =>
      match skipBlank rest with
      | '\x7d' :: rest => some (.object [], rest)
      | rest => do
        let (fields, rest) ← readFields k rest
        return (.object fields, rest)
    | 'n' :: 'u' :: 'l' :: 'l' :: rest => some (.null, rest)
    | 't' :: 'r' :: 'u' :: 'e' :: rest => some (.bool true, rest)
    | 'f' :: 'a' :: 'l' :: 's' :: 'e' :: rest => some (.bool false, rest)
    | cs => do
      let (natural, rest) ← readNumber cs
      return (.number natural, rest)

/-- At least one item of an array, and what follows its closing bracket. -/
def readItems : Nat → List Char → Option (List Json × List Char)
  | 0, _ => none
  | k+1, cs => do
    let (item, rest) ← readValue k cs
    match skipBlank rest with
    | ',' :: rest =>
      let (items, rest) ← readItems k rest
      return (item :: items, rest)
    | ']' :: rest => return ([item], rest)
    | _ => none

/-- At least one field of an object, and what follows its closing brace. -/
def readFields : Nat → List Char → Option (List (Option String × Json) × List Char)
  | 0, _ => none
  | k+1, cs =>
    match skipBlank cs with
    | '"' :: rest => do
      let (key, rest) ← readText rest
      match skipBlank rest with
      | ':' :: rest =>
        let (item, rest) ← readValue k rest
        match skipBlank rest with
        | ',' :: rest =>
          let (fields, rest) ← readFields k rest
          return ((key, item) :: fields, rest)
        | '\x7d' :: rest => return ([(key, item)], rest)
        | _ => none
      | _ => none
    | _ => none

end

/-- The value that a text writes, if it is a JSON text. Every second step of the recursion takes a
character, which bounds its depth. -/
def parse (s : String) : Option Json := do
  let (v, rest) ← readValue (2 * s.length + 2) s.toList
  if skipBlank rest = [] then some v else none

/-- The value of the only field of that name. -/
def field? (fields : List (Option String × Json)) (name : String) : Option Json :=
  match fields.filter fun f => f.1 = some name with
  | [f] => some f.2
  | _ => none

def escape (c : Char) : String :=
  if c = '"' then "\\\""
  else if c = '\\' then "\\\\"
  else if c = '\x08' then "\\b"
  else if c = '\x0c' then "\\f"
  else if c = '\n' then "\\n"
  else if c = '\r' then "\\r"
  else if c = '\t' then "\\t"
  else if c.toNat < 32 then
    "\\u00" ++ String.ofList [Nat.digitChar (c.toNat / 16), Nat.digitChar (c.toNat % 16)]
  else c.toString

def quote (s : String) : String := "\"" ++ String.join (s.toList.map escape) ++ "\""

end Json
end PagedHeap
