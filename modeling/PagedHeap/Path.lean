/-! Paths: texts that lead through a tree of directories, part by part and with slashes between the
parts. More slashes than one between two parts count as one, and a slash at the start leads to the
top of the tree. -/
namespace PagedHeap.Path

def maxBytes : Nat := 4095

def maxPartBytes : Nat := 255

/-- The stretches between slashes, empty ones too. -/
def stretches : List Char → List (List Char)
  | [] => [[]]
  | c :: rest =>
    if c = '/' then [] :: stretches rest
    else match stretches rest with
      | [] => [[c]]
      | s :: more => (c :: s) :: more

def parts (path : String) : List String :=
  ((stretches path.toList).filter (· ≠ [])).map String.ofList

/-- Whether a part leads to the directory itself or to the one above. -/
def isDots (part : String) : Bool := part = "." || part = ".."

/-- Whether a path can lead anywhere: one with a NUL, or a longer one, cannot. -/
def passable (path : String) : Bool :=
  !path.toList.contains '\x00' && path.utf8ByteSize ≤ maxBytes

/-- Whether a slash stands behind a last part that is a name. Such a path asks for a directory. -/
def trailing (path : String) : Bool :=
  path.toList.getLast? = some '/' && (parts path).getLast?.any fun part => !isDots part

/-- The path that a name means in a directory. A name that starts with a slash stands for itself. -/
def join (dir name : String) : String :=
  if name.toList.head? = some '/' then name
  else if dir.toList.getLast?.all (· = '/') then dir ++ name
  else dir ++ "/" ++ name

theorem stretches_ne_nil (cs : List Char) : stretches cs ≠ [] := by
  cases cs with
  | nil => simp [stretches]
  | cons c rest =>
    unfold stretches
    split
    · simp
    · split <;> simp

theorem stretches_append_slash (a b : List Char) :
    stretches (a ++ '/' :: b) = stretches a ++ stretches b := by
  induction a with
  | nil => simp [stretches]
  | cons c a ih =>
    by_cases h : c = '/'
    · simp [stretches, h, ih]
    · simp only [List.cons_append, stretches, h, if_false, ih]
      cases hs : stretches a with
      | nil => exact absurd hs (stretches_ne_nil a)
      | cons s more => rfl

/-- A text without a slash is one stretch. -/
theorem stretches_of_notMem (cs : List Char) (h : '/' ∉ cs) : stretches cs = [cs] := by
  induction cs with
  | nil => rfl
  | cons c rest ih =>
    have hc : c ≠ '/' := fun hc => h (hc ▸ List.mem_cons_self)
    have hr : stretches rest = [rest] := ih fun hr => h (List.mem_cons_of_mem c hr)
    simp [stretches, hc, hr]

/-- A name without a slash is one more part behind those of the directory. -/
theorem parts_join (dir name : String) (h : '/' ∉ name.toList) (hn : name ≠ "") :
    parts (join dir name) = parts dir ++ [name] := by
  have hhead : name.toList.head? ≠ some '/' := fun hh => h (List.mem_of_head? hh)
  have hname : name.toList ≠ [] := fun hh => hn (String.toList_eq_nil_iff.mp hh)
  have single : parts name = [name] := by
    simp [parts, stretches_of_notMem _ h, hname]
  rw [join, if_neg hhead]
  split
  · next hlast =>
    cases hd : dir.toList.getLast? with
    | none =>
      have hdir : dir = "" := String.toList_eq_nil_iff.mp (List.getLast?_eq_none_iff.mp hd)
      simp [hdir, single, show parts "" = [] from rfl]
    | some c =>
      obtain ⟨front, hfront⟩ := List.getLast?_eq_some_iff.mp hd
      have hc : c = '/' := by simpa [hd] using hlast
      subst hc
      simp only [parts, String.toList_append, hfront, List.append_assoc, List.singleton_append,
        stretches_append_slash, stretches_of_notMem _ h]
      simp [stretches, hname]
  · simp [parts, String.toList_append, stretches_append_slash, stretches_of_notMem _ h, hname]

example : parts "/a//b/./c/" = ["a", "b", ".", "c"] := by decide
example : trailing "a/" = true := by decide
example : trailing "a/./" = false := by decide

end PagedHeap.Path
