/-! Finite maps kept as lists of bindings. Looking up after an insertion or an erasure is all that
the other modules use of them, and the two equations below say what it gives. -/
namespace PagedHeap

/-- A finite map, as the list of its bindings. -/
structure Table (κ β : Type) where
  entries : List (κ × β) := []
  deriving Repr, DecidableEq

namespace Table
variable {κ β : Type} [DecidableEq κ]

def find? (t : Table κ β) (k : κ) : Option β :=
  (t.entries.find? fun e => e.1 = k).map Prod.snd

def contains (t : Table κ β) (k : κ) : Bool := (t.find? k).isSome

def erase (t : Table κ β) (k : κ) : Table κ β := ⟨t.entries.filter fun e => e.1 ≠ k⟩

/-- Binds a key, in place of any earlier binding of it. -/
def insert (t : Table κ β) (k : κ) (v : β) : Table κ β := ⟨(k, v) :: (t.erase k).entries⟩

def size (t : Table κ β) : Nat := t.entries.length

def keys (t : Table κ β) : List κ := t.entries.map Prod.fst

@[simp] theorem find?_empty (k : κ) : (⟨[]⟩ : Table κ β).find? k = none := rfl

theorem find?_erase (t : Table κ β) (k l : κ) :
    (t.erase k).find? l = if l = k then none else t.find? l := by
  simp only [find?, erase, List.find?_filter]
  split
  · next h => subst h; simp
  · next h =>
    congr 2
    funext e
    by_cases he : e.1 = l <;> simp_all

theorem find?_insert (t : Table κ β) (k l : κ) (v : β) :
    (t.insert k v).find? l = if l = k then some v else t.find? l := by
  by_cases h : l = k
  · subst h; simp [find?, insert]
  · have step : (t.insert k v).find? l = (t.erase k).find? l := by
      simp [find?, insert, Ne.symm h]
    simp [step, find?_erase, h]

end Table
end PagedHeap
