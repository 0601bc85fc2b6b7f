import PagedHeap.Page.Slots

/-! What names a record of a heap file: its page and its slot there. Records are ordered by their
pages and within a page by their slots. -/
namespace PagedHeap

structure RecordId where
  page : UInt32
  slot : Nat
  deriving DecidableEq, Repr

namespace RecordId

/-- Page and slot with a colon between them. -/
def text (r : RecordId) : String := toString r.page ++ ":" ++ toString r.slot

instance : LT RecordId := ⟨fun a b => a.page < b.page ∨ a.page = b.page ∧ a.slot < b.slot⟩

instance (a b : RecordId) : Decidable (a < b) :=
  inferInstanceAs (Decidable (a.page < b.page ∨ a.page = b.page ∧ a.slot < b.slot))

theorem lt_iff (a b : RecordId) : a < b ↔ a.page < b.page ∨ a.page = b.page ∧ a.slot < b.slot :=
  Iff.rfl

def sort (ids : List RecordId) : List RecordId := ids.mergeSort fun a b => !decide (b < a)

end RecordId
end PagedHeap
