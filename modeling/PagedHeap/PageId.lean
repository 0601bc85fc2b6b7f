/-! What names a page: the file it belongs to and its number there. A page id is also one 64-bit
number, and the order of these numbers is the order of files and then of pages. -/
namespace PagedHeap

/-- The page number that stands for "no page". -/
def noPage : UInt32 := 4294967295

structure PageId where
  file : UInt32
  page : UInt32
  deriving DecidableEq, Repr

namespace PageId

/-- The id as one number, with the file in the upper half. -/
def packed (id : PageId) : Nat := id.file.toNat * UInt32.size + id.page.toNat

def ofPacked (n : Nat) : PageId := ⟨UInt32.ofNat (n / UInt32.size), UInt32.ofNat n⟩

/-- File and page number with a colon between them. -/
def text (id : PageId) : String := toString id.file ++ ":" ++ toString id.page

def debugText (id : PageId) : String :=
  "PageId \x7b file_id: " ++ toString id.file ++ ", page_num: " ++ toString id.page ++ " \x7d"

def json (id : PageId) : String :=
  "\x7b\"file_id\":" ++ toString id.file ++ ",\"page_num\":" ++ toString id.page ++ "\x7d"

@[simp] theorem ofPacked_packed (id : PageId) : ofPacked id.packed = id := by
  have hp := id.page.toNat_lt
  have high : id.packed / UInt32.size = id.file.toNat := by
    simp only [packed, UInt32.size]
    omega
  have low : id.packed % UInt32.size = id.page.toNat := by
    simp only [packed, UInt32.size]
    omega
  cases id with | mk f p =>
  simp only [ofPacked, high, mk.injEq]
  refine ⟨UInt32.ofNat_toNat, ?_⟩
  apply UInt32.toNat_inj.mp
  rw [UInt32.toNat_ofNat']
  exact low

/-- Packing is injective, so ids may be compared by their numbers. -/
theorem packed_inj {a b : PageId} : a.packed = b.packed ↔ a = b :=
  ⟨fun h => by rw [← ofPacked_packed a, h, ofPacked_packed], fun h => h ▸ rfl⟩

end PageId

/-- What a page is used for, by its first byte. -/
inductive PageKind
  | free
  | heapHeader
  | heapData
  deriving DecidableEq, Repr

namespace PageKind

/-- The kind that a first byte stands for; an unknown byte stands for a free page. -/
def ofByte (b : UInt8) : PageKind :=
  if b = 1 then heapHeader else if b = 2 then heapData else free

def toByte : PageKind → UInt8
  | free => 0
  | heapHeader => 1
  | heapData => 2

def name : PageKind → String
  | free => "Free"
  | heapHeader => "HeapHeader"
  | heapData => "HeapData"

def ofName (s : String) : Option PageKind := [free, heapHeader, heapData].find? (·.name = s)

@[simp] theorem ofByte_toByte (k : PageKind) : ofByte k.toByte = k := by cases k <;> rfl

end PageKind
end PagedHeap
