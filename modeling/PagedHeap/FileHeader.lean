import PagedHeap.Error
import PagedHeap.Page
import PagedHeap.Text.Utf8

/-! The header of a heap file: its name, how many pages and records it has, and where its chain of
data pages starts and ends. It stands at the start of page 0:

    0      kind of the page        4..7   number of pages        12..15  first data page
    1      zero                    8..11  number of records      16..19  last data page
    2..3   bytes of the name       20..   the name in UTF-8
-/
namespace PagedHeap

structure FileHeader where
  name : String
  pages : UInt32
  records : UInt32
  first : UInt32
  last : UInt32
  deriving DecidableEq, Repr

namespace FileHeader

def fixedSize : Nat := 20

def maxName : Nat := 50

/-- The name as it is kept: its longest start that takes at most `maxName` bytes. -/
def cut (name : String) : String := String.ofList (Utf8.fitting maxName name.toList)

/-- The header of a new file with a header page and one data page. -/
def new (name : String) (dataPage : UInt32) : FileHeader :=
  { name := cut name, pages := 2, records := 0, first := dataPage, last := dataPage }

def addRecord (h : FileHeader) : Except StoreError FileHeader :=
  if h.records.toNat + 1 < UInt32.size then .ok { h with records := h.records + 1 }
  else .error .countOverflow

/-- Counts one record less, if any is counted. -/
def dropRecord (h : FileHeader) : FileHeader :=
  { h with records := if h.records = 0 then 0 else h.records - 1 }

/-- Counts one more page, which becomes the last. -/
def addPage (h : FileHeader) (last : UInt32) : Except StoreError FileHeader :=
  if h.pages.toNat + 1 < UInt32.size then .ok { h with last, pages := h.pages + 1 }
  else .error .countOverflow

/-- The bytes of the header, with the name cut to what is kept of it. -/
def encode (h : FileHeader) : Bytes :=
  let name := Utf8.encode (Utf8.fitting maxName h.name.toList)
  [PageKind.heapHeader.toByte, 0] ++ Bytes.littleEndian 2 name.length ++
    Bytes.littleEndian 4 h.pages.toNat ++ Bytes.littleEndian 4 h.records.toNat ++
    Bytes.littleEndian 4 h.first.toNat ++ Bytes.littleEndian 4 h.last.toNat ++ name

/-- Writes the header over the start of a buffer, if the buffer is long enough. -/
def write (h : FileHeader) (buffer : Bytes) : Option Bytes :=
  let bs := h.encode
  if buffer.length < bs.length then none else some (bs ++ buffer.drop bs.length)

/-- The number in `k` bytes of a buffer. -/
def field (buffer : Bytes) (start k : Nat) : Nat := Bytes.value ((buffer.drop start).take k)

/-- The header at the start of a buffer. There is none in a buffer without room for the longest
name, in a page of another kind, or where the name is said to be longer than that. -/
def decode (buffer : Bytes) : Option FileHeader :=
  let named := field buffer 2 2
  if buffer.length < fixedSize + maxName ∨ PageKind.ofByte (buffer.headD 0) ≠ .heapHeader ∨
      maxName < named then none
  else some
    { name := String.ofList (Utf8.decode ((buffer.drop fixedSize).take named))
      pages := UInt32.ofNat (field buffer 4 4)
      records := UInt32.ofNat (field buffer 8 4)
      first := UInt32.ofNat (field buffer 12 4)
      last := UInt32.ofNat (field buffer 16 4) }

/-- The header that a page holds, if it holds one. -/
def ofPage (p : Page) : Option FileHeader := decode (p.slice 0 (fixedSize + maxName))

def toPage (h : FileHeader) (p : Page) : Page := p.splice 0 h.encode

end FileHeader
end PagedHeap
