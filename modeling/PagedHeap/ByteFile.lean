import PagedHeap.Page
import PagedHeap.Table

/-! Files as strings of bytes. Page `n` of a file lies at its bytes from `n * pageSize` on. A file
need not be a whole number of pages; only whole pages can be read from it. Of the pages only those
are kept that were written, since a file can be much longer than what is in it: the bytes between
are zero. -/
namespace PagedHeap

structure ByteFile where
  size : Nat := 0
  /-- The pages that are not all zero, by number; the last one may reach over the end of the file,
  with zeros. -/
  written : Table Nat Page := {}

namespace ByteFile

/-- The number of whole pages in the file. -/
def pages (f : ByteFile) : Nat := f.size / pageSize

/-- The bytes from `n * pageSize` on, zero outside the file. -/
def page (f : ByteFile) (n : Nat) : Page := (f.written.find? n).getD Page.blank

def ofBytes (bs : Bytes) : ByteFile where
  size := bs.length
  written := ⟨(List.range (bs.length / pageSize + 1)).map fun n =>
    (n, Page.ofBytes ((bs.drop (n * pageSize)).take pageSize))⟩

def toBytes (f : ByteFile) : Bytes :=
  ((List.range (f.pages + 1)).flatMap fun n => (f.page n).toBytes).take f.size

/-- Page `n`, if the file does not end before it does. -/
def readPage (f : ByteFile) (n : Nat) : Option Page :=
  if (n + 1) * pageSize ≤ f.size then some (f.page n) else none

/-- Writes page `n`. A file that ends before the page is filled up with zeros to where it starts. -/
def writePage (f : ByteFile) (n : Nat) (p : Page) : ByteFile :=
  { size := max f.size ((n + 1) * pageSize), written := f.written.insert n p }

theorem size_writePage (f : ByteFile) (n : Nat) (p : Page) :
    (f.writePage n p).size = max f.size ((n + 1) * pageSize) := rfl

theorem page_writePage (f : ByteFile) (m n : Nat) (p : Page) :
    (f.writePage m p).page n = if n = m then p else f.page n := by
  by_cases h : n = m <;> simp [page, writePage, Table.find?_insert, h]

end ByteFile
end PagedHeap
