import PagedHeap.Proofs.FileSteps
import PagedHeap.Proofs.HeaderPage
import PagedHeap.Proofs.PageBytes

/-! What is kept of a header that is written. All of it can be read again but the end of a name that
is too long; the name is cut between two characters, and what was cut is not cut again. So a header
stays the same through any number of writes, and an edit of a written header comes out as it was
meant. -/
namespace PagedHeap

namespace FileHeader
variable {h : FileHeader} {name : String} {buffer : Bytes} {p : Page}

section Names

lemma length_encode_toList (name : String) :
    (Utf8.encode name.toList).length = name.utf8ByteSize := by
  have hbytes : name.toByteArray = (Utf8.encode name.toList).toByteArray := by
    rw [← String.utf8Encode_toList, List.utf8Encode, Utf8.encode]
  rw [String.utf8ByteSize, hbytes, List.size_toByteArray]

lemma toList_cut (name : String) : (cut name).toList = Utf8.fitting maxName name.toList :=
  String.toList_ofList

theorem cut_cut (name : String) : cut (cut name) = cut name := by
  rw [cut, toList_cut, Utf8.fitting_fitting, cut]

lemma nameBytes_eq (h : FileHeader) : h.nameBytes = Utf8.encode (cut h.name).toList := by
  rw [nameBytes, toList_cut]

lemma kept_new (name : String) (dataPage : UInt32) :
    (new name dataPage).kept = new name dataPage := by
  rw [kept, new, cut_cut]

/-- A name is the longest start of another one that has room in a header. -/
structure Longest (kept name : String) : Prop where
  isStart : kept.toList <+: name.toList
  fits : kept.utf8ByteSize ≤ maxName
  longest : ∀ start : String, start.toList <+: name.toList → start.utf8ByteSize ≤ maxName →
    start.toList <+: kept.toList
  /-- It ends at the boundary between characters that is found from behind. -/
  bytes : Utf8.encode kept.toList = (Utf8.encode name.toList).take
    (Utf8.boundaryBefore (Utf8.encode name.toList) maxName)

theorem longest_cut (name : String) : Longest (cut name) name where
  isStart := by
    rw [toList_cut]
    exact Utf8.fitting_starts ..
  fits := by
    rw [← length_encode_toList, toList_cut]
    exact Utf8.length_encode_fitting ..
  longest start hstart hfits := by
    rw [← length_encode_toList] at hfits
    rw [toList_cut]
    exact Utf8.prefix_fitting hstart hfits
  bytes := by
    rw [toList_cut]
    exact Utf8.encode_fitting ..

end Names

section Buffers

lemma length_encode_kept (h : FileHeader) :
    h.encode.length = fixedSize + (cut h.name).utf8ByteSize := by
  rw [length_encode, nameBytes_eq, length_encode_toList]

lemma write_of_le (hlen : fixedSize + maxName ≤ buffer.length) :
    h.write buffer = some (h.encode ++ buffer.drop h.encode.length) := by
  have := length_encode_le h
  rw [write, if_neg (by omega)]

/-- A header in a buffer: it can be read again, and the bytes behind it are those that were there
before. -/
structure Written (h : FileHeader) (buffer out : Bytes) : Prop where
  length : out.length = buffer.length
  decode : FileHeader.decode out = some { h with name := cut h.name }
  behind : out.drop (fixedSize + (cut h.name).utf8ByteSize) =
    buffer.drop (fixedSize + (cut h.name).utf8ByteSize)

/-- A header can be written wherever it could be read. -/
theorem write_written (h : FileHeader) (hlen : fixedSize + maxName ≤ buffer.length) :
    ∃ out, h.write buffer = some out ∧ Written h buffer out := by
  have hle := length_encode_le h
  have hlength : (h.encode ++ buffer.drop h.encode.length).length = buffer.length := by
    rw [List.length_append, List.length_drop]
    omega
  refine ⟨_, write_of_le hlen, hlength, decode_encode_append h _ (by omega), ?_⟩
  rw [← length_encode_kept, List.drop_left]

lemma field_two (buffer : Bytes) (start : Nat) {b c : UInt8} (hb : buffer[start]? = some b)
    (hc : buffer[start + 1]? = some c) : field buffer start 2 = b.toNat + 256 * c.toNat := by
  have htake : (buffer.drop start).take 2 = [b, c] := by
    refine List.ext_getElem? fun i => ?_
    rw [List.getElem?_take]
    match i with
    | 0 => simpa using hb
    | 1 => simpa using hc
    | i + 2 => simp
  simp [field, htake, Bytes.value]

lemma ofByte_eq_heapHeader_iff (b : UInt8) : PageKind.ofByte b = .heapHeader ↔ b = 1 := by
  unfold PageKind.ofByte
  split
  · next hb => exact iff_of_true rfl hb
  · next hb => split <;> exact iff_of_false (by decide) hb

lemma isSome_decode (buffer : Bytes) : (decode buffer).isSome ↔
    fixedSize + maxName ≤ buffer.length ∧ PageKind.ofByte (buffer.headD 0) = .heapHeader ∧
      field buffer 2 2 ≤ maxName := by
  unfold decode
  dsimp only
  split
  · next hnot =>
    refine iff_of_false Bool.false_ne_true ?_
    rintro ⟨hlen, hkind, hname⟩
    rcases hnot with hshort | hother | hlong
    · exact Nat.not_lt.mpr hlen hshort
    · exact hother hkind
    · exact Nat.not_lt.mpr hname hlong
  · next hread =>
    simp only [not_or, Nat.not_lt, ne_eq, not_not] at hread
    exact iff_of_true rfl hread

/-- A header is read where there is room for the longest name, in a page of its kind, and with a
name that is not said to be longer. -/
theorem isSome_decode_iff (buffer : Bytes) : (decode buffer).isSome ↔
    fixedSize + maxName ≤ buffer.length ∧ buffer[0]? = some 1 ∧
      ∃ b c, buffer[2]? = some b ∧ buffer[3]? = some c ∧ b.toNat + 256 * c.toNat ≤ maxName := by
  rw [isSome_decode]
  refine and_congr_right fun hlen => ?_
  simp only [fixedSize, maxName] at hlen
  obtain ⟨a, ha⟩ : ∃ a, buffer[0]? = some a := ⟨_, List.getElem?_eq_getElem (by omega)⟩
  obtain ⟨b, hb⟩ : ∃ b, buffer[2]? = some b := ⟨_, List.getElem?_eq_getElem (by omega)⟩
  obtain ⟨c, hc⟩ : ∃ c, buffer[3]? = some c := ⟨_, List.getElem?_eq_getElem (by omega)⟩
  have hfirst : buffer.headD 0 = a := by
    rw [List.headD_eq_head?_getD, List.head?_eq_getElem?, ha, Option.getD_some]
  rw [hfirst, ofByte_eq_heapHeader_iff, field_two buffer 2 hb hc, ha, hb, hc]
  simp only [Option.some.injEq, exists_and_left, exists_eq_left']

end Buffers

section Pages

lemma field_take {start k n : Nat} (hn : start + k ≤ n) :
    field (buffer.take n) start k = field buffer start k := by
  rw [field, field, List.drop_take, List.take_take, Nat.min_eq_left (by omega)]

/-- Only the bytes that a header can take are looked at. -/
theorem decode_take (buffer : Bytes) :
    decode (buffer.take (fixedSize + maxName)) = decode buffer := by
  have hlen : (buffer.take (fixedSize + maxName)).length < fixedSize + maxName ↔
      buffer.length < fixedSize + maxName := by
    rw [List.length_take]
    omega
  have hhead : (buffer.take (fixedSize + maxName)).headD 0 = buffer.headD 0 := by
    cases buffer <;> rfl
  unfold decode
  dsimp only
  simp only [hlen, hhead, field_take (show 2 + 2 ≤ fixedSize + maxName by decide),
    field_take (show 4 + 4 ≤ fixedSize + maxName by decide),
    field_take (show 8 + 4 ≤ fixedSize + maxName by decide),
    field_take (show 12 + 4 ≤ fixedSize + maxName by decide),
    field_take (show 16 + 4 ≤ fixedSize + maxName by decide)]
  split
  · rfl
  · next hread =>
    have hnamed : field buffer 2 2 ≤ maxName := by omega
    rw [List.drop_take, List.take_take, Nat.min_eq_left (by omega)]

theorem ofPage_eq_decode (p : Page) : ofPage p = decode p.toBytes := by
  rw [ofPage, Page.slice_zero p (by decide), decode_take]

/-- Writing into a page is writing over the start of its bytes. -/
theorem write_toBytes (h : FileHeader) (p : Page) :
    h.write p.toBytes = some (h.toPage p).toBytes := by
  have hle := length_encode_le h
  simp only [fixedSize, maxName] at hle
  rw [write_of_le (by rw [Page.length_toBytes]; decide)]
  refine congrArg some (List.ext_getElem? fun i => ?_)
  rw [Page.getElem?_toBytes, toPage, Page.byte_splice]
  by_cases hi : i < h.encode.length
  · have hpage : i < pageSize := by
      simp only [pageSize]
      omega
    rw [List.getElem?_append_left hi, if_pos hpage, if_pos (by omega), Nat.sub_zero,
      List.getElem?_eq_getElem hi, Option.getD_some]
  · rw [List.getElem?_append_right (by omega), List.getElem?_drop,
      Nat.add_sub_of_le (by omega), Page.getElem?_toBytes]
    exact if_congr Iff.rfl (congrArg some (if_neg (by omega)).symm) rfl

end Pages
end FileHeader

namespace Store
variable {s : Store} {i : Nat} {page : Page}

lemma contents_overwrite (hi : i < s.cache.pool.size) :
    (s.overwrite i page).contents i = page := by
  change ((s.cache.pool.modifyFrame i _).frame i).contents = page
  rw [Pool.frame_modifyFrame, if_pos ⟨rfl, hi⟩]

lemma contents_of_ge (hi : s.cache.pool.size ≤ i) : s.contents i = Page.blank := by
  change (s.cache.pool.frames[i]?.getD {}).contents = Page.blank
  rw [Array.getElem?_eq_none hi]
  rfl

end Store

namespace HeapFile
variable {f : HeapFile} {s : Store} {pin : PinnedPage} {p : Page} {h g : FileHeader}
  {edit : FileHeader → Except StoreError FileHeader}

theorem editHeader_written (hp : f.header = some pin) (hpage : s.contents pin.frame = h.toPage p)
    (hedit : edit h.kept = .ok g) (hname : g.name = h.kept.name) :
    editHeader edit f s = ((.ok (), { f with header := some { pin with dirty := true } }),
        s.overwrite pin.frame (g.toPage (h.toPage p))) ∧
      FileHeader.ofPage ((s.overwrite pin.frame (g.toPage (h.toPage p))).contents pin.frame) =
        some g := by
  have hread := FileHeader.ofPage_toPage h p
  have hframe : pin.frame < s.cache.pool.size := by
    by_contra hout
    rw [← hpage, Store.contents_of_ge (Nat.le_of_not_lt hout), FileHeader.ofPage_blank] at hread
    cases hread
  have hkept : g.kept = g := by
    have hcut : FileHeader.cut g.name = g.name := by
      rw [hname]
      exact FileHeader.cut_cut h.name
    rw [FileHeader.kept, hcut]
  constructor
  · rw [editHeader_some edit hp, hpage, hread]
    dsimp only
    rw [hedit]
  · rw [Store.contents_overwrite hframe, FileHeader.ofPage_toPage, hkept]

end HeapFile

namespace FileHeader

/-- What comes of a header that is written and read. -/
structure RoundTrips (h : FileHeader) : Prop where
  /-- What is kept of the name. -/
  name : Longest (cut h.name) h.name
  again : cut (cut h.name) = cut h.name
  /-- It is read again from any buffer in which it was written. -/
  write : ∀ buffer : Bytes, fixedSize + maxName ≤ buffer.length →
    ∃ out, h.write buffer = some out ∧ Written h buffer out
  /-- The header of a new file comes back as it was. -/
  new : ∀ (dataPage : UInt32) (buffer : Bytes), fixedSize + maxName ≤ buffer.length →
    ∃ out, (FileHeader.new h.name dataPage).write buffer = some out ∧
      decode out = some (FileHeader.new h.name dataPage)
  /-- In a page it is written and read as in the bytes of the page. -/
  page : ∀ p : Page, h.write p.toBytes = some (h.toPage p).toBytes ∧ ofPage p = decode p.toBytes
  /-- An edit that leaves the name alone and works comes out as it was meant. -/
  edit : ∀ (f : HeapFile) (s : Store) (pin : PinnedPage) (p : Page)
    (edit : FileHeader → Except StoreError FileHeader) (g : FileHeader),
    f.header = some pin → s.contents pin.frame = h.toPage p →
      (∀ k k', edit k = .ok k' → k'.name = k.name) →
        edit { h with name := cut h.name } = .ok g →
          ∃ s', HeapFile.editHeader edit f s =
              ((.ok (), { f with header := some { pin with dirty := true } }), s') ∧
            ofPage (s'.contents pin.frame) = some g

/-- Headers are read as they were written, with the name cut once, and they are read from exactly
those buffers that have the room, the kind and a short enough name. -/
theorem roundTrips : (∀ h : FileHeader, h.RoundTrips) ∧
    ∀ buffer : Bytes, (decode buffer).isSome ↔
      fixedSize + maxName ≤ buffer.length ∧ buffer[0]? = some 1 ∧
        ∃ b c, buffer[2]? = some b ∧ buffer[3]? = some c ∧ b.toNat + 256 * c.toNat ≤ maxName := by
  refine ⟨fun h => ?_, isSome_decode_iff⟩
  exact
    { name := longest_cut h.name
      again := cut_cut h.name
      write := fun buffer => write_written h
      new := fun dataPage buffer hlen => by
        obtain ⟨out, hout, hwritten⟩ := write_written (new h.name dataPage) hlen
        exact ⟨out, hout, hwritten.decode.trans (congrArg some (kept_new ..))⟩
      page := fun p => ⟨write_toBytes h p, ofPage_eq_decode p⟩
      edit := fun f s pin p edit g hp hpage hname hedit =>
        ⟨_, HeapFile.editHeader_written hp hpage hedit (hname _ _ hedit)⟩ }

end FileHeader
end PagedHeap
