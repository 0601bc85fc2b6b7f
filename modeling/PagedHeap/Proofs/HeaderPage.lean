import Mathlib.Tactic.Common
import PagedHeap.FileHeader
import PagedHeap.Proofs.TextCoding

/-! The header of a heap file in its page: what was written there can be read again, with the name as
far as it is kept. -/
namespace PagedHeap.FileHeader
variable {h : FileHeader} {p : Page}

lemma field_append (front rest : Bytes) (k n : Nat) :
    field (front ++ (Bytes.littleEndian k n ++ rest)) front.length k = n % Bytes.count k := by
  rw [field, List.drop_left, List.take_left' (Bytes.length_littleEndian k n),
    Bytes.value_littleEndian]

lemma ofNat_mod_count (n : UInt32) : UInt32.ofNat (n.toNat % Bytes.count 4) = n := by
  rw [show Bytes.count 4 = UInt32.size from rfl, Nat.mod_eq_of_lt n.toNat_lt, UInt32.ofNat_toNat]

def nameBytes (h : FileHeader) : Bytes := Utf8.encode (Utf8.fitting maxName h.name.toList)

lemma length_nameBytes (h : FileHeader) : h.nameBytes.length ≤ maxName :=
  Utf8.length_encode_fitting ..

/-- The header as it can be read again. -/
def kept (h : FileHeader) : FileHeader := { h with name := cut h.name }

lemma decode_nameBytes (h : FileHeader) : String.ofList (Utf8.decode h.nameBytes) = cut h.name := by
  rw [nameBytes, Utf8.decode_encode, cut]

lemma encode_eq (h : FileHeader) : h.encode =
    [PageKind.heapHeader.toByte, 0] ++ (Bytes.littleEndian 2 h.nameBytes.length ++
      (Bytes.littleEndian 4 h.pages.toNat ++ (Bytes.littleEndian 4 h.records.toNat ++
        (Bytes.littleEndian 4 h.first.toNat ++ (Bytes.littleEndian 4 h.last.toNat ++
          h.nameBytes))))) := by
  simp only [encode, nameBytes, List.append_assoc]

lemma length_encode (h : FileHeader) : h.encode.length = fixedSize + h.nameBytes.length := by
  simp only [encode_eq, List.length_append, List.length_cons, List.length_nil,
    Bytes.length_littleEndian, fixedSize]
  omega

lemma length_encode_le (h : FileHeader) : h.encode.length ≤ fixedSize + maxName :=
  (length_encode h).le.trans (Nat.add_le_add_left (length_nameBytes h) _)

/-- A header at the start of a buffer can be read. -/
theorem decode_encode_append (h : FileHeader) (rest : Bytes)
    (hlen : fixedSize + maxName ≤ (h.encode ++ rest).length) :
    decode (h.encode ++ rest) = some h.kept := by
  have hname := length_nameBytes h
  simp only [maxName] at hname
  let front₁ : Bytes := [PageKind.heapHeader.toByte, 0]
  let front₂ := front₁ ++ Bytes.littleEndian 2 h.nameBytes.length
  let front₃ := front₂ ++ Bytes.littleEndian 4 h.pages.toNat
  let front₄ := front₃ ++ Bytes.littleEndian 4 h.records.toNat
  let front₅ := front₄ ++ Bytes.littleEndian 4 h.first.toNat
  have hfield : ∀ (front tail : Bytes) (k n start : Nat), start = front.length →
      h.encode ++ rest = front ++ (Bytes.littleEndian k n ++ tail) →
      field (h.encode ++ rest) start k = n % Bytes.count k := by
    intro front tail k n start hs he
    rw [hs, he, field_append]
  have hnamed : field (h.encode ++ rest) 2 2 = h.nameBytes.length := by
    rw [hfield front₁ _ 2 h.nameBytes.length 2 rfl (by
      simp only [encode_eq, front₁, List.append_assoc]
      rfl)]
    exact Nat.mod_eq_of_lt (by rw [show Bytes.count 2 = 65536 from rfl]; omega)
  have hpages : field (h.encode ++ rest) 4 4 = h.pages.toNat % Bytes.count 4 :=
    hfield front₂ _ 4 _ 4 (by simp [front₂, front₁]) (by
      simp only [encode_eq, front₂, front₁, List.append_assoc]
      rfl)
  have hrecords : field (h.encode ++ rest) 8 4 = h.records.toNat % Bytes.count 4 :=
    hfield front₃ _ 4 _ 8 (by simp [front₃, front₂, front₁]) (by
      simp only [encode_eq, front₃, front₂, front₁, List.append_assoc]
      rfl)
  have hfirst : field (h.encode ++ rest) 12 4 = h.first.toNat % Bytes.count 4 :=
    hfield front₄ _ 4 _ 12 (by simp [front₄, front₃, front₂, front₁]) (by
      simp only [encode_eq, front₄, front₃, front₂, front₁, List.append_assoc]
      rfl)
  have hlast : field (h.encode ++ rest) 16 4 = h.last.toNat % Bytes.count 4 :=
    hfield front₅ _ 4 _ 16 (by simp [front₅, front₄, front₃, front₂, front₁]) (by
      simp only [encode_eq, front₅, front₄, front₃, front₂, front₁, List.append_assoc]
      rfl)
  have hkind : PageKind.ofByte ((h.encode ++ rest).headD 0) = .heapHeader := by
    rw [encode_eq]
    exact PageKind.ofByte_toByte .heapHeader
  have htext : ((h.encode ++ rest).drop fixedSize).take h.nameBytes.length = h.nameBytes := by
    have hsplit : h.encode ++ rest =
        (front₅ ++ Bytes.littleEndian 4 h.last.toNat) ++ (h.nameBytes ++ rest) := by
      simp only [encode_eq, front₅, front₄, front₃, front₂, front₁, List.append_assoc]
    have hfixed : fixedSize = (front₅ ++ Bytes.littleEndian 4 h.last.toNat).length := by
      simp [front₅, front₄, front₃, front₂, front₁, fixedSize]
    rw [hsplit, hfixed, List.drop_left, List.take_left]
  unfold decode
  dsimp only
  rw [hnamed, if_neg]
  · rw [hpages, hrecords, hfirst, hlast, htext, decode_nameBytes, ofNat_mod_count, ofNat_mod_count,
      ofNat_mod_count, ofNat_mod_count, kept]
  · rw [hkind]
    rintro (hshort | hother | hlong)
    · exact Nat.not_lt.mpr hlen hshort
    · exact hother rfl
    · exact Nat.not_lt.mpr (length_nameBytes h) hlong

lemma slice_splice_zero (p : Page) {bs : Bytes} {m : Nat} (hb : bs.length ≤ m)
    (hm : m ≤ pageSize) :
    (p.splice 0 bs).slice 0 m = bs ++ p.slice bs.length (m - bs.length) := by
  refine List.ext_getElem? fun k => ?_
  rw [Page.getElem?_slice, Page.byte_splice, Nat.zero_add, Nat.zero_add]
  by_cases hk : k < bs.length
  · rw [List.getElem?_append_left hk, if_pos (by omega), if_pos (by omega), Nat.sub_zero,
      List.getElem?_eq_getElem hk, Option.getD_some]
  · rw [List.getElem?_append_right (by omega), Page.getElem?_slice,
      if_neg (c := 0 ≤ k ∧ _) (by omega)]
    by_cases hk' : k < m
    · rw [if_pos hk', if_pos (by omega), Nat.add_sub_of_le (by omega)]
    · rw [if_neg hk', if_neg (by omega)]

/-- What was written into a page can be read from it. -/
theorem ofPage_toPage (h : FileHeader) (p : Page) : ofPage (h.toPage p) = some h.kept := by
  have hlength := length_encode_le h
  have hslice : (h.toPage p).slice 0 (fixedSize + maxName) = h.encode ++
      p.slice h.encode.length (fixedSize + maxName - h.encode.length) :=
    slice_splice_zero p hlength (by decide)
  rw [ofPage, hslice]
  refine decode_encode_append h _ ?_
  rw [List.length_append, Page.length_slice]
  omega

lemma ofPage_blank : ofPage Page.blank = none := by
  have hslice : Page.blank.slice 0 (fixedSize + maxName) = List.replicate 70 0 := by
    simp only [Page.slice, Page.byte_blank, List.map_const', List.length_range, fixedSize, maxName]
  rw [ofPage, hslice]
  rfl

end PagedHeap.FileHeader
