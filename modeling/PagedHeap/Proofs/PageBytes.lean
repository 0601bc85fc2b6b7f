import Mathlib.Tactic.Common
import PagedHeap.Page.Records

/-! Where the accesses to a page reach. `SameOn p q a b` says that two pages have the same bytes from
`a` up to `b`; every reading is determined by the bytes it covers, and every writing leaves the bytes
outside of its own as they are. -/
namespace PagedHeap.Page
variable {p q r : Page} {a b i n : Nat}

/-- The bytes from one position up to another are the same. -/
def SameOn (p q : Page) (a b : Nat) : Prop := ∀ i, a ≤ i → i < b → p.byte i = q.byte i

lemma SameOn.refl (p : Page) (a b : Nat) : SameOn p p a b := fun _ _ _ => rfl

lemma SameOn.trans (h : SameOn p q a b) (h' : SameOn q r a b) : SameOn p r a b :=
  fun i hi hi' => (h i hi hi').trans (h' i hi hi')

lemma SameOn.mono {a' b' : Nat} (h : SameOn p q a b) (ha : a ≤ a') (hb : b' ≤ b) :
    SameOn p q a' b' := fun i hi hi' => h i (by omega) (by omega)

lemma word16_congr (h : SameOn p q i (i + 2)) : p.word16 i = q.word16 i := by
  rw [word16, word16, h i (by omega) (by omega), h (i + 1) (by omega) (by omega)]

lemma word32_congr (h : SameOn p q i (i + 4)) : p.word32 i = q.word32 i := by
  rw [word32, word32, word16_congr (h.mono (by omega) (by omega)),
    word16_congr (h.mono (by omega) (by omega))]

lemma slice_congr (h : SameOn p q i (i + n)) : p.slice i n = q.slice i n := by
  refine List.map_congr_left fun k hk => ?_
  have := List.mem_range.mp hk
  exact h (i + k) (by omega) (by omega)

lemma slot_congr {s : Nat} (h : SameOn p q (16 + 4 * s) (16 + 4 * s + 4)) : p.slot s = q.slot s := by
  simp only [slot, headerSize, slotSize]
  rw [word16_congr (h.mono (by omega) (by omega)), word16_congr (h.mono (by omega) (by omega))]

lemma sameOn_put {c : UInt8} (h : i < a ∨ b ≤ i) : SameOn (p.put i c) p a b := by
  intro j hj hj'
  rw [byte_put, if_neg (by omega)]

lemma sameOn_setWord16 (h : i + 2 ≤ a ∨ b ≤ i) : SameOn (p.setWord16 i n) p a b :=
  (sameOn_put (by omega)).trans (sameOn_put (by omega))

lemma sameOn_setWord32 (h : i + 4 ≤ a ∨ b ≤ i) : SameOn (p.setWord32 i n) p a b :=
  (sameOn_setWord16 (by omega)).trans (sameOn_setWord16 (by omega))

lemma sameOn_splice {bs : Bytes} (h : i + bs.length ≤ a ∨ b ≤ i) :
    SameOn (p.splice i bs) p a b := by
  intro j hj hj'
  rw [byte_splice, if_neg (by omega)]

lemma sameOn_setSlot {s : Nat} {e : Slot} (h : 16 + 4 * s + 4 ≤ a ∨ b ≤ 16 + 4 * s) :
    SameOn (p.setSlot s e) p a b := by
  simp only [setSlot, headerSize, slotSize]
  exact (sameOn_setWord16 (by omega)).trans (sameOn_setWord16 (by omega))

lemma sameOn_setBounds {count start stop : Nat} (h : 8 ≤ a ∨ b ≤ 2) :
    SameOn (p.setBounds count start stop) p a b :=
  ((sameOn_setWord16 (by omega)).trans (sameOn_setWord16 (by omega))).trans
    (sameOn_setWord16 (by omega))

lemma sameOn_setNext {next : Option UInt32} (h : 16 ≤ a ∨ b ≤ 12) :
    SameOn (p.setNext next) p a b := sameOn_setWord32 (by omega)

lemma word16_setWord16 (hi : i + 1 < pageSize) (hn : n < 65536) :
    (p.setWord16 i n).word16 i = n := by
  have hlow : ((p.setWord16 i n).byte i).toNat = n % 256 := by
    rw [setWord16, byte_put, if_neg (by omega), byte_put, if_pos ⟨rfl, by omega⟩,
      UInt8.toNat_ofNat']
  have hhigh : ((p.setWord16 i n).byte (i + 1)).toNat = n / 256 % 256 := by
    rw [setWord16, byte_put, if_pos ⟨rfl, hi⟩, UInt8.toNat_ofNat']
  rw [word16, hlow, hhigh]
  omega

lemma word32_setWord32 (hi : i + 3 < pageSize) (hn : n < 4294967296) :
    (p.setWord32 i n).word32 i = n := by
  have hlow : (p.setWord32 i n).word16 i = n % 65536 := by
    rw [setWord32, word16_congr (sameOn_setWord16 (by omega))]
    have hsame : p.setWord16 i n = p.setWord16 i (n % 65536) := by
      rw [setWord16, setWord16]
      congr 1
      · congr 1
        exact UInt8.toNat_inj.mp (by simp only [UInt8.toNat_ofNat']; omega)
      · exact UInt8.toNat_inj.mp (by simp only [UInt8.toNat_ofNat']; omega)
    rw [hsame, word16_setWord16 (by omega) (by omega)]
  have hhigh : (p.setWord32 i n).word16 (i + 2) = n / 65536 :=
    word16_setWord16 (by omega) (by omega)
  rw [word32, hlow, hhigh]
  omega

lemma slice_splice {bs : Bytes} (h : i + bs.length ≤ pageSize) :
    (p.splice i bs).slice i bs.length = bs := by
  refine List.ext_getElem? fun k => ?_
  rw [getElem?_slice]
  split
  · next hk => rw [byte_splice, if_pos (by omega), Nat.add_sub_cancel_left,
      List.getElem?_eq_getElem hk, Option.getD_some]
  · next hk => rw [List.getElem?_eq_none (by omega)]

lemma slot_setSlot {s : Nat} {e : Slot} (hs : s < slotLimit) (hp : e.position < 65536)
    (hl : e.length < 65536) : (p.setSlot s e).slot s = e := by
  have hlimit : 16 + 4 * s + 4 ≤ pageSize := by
    simp only [slotLimit, headerSize, slotSize, pageSize] at *
    omega
  simp only [slot, setSlot, headerSize, slotSize]
  rw [word16_congr (sameOn_setWord16 (by omega)), word16_setWord16 (by omega) hp,
    word16_setWord16 (by omega) hl]

lemma slot_setSlot_of_ne {s t : Nat} {e : Slot} (h : t ≠ s) :
    (p.setSlot s e).slot t = p.slot t := slot_congr (sameOn_setSlot (by omega))

section Rewriting

lemma splice_slice (p : Page) (i n : Nat) : p.splice i (p.slice i n) = p := by
  apply ext_byte
  intro j hj
  rw [byte_splice, length_slice]
  split
  · next hin =>
    rw [getElem?_slice, if_pos (by omega), Nat.add_sub_cancel' hin.1]
    rfl
  · rfl

lemma setWord16_word16 (p : Page) (i : Nat) : p.setWord16 i (p.word16 i) = p := by
  have hlow : UInt8.ofNat (p.word16 i) = p.byte i := by
    apply UInt8.toNat_inj.mp
    have := (p.byte i).toNat_lt
    rw [UInt8.toNat_ofNat', word16]
    omega
  have hhigh : UInt8.ofNat (p.word16 i / 256) = p.byte (i + 1) := by
    apply UInt8.toNat_inj.mp
    have := (p.byte i).toNat_lt
    have := (p.byte (i + 1)).toNat_lt
    rw [UInt8.toNat_ofNat', word16]
    omega
  apply ext_byte
  intro j hj
  rw [setWord16, hlow, hhigh, byte_put, byte_put]
  split
  · next hij => rw [hij.1]
  · split
    · next hij => rw [hij.1]
    · rfl

lemma setSlot_slot (p : Page) (s : Nat) : p.setSlot s (p.slot s) = p := by
  simp only [setSlot, slot, setWord16_word16]

lemma setBounds_bounds (p : Page) : p.setBounds p.slotCount p.freeStart p.freeEnd = p := by
  simp only [setBounds, slotCount, freeStart, freeEnd, setWord16_word16]

end Rewriting

lemma slotCount_setBounds {count start stop : Nat} (h : count < 65536) :
    (p.setBounds count start stop).slotCount = count := by
  rw [slotCount, setBounds, word16_congr (sameOn_setWord16 (by omega)),
    word16_congr (sameOn_setWord16 (by omega)), word16_setWord16 (by decide) h]

lemma freeStart_setBounds {count start stop : Nat} (h : start < 65536) :
    (p.setBounds count start stop).freeStart = start := by
  rw [freeStart, setBounds, word16_congr (sameOn_setWord16 (by omega)),
    word16_setWord16 (by decide) h]

lemma freeEnd_setBounds {count start stop : Nat} (h : stop < 65536) :
    (p.setBounds count start stop).freeEnd = stop := word16_setWord16 (by decide) h

lemma number_setWord32 (n : UInt32) : (p.setWord32 8 n.toNat).number = n := by
  rw [number, word32_setWord32 (by decide) n.toNat_lt, UInt32.ofNat_toNat]

lemma next?_setNext {next : Option UInt32} (h : next ≠ some noPage) :
    (p.setNext next).next? = next := by
  rw [next?, setNext, word32_setWord32 (by decide) (UInt32.toNat_lt _), UInt32.ofNat_toNat]
  cases next with
  | none => simp
  | some m =>
    have hm : m ≠ noPage := fun hm => h (congrArg some hm)
    simp [hm]

lemma getElem?_toBytes (p : Page) (i : Nat) :
    p.toBytes[i]? = if i < pageSize then some (p.byte i) else none := by
  rw [toBytes, Vector.getElem?_toList, byte]
  split
  · next h => rw [Vector.getElem?_eq_getElem h]; rfl
  · next h => exact Vector.getElem?_eq_none (Nat.le_of_not_lt h)

@[simp] lemma length_toBytes (p : Page) : p.toBytes.length = pageSize := by simp [toBytes]

lemma slice_zero (p : Page) (hn : n ≤ pageSize) : p.slice 0 n = p.toBytes.take n := by
  refine List.ext_getElem? fun i => ?_
  rw [getElem?_slice, List.getElem?_take, getElem?_toBytes, Nat.zero_add]
  split
  · rw [if_pos (by omega)]
  · rfl

/-- Bytes are cut to the length of a page, or filled up with zeros. -/
theorem toBytes_ofBytes (bs : Bytes) :
    (ofBytes bs).toBytes = bs.take pageSize ++ List.replicate (pageSize - bs.length) 0 := by
  refine List.ext_getElem? fun i => ?_
  have hlen : (bs.take pageSize).length = min pageSize bs.length := List.length_take
  rw [getElem?_toBytes, ofBytes, byte_splice, byte_blank]
  by_cases hb : i < bs.length
  · by_cases hi : i < pageSize
    · rw [List.getElem?_append_left (by omega)]
      simp [hi, hb]
    · rw [List.getElem?_append_right (by omega), List.getElem?_replicate, if_neg hi,
        if_neg (by omega)]
  · have hout : ¬ (0 ≤ i ∧ i < 0 + bs.length ∧ i < pageSize) := by omega
    rw [if_neg hout, List.getElem?_append_right (by omega), List.getElem?_replicate]
    exact if_congr (by omega) rfl rfl

end PagedHeap.Page
