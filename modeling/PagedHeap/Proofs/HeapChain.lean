import Mathlib.Data.List.Chain
import PagedHeap.Proofs.HeaderPage
import PagedHeap.Proofs.PageInsertion
import PagedHeap.RecordId

/-! A heap file as the list of its pages: the chain of the data pages, the records along it, and the
layout that every heap file has. -/
namespace PagedHeap.Heap

def page? (ps : List Page) (n : UInt32) : Option Page := ps[n.toNat]?

def header? (ps : List Page) : Option FileHeader := (page? ps 0).bind FileHeader.ofPage

def next? (ps : List Page) (n : UInt32) : Option UInt32 := (page? ps n).bind Page.next?

/-- The pages along the links from a page on, at most so many. -/
def follow (ps : List Page) : Nat → Option UInt32 → List UInt32
  | k+1, some n => n :: follow ps k (next? ps n)
  | _, _ => []

/-- The data pages in the order of their links, from the first page by the header. -/
def chain (ps : List Page) : List UInt32 := follow ps ps.length ((header? ps).map (·.first))

/-- The record of an id, on a page of the chain. -/
def content (ps : List Page) (r : RecordId) : Option Bytes :=
  if r.page ∈ chain ps then (page? ps r.page).bind fun p => p.entry r.slot else none

def recordsOn (n : UInt32) (p : Page) : List (RecordId × Bytes) :=
  (List.range p.slotCount).filterMap fun s => (p.entry s).map fun b => (⟨n, s⟩, b)

/-- The records of the file in the order of the chain and of the slots. -/
def records (ps : List Page) : List (RecordId × Bytes) :=
  (chain ps).flatMap fun n => ((page? ps n).map (recordsOn n)).getD []

variable {t t' : Prop} {ps qs : List Page} {hd hd' : FileHeader} {body : List UInt32}
  {spare : Option UInt32} {n m : UInt32} {p q : Page} {r : RecordId} {b : Bytes}

section Pages

lemma page?_set (h : page? ps n = some p) (q : Page) (m : UInt32) :
    page? (ps.set n.toNat q) m = if m = n then some q else page? ps m := by
  have hlt := (List.getElem?_eq_some_iff.mp h).choose
  unfold page?
  rw [List.getElem?_set]
  by_cases hm : m = n
  · rw [if_pos (congrArg UInt32.toNat hm.symm), if_pos hlt, if_pos hm]
  · rw [if_neg fun he => hm (UInt32.toNat_inj.mp he).symm, if_neg hm]

lemma page?_append (q : Page) (m : UInt32) :
    page? (ps ++ [q]) m = if m.toNat = ps.length then some q else page? ps m := by
  unfold page?
  by_cases hm : m.toNat < ps.length
  · rw [List.getElem?_append_left hm, if_neg (Nat.ne_of_lt hm)]
  · rw [List.getElem?_append_right (Nat.le_of_not_lt hm)]
    by_cases he : m.toNat = ps.length
    · rw [if_pos he, he, Nat.sub_self]
      rfl
    · rw [if_neg he, List.getElem?_eq_none (by simp only [List.length_singleton]; omega),
        List.getElem?_eq_none (Nat.le_of_not_lt hm)]

lemma lt_length (h : page? ps n = some p) : n.toNat < ps.length :=
  (List.getElem?_eq_some_iff.mp h).choose

end Pages

section Records

lemma entry_lt {s : Nat} (h : p.entry s = some b) : s < p.slotCount := by
  rw [Page.entry_eq_some_iff, Page.record] at h
  split at h
  · cases h
  · omega

lemma mem_recordsOn : (r, b) ∈ recordsOn n p ↔ r.page = n ∧ p.entry r.slot = some b := by
  obtain ⟨m, s⟩ := r
  simp only [recordsOn, List.mem_filterMap, List.mem_range, Option.map_eq_some_iff, Prod.mk.injEq,
    RecordId.mk.injEq]
  constructor
  · rintro ⟨s', -, b', he, ⟨rfl, rfl⟩, rfl⟩
    exact ⟨rfl, he⟩
  · rintro ⟨rfl, he⟩
    exact ⟨s, entry_lt he, b, he, ⟨rfl, rfl⟩, rfl⟩

/-- The records in the order of the chain are the records of the file. -/
theorem mem_records : (r, b) ∈ records ps ↔ content ps r = some b := by
  unfold records content
  rw [List.mem_flatMap]
  constructor
  · rintro ⟨n, hn, hr⟩
    cases hp : page? ps n with
    | none =>
      rw [hp] at hr
      cases hr
    | some p =>
      rw [hp] at hr
      obtain ⟨rfl, he⟩ := mem_recordsOn.mp hr
      rw [if_pos hn, hp]
      exact he
  · intro h
    split at h
    · next hn =>
      obtain ⟨p, hp, he⟩ := Option.bind_eq_some_iff.mp h
      refine ⟨r.page, hn, ?_⟩
      rw [hp]
      exact mem_recordsOn.mpr ⟨rfl, he⟩
    · cases h

lemma pairwise_recordsOn (n : UInt32) (p : Page) :
    (recordsOn n p).Pairwise fun a b => a.1 < b.1 := by
  refine List.Pairwise.filterMap _ ?_ List.pairwise_lt_range
  intro s s' hlt a ha a' ha'
  obtain ⟨b, -, rfl⟩ := Option.map_eq_some_iff.mp ha
  obtain ⟨b', -, rfl⟩ := Option.map_eq_some_iff.mp ha'
  exact Or.inr ⟨rfl, hlt⟩

/-- Along a chain of ascending pages the records ascend. -/
theorem pairwise_records (h : (chain ps).Pairwise (· < ·)) :
    (records ps).Pairwise fun a b => a.1 < b.1 := by
  refine List.pairwise_flatMap.mpr ⟨fun n _ => ?_, h.imp fun {n m} hlt => ?_⟩
  · cases page? ps n with
    | none => exact .nil
    | some p => exact pairwise_recordsOn n p
  · intro a ha a' ha'
    cases hp : page? ps n <;> rw [hp] at ha
    · cases ha
    cases hp' : page? ps m <;> rw [hp'] at ha'
    · cases ha'
    rw [(mem_recordsOn.mp ha).1.symm, (mem_recordsOn.mp ha').1.symm] at hlt
    exact Or.inl hlt

end Records

/-- What holds of every heap file. The pages from the first to the last are the body of the chain;
if an insertion broke off, an empty page may hang behind the last one. All other pages but the
header page were never used, or are such empty pages that were cut off again. -/
structure Layout (t : Prop) (ps : List Page) (hd : FileHeader) (body : List UInt32)
    (spare : Option UInt32) : Prop where
  header : header? ps = some hd
  first : body.head? = some hd.first
  last : body.getLast? = some hd.last
  count : hd.pages.toNat = body.length + 1
  sorted : (0 :: (body ++ spare.toList)).Pairwise (· < ·)
  linked : body.IsChain fun a b => next? ps a = some b
  beyond : next? ps hd.last = spare
  data : ∀ n ∈ body, ∃ p, page? ps n = some p ∧ p.Wf n
  loose : ∀ {n p}, n ≠ 0 → n ∉ body → page? ps n = some p → p = Page.blank ∨ p = Page.empty n
  hangs : ∀ {n}, spare = some n → page? ps n = some (Page.empty n)
  torn : spare ≠ none → t

/-- A page that is a data page, on the chain or not. -/
def IsData (ps : List Page) (n : UInt32) : Prop := n ≠ 0 ∧ ∃ p, page? ps n = some p ∧ p.Wf n

lemma not_wf_blank : ¬ Page.blank.Wf n := fun h => Page.kind_blank h.kind

/-- The walk along the links of a linked list of pages gives this list. -/
theorem follow_eq {ns : List UInt32} {k : Nat} (h : ns.IsChain fun a b => next? ps a = some b)
    (hlast : ∀ n, ns.getLast? = some n → next? ps n = none) (hk : ns.length ≤ k) :
    follow ps k ns.head? = ns := by
  induction ns generalizing k with
  | nil => cases k <;> rfl
  | cons n rest ih =>
    obtain ⟨k, rfl⟩ : ∃ k', k = k' + 1 := ⟨k - 1, by simp only [List.length_cons] at hk; omega⟩
    have hnext : next? ps n = rest.head? := by
      cases rest with
      | nil => exact hlast n rfl
      | cons m rest => exact (List.isChain_cons_cons.mp h).1
    rw [List.head?_cons, follow, hnext, ih h.tail]
    · intro m hm
      refine hlast m ?_
      rw [List.getLast?_cons, hm]
      rfl
    · exact Nat.le_of_succ_le_succ hk

lemma length_le_of_pairwise {ns : List UInt32} {k N : Nat} (h : ns.Pairwise (· < ·))
    (hk : ∀ n ∈ ns, k ≤ n.toNat ∧ n.toNat < N) : ns.length ≤ N - k := by
  induction ns generalizing k with
  | nil => exact Nat.zero_le _
  | cons n rest ih =>
    have hlt := hk n List.mem_cons_self
    have hrest := ih (k := k + 1) (List.Pairwise.tail h) fun m hm =>
      ⟨Nat.lt_of_le_of_lt hlt.1 (UInt32.lt_iff_toNat_lt.mp (List.rel_of_pairwise_cons h hm)),
        (hk m (List.mem_cons_of_mem _ hm)).2⟩
    simp only [List.length_cons]
    omega

namespace Layout

lemma pos (h : Layout t ps hd body spare) (hn : n ∈ body) : n ≠ 0 := by
  have := List.rel_of_pairwise_cons h.sorted (List.mem_append_left _ hn)
  rintro rfl
  exact UInt32.lt_irrefl _ this

lemma isData (h : Layout t ps hd body spare) (hn : n ∈ body) : IsData ps n :=
  ⟨h.pos hn, h.data n hn⟩

lemma wf_of_mem (h : Layout t ps hd body spare) (hn : n ∈ body) (hp : page? ps n = some p) :
    p.Wf n := by
  obtain ⟨q, hq, hw⟩ := h.data n hn
  cases hp.symm.trans hq
  exact hw

lemma isData_spare (h : Layout t ps hd body spare) (hn : spare = some n) : IsData ps n := by
  refine ⟨?_, _, h.hangs hn, Page.wf_empty n⟩
  have := List.rel_of_pairwise_cons h.sorted (List.mem_append_right _ (Option.mem_toList.mpr hn))
  rintro rfl
  exact UInt32.lt_irrefl _ this

lemma first_le (h : Layout t ps hd body spare) (hn : n ∈ body) : hd.first ≤ n := by
  have hsorted := (List.pairwise_append.mp (List.pairwise_cons.mp h.sorted).2).1
  obtain ⟨rest, hbody⟩ := List.head?_eq_some_iff.mp h.first
  rw [hbody, List.pairwise_cons] at hsorted
  rw [hbody] at hn
  rcases List.mem_cons.mp hn with rfl | hn
  · exact UInt32.le_refl _
  · exact UInt32.le_of_lt (hsorted.1 n hn)

lemma le_last (h : Layout t ps hd body spare) (hn : n ∈ body) : n ≤ hd.last := by
  have hsorted := (List.pairwise_append.mp (List.pairwise_cons.mp h.sorted).2).1
  obtain ⟨before, hbody⟩ := List.getLast?_eq_some_iff.mp h.last
  rw [hbody, List.pairwise_append] at hsorted
  rw [hbody] at hn
  rcases List.mem_append.mp hn with hn | hn
  · exact UInt32.le_of_lt (hsorted.2.2 n hn _ List.mem_cons_self)
  · exact List.mem_singleton.mp hn ▸ UInt32.le_refl _

lemma first_mem (h : Layout t ps hd body spare) : hd.first ∈ body := List.mem_of_head? h.first

lemma last_mem (h : Layout t ps hd body spare) : hd.last ∈ body := List.mem_of_getLast? h.last

lemma page_lt (h : Layout t ps hd body spare) (hn : n ∈ body ++ spare.toList) :
    n.toNat < ps.length := by
  rcases List.mem_append.mp hn with hn | hn
  · obtain ⟨p, hp, -⟩ := h.data n hn
    exact lt_length hp
  · exact lt_length (h.hangs (Option.mem_toList.mp hn))

/-- The walk from the first page visits the body and then the page that hangs behind it. -/
theorem chain_eq (h : Layout t ps hd body spare) : chain ps = body ++ spare.toList := by
  have hhead : (body ++ spare.toList).head? = some hd.first := by
    rw [List.head?_append, h.first]
    rfl
  have hpos : ∀ n ∈ body ++ spare.toList, 1 ≤ n.toNat ∧ n.toNat < ps.length :=
    fun n hn => ⟨UInt32.lt_iff_toNat_lt.mp (List.rel_of_pairwise_cons h.sorted hn), h.page_lt hn⟩
  have hlen := length_le_of_pairwise (List.Pairwise.tail h.sorted) hpos
  unfold chain
  rw [h.header, Option.map_some, ← hhead]
  refine follow_eq ?_ ?_ (Nat.le_trans hlen (Nat.sub_le ..))
  · refine List.isChain_append.mpr ⟨h.linked, ?_, fun n hn m hm => ?_⟩
    · cases spare <;> simp
    · rw [h.last] at hn
      cases hn
      rw [h.beyond]
      cases spare with
      | none => cases hm
      | some k => exact hm
  · intro n hn
    cases hs : spare with
    | none =>
      rw [hs, Option.toList_none, List.append_nil, h.last] at hn
      cases hn
      rw [h.beyond, hs]
    | some k =>
      rw [hs, Option.toList_some, List.getLast?_append, List.getLast?_singleton] at hn
      cases hn
      rw [next?, h.hangs hs, Option.bind_some, Page.next?_empty]

theorem mem_chain (h : Layout t ps hd body spare) (hn : n ∈ body) : n ∈ chain ps := by
  rw [h.chain_eq]
  exact List.mem_append_left _ hn

lemma entry_eq_none (h : Layout t ps hd body spare) (h0 : n ≠ 0) (hn : n ∉ body)
    (hp : page? ps n = some p) (s : Nat) : p.entry s = none := by
  rcases h.loose h0 hn hp with rfl | rfl
  · exact Page.entry_blank s
  · exact Page.entry_empty n s

/-- The records of the file are those of its data pages. -/
theorem content_eq (h : Layout t ps hd body spare) (r : RecordId) : content ps r =
    if r.page = 0 then none else (page? ps r.page).bind fun p => p.entry r.slot := by
  have hsorted := h.sorted
  unfold content
  by_cases hc : r.page ∈ chain ps
  · rw [if_pos hc, if_neg]
    rintro h0
    rw [h0, h.chain_eq] at hc
    exact UInt32.lt_irrefl _ (List.rel_of_pairwise_cons hsorted hc)
  · rw [if_neg hc]
    split
    · rfl
    · next h0 =>
      cases hp : page? ps r.page with
      | none => rfl
      | some p => exact (h.entry_eq_none h0 (fun hn => hc (h.mem_chain hn)) hp _).symm

theorem mem_body_of_content (h : Layout t ps hd body spare) (hr : content ps r = some b) :
    r.page ∈ body := by
  rw [h.content_eq] at hr
  split at hr
  · cases hr
  · next h0 =>
    obtain ⟨p, hp, he⟩ := Option.bind_eq_some_iff.mp hr
    by_contra hn
    rw [h.entry_eq_none h0 hn hp] at he
    cases he

/-- What can be read from a data page is a record of the file. -/
theorem content_of_entry (h : Layout t ps hd body spare) (h0 : n ≠ 0) (hp : page? ps n = some p)
    (s : Nat) : content ps ⟨n, s⟩ = p.entry s := by
  rw [h.content_eq, if_neg h0, hp, Option.bind_some]

lemma isData_cases (h : Layout t ps hd body spare) (hn : IsData ps n) :
    n ∈ body ∨ page? ps n = some (Page.empty n) := by
  obtain ⟨h0, p, hp, hw⟩ := hn
  by_cases hb : n ∈ body
  · exact Or.inl hb
  · rcases h.loose h0 hb hp with rfl | rfl
    · exact absurd hw not_wf_blank
    · exact Or.inr hp

/-- The page that follows a page of the body is the next one in the order of the numbers. -/
theorem next_spec (h : Layout t ps hd body spare) (hn : n ∈ body) (hm : next? ps n = some m) :
    n < m ∧ (m ∈ body ∨ spare = some m) ∧ ∀ k ∈ body, n < k → m ∈ body ∧ m ≤ k := by
  obtain ⟨xs, ys, rfl⟩ := List.append_of_mem hn
  have hsorted : ((xs ++ n :: ys) ++ spare.toList).Pairwise (· < ·) := List.Pairwise.tail h.sorted
  have hbody := List.pairwise_append.mp (List.pairwise_append.mp hsorted).1
  have hbefore : ∀ k ∈ xs, ¬ n < k := fun k hk hlt =>
    UInt32.lt_irrefl _ (UInt32.lt_trans (hbody.2.2 k hk n List.mem_cons_self) hlt)
  cases ys with
  | nil =>
    have hlast : hd.last = n := by
      have := h.last
      rw [List.getLast?_append, List.getLast?_singleton] at this
      exact (Option.some_inj.mp this).symm
    have hspare : spare = some m := by rw [← h.beyond, hlast, hm]
    refine ⟨?_, Or.inr hspare, fun k hk hlt => ?_⟩
    · exact (List.pairwise_append.mp hsorted).2.2 n hn m (Option.mem_toList.mpr hspare)
    · rcases List.mem_append.mp hk with hk | hk
      · exact absurd hlt (hbefore k hk)
      · rw [List.mem_singleton.mp hk] at hlt
        exact absurd hlt (UInt32.lt_irrefl n)
  | cons k' zs =>
    have hk' : k' = m := by
      have hchain := (List.isChain_append.mp h.linked).2.1
      exact Option.some_inj.mp ((List.isChain_cons_cons.mp hchain).1.symm.trans hm)
    subst hk'
    have hafter := List.pairwise_cons.mp hbody.2.1
    have hmem : k' ∈ xs ++ n :: k' :: zs :=
      List.mem_append_right _ (List.mem_cons_of_mem _ List.mem_cons_self)
    refine ⟨hafter.1 k' List.mem_cons_self, Or.inl hmem, fun k hk hlt => ⟨hmem, ?_⟩⟩
    rcases List.mem_append.mp hk with hk | hk
    · exact absurd hlt (hbefore k hk)
    · rcases List.mem_cons.mp hk with rfl | hk
      · exact absurd hlt (UInt32.lt_irrefl _)
      · rcases List.mem_cons.mp hk with rfl | hk
        · exact UInt32.le_refl _
        · exact UInt32.le_of_lt (List.rel_of_pairwise_cons hafter.2 hk)

lemma next_of_lt (h : Layout t ps hd body spare) {k : UInt32} (hn : n ∈ body) (hk : k ∈ body)
    (hlt : n < k) : ∃ m, next? ps n = some m := by
  obtain ⟨xs, ys, rfl⟩ := List.append_of_mem hn
  cases ys with
  | nil =>
    have hbody := List.pairwise_append.mp (List.pairwise_append.mp (List.Pairwise.tail h.sorted)).1
    rcases List.mem_append.mp hk with hk | hk
    · exact absurd hlt fun h => UInt32.lt_irrefl _
        (UInt32.lt_trans (hbody.2.2 k hk n List.mem_cons_self) h)
    · rw [List.mem_singleton.mp hk] at hlt
      exact absurd hlt (UInt32.lt_irrefl n)
  | cons m zs =>
    exact ⟨m, (List.isChain_cons_cons.mp (List.isChain_append.mp h.linked).2.1).1⟩

lemma mem_of_next (h : Layout t ps hd body spare) (hn : IsData ps n) (hm : next? ps n = some m) :
    n ∈ body := by
  rcases h.isData_cases hn with hb | hp
  · exact hb
  · rw [next?, hp, Option.bind_some, Page.next?_empty] at hm
    cases hm

lemma slot_lt (h : Layout t ps hd body spare) (hr : content ps r = some b) : r.slot < 4092 := by
  obtain ⟨p, hp, hw⟩ := h.data _ (h.mem_body_of_content hr)
  rw [h.content_of_entry (h.pos (h.mem_body_of_content hr)) hp r.slot] at hr
  exact hw.lt_slotLimit hr

lemma mono (h : Layout t ps hd body spare) (ht : t → t') : Layout t' ps hd body spare :=
  { h with torn := fun hs => ht (h.torn hs) }

/-- There is one layout of a file. -/
theorem unique {body' : List UInt32} {spare' : Option UInt32} (h : Layout t ps hd body spare)
    (h' : Layout t' ps hd' body' spare') : hd = hd' ∧ body = body' := by
  obtain rfl := Option.some_inj.mp (h.header.symm.trans h'.header)
  have hlen : body.length = body'.length := Nat.succ_inj.mp (h.count.symm.trans h'.count)
  exact ⟨rfl, (List.append_inj (h.chain_eq.symm.trans h'.chain_eq) hlen).1⟩

end Layout
end PagedHeap.Heap
