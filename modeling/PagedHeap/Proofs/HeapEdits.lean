import PagedHeap.Proofs.HeapChain

/-! What the steps of heap files do to the pages of the file: a page is added, a data page is
changed, the header is rewritten, a new page is linked behind the last one and then counted. Each
step keeps the layout and the data pages, and says what becomes of the records. -/
namespace PagedHeap.Heap

variable {t : Prop} {ps qs : List Page} {hd hd' : FileHeader} {body : List UInt32}
  {spare : Option UInt32} {n m : UInt32} {p q : Page} {r : RecordId} {b : Bytes}

/-- Whatever is changed, data pages remain data pages and the body of the chain only gets longer. -/
structure Evolves (ps qs : List Page) : Prop where
  data : ∀ {n}, IsData ps n → IsData qs n
  body : ∀ {t t' hd hd' body body' spare spare'}, Layout t ps hd body spare →
    Layout t' qs hd' body' spare' → body ⊆ body'

lemma Evolves.refl (ps : List Page) : Evolves ps ps :=
  ⟨id, fun h h' => (h.unique h').2 ▸ List.Subset.refl _⟩

lemma Evolves.trans {rs : List Page} (h : Evolves ps qs) (h' : Evolves qs rs)
    (hq : Layout t qs hd body spare) : Evolves ps rs :=
  ⟨fun hn => h'.data (h.data hn), fun hl hl' => List.Subset.trans (h.body hl hq) (h'.body hq hl')⟩

/-- The effect of a step between two layouts of one body or of growing ones. -/
lemma Evolves.of_layout {t t' : Prop} {body' : List UInt32} {spare' : Option UInt32}
    (h : Layout t ps hd body spare) (h' : Layout t' qs hd' body' spare')
    (hdata : ∀ {n}, IsData ps n → IsData qs n) (hsub : body ⊆ body') : Evolves ps qs := by
  refine ⟨hdata, fun hl hl' => ?_⟩
  rw [← (h.unique hl).2, ← (h'.unique hl').2]
  exact hsub

section Grow

/-- A page of zeros at the end of the file is not noticed. -/
theorem Layout.grow (h : Layout t ps hd body spare) :
    Layout t (ps ++ [Page.blank]) hd body spare ∧ Evolves ps (ps ++ [Page.blank]) ∧
      content (ps ++ [Page.blank]) = content ps := by
  have hkeep : ∀ {n p}, page? ps n = some p → page? (ps ++ [Page.blank]) n = some p :=
    fun {n p} hp => by rw [page?_append, if_neg (Nat.ne_of_lt (lt_length hp)), hp]
  have hback : ∀ {n p}, page? (ps ++ [Page.blank]) n = some p →
      p = Page.blank ∨ page? ps n = some p := by
    intro n p hp
    rw [page?_append] at hp
    split at hp
    · exact Or.inl (Option.some_inj.mp hp).symm
    · exact Or.inr hp
  have hnext : ∀ {n}, n ∈ body → next? (ps ++ [Page.blank]) n = next? ps n := by
    intro n hn
    obtain ⟨p, hp, -⟩ := h.data n hn
    rw [next?, next?, hkeep hp, hp]
  have hl : Layout t (ps ++ [Page.blank]) hd body spare := by
    refine ⟨?_, h.first, h.last, h.count, h.sorted, ?_, ?_, fun n hn => ?_, fun {n p} h0 hn hp => ?_,
      fun hs => hkeep (h.hangs hs), h.torn⟩
    · obtain ⟨p, hp, hd'⟩ := Option.bind_eq_some_iff.mp h.header
      rw [header?, hkeep hp]
      exact hd'
    · exact h.linked.imp_of_mem_imp fun a b ha _ hab => (hnext ha).trans hab
    · rw [hnext h.last_mem, h.beyond]
    · obtain ⟨p, hp, hw⟩ := h.data n hn
      exact ⟨p, hkeep hp, hw⟩
    · rcases hback hp with rfl | hp
      · exact Or.inl rfl
      · exact h.loose h0 hn hp
  refine ⟨hl, .of_layout h hl (fun hn => ?_) (List.Subset.refl _), funext fun r => ?_⟩
  · obtain ⟨h0, p, hp, hw⟩ := hn
    exact ⟨h0, p, hkeep hp, hw⟩
  · rw [hl.content_eq, h.content_eq, page?_append]
    split
    · rfl
    · split
      · next hlen =>
        rw [page?, List.getElem?_eq_none (Nat.le_of_eq hlen.symm)]
        exact Page.entry_blank _
      · rfl

end Grow

section Edit

lemma next?_set (hp : page? ps n = some p) (hnext : q.next? = p.next?) (m : UInt32) :
    next? (ps.set n.toNat q) m = next? ps m := by
  rw [next?, next?, page?_set hp]
  split
  · next hm => rw [hm, hp, Option.bind_some, Option.bind_some, hnext]
  · rfl

lemma header?_set_of_ne (hp : page? ps n = some p) (h0 : n ≠ 0) :
    header? (ps.set n.toNat q) = header? ps := by
  rw [header?, header?, page?_set hp, if_neg (Ne.symm h0)]

/-- A data page of the body is replaced by one with the same link. -/
theorem Layout.edit (h : Layout t ps hd body spare) (hn : n ∈ body) (hp : page? ps n = some p)
    (hw : q.Wf n) (hnext : q.next? = p.next?) :
    Layout t (ps.set n.toNat q) hd body spare ∧ Evolves ps (ps.set n.toNat q) ∧
      ∀ r, content (ps.set n.toNat q) r = if r.page = n then q.entry r.slot else content ps r := by
  have hget := page?_set hp q
  have hlinks := next?_set hp hnext
  have h0 := h.pos hn
  have hl : Layout t (ps.set n.toNat q) hd body spare := by
    refine ⟨?_, h.first, h.last, h.count, h.sorted, ?_, ?_, fun m hm => ?_,
      fun {m p'} hm0 hm hp' => ?_, fun {m} hs => ?_, h.torn⟩
    · exact (header?_set_of_ne hp h0).trans h.header
    · exact h.linked.imp fun a b hab => (hlinks a).trans hab
    · rw [hlinks, h.beyond]
    · rw [hget]
      split
      · next he => exact ⟨q, rfl, he ▸ hw⟩
      · exact h.data m hm
    · rw [hget, if_neg fun he : m = n => hm (he ▸ hn)] at hp'
      exact h.loose hm0 hm hp'
    · have hlt := h.sorted.tail
      rw [hs] at hlt
      have hne : m ≠ n := fun he => UInt32.lt_irrefl m
        ((List.pairwise_append.mp hlt).2.2 m (he ▸ hn) m (Option.mem_toList.mpr rfl))
      rw [hget, if_neg hne]
      exact h.hangs hs
  refine ⟨hl, .of_layout h hl (fun {m} hm => ?_) (List.Subset.refl _), fun r => ?_⟩
  · obtain ⟨hm0, p', hp', hw'⟩ := hm
    refine ⟨hm0, ?_⟩
    rw [hget]
    split
    · next he => exact ⟨q, rfl, he ▸ hw⟩
    · exact ⟨p', hp', hw'⟩
  · rw [hl.content_eq, hget]
    by_cases hr : r.page = n
    · rw [if_pos hr, if_neg (hr ▸ h0), if_pos hr, Option.bind_some]
    · rw [if_neg hr, if_neg hr, h.content_eq]

end Edit

section Header

/-- All pages but the header page are the same. -/
def SameData (ps qs : List Page) : Prop := ∀ n, n ≠ 0 → page? qs n = page? ps n

lemma sameData_set (hp : page? ps 0 = some p) (q : Page) :
    SameData ps (ps.set 0 q) := fun n hn => by
  have := page?_set hp q n
  rwa [if_neg hn] at this

lemma header?_set (hp : page? ps 0 = some p) (q : Page) :
    header? (ps.set 0 q) = FileHeader.ofPage q := by
  have := page?_set hp q 0
  rw [header?, show page? (ps.set 0 q) 0 = some q from this.trans (if_pos rfl), Option.bind_some]

lemma SameData.evolves {t t' : Prop} {body' : List UInt32} {spare' : Option UInt32}
    (hs : SameData ps qs) (h : Layout t ps hd body spare) (h' : Layout t' qs hd' body' spare')
    (hsub : body ⊆ body') : Evolves ps qs ∧ content qs = content ps := by
  refine ⟨.of_layout h h' (fun {n} hn => ?_) hsub, funext fun r => ?_⟩
  · obtain ⟨h0, p, hp, hw⟩ := hn
    exact ⟨h0, p, (hs n h0).trans hp, hw⟩
  · rw [h'.content_eq, h.content_eq]
    split
    · rfl
    · next h0 => rw [hs _ h0]

/-- The header counts other records. -/
theorem Layout.recount (h : Layout t ps hd body spare) (hs : SameData ps qs)
    (hq : header? qs = some hd') (hfirst : hd'.first = hd.first) (hlast : hd'.last = hd.last)
    (hpages : hd'.pages = hd.pages) : Layout t qs hd' body spare := by
  have hlinks : ∀ {m}, m ∈ body → next? qs m = next? ps m := fun {m} hm => by
    rw [next?, next?, hs m (h.pos hm)]
  refine ⟨hq, hfirst ▸ h.first, hlast ▸ h.last, hpages ▸ h.count, h.sorted, ?_, ?_, fun m hm => ?_,
    fun {m p} h0 hm hp => h.loose h0 hm ((hs m h0).symm.trans hp), fun {m} hsp => ?_, h.torn⟩
  · exact h.linked.imp_of_mem_imp fun a b ha _ hab => (hlinks ha).trans hab
  · rw [hlast, hlinks h.last_mem, h.beyond]
  · rw [hs m (h.pos hm)]
    exact h.data m hm
  · have hpos : m ≠ 0 := by
      have := List.rel_of_pairwise_cons h.sorted (List.mem_append_right _ (Option.mem_toList.mpr hsp))
      rintro rfl
      exact UInt32.lt_irrefl _ this
    rw [hs m hpos]
    exact h.hangs hsp

/-- The header counts the page that hangs behind the last one, which is the last one then. -/
theorem Layout.adopt (h : Layout t ps hd body (some n)) (hs : SameData ps qs)
    (hq : header? qs = some hd') (hfirst : hd'.first = hd.first) (hlast : hd'.last = n)
    (hpages : hd'.pages.toNat = hd.pages.toNat + 1) (t' : Prop) :
    Layout t' qs hd' (body ++ [n]) none := by
  have hchain : ∀ m ∈ body ++ [n], m ≠ 0 := fun m hm => by
    have := List.rel_of_pairwise_cons h.sorted (show m ∈ body ++ (some n).toList from hm)
    rintro rfl
    exact UInt32.lt_irrefl _ this
  have hmem : n ∈ body ++ [n] := List.mem_append_right _ List.mem_cons_self
  have hlinks : ∀ {m}, m ∈ body ++ [n] → next? qs m = next? ps m := fun {m} hm => by
    rw [next?, next?, hs m (hchain m hm)]
  have hpage := h.hangs rfl
  refine ⟨hq, ?_, ?_, ?_, ?_, ?_, ?_, fun m hm => ?_, fun {m p} h0 hm hp => ?_,
    fun hsp => (by cases hsp), fun hsp => absurd rfl hsp⟩
  · rw [List.head?_append, h.first, hfirst]
    rfl
  · rw [List.getLast?_append, List.getLast?_singleton, hlast]
    rfl
  · rw [hpages, h.count, List.length_append, List.length_singleton]
  · rw [Option.toList_none, List.append_nil]
    exact h.sorted
  · refine List.isChain_append.mpr ⟨?_, .singleton _, fun a ha m hm => ?_⟩
    · exact h.linked.imp_of_mem_imp fun a b ha _ hab =>
        (hlinks (List.mem_append_left _ ha)).trans hab
    · rw [h.last] at ha
      cases ha
      cases hm
      rw [hlinks (List.mem_append_left _ h.last_mem), h.beyond]
  · rw [hlast, hlinks hmem, next?, hpage, Option.bind_some, Page.next?_empty]
  · rw [hs m (hchain m hm)]
    rcases List.mem_append.mp hm with hm | hm
    · exact h.data m hm
    · obtain rfl := List.mem_singleton.mp hm
      exact ⟨_, hpage, Page.wf_empty m⟩
  · exact h.loose h0 (fun hm' => hm (List.mem_append_left _ hm')) ((hs m h0).symm.trans hp)

end Header

section Link

/-- A page that was added and not set up yet comes behind all others. -/
lemma Layout.lt_added (h : Layout t ps hd body spare) (hn : n.toNat + 1 = ps.length)
    (hblank : page? ps n = some Page.blank) {m : UInt32} (hm : m ∈ body) : m < n := by
  obtain ⟨p', hp', hw'⟩ := h.data m hm
  refine UInt32.lt_iff_toNat_lt.mpr (Nat.lt_of_le_of_ne ?_ fun he => ?_)
  · have := lt_length hp'
    omega
  · obtain rfl := UInt32.toNat_inj.mp he
    cases hblank.symm.trans hp'
    exact not_wf_blank hw'

lemma Layout.sorted_added (h : Layout t ps hd body spare) (hlt : ∀ m ∈ body, m < n) :
    (0 :: (body ++ (some n).toList)).Pairwise (· < ·) := by
  have hsorted := List.pairwise_cons.mp h.sorted
  refine List.pairwise_cons.mpr ⟨fun m hm => ?_, List.pairwise_append.mpr
    ⟨(List.pairwise_append.mp hsorted.2).1, List.pairwise_singleton .., fun a ha c hc => ?_⟩⟩
  · rcases List.mem_append.mp hm with hm | hm
    · exact hsorted.1 m (List.mem_append_left _ hm)
    · obtain rfl := List.mem_singleton.mp hm
      have hlast := hsorted.1 _ (List.mem_append_left _ h.last_mem)
      exact UInt32.lt_of_lt_of_le hlast (UInt32.le_of_lt (hlt _ h.last_mem))
  · obtain rfl := List.mem_singleton.mp hc
    exact hlt a ha

lemma Layout.wf_last (h : Layout t ps hd body spare) (hlast : page? ps hd.last = some p) :
    p.Wf hd.last := by
  obtain ⟨p', hp', hw'⟩ := h.data _ h.last_mem
  cases hlast.symm.trans hp'
  exact hw'

variable (h : Layout t ps hd body spare) (hn : n.toNat + 1 = ps.length) (hne : n ≠ noPage)
  (hblank : page? ps n = some Page.blank) (hlast : page? ps hd.last = some p)
  (hget : ∀ m, page? qs m = if m = hd.last then some (p.setNext (some n))
    else if m = n then some (Page.empty n) else page? ps m)
include h hn hne hblank hlast hget

/-- A page that was just added is set up as a data page and linked behind the last page, in place of
one that may hang there. -/
lemma Layout.layout_link : Layout True qs hd body (some n) := by
  have hlt : ∀ m ∈ body, m < n := fun m hm => h.lt_added hn hblank hm
  have hout : n ∉ body := fun hm => UInt32.lt_irrefl _ (hlt n hm)
  have hn0 : n ≠ 0 := by
    rintro rfl
    exact UInt32.not_lt_zero (hlt _ h.last_mem)
  have hbody : ∀ {m}, m ∈ body → m ≠ hd.last → page? qs m = page? ps m := by
    intro m hm hml
    rw [hget, if_neg hml, if_neg]
    rintro rfl
    exact hout hm
  refine ⟨?_, h.first, h.last, h.count, h.sorted_added hlt, ?_, ?_, fun m hm => ?_,
    fun {m p'} h0 hm hp' => ?_, fun {m} hsp => ?_, fun _ => trivial⟩
  · rw [header?, hget, if_neg (Ne.symm (h.pos h.last_mem)), if_neg (Ne.symm hn0)]
    exact h.header
  · refine h.linked.imp_of_mem_imp fun a c ha hc hac => ?_
    by_cases hal : a = hd.last
    · have hsorted := (List.pairwise_cons.mp h.sorted).2
      rw [hal, h.beyond] at hac
      have hclt := (List.pairwise_append.mp hsorted).2.2 c hc c (Option.mem_toList.mpr hac)
      exact absurd hclt (UInt32.lt_irrefl c)
    · rw [next?, hbody ha hal]
      exact hac
  · rw [next?, hget, if_pos rfl, Option.bind_some, Page.next?_setNext]
    exact fun he => hne (Option.some_inj.mp he)
  · by_cases hml : m = hd.last
    · rw [hget, if_pos hml]
      exact ⟨_, rfl, hml ▸ (h.wf_last hlast).setNext _⟩
    · rw [hbody hm hml]
      exact h.data m hm
  · rw [hget, if_neg fun he : m = hd.last => hm (he ▸ h.last_mem)] at hp'
    split at hp'
    · next he => exact Or.inr (by rw [he]; exact (Option.some_inj.mp hp').symm)
    · exact h.loose h0 hm hp'
  · obtain rfl := Option.some_inj.mp hsp
    rw [hget, if_neg fun he : n = hd.last => hout (he ▸ h.last_mem), if_pos rfl]

/-- That changes no record. -/
theorem Layout.link : Layout True qs hd body (some n) ∧ Evolves ps qs ∧ content qs = content ps := by
  have hl := h.layout_link hn hne hblank hlast hget
  have hlastw := h.wf_last hlast
  refine ⟨hl, .of_layout h hl (fun {m} hm => ?_) (List.Subset.refl _), funext fun r => ?_⟩
  · obtain ⟨hm0, p', hp', hw'⟩ := hm
    refine ⟨hm0, ?_⟩
    rw [hget]
    split
    · next he => exact ⟨_, rfl, he ▸ hlastw.setNext _⟩
    · split
      · next he => exact ⟨_, rfl, he ▸ Page.wf_empty _⟩
      · exact ⟨p', hp', hw'⟩
  · rw [hl.content_eq, h.content_eq, hget]
    split
    · rfl
    · split
      · next hr => rw [hr, hlast, Option.bind_some, Option.bind_some, hlastw.entry_setNext]
      · split
        · next hr =>
          rw [hr, hblank, Option.bind_some, Option.bind_some, Page.entry_blank, Page.entry_empty]
        · rfl

end Link

section Format

lemma layout_single (hps : header? ps = some hd) (hfirst : hd.first = 1) (hlast : hd.last = 1)
    (hpages : hd.pages = 2) (hone : page? ps 1 = some p) (hp : p.Wf 1) (hnext : p.next? = none)
    (hlen : ps.length = 2) : Layout t ps hd [1] none := by
  refine ⟨hps, by rw [hfirst]; rfl, by rw [hlast]; rfl, by rw [hpages]; rfl, by simp, .singleton _,
    ?_, fun m hm => ?_, fun {m q} h0 hm hq => ?_, fun hsp => (nomatch hsp),
    fun hsp => absurd rfl hsp⟩
  · rw [hlast, next?, hone, Option.bind_some, hnext]
  · obtain rfl := List.mem_singleton.mp hm
    exact ⟨_, hone, hp⟩
  · have hlt := lt_length hq
    have h1 : m.toNat ≠ 1 := fun he =>
      hm (List.mem_singleton.mpr (UInt32.toNat_inj.mp (he.trans (by rfl))))
    have h0' : m.toNat ≠ 0 := fun he => h0 (UInt32.toNat_inj.mp (he.trans (by rfl)))
    omega

theorem layout_new (hps : header? ps = some hd) (hfirst : hd.first = 1) (hlast : hd.last = 1)
    (hpages : hd.pages = 2) (hone : page? ps 1 = some (Page.empty 1)) (hlen : ps.length = 2) :
    Layout t ps hd [1] none ∧ content ps = fun _ => none := by
  have hl : Layout t ps hd [1] none :=
    layout_single hps hfirst hlast hpages hone (Page.wf_empty 1) (Page.next?_empty 1) hlen
  refine ⟨hl, funext fun r => ?_⟩
  cases hr : content ps r with
  | none => rfl
  | some b =>
    obtain hmem := List.mem_singleton.mp (hl.mem_body_of_content hr)
    rw [hl.content_eq, hmem, hone, Option.bind_some, Page.entry_empty] at hr
    split at hr <;> cases hr

end Format
end PagedHeap.Heap
