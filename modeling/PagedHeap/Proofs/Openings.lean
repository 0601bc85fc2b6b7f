import PagedHeap.Proofs.Holding.Open
import PagedHeap.Proofs.Insertions

/-! Opening and creating heap files, as it is seen in the files that the store shows: only a file
with a header can be opened, and then it is a heap file; and a new file has no records, however far
its creation got. -/
namespace PagedHeap

open Function (update)

namespace Heap
variable {t t' : Prop} {ps : List Page}

/-- A file that was created: it was set up as a heap file, or has only pages of zeros. -/
def Formed (t : Prop) (ps : List Page) : Prop :=
  (∀ p ∈ ps, p = Page.blank) ∨ ∃ hd body spare, Layout t ps hd body spare

lemma Formed.mono (h : Formed t ps) (ht : t → t') : Formed t' ps :=
  h.imp_right fun ⟨hd, body, spare, hl⟩ => ⟨hd, body, spare, hl.mono ht⟩

lemma header?_blank (h : ∀ p ∈ ps, p = Page.blank) : header? ps = none := by
  unfold header?
  cases hp : page? ps 0 with
  | none => rfl
  | some p =>
    rw [h p (List.mem_of_getElem? hp)]
    exact FileHeader.ofPage_blank

lemma Formed.layout {hd : FileHeader} (h : Formed t ps) (hh : header? ps = some hd) :
    ∃ body spare, Layout t ps hd body spare := by
  rcases h with hb | ⟨hd', body, spare, hl⟩
  · rw [header?_blank hb] at hh
    cases hh
  · cases hh.symm.trans hl.header
    exact ⟨body, spare, hl⟩

lemma chain_blank (h : ∀ p ∈ ps, p = Page.blank) : chain ps = [] := by
  unfold chain
  rw [header?_blank h]
  cases ps.length <;> rfl

lemma content_of_chain (h : chain ps = []) : content ps = fun _ => none := by
  funext r
  unfold content
  rw [h, if_neg List.not_mem_nil]

end Heap

namespace Shown
variable {own : String → Prop} {F : String → Option (List Page)} {t : Prop}
  {opens : List (UInt32 × String)} {holds : List Hold} {s s' : Store} {file : UInt32}
  {name : String} {ps : List Page}

open Heap (page? header? Layout Formed content)

lemma exists_pages (hs : Shown own F t opens holds s) (ho : (file, name) ∈ opens) :
    ∃ ps, F name = some ps := by
  obtain ⟨hn, -, g, hopen, rfl⟩ := hs.sound.opened ho
  rw [← hs.shows hn, Cache.pages_eq, (hs.sound.orderly.opened hopen).1]
  exact ⟨_, rfl⟩

/-- A file is open only if it is a heap file, and its first data page is the current one. -/
theorem openHeap (hF : ∀ name ps, own name → F name = some ps → Formed t ps) (hn : own name)
    (hs : Shown own F t opens holds s) {f : HeapFile} (hf : Store.openHeap name s = (.ok f, s')) :
    f.name = name ∧ f.cursor = none ∧ ∃ ps hd body spare, F name = some ps ∧
      Layout t ps hd body spare ∧ f.currentPage = some hd.first := by
  rw [Store.openHeap_apply] at hf
  have hopened := openFile hn s hs
  rcases ho : Store.openFile name s with ⟨e | file, s₁⟩ <;> rw [ho] at hf hopened
  · cases hf
  obtain ⟨ps, hps⟩ := hopened.exists_pages List.mem_cons_self
  dsimp only at hf hopened
  rw [Store.pinFirst_apply] at hf
  cases hfirst : s₁.cache.disk.firstPage file with
  | error e =>
    rw [hfirst] at hf
    cases hf
  | ok n =>
    rw [hfirst] at hf
    cases Store.firstPage_eq_zero hfirst
    have hread := hopened.readPage ⟨file, 0⟩
    dsimp only at hf
    rcases hr : Store.readPage ⟨file, 0⟩ s₁ with ⟨e | i, s₂⟩ <;> rw [hr] at hf hread
    · cases hf
    have hpage : page? ps 0 = some (s₂.contents i) :=
      hread.sound.contents List.mem_cons_self List.mem_cons_self ((hread.shows hn).trans hps)
    dsimp only at hf
    cases hd : FileHeader.ofPage (s₂.contents i) with
    | none =>
      rw [hd] at hf
      cases hf
    | some hd' =>
      rw [hd] at hf
      dsimp only at hf
      have hh : header? ps = some hd' := by rw [header?, hpage, Option.bind_some, hd]
      obtain ⟨body, spare, hl⟩ := (hF name ps hn hps).layout hh
      rcases hr' : Store.readPage ⟨file, hd'.first⟩ s₂ with ⟨e | j, s₃⟩ <;> rw [hr'] at hf
      · cases hf
      · cases hf
        exact ⟨rfl, rfl, ps, hd', body, spare, hps, hl, rfl⟩

lemma openHeap_on (hn : own name) (hs : Shown own F t opens holds s) {f : HeapFile}
    (hf : Store.openHeap name s = (.ok f, s')) (hps : F name = some ps) :
    (Site.mk own F ((f.id, name) :: opens) holds f.id name List.mem_cons_self).On t ps f s' := by
  have hkept := admits hn opens holds s hs
  rw [hf] at hkept
  have hsame : update F name (some ps) = F := update_same hps
  show Kept (Shown own (update F name (some ps)) t ((f.id, name) :: opens)) holds f.id name f s'
  rw [hsame]
  exact hkept

/-- A file that is open for insertion has its last data page as the current one. -/
theorem openInsertion (hF : ∀ name ps, own name → F name = some ps → Formed t ps) (hn : own name)
    (hs : Shown own F t opens holds s) {f : HeapFile}
    (hf : Store.openInsertion name s = (.ok f, s')) :
    f.name = name ∧ ∃ ps hd body spare, F name = some ps ∧ Layout t ps hd body spare ∧
      f.currentPage = some hd.last := by
  rw [Store.openInsertion_apply] at hf
  rcases ho : Store.openHeap name s with ⟨e | g, s₁⟩ <;> rw [ho] at hf
  · cases hf
  obtain ⟨hname, -, ps, hd, body, spare, hps, hl, -⟩ := openHeap hF hn hs ho
  have hon := hs.openHeap_on hn ho hps
  obtain ⟨hon', hcases, -⟩ := HeapFile.seekLast_on hon hl.header
  dsimp only at hf
  rcases hseek : HeapFile.seekLast g s₁ with ⟨⟨e | _, g'⟩, s₂⟩ <;> rw [hseek] at hf hon' hcases
  · cases hf
  · cases hf
    obtain ⟨-, hcur⟩ | ⟨⟨e, he⟩, -⟩ := hcases
    · exact ⟨hon'.name_eq, ps, hd, body, spare, hps, hl, hcur⟩
    · cases he

section Create

lemma unpinBoth {data header : Hold} (hs : Shown own F t opens (data :: header :: holds) s) :
    Shown own F t opens holds (Store.settle [Store.giveBack data, Store.giveBack header] s).2 :=
  (hs.unpinPage : Shown own F t opens (header :: holds) (Store.giveBack data s).2).unpinPage

def newPages (name : String) : List Page :=
  [(FileHeader.new name 1).toPage Page.blank, Page.empty 1]

lemma header?_cons (p : Page) (ps : List Page) : header? (p :: ps) = FileHeader.ofPage p := rfl

lemma page?_one (p q : Page) (ps : List Page) : page? (p :: q :: ps) 1 = some q := rfl

lemma layout_newPages (t : Prop) (name : String) : ∃ hd, Layout t (newPages name) hd [1] none ∧
    content (newPages name) = (fun _ => none) ∧ Heap.count (newPages name) = 0 := by
  have hh : header? (newPages name) = some (FileHeader.new name 1).kept :=
    (header?_cons _ _).trans (FileHeader.ofPage_toPage ..)
  obtain ⟨hl, hcontent⟩ := Heap.layout_new (t := t) hh rfl rfl rfl (page?_one ..) rfl
  exact ⟨_, hl, hcontent, (Heap.count_eq hh).trans rfl⟩

lemma new_of_allocPage {qs : List Page} (hps : ∀ p ∈ ps, p = Page.blank)
    (hqs : qs = ps ∨ qs = ps ++ [Page.blank] ∧ ps.length + 1 < UInt32.size) :
    ∀ p ∈ qs, p = Page.blank := by
  rcases hqs with rfl | ⟨rfl, -⟩
  · exact hps
  · intro p hp
    rcases List.mem_append.mp hp with hp | hp
    · exact hps p hp
    · exact List.mem_singleton.mp hp

/-- An empty file that is open is set up, unless it gets no pages. -/
theorem formatHeap (hn : own name) (ho : (file, name) ∈ opens)
    (hs : Shown own (update F name (some [])) t opens holds s) :
    ∃ ps, Shown own (update F name (some ps)) t opens holds (Store.formatHeap file name () s).2 ∧
      ((∃ e, (Store.formatHeap file name () s).1.1 = .error e) ∧ (∀ p ∈ ps, p = Page.blank) ∨
        ps = newPages name) := by
  rw [Store.formatHeap_apply]
  have hfirst := hs.allocPage ho (Function.update_self ..)
  rcases ha : Store.allocPage file s with ⟨e | ⟨header, i⟩, s₁⟩ <;> rw [ha] at hfirst
  · obtain ⟨qs, hqs, hs₁⟩ := hfirst
    rw [Function.update_idem] at hs₁
    exact ⟨qs, hs₁, Or.inl ⟨⟨e, rfl⟩, new_of_allocPage (by simp) hqs⟩⟩
  obtain ⟨hzero, -, hs₁⟩ := hfirst
  rw [Function.update_idem] at hs₁
  have hsecond := hs₁.allocPage ho (Function.update_self ..)
  dsimp only
  rcases ha' : Store.allocPage file s₁ with ⟨e | ⟨data, j⟩, s₂⟩ <;> rw [ha'] at hsecond
  · obtain ⟨qs, hqs, hs₂⟩ := hsecond
    rw [Function.update_idem] at hs₂
    exact ⟨qs, hs₂.unpinPage, Or.inl ⟨⟨e, rfl⟩, new_of_allocPage (by simp) hqs⟩⟩
  obtain ⟨hone, -, hs₂⟩ := hsecond
  rw [Function.update_idem] at hs₂
  obtain rfl : header = 0 := UInt32.toNat_inj.mp hzero
  obtain rfl : data = 1 := UInt32.toNat_inj.mp hone
  have hs₃ := hs₂.overwrite ho (Function.update_self ..) (Page.empty 1)
  rw [Function.update_idem] at hs₃
  have hswap := (lasting _ _ _ _ file).perm (List.Perm.swap ..) hs₃
  have hblank : (s₂.overwrite j (Page.empty 1)).contents i = Page.blank :=
    (Option.some_inj.mp (hswap.sound.contents List.mem_cons_self ho
      ((hswap.shows hn).trans (Function.update_self ..)))).symm
  have hs₄ := hswap.overwrite ho (Function.update_self ..)
    ((FileHeader.new name 1).toPage ((s₂.overwrite j (Page.empty 1)).contents i))
  rw [Function.update_idem, hblank] at hs₄
  have hback := ((lasting _ _ _ _ file).perm (List.Perm.swap ..) hs₄).unpinBoth
  refine ⟨_, ?_, Or.inr rfl⟩
  unfold Store.formatted
  dsimp only
  rw [hblank]
  exact hback

/-- A file is created that was not there, and it has no records; or nothing is created. -/
theorem createHeap (hn : own name) (hs : Shown own F t opens holds s) :
    (Shown own F t opens holds (Store.createHeap name s).2 ∧
      ∃ e, (Store.createHeap name s).1 = .error e) ∨
    F name = none ∧ ∃ ps, Shown own (update F name (some ps)) t opens holds
        (Store.createHeap name s).2 ∧
      ((∃ e, (Store.createHeap name s).1 = .error e) ∧ (∀ p ∈ ps, p = Page.blank) ∨
        ps = newPages name) := by
  rw [Store.createHeap_apply]
  have hcreate := createFile hn hs
  rcases hc : Store.createFile name s with ⟨e | _, s₁⟩ <;> rw [hc] at hcreate
  · exact Or.inl ⟨hcreate, e, rfl⟩
  obtain ⟨hnone, hs₁⟩ := hcreate
  refine Or.inr ⟨hnone, ?_⟩
  have hopen := openFile hn s₁ hs₁
  dsimp only
  rcases ho : Store.openFile name s₁ with ⟨e | file, s₂⟩ <;> rw [ho] at hopen
  · exact ⟨[], hopen, Or.inl ⟨⟨e, rfl⟩, by simp⟩⟩
  obtain ⟨ps, hs₃, hps⟩ := formatHeap hn List.mem_cons_self hopen
  have hfill : Shown own (update F name (some ps)) t ((file, name) :: opens) holds
      (Store.fill file name s₂).2 ∧ ((∃ e, (Store.fill file name s₂).1 = .error e) ∧
        (∀ p ∈ ps, p = Page.blank) ∨ ps = newPages name) := by
    unfold Store.fill
    rcases hf : Store.formatHeap file name () s₂ with ⟨⟨e | _, _⟩, s₃⟩ <;> rw [hf] at hs₃ hps
    · exact ⟨hs₃, hps.imp_left fun h => ⟨⟨e, rfl⟩, h.2⟩⟩
    · refine ⟨hs₃.flushFile file, Or.inr ?_⟩
      obtain ⟨⟨e, he⟩, -⟩ | hps := hps
      · cases he
      · exact hps
  refine ⟨ps, closeFile opens holds file name _ hfill.1,
    hfill.2.imp_left fun ⟨⟨e, he⟩, hb⟩ => ⟨?_, hb⟩⟩
  refine ⟨e, ?_⟩
  unfold Store.settle
  dsimp only
  rw [he]
  rfl

end Create
end Shown
end PagedHeap
