import Mathlib.Logic.Relation
import PagedHeap.Proofs.Granted
import PagedHeap.Proofs.Removal
import PagedHeap.Proofs.ScanProgress

/-! Searches come to an end. A search has no counter of its own: it looks at one slot after another
and follows the links between the pages for as long as it finds nothing to show. But the slots ahead
of it on its page get fewer, and when it turns to the next page the pages ahead of it do. -/
namespace PagedHeap

namespace Heap
variable {t : Prop} {ps : List Page} {hd : FileHeader} {body : List UInt32} {spare : Option UInt32}
  {n m : UInt32} {k k' : Nat}

/-- A page and those behind it along the links. -/
def trail (ps : List Page) (n : UInt32) : List UInt32 := follow ps ps.length (some n)

def slots (ps : List Page) (n : UInt32) : Nat := ((page? ps n).map Page.slotCount).getD 0

/-- The links from a page on, each to a page of a higher number, and none behind the last page. -/
structure IsTrail (ps : List Page) (n : UInt32) (ns : List UInt32) : Prop where
  head : ns.head? = some n
  linked : ns.IsChain fun a b => next? ps a = some b ∧ a < b
  ends : ∀ m, ns.getLast? = some m → next? ps m = none

namespace IsData

lemma lt_length (hn : IsData ps n) : n.toNat < ps.length := by
  obtain ⟨-, p, hp, -⟩ := hn
  exact Heap.lt_length hp

lemma slots_le (hn : IsData ps n) : slots ps n ≤ 4092 := by
  obtain ⟨-, p, hp, hw⟩ := hn
  rw [slots, hp]
  exact hw.count

end IsData

namespace Layout

lemma isData_next (h : Layout t ps hd body spare) (hn : IsData ps n) (hm : next? ps n = some m) :
    IsData ps m ∧ n < m := by
  obtain ⟨hlt, hmem, -⟩ := h.next_spec (h.mem_of_next hn hm) hm
  exact ⟨hmem.elim h.isData h.isData_spare, hlt⟩

/-- What holds of the pages where the links end, and of each page if it does of the next one, holds
of all data pages. -/
theorem trail_induction {motive : UInt32 → Prop} (h : Layout t ps hd body spare)
    (last : ∀ n, IsData ps n → next? ps n = none → motive n)
    (onward : ∀ n m, IsData ps n → IsData ps m → n < m → next? ps n = some m → motive m → motive n)
    (hn : IsData ps n) : motive n := by
  -- The numbers ascend along the links, and all are below the number of pages.
  induction hk : ps.length - n.toNat using Nat.strong_induction_on generalizing n with
  | _ k ih =>
    cases hm : next? ps n with
    | none => exact last n hn hm
    | some m =>
      obtain ⟨hdata, hlt⟩ := h.isData_next hn hm
      have hlen := hdata.lt_length
      have hlt' := UInt32.lt_iff_toNat_lt.mp hlt
      exact onward n m hn hdata hlt hm (ih _ (by omega) hdata rfl)

/-- The walk along the links is over before it comes to the number of pages. -/
lemma follow_congr (h : Layout t ps hd body spare) (hn : IsData ps n)
    (hk : ps.length - n.toNat ≤ k) (hk' : ps.length - n.toNat ≤ k') :
    follow ps k (some n) = follow ps k' (some n) := by
  have hlen := hn.lt_length
  induction k generalizing n k' with
  | zero => omega
  | succ k ih =>
    obtain ⟨k', rfl⟩ : ∃ j, k' = j + 1 := ⟨k' - 1, by omega⟩
    rw [follow, follow]
    refine congrArg _ ?_
    cases hm : next? ps n with
    | none => cases k <;> cases k' <;> rfl
    | some m =>
      obtain ⟨hdata, hlt⟩ := h.isData_next hn hm
      have hlt' := UInt32.lt_iff_toNat_lt.mp hlt
      exact ih hdata (by omega) (by omega) hdata.lt_length

lemma trail_last (hn : IsData ps n) (hm : next? ps n = none) : trail ps n = [n] := by
  obtain ⟨k, hk⟩ := Nat.exists_eq_succ_of_ne_zero (Nat.ne_zero_of_lt hn.lt_length)
  rw [trail, hk, follow, hm]
  cases k <;> rfl

lemma trail_next (h : Layout t ps hd body spare) (hn : IsData ps n) (hm : next? ps n = some m) :
    trail ps n = n :: trail ps m := by
  obtain ⟨hdata, hlt⟩ := h.isData_next hn hm
  have hlt' := UInt32.lt_iff_toNat_lt.mp hlt
  obtain ⟨k, hk⟩ := Nat.exists_eq_succ_of_ne_zero (Nat.ne_zero_of_lt hn.lt_length)
  have hsame : follow ps k (some m) = follow ps ps.length (some m) :=
    h.follow_congr hdata (by omega) (Nat.sub_le ..)
  rw [trail, trail, ← hsame, hk, follow, hm]

/-- The walk from a data page ends where the links do. -/
theorem isTrail (h : Layout t ps hd body spare) (hn : IsData ps n) :
    IsTrail ps n (trail ps n) := by
  refine h.trail_induction (motive := fun n => IsTrail ps n (trail ps n)) (fun n hn hm => ?last)
    (fun n m hn _ hlt hm ih => ?onward) hn
  case last =>
    rw [trail_last hn hm]
    refine ⟨rfl, List.isChain_singleton n, fun m hlast => ?_⟩
    cases hlast
    exact hm
  case onward =>
    rw [h.trail_next hn hm]
    obtain ⟨rest, hrest⟩ := List.head?_eq_some_iff.mp ih.head
    rw [hrest] at ih ⊢
    exact ⟨rfl, List.isChain_cons_cons.mpr ⟨⟨hm, hlt⟩, ih.linked⟩, ih.ends⟩

lemma trail_eq_cons (h : Layout t ps hd body spare) (hn : IsData ps n) :
    trail ps n = n :: (trail ps n).tail :=
  List.eq_cons_of_mem_head? (h.isTrail hn).head

end Layout
end Heap

namespace Scan
open HandleM HeapFile Heap

/-- A search goes on after a step. -/
def GoesOn (a b : Scan × Store) : Prop := step a.1 a.2 = ((.ok .onward, b.1), b.2)

/-- The search that only stops at what it finds, at the end or at a failure: it takes so many steps
and comes to this. -/
inductive Rounds : Scan × Store → Nat → (Except StoreError (Option RecordId) × Scan) × Store → Prop
  | ends {a scan' s' found} (h : step a.1 a.2 = ((.ok (.done found), scan'), s')) :
      Rounds a 1 ((.ok found, scan'), s')
  | fails {a scan' s' e} (h : step a.1 a.2 = ((.error e, scan'), s')) :
      Rounds a 1 ((.error e, scan'), s')
  | onward {a b k r} (h : GoesOn a b) (rest : Rounds b k r) : Rounds a (k + 1) r

/-- Where a search that goes on has got to: to a later slot of its page, or before the first slot of
the next page. -/
inductive Advance (ps : List Page) (scan scan' : Scan) : Prop
  | slot {n} (here : scan.file.currentPage = some n) (same : scan'.file.currentPage = some n)
      (less : scan.nextSlot < scan'.nextSlot) (within : scan'.nextSlot ≤ slots ps n)
  | page {n m} (here : scan.file.currentPage = some n) (there : scan'.file.currentPage = some m)
      (link : next? ps n = some m) (start : scan'.nextSlot = 0)

variable {c : Site} {t : Prop} {ps : List Page} {hd : FileHeader} {scan scan' : Scan}
  {s : Store} {body : List UInt32} {spare : Option UInt32} {n m : UInt32} {k : Nat}
  {a b : Scan × Store} {r : (Except StoreError (Option RecordId) × Scan) × Store}

section Rounds

/-- With enough steps the search with a bound is the search without one. -/
theorem Rounds.steps_eq (h : Rounds a k r) {fuel : Nat} (hk : k ≤ fuel) :
    steps fuel a.1 a.2 = r := by
  induction h generalizing fuel with
  | ends h =>
    obtain ⟨fuel, rfl⟩ : ∃ j, fuel = j + 1 := ⟨fuel - 1, by omega⟩
    rw [steps, HandleM.bind_apply, h]
    rfl
  | fails h =>
    obtain ⟨fuel, rfl⟩ : ∃ j, fuel = j + 1 := ⟨fuel - 1, by omega⟩
    rw [steps, HandleM.bind_apply, h]
  | onward h _ ih =>
    obtain ⟨fuel, rfl⟩ : ∃ j, fuel = j + 1 := ⟨fuel - 1, by omega⟩
    rw [steps, HandleM.bind_apply, h]
    exact ih (by omega)

end Rounds

section Progress

/-- A search that goes on gets on, and stays on the pages of the file. -/
theorem GoesOn.advance (hl : Layout t ps hd body spare) (h : c.On t ps a.1.file a.2)
    (hf : Site.OnDataPage ps a.1.file) (hgo : GoesOn a b) :
    c.On t ps b.1.file b.2 ∧ Site.OnDataPage ps b.1.file ∧ Advance ps a.1 b.1 := by
  obtain ⟨scan, s⟩ := a
  obtain ⟨scan', s'⟩ := b
  change step scan s = ((.ok .onward, scan'), s') at hgo
  have hkeep := step_keeps (c.lasting t ps) scan s h
  rw [hgo] at hkeep
  refine ⟨hkeep, ?_⟩
  cases hc : scan.file.current with
  | none =>
    rw [step_none hc] at hgo
    split at hgo <;> cases hgo
  | some p =>
    have hpage : scan.file.currentPage = some p.number := by
      rw [currentPage, hc]
      rfl
    have hdata := hf p.number hpage
    rcases step_on hl hf h hc with ⟨slot, r, hr, hle, -, hstep⟩ | ⟨-, hstep⟩
    · have hend := hstep.symm.trans hgo
      obtain rfl : scan.passed ⟨p.number, slot⟩ = scan' := congrArg (·.1.2) hend
      obtain ⟨h0, q, hq, -⟩ := hdata
      have hslot : slot < slots ps p.number := by
        rw [hl.content_of_entry h0 hq] at hr
        rw [slots, hq]
        exact entry_lt hr
      exact ⟨hf, .slot hpage hpage (Nat.lt_succ_of_le hle) hslot⟩
    · rw [hstep] at hgo
      obtain ⟨res, scan₁, s₁, heq, hcases⟩ := leave_cases hc (Heap.next? ps p.number) s
      have hend := heq.symm.trans hgo
      obtain rfl : scan₁ = scan' := congrArg (·.1.2) hend
      obtain rfl : res = .ok .onward := congrArg (·.1.1) hend
      rcases hcases with ⟨e, he, -⟩ | ⟨-, ⟨-, he, -⟩ | ⟨m, i, hm, -, rfl⟩⟩
      · cases he
      · cases he
      · refine ⟨fun n hn => ?_, .page hpage rfl hm rfl⟩
        cases hn
        exact (hl.isData_next hdata hm).1

/-- The pages ahead of a scan behind its own, and the slots ahead of it on its own page. -/
def left (ps : List Page) (scan : Scan) : Nat × Nat :=
  match scan.file.currentPage with
  | none => (0, 0)
  | some n => ((trail ps n).tail.length, slots ps n - scan.nextSlot)

lemma left_eq (hn : scan.file.currentPage = some n) :
    left ps scan = ((trail ps n).tail.length, slots ps n - scan.nextSlot) := by
  rw [left, hn]

/-- A search that gets on has fewer pages ahead, or as many and fewer slots. -/
theorem Advance.left_lt (hl : Layout t ps hd body spare) (hf : Site.OnDataPage ps scan.file)
    (h : Advance ps scan scan') :
    Prod.Lex (· < ·) (· < ·) (left ps scan') (left ps scan) := by
  cases h with
  | slot here same less within =>
    rw [left_eq here, left_eq same]
    exact .right _ (by omega)
  | page here there link start =>
    have hdata := hf _ here
    rw [left_eq here, left_eq there, hl.trail_next hdata link,
      hl.trail_eq_cons (hl.isData_next hdata link).1]
    exact .left _ _ (Nat.lt_succ_self _)

/-- The most steps that a search can still take. -/
def roundsLeft (ps : List Page) (scan : Scan) : Nat :=
  match scan.file.currentPage with
  | none => 1
  | some n => slots ps n - scan.nextSlot + 1 + ((trail ps n).tail.map fun m => slots ps m + 1).sum

lemma roundsLeft_eq (hn : scan.file.currentPage = some n) : roundsLeft ps scan =
    slots ps n - scan.nextSlot + 1 + ((trail ps n).tail.map fun m => slots ps m + 1).sum := by
  rw [roundsLeft, hn]

lemma roundsLeft_pos (ps : List Page) (scan : Scan) : 0 < roundsLeft ps scan := by
  unfold roundsLeft
  split <;> omega

theorem Advance.roundsLeft_lt (hl : Layout t ps hd body spare) (hf : Site.OnDataPage ps scan.file)
    (h : Advance ps scan scan') : roundsLeft ps scan' < roundsLeft ps scan := by
  cases h with
  | slot here same less within =>
    rw [roundsLeft_eq here, roundsLeft_eq same]
    omega
  | page here there link start =>
    have hdata := hf _ here
    rw [roundsLeft_eq here, roundsLeft_eq there, hl.trail_next hdata link,
      hl.trail_eq_cons (hl.isData_next hdata link).1, start]
    simp only [List.tail_cons, List.map_cons, List.sum_cons]
    omega

lemma Advance.stepsLeft_lt (hl : Layout t ps hd body spare) (hf : Site.OnDataPage ps scan.file)
    (h : Advance ps scan scan') : stepsLeft ps scan' < stepsLeft ps scan := by
  cases h with
  | slot here same less within =>
    have hdata := hf _ here
    have hlen := hdata.lt_length
    have hslots := hdata.slots_le
    simp only [stepsLeft, here, same]
    omega
  | page here there link start =>
    obtain ⟨hdata, hlt⟩ := hl.isData_next (hf _ here) link
    have hlen := hdata.lt_length
    have hlt' := UInt32.lt_iff_toNat_lt.mp hlt
    simp only [stepsLeft, here, there, start]
    omega

theorem exists_rounds (hl : Layout t ps hd body spare) (h : c.On t ps a.1.file a.2)
    (hf : Site.OnDataPage ps a.1.file) : ∃ k r, Rounds a k r := by
  induction hk : roundsLeft ps a.1 using Nat.strong_induction_on generalizing a with
  | _ k ih =>
    rcases hstep : step a.1 a.2 with ⟨⟨e | found | _, scan'⟩, s'⟩
    · exact ⟨1, _, .fails hstep⟩
    · have hgo : GoesOn a (scan', s') := hstep
      obtain ⟨hon, honPage, hadv⟩ := hgo.advance hl h hf
      obtain ⟨k, r, hrest⟩ := ih _ (hk ▸ hadv.roundsLeft_lt hl hf) hon honPage rfl
      exact ⟨k + 1, r, .onward hgo hrest⟩
    · exact ⟨1, _, .ends hstep⟩

/-- What falls whenever a search gets on bounds its steps. -/
theorem Rounds.le_of_falls {size : Scan → Nat} (hl : Layout t ps hd body spare)
    (hpos : ∀ scan, Site.OnDataPage ps scan.file → 0 < size scan)
    (hfall : ∀ scan scan', Site.OnDataPage ps scan.file → Advance ps scan scan' →
      size scan' < size scan)
    (hr : Rounds a k r) (h : c.On t ps a.1.file a.2) (hf : Site.OnDataPage ps a.1.file) :
    k ≤ size a.1 := by
  induction hr with
  | ends | fails => exact hpos _ hf
  | onward hgo _ ih =>
    obtain ⟨hon, honPage, hadv⟩ := hgo.advance hl h hf
    exact Nat.lt_of_le_of_lt (ih hon honPage) (hfall _ _ hf hadv)

lemma goesOn_star (hl : Layout t ps hd body spare) (h : c.On t ps a.1.file a.2)
    (hf : Site.OnDataPage ps a.1.file) (hgo : Relation.ReflTransGen GoesOn a b) :
    c.On t ps b.1.file b.2 ∧ Site.OnDataPage ps b.1.file := by
  induction hgo with
  | refl => exact ⟨h, hf⟩
  | tail _ hgo ih =>
    obtain ⟨hon, honPage, -⟩ := hgo.advance hl ih.1 ih.2
    exact ⟨hon, honPage⟩

end Progress

/-- How a search in a file with these pages comes to its end. -/
structure Halts (ps : List Page) (scan : Scan) (s : Store) : Prop where
  /-- Without a current page the first step is the last, and nothing is done. -/
  idle : scan.file.current = none →
    Rounds (scan, s) 1 (next scan s) ∧ (next scan s).1.2 = scan ∧ (next scan s).2 = s
  trail : ∀ n, scan.file.currentPage = some n → IsTrail ps n (trail ps n)
  /-- On each page it takes at most one step for each slot, and one to leave it. -/
  rounds : ∀ n, scan.file.currentPage = some n → ∃ k, Rounds (scan, s) k (next scan s) ∧
    k ≤ ((Heap.trail ps n).map fun m => slots ps m + 1).sum
  /-- With each step that is not the last there are fewer pages ahead, or as many and fewer slots. -/
  falls : ∀ a b, Relation.ReflTransGen GoesOn (scan, s) a → GoesOn a b →
    Prod.Lex (· < ·) (· < ·) (left ps b.1) (left ps a.1)

theorem halts (hl : Layout t ps hd body spare) (h : c.On t ps scan.file s)
    (hf : Site.OnDataPage ps scan.file) : Halts ps scan s := by
  obtain ⟨k, r, hr⟩ := exists_rounds (a := (scan, s)) hl h hf
  have hsteps : k ≤ stepsLeft ps scan :=
    hr.le_of_falls hl (fun _ => stepsLeft_pos) (fun _ _ hs hadv => hadv.stepsLeft_lt hl hs) h hf
  have hleft : k ≤ roundsLeft ps scan :=
    hr.le_of_falls hl (fun scan _ => roundsLeft_pos ps scan)
      (fun _ _ hs hadv => hadv.roundsLeft_lt hl hs) h hf
  obtain rfl : next scan s = r := hr.steps_eq (hsteps.trans (stepsLeft_le h))
  refine ⟨fun hc => ?_, fun n hn => hl.isTrail (hf n hn), fun n hn => ⟨k, hr, ?_⟩,
    fun a b hstar hgo => ?_⟩
  · rw [next_of_none hc]
    have hstep := step_none (s := s) hc
    refine ⟨?_, rfl, rfl⟩
    cases hfin : scan.finished <;> rw [hfin] at hstep
    · exact .fails hstep
    · exact .ends hstep
  · rw [roundsLeft_eq hn] at hleft
    rw [hl.trail_eq_cons (hf n hn), List.map_cons, List.sum_cons]
    omega
  · obtain ⟨hon, honPage⟩ := goesOn_star hl h hf hstar
    exact (hgo.advance hl hon honPage).2.2.left_lt hl honPage

end Scan

namespace Workspace
variable {own : String → Prop} {cache : Cache} {actions : List Action} {key : String}
  {scan : Scan}

end Workspace
end PagedHeap
