import PagedHeap.Proofs.PoolWrites

/-! Writing out pages in order. The pages that are due go to the sink by their ids until a write
fails; those before it are clean then, and the others as they were. The order in which the table
lists its pages is of no account. -/
namespace PagedHeap
variable {σ : Type} {sink : Sink σ} {pool : Pool} {id : PageId} {s : σ} {select : PageId → Bool}

/-- The order of files, and of pages in a file. -/
def PageId.Before (a b : PageId) : Prop := a.file < b.file ∨ a.file = b.file ∧ a.page < b.page

lemma PageId.packed_lt_packed_iff {a b : PageId} : a.packed < b.packed ↔ a.Before b := by
  have ha := a.page.toNat_lt
  have hb := b.page.toNat_lt
  rw [PageId.Before, UInt32.lt_iff_toNat_lt, UInt32.lt_iff_toNat_lt, ← UInt32.toNat_inj]
  simp only [PageId.packed, UInt32.size]
  omega

lemma PageId.Before.asymm {a b : PageId} (h : a.Before b) : ¬ b.Before a := by
  rw [← PageId.packed_lt_packed_iff] at h ⊢
  exact Nat.lt_asymm h

/-- The writes of these pages, one after another, are all granted. -/
inductive Sink.Grants (sink : Sink σ) : List (PageId × Page) → σ → σ → Prop
  | nil (s : σ) : Grants sink [] s s
  | cons {id : PageId} {contents : Page} {rest : List (PageId × Page)} {s s₁ s' : σ}
      (granted : sink id contents s = (.ok (), s₁)) (others : Grants sink rest s₁ s') :
      Grants sink ((id, contents) :: rest) s s'

namespace Pool

/-- The pages to be written out, in order, with their contents. -/
structure Due (pool : Pool) (select : PageId → Bool) (due : List (PageId × Page)) : Prop where
  sorted : due.Pairwise fun a b => a.1.Before b.1
  mem_iff : ∀ id contents, (id, contents) ∈ due ↔ select id ∧ ∃ i, pool.find? id = some i ∧
    (pool.frame i).dirty ∧ (pool.frame i).contents = contents

/-- What is left where some pages were written out: they are clean, and all else is as it was. -/
structure Cleaned (pool : Pool) (done : List PageId) (pool' : Pool) : Prop where
  table : pool'.table = pool.table
  free : pool'.free = pool.free
  clock : pool'.clock = pool.clock
  size : pool'.size = pool.size
  frame : ∀ {id i}, pool.find? id = some i →
    pool'.frame i = if id ∈ done then (pool.frame i).clean else pool.frame i
  rest : ∀ {i}, (∀ id, pool.find? id ≠ some i) → pool'.frame i = pool.frame i

/-- The ways in which writing out pages can end. -/
inductive Flushed (sink : Sink σ) (select : PageId → Bool) (pool : Pool) (s : σ) :
    Except StoreError Nat → List Write → Pool → σ → Prop
  /-- All that are due are written. -/
  | all {pages pool' s'} (due : pool.Due select pages) (granted : sink.Grants pages s s')
      (cleaned : pool.Cleaned (pages.map Prod.fst) pool') :
      Flushed sink select pool s (.ok pages.length) (pages.map fun e => ⟨e.1, e.2, true⟩) pool' s'
  /-- A write fails, and no more are tried. -/
  | stopped {before id contents after e pool' s₁ s'}
      (due : pool.Due select (before ++ (id, contents) :: after))
      (granted : sink.Grants before s s₁) (failed : sink id contents s₁ = (.error e, s'))
      (cleaned : pool.Cleaned (before.map Prod.fst) pool') :
      Flushed sink select pool s (.error e)
        (before.map (fun e => ⟨e.1, e.2, true⟩) ++ [⟨id, contents, false⟩]) pool' s'

section Order

lemma Wf.nodup_dirtyPages (h : pool.Wf) (select : PageId → Bool) :
    ((pool.dirtyPages select).map Prod.fst).Nodup := by
  have hperm := List.mergeSort_perm
    (pool.table.entries.filter fun e => select e.1 && (pool.frame e.2).dirty)
    fun a b => a.1.packed ≤ b.1.packed
  exact (hperm.map Prod.fst).nodup_iff.mpr (h.distinct.sublist (List.filter_sublist.map _))

lemma pairwise_dirtyPages (pool : Pool) (select : PageId → Bool) :
    (pool.dirtyPages select).Pairwise fun a b => a.1.packed ≤ b.1.packed := by
  refine (List.pairwise_mergeSort (fun a b c hab hbc => ?_) (fun a b => ?_) _).imp
    fun h => of_decide_eq_true h
  · exact decide_eq_true ((of_decide_eq_true hab).trans (of_decide_eq_true hbc))
  · simpa using Nat.le_total a.1.packed b.1.packed

lemma Wf.mem_dirtyPages_iff (h : pool.Wf) {e : PageId × Nat} :
    e ∈ pool.dirtyPages select ↔
      select e.1 ∧ pool.find? e.1 = some e.2 ∧ (pool.frame e.2).dirty := by
  rw [dirtyPages, List.mem_mergeSort, List.mem_filter, Bool.and_eq_true, find?,
    h.distinct.find?_eq_some_iff, and_left_comm]

/-- What is written of a page that is due. -/
def written (pool : Pool) (e : PageId × Nat) : PageId × Page := (e.1, (pool.frame e.2).contents)

lemma Wf.due (h : pool.Wf) (select : PageId → Bool) :
    pool.Due select ((pool.dirtyPages select).map pool.written) where
  sorted := by
    have hne : (pool.dirtyPages select).Pairwise fun a b => a.1 ≠ b.1 :=
      List.pairwise_map.mp (h.nodup_dirtyPages select)
    refine List.pairwise_map.mpr (((pairwise_dirtyPages pool select).and hne).imp fun hab => ?_)
    refine PageId.packed_lt_packed_iff.mp (lt_of_le_of_ne hab.1 fun heq => ?_)
    exact hab.2 (PageId.packed_inj.mp heq)
  mem_iff id contents := by
    rw [List.mem_map]
    constructor
    · rintro ⟨⟨id, i⟩, he, ⟨⟩⟩
      obtain ⟨hs, hi, hd⟩ := h.mem_dirtyPages_iff.mp he
      exact ⟨hs, i, hi, hd, rfl⟩
    · rintro ⟨hs, i, hi, hd, rfl⟩
      exact ⟨(id, i), h.mem_dirtyPages_iff.mpr ⟨hs, hi, hd⟩, rfl⟩

/-- The order of the bindings in the table does not show in the order of the pages. -/
lemma Wf.dirtyPages_perm (h : pool.Wf) {table : Table PageId Nat}
    (hperm : table.entries.Perm pool.table.entries) :
    ({ pool with table } : Pool).dirtyPages select = pool.dirtyPages select := by
  have hsame : (({ pool with table } : Pool).dirtyPages select).Perm (pool.dirtyPages select) :=
    (List.mergeSort_perm ..).trans ((hperm.filter _).trans (List.mergeSort_perm ..).symm)
  refine hsame.eq_of_pairwise (fun a b ha hb hab hba => ?_) (pairwise_dirtyPages _ _)
    (pairwise_dirtyPages _ _)
  have hid : a.1 = b.1 := PageId.packed_inj.mp (Nat.le_antisymm hab hba)
  have hfind := (h.mem_dirtyPages_iff.mp (hsame.subset ha)).2.1
  rw [hid, (h.mem_dirtyPages_iff.mp hb).2.1] at hfind
  exact Prod.ext hid (Option.some.inj hfind).symm

end Order

section Writing

lemma frame_clean (pool : Pool) (i j : Nat) :
    (pool.modifyFrame i Frame.clean).frame j =
      if i = j then (pool.frame j).clean else pool.frame j := by
  rw [frame_modifyFrame]
  by_cases hj : j < pool.size
  · simp [hj]
  · have hout : pool.frame j = {} := by
      simp [frame, Array.getElem?_eq_none (Nat.le_of_not_lt hj)]
    simp [hj, hout, Frame.clean]

lemma written_clean (pool : Pool) (i : Nat) (e : PageId × Nat) :
    (pool.modifyFrame i Frame.clean).written e = pool.written e := by
  rw [written, written, frame_clean]
  split <;> rfl

/-- The pool with the marks of some frames cleared. -/
def cleanEach (pool : Pool) (frames : List Nat) : Pool :=
  frames.foldl (fun pool i => pool.modifyFrame i Frame.clean) pool

lemma cleanEach_same (pool : Pool) (frames : List Nat) :
    (pool.cleanEach frames).table = pool.table ∧ (pool.cleanEach frames).free = pool.free ∧
      (pool.cleanEach frames).clock = pool.clock ∧ (pool.cleanEach frames).size = pool.size := by
  induction frames generalizing pool with
  | nil => exact ⟨rfl, rfl, rfl, rfl⟩
  | cons i frames ih =>
    obtain ⟨htable, hfree, hclock, hsize⟩ := ih (pool.modifyFrame i Frame.clean)
    exact ⟨htable, hfree, hclock, hsize.trans (size_modifyFrame ..)⟩

lemma frame_cleanEach (pool : Pool) (frames : List Nat) (j : Nat) :
    (pool.cleanEach frames).frame j =
      if j ∈ frames then (pool.frame j).clean else pool.frame j := by
  induction frames generalizing pool with
  | nil => rfl
  | cons i frames ih =>
    refine (ih (pool.modifyFrame i Frame.clean)).trans ?_
    rw [frame_clean]
    simp only [List.mem_cons, eq_comm (a := j)]
    by_cases hi : i = j <;> by_cases hj : j ∈ frames <;> simp [hi, hj, Frame.clean]

/-- Writing out the pages of a list ends with all of them written, or at the first that is not. -/
lemma flushEach_cases (sink : Sink σ) (pages : List (PageId × Nat)) (pool : Pool) (s : σ)
    (log : List Write) :
    (∃ s', sink.Grants (pages.map pool.written) s s' ∧
      flushEach sink.logged pages pool (s, log) = (.ok pages.length,
        pool.cleanEach (pages.map Prod.snd),
        s', log ++ (pages.map pool.written).map fun e => ⟨e.1, e.2, true⟩)) ∨
    ∃ before page after e s₁ s', pages = before ++ page :: after ∧
      sink.Grants (before.map pool.written) s s₁ ∧
      sink page.1 (pool.frame page.2).contents s₁ = (.error e, s') ∧
      flushEach sink.logged pages pool (s, log) = (.error e,
        pool.cleanEach (before.map Prod.snd),
        s', log ++ ((before.map pool.written).map (fun e => ⟨e.1, e.2, true⟩) ++
          [⟨page.1, (pool.frame page.2).contents, false⟩])) := by
  induction pages generalizing pool s log with
  | nil => exact Or.inl ⟨s, .nil s, by simp [flushEach, cleanEach]⟩
  | cons page pages ih =>
    obtain ⟨id, i⟩ := page
    rcases hs : sink id (pool.frame i).contents s with ⟨e | _, s₁⟩
    · refine Or.inr ⟨[], (id, i), pages, e, s, s₁, rfl, .nil s, hs, ?_⟩
      simp [flushEach, Sink.logged, hs, cleanEach, Except.isOk, Except.toBool]
    · have hwritten : (pool.modifyFrame i Frame.clean).written = pool.written :=
        funext (written_clean pool i)
      have hcontents : ∀ j, ((pool.modifyFrame i Frame.clean).frame j).contents =
          (pool.frame j).contents := fun j => congrArg Prod.snd (congrFun hwritten (id, j))
      rcases ih (pool.modifyFrame i Frame.clean) s₁
        (log ++ [⟨id, (pool.frame i).contents, true⟩]) with
        ⟨s', hgrants, heq⟩ | ⟨before, page, after, e, s₂, s', rfl, hgrants, hfailed, heq⟩
      · rw [hwritten] at hgrants heq
        refine Or.inl ⟨s', .cons hs hgrants, ?_⟩
        simp [flushEach, Sink.logged, hs, heq, Except.isOk, Except.toBool, Except.map, written,
          cleanEach]
      · rw [hwritten] at hgrants heq
        rw [hcontents] at hfailed heq
        refine Or.inr ⟨(id, i) :: before, page, after, e, s₂, s', rfl, .cons hs hgrants, hfailed, ?_⟩
        simp [flushEach, Sink.logged, hs, heq, Except.isOk, Except.toBool, Except.map, written,
          cleanEach]

/-- The table that the pages were found by is of no account for writing them. -/
lemma flushEach_table (sink : Sink σ) (pages : List (PageId × Nat)) (pool : Pool)
    (table : Table PageId Nat) (s : σ) :
    flushEach sink pages { pool with table } s =
      ((flushEach sink pages pool s).1, { (flushEach sink pages pool s).2.1 with table },
        (flushEach sink pages pool s).2.2) := by
  induction pages generalizing pool s with
  | nil => rfl
  | cons page pages ih =>
    obtain ⟨id, i⟩ := page
    rcases hs : sink id (pool.frame i).contents s with ⟨e | _, s₁⟩
    · have hs' : sink id (({ pool with table } : Pool).frame i).contents s = (.error e, s₁) := hs
      simp only [flushEach, hs, hs']
    · have hs' : sink id (({ pool with table } : Pool).frame i).contents s = (.ok (), s₁) := hs
      simp only [flushEach, hs, hs']
      rw [show ({ pool with table } : Pool).modifyFrame i Frame.clean =
        { pool.modifyFrame i Frame.clean with table } from rfl, ih]

lemma Wf.flush_table (h : pool.Wf) (sink : Sink σ) (select : PageId → Bool) (s : σ)
    {table : Table PageId Nat} (hperm : table.entries.Perm pool.table.entries) :
    ({ pool with table } : Pool).flush sink select s =
      ((pool.flush sink select s).1, { (pool.flush sink select s).2.1 with table },
        (pool.flush sink select s).2.2) := by
  rw [Pool.flush, h.dirtyPages_perm hperm, flushEach_table]
  rfl

lemma Wf.cleaned (h : pool.Wf) {pages : List (PageId × Nat)}
    (hpages : ∀ e ∈ pages, pool.find? e.1 = some e.2) :
    pool.Cleaned (pages.map Prod.fst) (pool.cleanEach (pages.map Prod.snd)) := by
  obtain ⟨htable, hfree, hclock, hsize⟩ := pool.cleanEach_same (pages.map Prod.snd)
  refine ⟨htable, hfree, hclock, hsize, fun {id i} hi => ?_, fun {i} hi => ?_⟩
  · rw [frame_cleanEach]
    refine if_congr ?_ rfl rfl
    simp only [List.mem_map]
    constructor
    · rintro ⟨e, he, rfl⟩
      exact ⟨e, he, h.find?_inj (hpages e he) hi⟩
    · rintro ⟨e, he, rfl⟩
      exact ⟨e, he, Option.some.inj ((hpages e he).symm.trans hi)⟩
  · rw [frame_cleanEach, if_neg]
    rintro hmem
    obtain ⟨e, he, rfl⟩ := List.mem_map.mp hmem
    exact hi e.1 (hpages e he)

theorem Wf.flushed (h : pool.Wf) (sink : Sink σ) (select : PageId → Bool) (s : σ) :
    Flushed sink select pool s (pool.flush sink.logged select (s, [])).1
      (pool.flush sink.logged select (s, [])).2.2.2 (pool.flush sink.logged select (s, [])).2.1
      (pool.flush sink.logged select (s, [])).2.2.1 := by
  have hdue := h.due select
  have hfind : ∀ e ∈ pool.dirtyPages select, pool.find? e.1 = some e.2 := fun e he =>
    (h.mem_dirtyPages_iff.mp he).2.1
  have hfst : ∀ pages : List (PageId × Nat), (pages.map pool.written).map Prod.fst =
      pages.map Prod.fst := fun pages => List.map_map
  rw [Pool.flush]
  rcases flushEach_cases sink (pool.dirtyPages select) pool s [] with
    ⟨s', hgrants, heq⟩ | ⟨before, page, after, e, s₁, s', hsplit, hgrants, hfailed, heq⟩
  · rw [heq]
    have hall := Flushed.all hdue hgrants (by rw [hfst]; exact h.cleaned hfind)
    rwa [List.length_map] at hall
  · rw [heq]
    rw [hsplit] at hdue hfind
    rw [List.map_append, List.map_cons] at hdue
    refine .stopped hdue hgrants hfailed ?_
    rw [hfst]
    exact h.cleaned fun e he => hfind e (List.mem_append_left _ he)

end Writing

section Outcome
variable {log : List Write} {pool' : Pool} {s' : σ} {pages before after : List (PageId × Page)}
  {contents : Page} {i : Nat}

lemma Flushed.clean_of_ok {count : Nat}
    (h : Flushed sink select pool s (.ok count) log pool' s') (hid : select id = true)
    (hi : pool.find? id = some i) : (pool'.frame i).dirty = false := by
  cases h with
  | @all pages _ _ due _ cleaned =>
    rw [cleaned.frame hi]
    split
    · rfl
    · next hout =>
      refine Bool.eq_false_iff.mpr fun hd => hout ?_
      exact List.mem_map.mpr ⟨_, (due.mem_iff id _).mpr ⟨hid, i, hi, hd, rfl⟩, rfl⟩

/-- The pages written before one of those that are due are the ones that come before it. -/
lemma Due.mem_before_iff (h : pool.Due select (before ++ (id, contents) :: after)) {e : PageId × Page}
    (he : e ∈ before ++ (id, contents) :: after) : e ∈ before ↔ e.1.Before id := by
  obtain ⟨-, hafter, hbetween⟩ := List.pairwise_append.mp h.sorted
  refine ⟨fun hmem => hbetween e hmem _ List.mem_cons_self, fun hlt => ?_⟩
  rcases List.mem_append.mp he with hmem | hmem
  · exact hmem
  · rcases List.mem_cons.mp hmem with rfl | hmem
    · exact absurd hlt hlt.asymm
    · exact absurd hlt (PageId.Before.asymm ((List.pairwise_cons.mp hafter).1 e hmem))

/-- If a write fails, the pages before it are clean, and it and those after it are as dirty as they
were. -/
lemma Flushed.clean_iff_of_error {e : StoreError}
    (h : Flushed sink select pool s (.error e) log pool' s') :
    ∃ w, log.getLast? = some w ∧ w.granted = false ∧
      ∀ {id i}, select id = true → pool.find? id = some i → (pool.frame i).dirty = true →
        ((pool'.frame i).dirty = false ↔ id.Before w.id) := by
  cases h with
  | @stopped before failing contents after _ _ _ _ due _ _ cleaned =>
    refine ⟨_, List.getLast?_concat, rfl, fun {id i} hid hi hd => ?_⟩
    have hmem := (due.mem_iff id _).mpr ⟨hid, i, hi, hd, rfl⟩
    rw [← due.mem_before_iff hmem, cleaned.frame hi]
    constructor
    · intro hclean
      split at hclean
      · next hin =>
        obtain ⟨⟨_, contents'⟩, he, rfl⟩ := List.mem_map.mp hin
        obtain ⟨-, j, hj, -, rfl⟩ := (due.mem_iff _ _).mp (List.mem_append_left _ he)
        obtain rfl : i = j := Option.some.inj (hi.symm.trans hj)
        exact he
      · rw [hd] at hclean
        cases hclean
    · intro he
      rw [if_pos (List.mem_map.mpr ⟨_, he, rfl⟩)]
      rfl

end Outcome
end Pool

/-- The pages that can be asked to be written out at once. -/
inductive Selection
  | page (id : PageId)
  | file (file : UInt32)
  | all

namespace Selection

def covers : Selection → PageId → Bool
  | page id, other => other = id
  | file f, id => id.file = f
  | all, _ => true

def call (sink : Sink σ) : Selection → PoolCall σ
  | page id => .flushPage id sink
  | file f => .flushFile f sink
  | all => .flushAll sink

/-- What is answered, by the number of pages written. -/
def tells : Selection → Nat → PoolCall.Answer
  | page _, count => .flushed (count ≠ 0)
  | _, count => .written count

variable {which : Selection}

lemma perform_call (which : Selection) (sink : Sink σ) (pool : Pool) (s : σ) :
    (which.call sink).perform pool s = ((pool.flush sink which.covers s).1.map which.tells,
      (pool.flush sink which.covers s).2) := by
  cases which with
  | page id =>
    simp only [call, PoolCall.perform, Pool.flushPage]
    change _ = ((pool.flush sink (fun other => other = id) s).1.map _,
      (pool.flush sink (fun other => other = id) s).2)
    rcases pool.flush sink (fun other => other = id) s with ⟨_ | _, _, _⟩ <;> rfl
  | file f => rfl
  | all => rfl

lemma logged_call (which : Selection) (sink : Sink σ) :
    (which.call sink).logged = which.call sink.logged := by
  cases which <;> rfl

lemma written_iff {id : PageId} {count : Nat} {log : List Write} {pool' : Pool} {s' : σ}
    (h : Pool.Flushed sink (page id).covers pool s (.ok count) log pool' s') :
    count ≠ 0 ↔ ∃ i, pool.find? id = some i ∧ (pool.frame i).dirty = true := by
  cases h with
  | @all pages _ _ due =>
    rw [Ne, List.length_eq_zero_iff]
    constructor
    · intro hne
      obtain ⟨⟨other, contents⟩, he⟩ := List.exists_mem_of_ne_nil pages hne
      obtain ⟨hid, i, hi, hd, -⟩ := (due.mem_iff _ _).mp he
      obtain rfl : other = id := of_decide_eq_true hid
      exact ⟨i, hi, hd⟩
    · rintro ⟨i, hi, hd⟩ rfl
      exact absurd ((due.mem_iff id _).mpr ⟨decide_eq_true rfl, i, hi, hd, rfl⟩) List.not_mem_nil

end Selection

namespace PoolUse
variable {u : PoolUse σ} {n : Nat} {which : Selection}

/-- How a pool in use writes out pages, by how it ends. -/
structure FlushesInOrder (u : PoolUse σ) (which : Selection) (sink : Sink σ)
    (r : Except StoreError Nat) : Prop where
  answer : u.answer (which.call sink) = r.map which.tells
  flushed : u.pool.Flushed sink which.covers u.behind r (u.writes (which.call sink))
    (u.step (which.call sink)).pool (u.step (which.call sink)).behind
  /-- If all are written, all that were selected are clean. -/
  clean : ∀ {count id i}, r = .ok count → which.covers id = true → u.pool.find? id = some i →
    ((u.step (which.call sink)).pool.frame i).dirty = false
  /-- If a write fails, it is the last, and of the dirty pages those before it are clean. -/
  stopped : ∀ {e}, r = .error e → ∃ w, (u.writes (which.call sink)).getLast? = some w ∧
    w.granted = false ∧ ∀ {id i}, which.covers id = true → u.pool.find? id = some i →
      (u.pool.frame i).dirty = true →
        (((u.step (which.call sink)).pool.frame i).dirty = false ↔ id.Before w.id)
  /-- A single page is written exactly if it is dirty. -/
  single : ∀ {id count}, which = .page id → r = .ok count →
    (count ≠ 0 ↔ ∃ i, u.pool.find? id = some i ∧ (u.pool.frame i).dirty = true)
  /-- The table may list its pages in any order. -/
  unordered : ∀ {table : Table PageId Nat}, table.entries.Perm u.pool.table.entries →
    (which.call sink).perform { u.pool with table } u.behind =
      (u.answer (which.call sink), { (u.step (which.call sink)).pool with table },
        (u.step (which.call sink)).behind) ∧
    (which.call sink).writes { u.pool with table } u.behind = u.writes (which.call sink)

theorem Sound.flushesInOrder (h : u.Sound n) (which : Selection) (sink : Sink σ) :
    ∃ r, u.FlushesInOrder which sink r := by
  have hflushed : u.pool.Flushed sink which.covers u.behind
      (u.pool.flush sink which.covers u.behind).1 (u.writes (which.call sink))
      (u.step (which.call sink)).pool (u.step (which.call sink)).behind := by
    rw [writes, PoolCall.writes, PoolUse.step, Selection.logged_call, Selection.perform_call,
      Selection.perform_call, ← Pool.flush_logged sink which.covers u.pool (u.behind, [])]
    exact h.wf.flushed sink which.covers u.behind
  refine ⟨_, ?_, hflushed, fun hr hid hi => ?_, fun hr => ?_, fun hw hr => ?_, fun hperm => ⟨?_, ?_⟩⟩
  · rw [PoolUse.answer, Selection.perform_call]
  · rw [hr] at hflushed
    exact hflushed.clean_of_ok hid hi
  · rw [hr] at hflushed
    exact hflushed.clean_iff_of_error
  · rw [hr, hw] at hflushed
    exact Selection.written_iff hflushed
  · rw [PoolUse.answer, PoolUse.step, Selection.perform_call, h.wf.flush_table _ _ _ hperm,
      Selection.perform_call]
  · rw [PoolUse.writes, PoolCall.writes, PoolCall.writes, Selection.logged_call,
      Selection.perform_call, h.wf.flush_table _ _ _ hperm, Selection.perform_call]

/-- After any calls, writing out a page, the pages of a file or all pages goes in the order of their
ids, up to the first write that fails. -/
theorem run_flushesInOrder (n : Nat) (behind : σ) (calls : List (PoolCall σ))
    (hcalls : ∀ call ∈ calls, call.Proper) (which : Selection) (sink : Sink σ) :
    ∃ r, (run n behind calls).FlushesInOrder which sink r :=
  (sound_run n behind calls hcalls).flushesInOrder which sink

/-- The second of two dirty pages cannot be written. -/
theorem run_flushesInOrder_stopped :
    let granting : Sink Nat := fun _ _ s => (.ok (), s)
    let calls : List (PoolCall Nat) := [.new ⟨0, 1⟩ granting, .new ⟨0, 0⟩ granting,
      .unpin ⟨0, 0⟩ true, .unpin ⟨0, 1⟩ true]
    let once : Sink Nat := fun _ _ s => (if s = 0 then .ok () else .error (.io "write"), s + 1)
    (∀ call ∈ calls, call.Proper) ∧ ∃ r, (run 2 0 calls).FlushesInOrder .all once r := by
  have hcalls : ∀ call ∈ ([.new ⟨0, 1⟩ fun _ _ s => (.ok (), s), .new ⟨0, 0⟩ fun _ _ s => (.ok (), s),
      .unpin ⟨0, 0⟩ true, .unpin ⟨0, 1⟩ true] : List (PoolCall Nat)), call.Proper := by
    simp [PoolCall.Proper, PoolCall.wants?, Frame.unassigned, noPage]
  exact ⟨hcalls, run_flushesInOrder 2 0 _ hcalls .all _⟩

end PoolUse
end PagedHeap
