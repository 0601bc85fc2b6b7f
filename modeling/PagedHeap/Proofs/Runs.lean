import PagedHeap.Proofs.DiskHistory
import PagedHeap.Proofs.Effects

/-! Runs on heap files: they start over a directory in which no file has one of the names, and then
create such files, and open and use them, in any order. -/
namespace PagedHeap

/-- A new cache over a directory in which these names lead to different places, with no file at any
of them. -/
structure Ready (own : String → Prop) (cache : Cache) : Prop where
  mounted : ∃ config tree, Cache.ofConfig config tree = .ok cache
  apart : ∀ {name other l}, own name → own other → cache.disk.spot? name = some l →
    cache.disk.spot? other = some l → name = other
  absent : ∀ {name}, own name → cache.disk.contentsOf name = none

/-- Plain names of files that are not there lead to different places. -/
theorem Ready.of_plain {own : String → Prop} {config : Config} {tree : FileTree} {cache : Cache}
    (hc : Cache.ofConfig config tree = .ok cache) (hplain : ∀ {name}, own name → Plain name)
    (habsent : ∀ {name}, own name → cache.disk.contentsOf name = none) : Ready own cache where
  mounted := ⟨config, tree, hc⟩
  apart hn hother := (Workspace.start_mounted hc).spot?_inj (hplain hn) (hplain hother)
  absent := habsent

/-- A new cache over a directory in which these names lead to files in order, as far as there are
any, and all of these are heap files. -/
structure HoldsHeapFiles (own : String → Prop) (cache : Cache) : Prop where
  mounted : ∃ config tree, Cache.ofConfig config tree = .ok cache
  orderly : Orderly own cache.disk
  formed : ∀ {name ps}, own name → cache.pages name = some ps → Heap.Formed False ps

/-- What was set up as a heap file remains one. -/
lemma Heap.Formed.layout_of_evolves {t t' : Prop} {ps qs : List Page} {hd : FileHeader}
    {body : List UInt32} {spare : Option UInt32} (hf : Formed t qs) (hl : Layout t' ps hd body spare)
    (hev : Evolves ps qs) : ∃ hd' body' spare', Layout t qs hd' body' spare' := by
  rcases hf with hb | hl'
  · obtain ⟨-, p, hp, hw⟩ := hev.data (hl.isData hl.first_mem)
    rw [hb p (List.mem_of_getElem? hp)] at hw
    exact (not_wf_blank hw).elim
  · exact hl'

lemma Ready.number?_eq_none {own : String → Prop} {cache : Cache} {name : String}
    (h : Ready own cache) (hn : own name) : cache.disk.number? name = none := by
  have habsent := h.absent hn
  rw [Disk.contentsOf_eq, Option.map_eq_none_iff] at habsent
  exact habsent

lemma Cache.create_small : ∃ d, Cache.small.disk.create "t" = .ok d := by
  have hfree : (Cache.small.disk.create "t").toOption.isSome = true := by decide +kernel
  cases hc : Cache.small.disk.create "t" with
  | error e =>
    rw [hc] at hfree
    cases hfree
  | ok d => exact ⟨d, rfl⟩

lemma Ready.small : Ready (· = "t") .small := by
  refine .of_plain Cache.ofConfig_small ?_ ?_
  · rintro name rfl
    exact ⟨by decide, by decide, by decide, by decide⟩
  · rintro name rfl
    decide +kernel

namespace Workspace
variable {own : String → Prop} {w : Workspace} {cache : Cache} {name : String} {ps : List Page}
  {hd : FileHeader} {body : List UInt32} {spare : Option UInt32} {actions : List Action}

lemma start_pages (h : Ready own cache) (gate : Gate) (hn : own name) :
    (start cache gate).pages name = none := by
  show cache.pages name = none
  rw [Cache.pages_eq, h.number?_eq_none hn]
  rfl

/-- Heap files that are in a directory can be worked on. -/
theorem standing_of_holds (h : HoldsHeapFiles own cache) (gate : Gate) :
    Standing own (start cache gate) := by
  obtain ⟨config, tree, hc⟩ := h.mounted
  obtain ⟨hdistinct, hfiles, haccounted⟩ := start_accounted hc gate
  have hfaithful : Faithful ((start cache gate).store.Excused []) cache := by
    obtain ⟨tree', -, rfl⟩ := ofConfig_eq_ok hc
    refine ⟨fun hi => ?_, fun hi => ?_, fun hi => ?_⟩ <;> cases hi
  refine ⟨⟨hdistinct, hfiles, ⟨haccounted, h.orderly, hfaithful⟩, fun _ => rfl, fun ht => ht⟩,
    fun name ps hn hps => (h.formed hn hps).mono False.elim, fun hf => ?_⟩
  cases hf

lemma holdsHeapFiles_of_ready (h : Ready own cache) : HoldsHeapFiles own cache := by
  have hapart : ∀ {name other l}, own name → own other → cache.disk.spot? name = some l →
      cache.disk.spot? other = some l → name = other := h.apart
  have hnone : ∀ {name}, own name → cache.disk.number? name = none := h.number?_eq_none
  refine ⟨h.mounted, ?_, fun {name ps} hn hps => ?_⟩
  · obtain ⟨config, tree, hc⟩ := h.mounted
    obtain ⟨tree', -, rfl⟩ := ofConfig_eq_ok hc
    refine ⟨hapart, fun hn hk => ?_, fun hn _ hk => ?_, fun hi => ?_, fun hf => ?_,
      fun hn hk => ?_⟩
    · cases (hnone hn).symm.trans hk
    · cases (hnone hn).symm.trans hk
    · cases hi
    · cases hf
    · cases (hnone hn).symm.trans hk
  · cases (start_pages h (fun _ _ => none) hn).symm.trans hps

end Workspace

section Keeping

/-- A gate that refuses one request. -/
def Gate.refusing (n : Nat) : Gate := fun k _ => if k = n then some .poolFull else none

/-- A directory with a heap file of one data page. -/
def FileTree.keeping (data : Page) : FileTree :=
  FileTree.write { directories := [["data"]], entries := ⟨[(["u", "data"], 0)]⟩, next := 1 } 0
    ⟨2 * pageSize, ⟨[(0, (FileHeader.new "u" 1).toPage Page.blank), (1, data)]⟩⟩

/-- A new cache over it. -/
def Cache.keeping (frames : Nat) (data : Page) : Cache :=
  { pool := Pool.ofSize frames, disk := { tree := .keeping data, dir := "data" } }

variable {frames : Nat} {data : Page}

lemma Cache.number?_keeping : (keeping frames data).disk.number? "u" = some 0 ∧
    (keeping frames data).disk.number? "t" = none := by
  simp only [Disk.number?, Disk.place, Disk.path, keeping, FileTree.keeping, FileTree.place_write]
  exact ⟨by decide +kernel, by decide +kernel⟩

lemma Cache.pages_keeping : (keeping frames data).pages "u" =
    some [(FileHeader.new "u" 1).toPage Page.blank, data] := by
  have hf : (keeping frames data).disk.contentsOf "u" = some
      ⟨2 * pageSize, ⟨[(0, (FileHeader.new "u" 1).toPage Page.blank), (1, data)]⟩⟩ := by
    rw [Disk.contentsOf_eq, number?_keeping.1]
    rfl
  have hpage : ∀ n, (keeping frames data).page "u" n = (keeping frames data).disk.stored "u" n :=
    fun n => Cache.page_of_away nofun
  rw [pages, hf, Option.map_some]
  simp only [hpage, Disk.stored, Disk.file, hf, ByteFile.pages]
  rfl

lemma Cache.holdsHeapFiles_keeping
    (hc : Cache.ofConfig { dataDir := "data", frames } (.keeping data) = .ok (.keeping frames data))
    (hp : data.Wf 1) (hnext : data.next? = none) :
    HoldsHeapFiles (fun name => name = "t" ∨ name = "u") (.keeping frames data) := by
  obtain ⟨hu, ht⟩ := @number?_keeping frames data
  have hmounted := Workspace.start_mounted hc
  have hplain : ∀ {name}, name = "t" ∨ name = "u" → Plain name := by
    rintro name (rfl | rfl) <;> exact ⟨by decide, by decide, by decide, by decide⟩
  have hnumber : ∀ {name k}, (name = "t" ∨ name = "u") →
      (keeping frames data).disk.number? name = some k → name = "u" ∧ k = 0 := by
    rintro name k (rfl | rfl) hk
    · cases ht.symm.trans hk
    · exact ⟨rfl, Option.some.inj (hk.symm.trans hu)⟩
  refine ⟨⟨_, _, hc⟩, ⟨fun hn ho => hmounted.spot?_inj (hplain hn) (hplain ho), fun hn hk => ?_,
    fun hn ho hk hl => (hnumber hn hk).1.trans (hnumber ho hl).1.symm, nofun, nofun,
    fun hn hk => ?_⟩, fun {name ps} hn hps => .inr ?_⟩
  · obtain ⟨-, rfl⟩ := hnumber hn hk
    exact Nat.one_pos
  · obtain ⟨-, rfl⟩ := hnumber hn hk
    have hsize : 2 * pageSize = 2 * pageSize / pageSize * pageSize ∧
        2 * pageSize / pageSize < UInt32.size := by decide
    exact hsize
  · rcases hn with rfl | rfl
    · rw [Cache.pages_eq, ht] at hps
      cases hps
    · cases pages_keeping.symm.trans hps
      exact ⟨_, _, _, Heap.layout_single ((Shown.header?_cons _ _).trans
        (FileHeader.ofPage_toPage ..)) rfl rfl rfl (Shown.page?_one ..) hp hnext rfl⟩

end Keeping

namespace Workspace
variable {own : String → Prop} {w : Workspace} {cache : Cache} {name : String} {ps : List Page}
  {hd : FileHeader} {body : List UInt32} {spare : Option UInt32} {actions : List Action}

theorem start_standing (h : Ready own cache) (gate : Gate) : Standing own (start cache gate) :=
  standing_of_holds (holdsHeapFiles_of_ready h) gate

lemma run_append (w : Workspace) (xs ys : List Action) : w.run (xs ++ ys) = (w.run xs).run ys :=
  List.foldl_append

lemma run_cons (w : Workspace) (a : Action) (rest : List Action) :
    w.run (a :: rest) = (perform a w).2.run rest := rfl

lemma run_concat (w : Workspace) (xs : List Action) (a : Action) :
    w.run (xs ++ [a]) = (perform a (w.run xs)).2 := run_append w xs [a]

theorem run_standing (h : Standing own w) (hon : ∀ a ∈ actions, a.On own) :
    Standing own (w.run actions) := by
  induction actions generalizing w with
  | nil => exact h
  | cons a rest ih =>
    obtain ⟨ha, hrest⟩ := List.forall_mem_cons.mp hon
    exact ih (perform_outcome h a ha).standing hrest

/-- A heap file remains one, and only grows. -/
theorem run_layout (h : Standing own w) (hon : ∀ a ∈ actions, a.On own) (hn : own name)
    (hps : w.pages name = some ps) (hl : Heap.Layout w.store.Torn ps hd body spare) :
    ∃ qs hd' body' spare', (w.run actions).pages name = some qs ∧
      Heap.Layout (w.run actions).store.Torn qs hd' body' spare' ∧ Heap.Evolves ps qs := by
  induction actions generalizing w ps hd body spare with
  | nil => exact ⟨ps, hd, body, spare, hps, hl, .refl ps⟩
  | cons a rest ih =>
    obtain ⟨ha, hrest⟩ := List.forall_mem_cons.mp hon
    have hout := perform_outcome h a ha
    obtain ⟨rs, hrs, hev, -⟩ := (hout.moves name hn).1 ps hps
    obtain ⟨hd₁, body₁, spare₁, hl₁⟩ :=
      (hout.standing.formed name rs hn hrs).layout_of_evolves hl hev
    obtain ⟨qs, hd', body', spare', hqs, hl', hev'⟩ := ih hout.standing hrest hrs hl₁
    exact ⟨qs, hd', body', spare', hqs, hl', hev.trans hev' hl₁⟩

/-- A file whose creation succeeded has the pages of a new heap file. -/
theorem create_pages (h : Standing own w) (hn : own name) {r : Reply Answer}
    (hok : (perform (.create name) w).1 = .ok r) :
    (perform (.create name) w).2.pages name = some (Shown.newPages name) := by
  rw [perform, map_apply] at hok ⊢
  have hfail : ∀ e, (Store.createHeap name w.store).1 ≠ .error e := by
    intro e he
    have hres : (Store.createHeap name w.store).1.map (fun _ => Reply.answer Answer.done) = .ok r :=
      hok
    rw [he] at hres
    cases hres
  rcases Shown.createHeap hn h.running.inv with ⟨-, e, he⟩ | ⟨-, ps, hs, ⟨⟨e, he⟩, -⟩ | rfl⟩
  · exact (hfail e he).elim
  · exact (hfail e he).elim
  · exact (hs.shows hn).trans (Function.update_self ..)

theorem create_layout (h : Standing own w) (hn : own name) {r : Reply Answer}
    (hok : (perform (.create name) w).1 = .ok r) :
    ∃ ps hd body spare, (perform (.create name) w).2.pages name = some ps ∧
      Heap.Layout (perform (.create name) w).2.store.Torn ps hd body spare ∧
      Heap.content ps = (fun _ => none) ∧ Heap.count ps = 0 := by
  obtain ⟨hd, hl, hempty⟩ := Shown.layout_newPages (perform (.create name) w).2.store.Torn name
  exact ⟨_, hd, [1], none, create_pages h hn hok, hl, hempty⟩

end Workspace
end PagedHeap
