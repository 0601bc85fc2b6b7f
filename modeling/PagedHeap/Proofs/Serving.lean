import Mathlib.Data.List.Perm.Subperm
import PagedHeap.Proofs.DirtyMarks
import PagedHeap.Proofs.FileRequests
import PagedHeap.Proofs.PoolRoom

/-! Requests that are served. A store serves those who have some files open if nothing is refused from
now on and all that is dirty can be written, since its file is open. Then a page that is held can be
given back, and a page of these files be pinned or added, unless the store is short of pins: there is
no frame without a pin, or a page has as many as can be counted. -/
namespace PagedHeap

/-- A page of an open file that is cached is one of the file. -/
lemma Sound.lt_pages {own : String → Prop} {opens : List (UInt32 × String)} {holds : List Hold}
    {s : Store} (hs : Sound own opens holds s) {id : PageId} {g : OpenFile} {i : Nat} {f : Frame}
    (hopen : s.cache.disk.opened.find? id.file = some g)
    (hc : s.cache.pool.cached id = some (i, f)) : id.page < g.pages := by
  have hlt := hs.faithful.resident hc (hs.accounted.opened.bound hopen).1
  rw [hs.orderly.extent_eq hopen] at hlt
  exact UInt32.lt_iff_toNat_lt.mpr hlt

namespace Store
variable {own : String → Prop} {opens : List (UInt32 × String)} {holds : List Hold} {s s' : Store}
  {h : Hold} {file n : UInt32} {name : String} {e : StoreError}

/-- Why no pin is to be had. -/
inductive Short (s : Store) : StoreError → Prop
  /-- Every frame is pinned. -/
  | full (free : s.cache.pool.free = []) (full : s.cache.pool.Full) : Short s .poolFull
  /-- A page has as many pins as can be counted. -/
  | crowded {id} (pins : s.cache.pool.pins id = Frame.maxPins) : Short s .countOverflow

/-- The store serves those who have these files open. -/
structure Serves (opens : List (UInt32 × String)) (s : Store) : Prop where
  gate : ∀ k r, s.journal.length ≤ k → s.gate k r = none
  marked : ∀ {id}, s.cache.pool.Marked id → ∃ name, (id.file, name) ∈ opens

section Refused
variable {id : PageId} {dirty : Bool}

lemma refused_readPage (s : Store) (id other : PageId) :
    (Store.readPage id s).2.refused other = s.refused other := by
  unfold Store.readPage
  cases hg : s.refusal (.read id) with
  | some e => rw [request_refused hg]; simp [refused_cons, Event.refuses]
  | none =>
    rw [request_granted hg]
    cases (Cache.read id s.cache).1 <;> simp [refused_cons, Event.refuses]

lemma refused_unpinPage (other : PageId) (hok : (Store.unpinPage id dirty s).1 = .ok ()) :
    (Store.unpinPage id dirty s).2.refused other = s.refused other := by
  unfold Store.unpinPage at hok ⊢
  cases hg : s.refusal (.unpin id dirty) with
  | some e =>
    rw [request_refused hg] at hok
    cases hok
  | none =>
    rw [request_granted hg] at hok ⊢
    rw [show (Cache.unpin id dirty s.cache).1 = .ok () from hok]
    simp [refused_cons, Event.refuses]

end Refused

namespace Serves

lemma mono {opens' : List (UInt32 × String)} (hs : s.Serves opens) (hsub : opens ⊆ opens') :
    s.Serves opens' :=
  { hs with marked := fun hm => (hs.marked hm).imp fun _ ho => hsub ho }

lemma overwrite (hs : s.Serves opens) (frame : Nat) (page : Page) :
    (s.overwrite frame page).Serves opens where
  gate := hs.gate
  marked hm := hs.marked
    (Pool.marked_modifyFrame (fun f => { f with contents := page }) (fun _ => rfl) hm)

lemma request {α : Type} {r : Request} {act : CacheM α} {event : α → Event} (hs : s.Serves opens)
    (hmarked : ∀ {id}, (act s.cache).2.pool.Marked id → ∃ name, (id.file, name) ∈ opens) :
    (Store.request r act event s).2.Serves opens := by
  obtain ⟨c, e, hr, hc⟩ := Store.exists_request r act event s
  rw [hr]
  refine ⟨fun k r hk => hs.gate k r (Nat.le_of_succ_le hk), fun hm => ?_⟩
  rcases hc with rfl | rfl
  · exact hs.marked hm
  · exact hmarked hm

/-- A request reaches the cache, unless a page has too many pins. -/
lemma outcome {α : Type} (hs : s.Serves opens) (r : Request) (act : CacheM α) (event : α → Event) :
    match Store.request r act event s with
    | (.ok a, s') => act s.cache = (.ok a, s'.cache)
    | (.error e, s') => act s.cache = (.error e, s'.cache) ∨
        s'.Short e ∧ ∃ id ∈ s.wanted? r, s.cache.pool.pins id = Frame.maxPins := by
  cases hr : s.refusal r with
  | some e =>
    rw [request_refused hr]
    rcases refusal_eq_some hr with hg | ⟨rfl, id, hid, hpins⟩
    · cases (hs.gate _ r (Nat.le_refl _)).symm.trans hg
    · exact Or.inr ⟨.crowded hpins, id, hid, hpins⟩
  | none =>
    rw [request_granted hr]
    rcases act s.cache with ⟨_ | _, c⟩
    · exact Or.inl rfl
    · rfl

/-- A frame can be claimed unless all are pinned. -/
lemma claim_cases (hs : s.Serves opens) (hp : Pinned holds s) {d : Disk} (hd : Opened opens d)
    {id : PageId} {contents : Page} {r : Except StoreError Nat} {c : Cache}
    (hc : Cache.onPool (Pool.claim Cache.writeBack id contents) ⟨s.cache.pool, d⟩ = (r, c)) :
    match r with
    | .ok _ => True
    | .error e => e = .poolFull ∧ c.pool.free = [] ∧ c.pool.Full := by
  cases r with
  | ok i => trivial
  | error e =>
    have herr : (s.cache.pool.claim Cache.writeBack id contents d).1 = .error e :=
      congrArg Prod.fst hc
    have hpool : (s.cache.pool.claim Cache.writeBack id contents d).2.1 = c.pool :=
      congrArg (·.2.pool) hc
    rcases hp.wf.claim_error herr with ⟨he, hfree, hfull⟩ | ⟨victim, i, f, d', hv, hdirty, hw⟩
    · exact ⟨he, hpool ▸ hp.wf.full_of_claim herr hfree hfull⟩
    · obtain ⟨name, ho⟩ := hs.marked ⟨i, f, hv, hdirty⟩
      obtain ⟨g, hopen, -⟩ := hd.named _ ho
      have hpage := hp.page (Pool.cached_eq_some_iff.mp hv).1
      rw [Cache.writeBack, Disk.writePage_of_open hopen hpage] at hw
      cases hw

theorem unpinPage (hs : s.Serves opens) (ha : Accounted opens (h :: holds) s)
    (hfile : ∃ name, (h.id.file, name) ∈ opens) :
    ∃ s', Store.unpinPage h.id h.dirty s = (.ok (), s') ∧ s'.Serves opens := by
  obtain ⟨pool, hu, -, f, hc, -⟩ := ha.pinned.unpin_ok h.dirty
  have hpool : s.cache.pool.unpin h.id h.dirty = .ok pool := by
    unfold Cache.unpin at hu
    split at hu
    · next hp =>
      cases hu
      exact hp
    · cases hu
  have hserves : (Store.unpinPage h.id h.dirty s).2.Serves opens := by
    refine hs.request fun {id} hm => ?_
    rw [hu] at hm
    rcases ha.pinned.wf.unpin_marked hpool hm with hm | ⟨rfl, -⟩
    · exact hs.marked hm
    · exact hfile
  have hgranted : s.refusal (.unpin h.id h.dirty) = none :=
    (refusal_eq_gate rfl).trans (hs.gate _ _ (Nat.le_refl _))
  have hok : (Store.unpinPage h.id h.dirty s).1 = .ok () := by
    unfold Store.unpinPage
    rw [request_granted hgranted, hu]
  exact ⟨_, Prod.ext hok rfl, hserves⟩

section Files
variable {g : OpenFile}

/-- The cache finds a page of an open file, or is told that there is none. -/
lemma cache_read (hs : s.Serves opens) (hsound : Sound own opens holds s)
    (hopen : s.cache.disk.opened.find? file = some g) :
    match Cache.read ⟨file, n⟩ s.cache with
    | (.ok _, _) => n < g.pages
    | (.error e, c) => e = .pageNotFound ⟨file, n⟩ ∧ g.pages ≤ n ∨
        (e = .poolFull ∧ c.pool.free = [] ∧ c.pool.Full) ∧ n < g.pages := by
  have ha := hsound.accounted
  have hread := (Disk.regular_of_orderly ha.opened hsound.orderly).readPage
    (show s.cache.disk.opened.find? (PageId.mk file n).file = some g from hopen)
  rw [Disk.count_of_open hopen] at hread
  cases hf : s.cache.pool.fetch ⟨file, n⟩ with
  | some found =>
    obtain ⟨i, pool⟩ := found
    rw [Cache.read_of_fetch hf]
    obtain ⟨-, f, hc, -⟩ := ha.pinned.wf.fetch hf
    exact hsound.lt_pages hopen hc
  | none =>
    split at hread
    · next hle =>
      rw [Cache.read_of_error hf hread]
      exact Or.inl ⟨rfl, hle⟩
    · next hlt =>
      rw [Cache.read_of_ok hf hread]
      rcases hc : Cache.onPool (Pool.claim Cache.writeBack ⟨file, n⟩ _) s.cache with ⟨_ | i, c⟩
      · exact Or.inr ⟨hs.claim_cases ha.pinned ha.opened hc, UInt32.not_le.mp hlt⟩
      · exact UInt32.not_le.mp hlt

/-- A page is added to an open file, unless it has as many as can be counted. -/
lemma cache_alloc (hs : s.Serves opens) (ha : Accounted opens holds s)
    (hopen : s.cache.disk.opened.find? file = some g) :
    match Cache.alloc file s.cache with
    | (.ok _, _) => True
    | (.error e, c) => e = .countOverflow ∧ g.pages = noPage ∨
        e = .poolFull ∧ c.pool.free = [] ∧ c.pool.Full := by
  have halloc := Disk.allocPage_eq hopen
  rw [Disk.count_of_open hopen] at halloc
  by_cases hn : g.pages = noPage
  · rw [Cache.alloc_of_error (halloc.trans (if_pos hn))]
    exact Or.inl ⟨rfl, hn⟩
  · have hlast : s.cache.disk.opened.find? (PageId.mk file g.pages).file = some g := hopen
    rw [Cache.alloc_of_ok (halloc.trans (if_neg hn))]
    rcases hc : Cache.onPool (Pool.claim Cache.writeBack ⟨file, g.pages⟩ Page.blank)
      ⟨s.cache.pool, s.cache.disk.written g ⟨file, g.pages⟩ Page.blank⟩ with ⟨_ | i, c⟩
    · exact Or.inr (hs.claim_cases ha.pinned (ha.opened.written (.page .refl hlast hn)) hc)
    · trivial

end Files

/-- A page of an open file is pinned if the file has such a page. -/
theorem readPage (hs : s.Serves opens) (hsound : Sound own opens holds s)
    (hfile : (file, name) ∈ opens) (n : UInt32) :
    match Store.readPage ⟨file, n⟩ s with
    | (.ok _, s') => n.toNat < s.cache.disk.extent name ∧ s'.Serves opens
    | (.error e, s') => s'.Serves opens ∧
        (e = .pageNotFound ⟨file, n⟩ ∧ s.cache.disk.extent name ≤ n.toNat ∨
          s'.Short e ∧ n.toNat < s.cache.disk.extent name) := by
  obtain ⟨g, hopen, rfl⟩ := hsound.accounted.opened.named _ hfile
  have hread := hs.cache_read (n := n) hsound hopen
  have hafter : (Store.readPage ⟨file, n⟩ s).2.Serves opens :=
    hs.request fun hm => hs.marked ((Cache.quiet_read hsound.accounted.pinned.wf _).marked hm)
  have houtcome := hs.outcome (.read ⟨file, n⟩) (Cache.read ⟨file, n⟩) fun _ => .fetched ⟨file, n⟩
  rw [hsound.orderly.extent_eq hopen]
  unfold Store.readPage at hafter ⊢
  rcases hr : Store.request (.read ⟨file, n⟩) (Cache.read ⟨file, n⟩) (fun _ => .fetched ⟨file, n⟩) s
    with ⟨e | i, s'⟩ <;> rw [hr] at houtcome hafter
  · refine ⟨hafter, ?_⟩
    rcases houtcome with hc | ⟨hshort, id, hid, hpins⟩
    · rw [hc] at hread
      rcases hread with ⟨he, hle⟩ | ⟨⟨rfl, hfree, hfull⟩, hlt⟩
      · exact Or.inl ⟨he, UInt32.le_iff_toNat_le.mp hle⟩
      · exact Or.inr ⟨.full hfree hfull, UInt32.lt_iff_toNat_lt.mp hlt⟩
    · obtain rfl := Option.some.inj hid
      have hpinned : s.cache.pool.pins ⟨file, n⟩ ≠ 0 := by
        rw [hpins]
        decide
      obtain ⟨i, f, hc, -⟩ := Pool.exists_cached_of_pins hpinned
      exact Or.inr ⟨hshort, UInt32.lt_iff_toNat_lt.mp (hsound.lt_pages hopen hc)⟩
  · dsimp only at houtcome
    rw [houtcome] at hread
    exact ⟨UInt32.lt_iff_toNat_lt.mp hread, hafter⟩

/-- A page is added to an open file if it does not have too many. -/
theorem allocPage (hs : s.Serves opens) (hsound : Sound own opens holds s)
    (hfile : (file, name) ∈ opens) :
    match Store.allocPage file s with
    | (.ok _, s') => s'.Serves opens
    | (.error e, s') => s'.Serves opens ∧ (s'.Short e ∨
        e = .countOverflow ∧ s.cache.disk.extent name + 1 = UInt32.size) := by
  obtain ⟨g, hopen, rfl⟩ := hsound.accounted.opened.named _ hfile
  have halloc := hs.cache_alloc hsound.accounted hopen
  have hafter : (Store.allocPage file s).2.Serves opens :=
    hs.request fun hm => hs.marked ((Cache.quiet_alloc hsound.accounted.pinned.wf file).marked hm)
  have houtcome := hs.outcome (.alloc file) (Cache.alloc file) fun r => .allocated ⟨file, r.1⟩
  rw [hsound.orderly.extent_eq hopen]
  unfold Store.allocPage at hafter ⊢
  rcases hr : Store.request (.alloc file) (Cache.alloc file) (fun r => .allocated ⟨file, r.1⟩) s
    with ⟨e | i, s'⟩ <;> rw [hr] at houtcome hafter
  · refine ⟨hafter, ?_⟩
    rcases houtcome with hc | ⟨hshort, -⟩
    · rw [hc] at halloc
      rcases halloc with ⟨he, hn⟩ | ⟨rfl, hfree, hfull⟩
      · exact Or.inr ⟨he, by rw [hn]; rfl⟩
      · exact Or.inl (.full hfree hfull)
    · exact Or.inl hshort
  · exact hafter

end Serves
end Store

namespace Tended
variable {files opens : List (UInt32 × String)} {holds : List Hold} {s : Store} {n : Nat}
  {left : PageId → Nat} {e : StoreError}

theorem serves (hs : Tended n left files opens holds s) (hsub : files ⊆ opens) : s.Serves opens :=
  ⟨hs.gate, fun hm => (hs.marked hm).imp fun _ ho => hsub ho⟩

/-- With fewer pins than frames there is no want of pins where nothing was ever refused. -/
theorem not_short (hs : Tidy n files opens holds s) (hroom : holds.length < min n Frame.maxPins) :
    ¬ s.Short e := by
  have hp := hs.accounted.pinned
  have hpins : ∀ id, s.cache.pool.pins id = holdsOn holds id := fun id => by
    rw [hp.pins_eq, hs.returned]
    exact Nat.zero_add _
  rintro (⟨hfree, hfull⟩ | @⟨id, hmax⟩)
  · have hleft : ∃ i < n, i ∉ holds.map Hold.frame := by
      by_contra hnone
      push Not at hnone
      have hle := (List.nodup_range.subperm fun i hi => hnone i (List.mem_range.mp hi)).length_le
      rw [List.length_range, List.length_map] at hle
      omega
    obtain ⟨i, hi, hout⟩ := hleft
    have hfind := hp.wf.covered (hs.size.symm ▸ hi) (by simp [hfree])
    have hpinned := hfull i (hs.size.symm ▸ hi)
    have hheld : 0 < holdsOn holds (s.cache.pool.frame i).bound := by
      rw [← hpins, Pool.pins, Pool.cached_eq_some_iff.mpr ⟨hfind, rfl⟩]
      exact Nat.pos_of_ne_zero hpinned
    obtain ⟨h, hh, hid⟩ := List.countP_pos_iff.mp hheld
    have hframe := hp.held h hh
    rw [of_decide_eq_true hid, hfind] at hframe
    exact hout (List.mem_map.mpr ⟨h, hh, (Option.some.inj hframe).symm⟩)
  · have hle : holdsOn holds id ≤ holds.length := List.countP_le_length
    rw [← hpins, hmax] at hle
    omega

end Tended
end PagedHeap
