import PagedHeap.Proofs.Pins

/-! Requests keep the journal and the pool in agreement with the pins that are held: a page read or
added is held once more, and one given back is held once less, also if that was refused. -/
namespace PagedHeap
open Store

namespace Store
variable {s : Store} {id : PageId} {c : Cache} {e : Event}

lemma granted_cons : ({ s with cache := c, journal := e :: s.journal } : Store).granted id =
    s.granted id + if e.grants id then 1 else 0 := by simp [granted, List.countP_cons]

lemma dropped_cons : ({ s with cache := c, journal := e :: s.journal } : Store).dropped id =
    s.dropped id + if e.drops id then 1 else 0 := by simp [dropped, List.countP_cons]

lemma refused_cons : ({ s with cache := c, journal := e :: s.journal } : Store).refused id =
    s.refused id + if e.refuses id then 1 else 0 := by simp [refused, List.countP_cons]

end Store

namespace Pinned
variable {holds : List Hold} {s : Store} {h : Hold} {id : PageId}

lemma note (hs : Pinned holds s) {e : Event} {c : Cache} (hwf : c.pool.Wf)
    (hcached : ∀ id, c.pool.cached id = s.cache.pool.cached id)
    (hgrants : ∀ id, e.grants id = false) (hdrops : ∀ id, e.drops id = false)
    (hrefuses : ∀ id, e.refuses id = false) :
    Pinned holds { s with cache := c, journal := e :: s.journal } := by
  refine hs.congr hwf (fun id => ?_) (fun id => ?_) fun id => ?_
  · rw [Pool.find?_eq_map_cached, Pool.find?_eq_map_cached, hcached]
  · rw [Pool.pins, Pool.pins, hcached]
  · rw [granted_cons, dropped_cons, refused_cons, hgrants, hdrops, hrefuses]
    exact ⟨rfl, rfl, rfl⟩

/-- A claim of a frame, entered into the journal, is one more hold on its page. -/
lemma claim {contents : Page} {c c' : Cache} {i : Nat} {e : Event} (hs : Pinned holds s)
    (hpool : c.pool = s.cache.pool) (hpage : id.page ≠ noPage)
    (hfew : s.cache.pool.pins id < Frame.maxPins) (hc : Cache.Claims id contents c (.ok i) c')
    (hgrants : ∀ other, e.grants other = decide (id = other))
    (hdrops : ∀ id, e.drops id = false) (hrefuses : ∀ id, e.refuses id = false) :
    Pinned (⟨id, i, false⟩ :: holds) { s with cache := c', journal := e :: s.journal } := by
  have hclaim := hc.claimed
  rw [hpool] at hclaim
  have hgranted : ∀ other, ({ s with cache := c', journal := e :: s.journal } : Store).granted
      other = s.granted other + if other = id then 1 else 0 := fun other => by
    rw [granted_cons, hgrants]
    simp [eq_comm]
  constructor
  · exact hc.wf
  · intro other j hj
    rcases hclaim.find?_old hj with rfl | hj
    · exact hpage
    · exact hs.page hj
  · intro h hh
    rcases List.mem_cons.mp hh with rfl | hh
    · exact hclaim.find?_self
    · exact hclaim.find?_pinned (hs.held h hh) (hs.pins_ne_zero hh)
  · intro other
    rw [hgranted, dropped_cons, hdrops, hclaim.pins_eq hfew, ← hs.pins other]
    simp only [Bool.false_eq_true, if_false]
    omega
  · intro other
    rw [hgranted, issued, dropped_cons, refused_cons, hdrops, hrefuses, hs.balance other, issued]
    simp only [Bool.false_eq_true, if_false, holdsOn, List.countP_cons, decide_eq_true_eq,
      eq_comm (a := id)]
    omega

theorem readPage (id : PageId) : Ensures (Pinned holds) (readPage id) fun r s =>
    match r with
    | .ok i => Pinned (⟨id, i, false⟩ :: holds) s
    | .error _ => Pinned holds s := by
  intro s hs
  unfold Store.readPage
  cases hg : s.refusal (.read id) with
  | some e =>
    rw [request_refused hg]
    exact hs.note hs.wf (fun _ => rfl) (fun _ => rfl) (fun _ => rfl) fun _ => rfl
  | none =>
    rw [request_granted hg]
    rcases Cache.read_cases hs.wf id with ⟨e, -, -, he⟩ | ⟨contents, hd, hc⟩
    · rw [he]
      exact hs.note hs.wf (fun _ => rfl) (fun _ => rfl) (fun _ => rfl) fun _ => rfl
    · cases hr : (Cache.read id s.cache).1 with
      | error e =>
        rw [hr] at hc
        exact hs.note hc.wf (fun _ => hc.claimed.cached_of_error _) (fun _ => rfl) (fun _ => rfl)
          fun _ => rfl
      | ok i =>
        rw [hr] at hc
        have hpage : id.page ≠ noPage := by
          cases hid : s.cache.pool.find? id with
          | some j => exact hs.page hid
          | none =>
            obtain ⟨h, -, hlt, -⟩ := Disk.readPage_eq_ok_iff.mp
              (hd (Pool.cached_eq_none_iff.mpr hid))
            exact Disk.page_ne_noPage_of_lt hlt
        have hfew := (refusal_eq_none_iff.mp hg).2 id rfl
        exact hs.claim rfl hpage hfew hc (fun _ => rfl) (fun _ => rfl) fun _ => rfl

theorem allocPage (file : UInt32) : Ensures (Pinned holds) (allocPage file) fun r s =>
    match r with
    | .ok (n, i) => Pinned (⟨⟨file, n⟩, i, false⟩ :: holds) s
    | .error _ => Pinned holds s := by
  intro s hs
  unfold Store.allocPage
  cases hg : s.refusal (.alloc file) with
  | some e =>
    rw [request_refused hg]
    exact hs.note hs.wf (fun _ => rfl) (fun _ => rfl) (fun _ => rfl) fun _ => rfl
  | none =>
    rw [request_granted hg]
    rcases Cache.alloc_cases hs.wf file with ⟨e, -, he⟩ | ⟨n, disk, r, hd, hc, hr⟩
    · rw [he]
      exact hs.note hs.wf (fun _ => rfl) (fun _ => rfl) (fun _ => rfl) fun _ => rfl
    · rw [hr]
      cases r with
      | error e =>
        exact hs.note hc.wf (fun _ => hc.claimed.cached_of_error _) (fun _ => rfl) (fun _ => rfl)
          fun _ => rfl
      | ok i =>
        obtain ⟨g, hopen, rfl, hpage, -⟩ := Disk.allocPage_eq_ok_iff.mp hd
        have hfew := (refusal_eq_none_iff.mp hg).2 ⟨file, g.pages⟩ (by simp [wanted?, hopen])
        exact hs.claim (c := { s.cache with disk }) rfl hpage hfew hc (fun _ => rfl) (fun _ => rfl)
          fun _ => rfl

/-- A pin that is held can be given back, unless that is refused. -/
lemma unpin_ok (hs : Pinned (h :: holds) s) (dirty : Bool) :
    ∃ pool, Cache.unpin h.id dirty s.cache = (.ok (), { s.cache with pool }) ∧ pool.Wf ∧
      ∃ f, s.cache.pool.cached h.id = some (h.frame, f) ∧ f.pins ≠ 0 ∧
      ∀ other, pool.cached other = if other = h.id
        then some (h.frame, f.drop dirty)
        else s.cache.pool.cached other := by
  obtain ⟨i, f, hc, hf⟩ := Pool.exists_cached_of_pins (hs.pins_ne_zero List.mem_cons_self)
  have hpins : f.pins ≠ 0 := hf ▸ hs.pins_ne_zero List.mem_cons_self
  obtain ⟨pool, hu, hw, hcached⟩ := hs.wf.unpin_ok hc hpins dirty
  have hi := hs.held h List.mem_cons_self
  rw [Pool.find?_eq_map_cached, hc] at hi
  cases hi
  exact ⟨pool, by simp [Cache.unpin, hu], hw, f, hc, hpins, hcached⟩

theorem unpinPage (h : Hold) (dirty : Bool) :
    Ensures (Pinned (h :: holds)) (unpinPage h.id dirty) fun _ => Pinned holds := by
  intro s hs
  unfold Store.unpinPage
  have hholds : ∀ other, holdsOn (h :: holds) other =
      holdsOn holds other + if other = h.id then 1 else 0 := fun other => by
    simp [holdsOn, List.countP_cons, eq_comm]
  cases hg : s.refusal (.unpin h.id dirty) with
  | some e =>
    rw [request_refused hg]
    refine ⟨hs.wf, hs.page, fun h' hh' => hs.held h' (List.mem_cons_of_mem _ hh'),
      fun other => ?_, fun other => ?_⟩
    · rw [granted_cons, dropped_cons]
      exact hs.pins other
    · have := hs.balance other
      rw [hholds] at this
      rw [granted_cons, issued, dropped_cons, refused_cons]
      simp only [issued, Event.grants, Event.drops, Event.refuses, Bool.false_eq_true, if_false,
        decide_eq_true_eq, eq_comm (a := h.id)] at this ⊢
      omega
  | none =>
    obtain ⟨pool, hu, hw, f, hc, hpins, hcached⟩ := hs.unpin_ok dirty
    rw [request_granted hg, hu]
    have hfind : ∀ other, pool.find? other = s.cache.pool.find? other := fun other => by
      rw [Pool.find?_eq_map_cached, Pool.find?_eq_map_cached, hcached]
      split
      · next ho => rw [ho, hc]; rfl
      · rfl
    have hp : ∀ other, pool.pins other + (if other = h.id then 1 else 0) =
        s.cache.pool.pins other := fun other => by
      rw [Pool.pins, Pool.pins, hcached]
      split
      · next ho =>
        rw [ho, hc]
        simp only [Option.map_some, Option.getD_some, Frame.pins_drop hpins]
        omega
      · rfl
    refine ⟨hw, fun hi => hs.page ((hfind _).symm.trans hi), fun h' hh' => (hfind _).trans
      (hs.held h' (List.mem_cons_of_mem _ hh')), fun other => ?_, fun other => ?_⟩
    · have := hs.pins other
      have := hp other
      rw [granted_cons, dropped_cons]
      simp only [Event.grants, Event.drops, Bool.false_eq_true, if_false, decide_eq_true_eq,
        eq_comm (a := h.id)]
      omega
    · have := hs.balance other
      rw [hholds] at this
      rw [granted_cons, issued, dropped_cons, refused_cons]
      simp only [issued, Event.grants, Event.drops, Event.refuses, Bool.false_eq_true, if_false,
        decide_eq_true_eq, eq_comm (a := h.id)] at this ⊢
      omega

theorem flushFile (file : UInt32) :
    Ensures (Pinned holds) (flushFile file) fun _ => Pinned holds := by
  intro s hs
  unfold Store.flushFile
  cases hg : s.refusal (.flush file) with
  | some e =>
    rw [request_refused hg]
    exact hs.note hs.wf (fun _ => rfl) (fun _ => rfl) (fun _ => rfl) fun _ => rfl
  | none =>
    rw [request_granted hg]
    have hflush := hs.wf.flush_same Cache.writeBack (fun id => id.file = file) s.cache.disk
    refine hs.congr ?_ (fun id => ?_) (fun id => ?_) fun id => ?_
    · rw [Cache.flushFile_apply]
      exact hflush.1
    · rw [Cache.flushFile_apply]
      exact hflush.2.find id
    · rw [Cache.flushFile_apply]
      exact hflush.2.pins id
    · rw [granted_cons, dropped_cons, refused_cons]
      cases (Cache.flushFile file s.cache).1 <;> exact ⟨rfl, rfl, rfl⟩

theorem ofDisk (hs : Pinned holds s) (disk : Disk) :
    Pinned holds { s with cache := { s.cache with disk } } :=
  ⟨hs.wf, hs.page, hs.held, hs.pins, hs.balance⟩

theorem setContents (hs : Pinned holds s) (i : Nat) (page : Page) :
    Pinned holds { s with cache := s.cache.setContents i page } :=
  let change : Frame → Frame := fun f => { f with contents := page }
  hs.congr (hs.wf.modifyFrame i change rfl) (fun _ => rfl)
    (fun id => Pool.pins_modifyFrame change (fun _ => rfl) i id) fun _ => ⟨rfl, rfl, rfl⟩

end Pinned
end PagedHeap
