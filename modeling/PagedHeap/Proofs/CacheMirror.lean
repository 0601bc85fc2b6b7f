import PagedHeap.Proofs.OpenPages
import PagedHeap.Proofs.PoolRoom

/-! A cache and what was last written to each page. `Cache.Mirrors` says that a cached page is in its
frame as it was last written, and that a page is on the disk so unless it is marked dirty or somebody
is still at work on it. Moving pages between the frames and the disk keeps this. -/
namespace PagedHeap

namespace Pool
variable {σ : Type} {sink : Sink σ} {pool pool' : Pool} {s s' : σ} {select : PageId → Bool} {k : Nat}

lemma flushEach_dirty {pages : List (PageId × Nat)}
    (hf : flushEach sink pages pool s = (.ok k, pool', s')) (j : Nat) :
    (pool'.frame j).dirty = true → (pool.frame j).dirty = true ∧
      (j < pool.size → j ∉ pages.map Prod.snd) := by
  induction pages generalizing pool s k with
  | nil =>
    cases hf
    exact fun hd => ⟨hd, fun _ => List.not_mem_nil⟩
  | cons e rest ih =>
    obtain ⟨id, i⟩ := e
    rw [flushEach] at hf
    split at hf
    · cases hf
    · next s₁ hs =>
      rcases hr : flushEach sink rest (pool.modifyFrame i Frame.clean) s₁ with ⟨r, pool₁, s₂⟩
      rw [hr] at hf
      cases r with
      | error e => cases hf
      | ok m =>
        cases hf
        intro hd
        obtain ⟨hdirty, hout⟩ := ih hr hd
        rw [frame_modifyFrame] at hdirty
        split at hdirty
        · cases hdirty
        · next hne =>
          refine ⟨hdirty, fun hj => ?_⟩
          rw [List.map_cons, List.mem_cons, not_or]
          exact ⟨fun hij => hne ⟨hij.symm, hj⟩, hout (by rwa [size_modifyFrame])⟩

/-- When the pages selected were written out, none of them is marked dirty. -/
theorem Wf.flush_clean (h : pool.Wf) (hf : pool.flush sink select s = (.ok k, pool', s'))
    {id : PageId} {i : Nat} {f : Frame} (hfind : pool.find? id = some i)
    (hc : pool'.cached id = some (i, f)) (hs : select id = true) : f.dirty = false := by
  obtain ⟨-, rfl⟩ := cached_eq_some_iff.mp hc
  rw [← Bool.not_eq_true]
  intro hd
  obtain ⟨hdirty, hout⟩ := flushEach_dirty hf i hd
  refine hout (h.bound hfind).1 (List.mem_map_of_mem (a := (id, i)) ?_)
  refine List.mem_mergeSort.mpr (List.mem_filter.mpr ⟨Table.mem_of_find? hfind, ?_⟩)
  simp [hs, hdirty]

end Pool

namespace Cache
variable {busy busy' : PageId → Prop} {memory : PageId → Page} {c c' : Cache} {id : PageId}
  {i : Nat} {f : Frame} {p : Page} {pool' : Pool} {disk' : Disk}

/-- What is cached of a page, or that nothing is, agrees with what was last written to the page. -/
def Fits (busy : PageId → Prop) (memory : PageId → Page) (d : Disk) (id : PageId) :
    Option (Nat × Frame) → Prop
  | none => id.page < d.count id.file → d.saved id = memory id
  | some (_, f) => id.page < d.count id.file ∧ f.contents = memory id ∧
      (f.dirty = true ∨ busy id ∨ d.saved id = memory id)

/-- Every page agrees with what was last written to it; there are zeros behind the end of a file. -/
structure Mirrors (busy : PageId → Prop) (memory : PageId → Page) (c : Cache) : Prop where
  regular : c.disk.Regular
  fits : ∀ id, Fits busy memory c.disk id (c.pool.cached id)
  beyond : ∀ {id}, c.disk.count id.file ≤ id.page → memory id = Page.blank

namespace Mirrors

lemma inside (hm : Mirrors busy memory c) (hc : c.pool.cached id = some (i, f)) :
    id.page < c.disk.count id.file ∧ f.contents = memory id ∧
      (f.dirty = true ∨ busy id ∨ c.disk.saved id = memory id) := by
  have := hm.fits id
  rwa [hc] at this

/-- Pages can move between the frames as long as each of them fits. -/
lemma repool (hm : Mirrors busy memory c)
    (hfits : ∀ id, Fits busy' memory c.disk id (pool'.cached id)) :
    Mirrors busy' memory ⟨pool', c.disk⟩ := ⟨hm.regular, hfits, hm.beyond⟩

lemma same (hm : Mirrors busy memory c) (h : ∀ id, pool'.cached id = c.pool.cached id) :
    Mirrors busy memory ⟨pool', c.disk⟩ := hm.repool fun id => (h id).symm ▸ hm.fits id

/-- A cached page can be written to the disk. -/
theorem write (hm : Mirrors busy memory c) (hc : c.pool.cached id = some (i, f)) :
    ∃ disk', writeBack id f.contents c.disk = (.ok (), disk') ∧
      Mirrors busy memory ⟨c.pool, disk'⟩ ∧ disk'.saved id = memory id ∧
      ∀ file, disk'.count file = c.disk.count file := by
  obtain ⟨hlt, hcontents, -⟩ := hm.inside hc
  obtain ⟨h, hf, hpage⟩ := Disk.open_of_lt_count hlt
  have hp := Disk.page_ne_noPage_of_lt hpage
  have hcount : ∀ file, (c.disk.written h id f.contents).count file = c.disk.count file := by
    intro file
    rw [Disk.Regular.count_written hf, if_neg]
    rintro ⟨-, hle⟩
    exact UInt32.not_le.mpr hpage hle
  have hsaved : ∀ other, (c.disk.written h id f.contents).saved other =
      if other = id then memory id else c.disk.saved other := by
    intro other
    rw [hm.regular.saved_written hf, hcontents]
  refine ⟨c.disk.written h id f.contents, by rw [writeBack, Disk.writePage_of_open hf hp],
    ⟨hm.regular.written hf hp, fun other => ?_, fun hle => ?_⟩, by rw [hsaved, if_pos rfl], hcount⟩
  · have hfit := hm.fits other
    cases ho : c.pool.cached other with
    | none =>
      rw [ho] at hfit
      intro hlt'
      rw [hcount] at hlt'
      rw [hsaved, if_neg]
      · exact hfit hlt'
      · rintro rfl
        rw [hc] at ho
        cases ho
    | some e =>
      rw [ho] at hfit
      obtain ⟨hlt', hcontents', hor⟩ := hfit
      refine ⟨by rwa [hcount], hcontents', ?_⟩
      rw [hsaved]
      split
      · next hother => exact Or.inr (Or.inr (hother ▸ rfl))
      · exact hor
  · rw [hcount] at hle
    exact hm.beyond hle

/-- The search for a frame keeps all this, as long as nobody is at work on a page without a pin. -/
theorem vacated (hm : Mirrors busy memory c) (hbusy : ∀ {id}, busy id → c.pool.pins id ≠ 0)
    {r : Except StoreError Nat}
    (hv : Pool.Vacated writeBack c.pool c.disk (r, pool', disk')) :
    Mirrors busy memory ⟨pool', disk'⟩ ∧ ∀ file, disk'.count file = c.disk.count file := by
  cases hv with
  | unused _ same => exact ⟨hm.same same, fun _ => rfl⟩
  | full _ same => exact ⟨hm.same same, fun _ => rfl⟩
  | stuck _ there _ failed _ =>
    obtain ⟨disk', hw, -⟩ := hm.write there
    rw [hw] at failed
    cases failed
  | @evicted i victim f _ _ _ there unpinned written now =>
    have leave : ∀ {disk : Disk}, Mirrors busy memory ⟨c.pool, disk⟩ →
        disk.saved victim = memory victim → Mirrors busy memory ⟨pool', disk⟩ := by
      intro disk hmd hsaved
      refine hmd.repool fun id => ?_
      rw [now]
      split
      · next hid => exact fun _ => hid ▸ hsaved
      · exact hmd.fits id
    rcases written with ⟨hclean, rfl⟩ | ⟨-, hs⟩
    · refine ⟨leave hm ?_, fun _ => rfl⟩
      rcases (hm.inside there).2.2 with hdirty | hb | hsaved
      · rw [hclean] at hdirty
        cases hdirty
      · exact absurd (by simp [Pool.pins, there, unpinned]) (hbusy hb)
      · exact hsaved
    · obtain ⟨disk₁, hw, hmd, hsaved, hcount⟩ := hm.write there
      obtain rfl : disk₁ = disk' := (Prod.mk.inj (hw.symm.trans hs)).2
      exact ⟨leave hmd hsaved, hcount⟩

/-- So does the claim of a frame for a page of an open file, with the contents it has on the disk if
it is not cached. -/
theorem claims (hm : Mirrors busy memory c) (hbusy : ∀ {id}, busy id → c.pool.pins id ≠ 0)
    (hlt : id.page < c.disk.count id.file)
    (hp : c.pool.cached id = none → p = c.disk.saved id) {r : Except StoreError Nat}
    (hc : Claims id p c r c') : Mirrors busy memory c' ∧
      (∀ file, c'.disk.count file = c.disk.count file) ∧
      ∀ i, r = .ok i → c'.contents i = memory id := by
  obtain ⟨pool', disk'⟩ := c'
  have hcontents : ∀ {i f}, pool'.cached id = some (i, f) → f.contents = memory id →
      ∀ j, (Except.ok i : Except StoreError Nat) = .ok j →
        (Cache.mk pool' disk').contents j = memory id := by
    rintro i f hc' hf _ ⟨rfl⟩
    obtain ⟨-, hframe⟩ := Pool.cached_eq_some_iff.mp hc'
    rw [contents, hframe, hf]
  cases hc.claimed with
  | @hit i f _ here now =>
    have hself : pool'.cached id = some (i, f.pin) := by rw [now, if_pos rfl]
    refine ⟨hm.repool fun other => ?_, fun _ => rfl, hcontents hself (hm.inside here).2.1⟩
    rw [now]
    split
    · next hid =>
      obtain ⟨hlt', hcontents', hor⟩ := hm.inside here
      exact hid ▸ ⟨hlt', hcontents', hor⟩
    · exact hm.fits other
  | failed hv =>
    obtain ⟨hm', hcount⟩ := hm.vacated hbusy hv
    exact ⟨hm', hcount, nofun⟩
  | @miss i between _ _ away hv now =>
    obtain ⟨hm', hcount⟩ := hm.vacated hbusy hv
    have hself : pool'.cached id = some (i, (Frame.assign id p).pin) := by rw [now, if_pos rfl]
    have hpage : p = memory id := by
      have := hm.fits id
      rw [away] at this
      rw [hp away, this hlt]
    have haway : between.cached id = none := by
      rcases hv.cached_of_ok id with h | ⟨h, -⟩
      · rw [h, away]
      · exact h
    refine ⟨hm'.repool fun other => ?_, hcount, hcontents hself hpage⟩
    rw [now]
    split
    · next hid =>
      subst hid
      have hfit := hm'.fits other
      rw [show (Cache.mk between disk').pool.cached other = none from haway] at hfit
      have hlt' : other.page < disk'.count other.file := by rwa [hcount]
      exact ⟨hlt', hpage, Or.inr (Or.inr (hfit hlt'))⟩
    · exact hm'.fits other

theorem flush (hm : Mirrors busy memory c) (hw : c.pool.Wf) (select : PageId → Bool) :
    ∃ k pool' disk', c.pool.flush writeBack select c.disk = (.ok k, pool', disk') ∧
      Mirrors busy memory ⟨pool', disk'⟩ ∧ ∀ file, disk'.count file = c.disk.count file := by
  have hcases := hw.flush_cases (s := c.disk)
    (P := fun pool d => Mirrors busy memory ⟨pool, d⟩ ∧
      ∀ file, d.count file = c.disk.count file) (Q := fun _ _ _ => False) writeBack select
    (fun {pool d id i} hw hp _ hfind => by
      obtain ⟨hm, hcount⟩ := hp
      have hc : pool.cached id = some (i, pool.frame i) := by simp [Pool.cached, hfind]
      obtain ⟨disk', hwrite, hm', hsaved, hcount'⟩ := hm.write hc
      simp only [hwrite]
      refine ⟨hm'.repool fun other => ?_, fun file => (hcount' file).trans (hcount file)⟩
      rw [hw.cached_modifyFrame hfind]
      split
      · next hid =>
        obtain ⟨hlt, hcontents, -⟩ := hm'.inside hc
        exact hid ▸ ⟨hlt, hcontents, Or.inr (Or.inr hsaved)⟩
      · exact hm'.fits other)
    ⟨hm, fun _ => rfl⟩
  rcases hr : c.pool.flush writeBack select c.disk with ⟨_ | k, pool', disk'⟩
  · rw [hr] at hcases
    exact hcases.2.elim
  · rw [hr] at hcases
    exact ⟨k, pool', disk', rfl, hcases.2⟩

/-- Dropping a pin keeps all this if a page on which nobody is at work any more is marked dirty. -/
theorem unpin (hm : Mirrors busy memory c) (hw : c.pool.Wf) {dirty : Bool}
    (hu : c.pool.unpin id dirty = .ok pool')
    (hbusy : ∀ {other}, busy other → busy' other ∨ other = id ∧ dirty = true) :
    Mirrors busy' memory ⟨pool', c.disk⟩ := by
  obtain ⟨i, f, hc, -, -, hnow⟩ := hw.unpin_cached hu
  refine hm.repool fun other => ?_
  have hstill : ∀ {i f}, c.pool.cached other = some (i, f) → other ≠ id →
      f.dirty = true ∨ busy' other ∨ c.disk.saved other = memory other := by
    intro i f hc' hne
    rcases (hm.inside hc').2.2 with hd | hb | hs
    · exact Or.inl hd
    · rcases hbusy hb with hb | ⟨he, -⟩
      · exact Or.inr (Or.inl hb)
      · exact absurd he hne
    · exact Or.inr (Or.inr hs)
  rw [hnow]
  split
  · next hid =>
    subst hid
    obtain ⟨hlt, hcontents, hor⟩ := hm.inside hc
    refine ⟨hlt, hcontents, ?_⟩
    cases dirty with
    | true => exact Or.inl (Bool.or_true _)
    | false =>
      rcases hor with hd | hb | hs
      · exact Or.inl (by rw [Frame.dirty_drop, hd, Bool.true_or])
      · rcases hbusy hb with hb | ⟨-, hd⟩
        · exact Or.inr (Or.inl hb)
        · cases hd
      · exact Or.inr (Or.inr hs)
  · next hid =>
    cases hc' : c.pool.cached other with
    | none =>
      have := hm.fits other
      rwa [hc'] at this
    | some e =>
      obtain ⟨hlt, hcontents, -⟩ := hm.inside hc'
      exact ⟨hlt, hcontents, hstill hc' hid⟩

theorem extend (hm : Mirrors busy memory c) {file : UInt32} {g : OpenFile}
    (hf : c.disk.opened.find? file = some g) (hn : c.disk.count file ≠ noPage) :
    Mirrors busy memory ⟨c.pool, c.disk.written g ⟨file, c.disk.count file⟩ Page.blank⟩ := by
  let new : PageId := ⟨file, c.disk.count file⟩
  have hcount := Disk.Regular.count_extended (p := Page.blank) hf
  have hsaved : ∀ other, (c.disk.written g new Page.blank).saved other =
      if other = new then Page.blank else c.disk.saved other := hm.regular.saved_written hf
  have hbeyond : memory new = Page.blank := hm.beyond (UInt32.le_refl new.page)
  have hlt_iff : ∀ id : PageId, id.page < (c.disk.written g new Page.blank).count id.file ↔
      id.page < c.disk.count id.file ∨ id = new := by
    intro id
    have hid : id = new ↔ id.file = file ∧ id.page = c.disk.count file := by
      cases id
      simp [new]
    rw [hcount, hid]
    by_cases hfile : id.file = file
    · rw [if_pos hfile, hfile, Disk.lt_add_one_iff hn, UInt32.le_iff_lt_or_eq]
      simp
    · simp [hfile]
  refine ⟨hm.regular.written hf hn, fun id => ?_, fun {id} hle => ?_⟩
  · have hfit := hm.fits id
    cases hc : c.pool.cached id with
    | some e =>
      rw [hc] at hfit
      obtain ⟨hlt, hcontents, hor⟩ := hfit
      refine ⟨(hlt_iff id).mpr (Or.inl hlt), hcontents, ?_⟩
      rw [hsaved, if_neg]
      · exact hor
      · rintro rfl
        exact UInt32.lt_irrefl _ hlt
    | none =>
      rw [hc] at hfit
      intro hlt
      rw [hsaved]
      split
      · next hid => rw [hid, hbeyond]
      · next hid => exact hfit (((hlt_iff id).mp hlt).resolve_right hid)
  · refine hm.beyond (UInt32.not_lt.mp fun hlt => ?_)
    exact UInt32.not_lt.mpr hle ((hlt_iff id).mpr (Or.inl hlt))

/-- Whoever is at work on a cached page can change it. -/
theorem change (hm : Mirrors busy memory c) (hw : c.pool.Wf) (hfind : c.pool.find? id = some i)
    (p : Page) (hself : busy' id) (hmore : ∀ {other}, busy other → busy' other) :
    Mirrors busy' (Function.update memory id p) (c.setContents i p) := by
  obtain ⟨hlt, -, -⟩ := hm.inside (Pool.cached_eq_some_iff.mpr ⟨hfind, rfl⟩)
  refine ⟨hm.regular, fun other => ?_, fun {other} hle => ?_⟩
  · have hcached := hw.cached_modifyFrame hfind (fun f => { f with contents := p }) other
    change Fits _ _ c.disk other
      ((c.pool.modifyFrame i fun f => { f with contents := p }).cached other)
    rw [hcached]
    split
    · next ho =>
      rw [ho]
      exact ⟨hlt, (Function.update_self id p memory).symm, Or.inr (Or.inl hself)⟩
    · next ho =>
      have hfit := hm.fits other
      cases hc : c.pool.cached other with
      | none =>
        rw [hc] at hfit
        intro hlt'
        rw [Function.update_of_ne ho]
        exact hfit hlt'
      | some e =>
        rw [hc] at hfit
        obtain ⟨hlt', hcontents, hor⟩ := hfit
        rw [Fits, Function.update_of_ne ho]
        exact ⟨hlt', hcontents, hor.imp_right (Or.imp_left hmore)⟩
  · rw [Function.update_of_ne]
    · exact hm.beyond hle
    · rintro rfl
      exact UInt32.not_le.mpr hlt hle

end Mirrors
end Cache
end PagedHeap
