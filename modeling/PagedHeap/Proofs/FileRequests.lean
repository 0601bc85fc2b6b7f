import Mathlib.Logic.Function.Basic
import PagedHeap.Proofs.Accounts
import PagedHeap.Proofs.FileView

/-! Requests and the files. `Shown own F` says that a store shows the pages `F` of the files of some
names. Reading, releasing and flushing pages leave what is shown; adding a page shows a page of zeros
behind the others, and changing a pinned page in its frame changes that page and no other. -/
namespace PagedHeap

namespace Store

/-- The page may differ from the disk without being marked dirty: the mark is still to come, or was
refused. -/
def Excused (holds : List Hold) (s : Store) (id : PageId) : Prop :=
  s.refused id ≠ 0 ∨ ∃ h ∈ holds, h.id = id ∧ h.dirty = true

/-- The release of a page was refused before. -/
def Torn (s : Store) : Prop := ∃ id, s.refused id ≠ 0

end Store

/-- Pins, openings and files are in order, and no page is lost. -/
structure Sound (own : String → Prop) (opens : List (UInt32 × String)) (holds : List Hold)
    (s : Store) : Prop where
  accounted : Accounted opens holds s
  orderly : Orderly own s.cache.disk
  faithful : Faithful (s.Excused holds) s.cache

/-- A store in order shows these pages of the files. If `t` holds, a release was refused before. -/
structure Shown (own : String → Prop) (F : String → Option (List Page)) (t : Prop)
    (opens : List (UInt32 × String)) (holds : List Hold) (s : Store) : Prop where
  sound : Sound own opens holds s
  shows : ∀ {name}, own name → s.cache.pages name = F name
  torn : t → s.Torn

namespace Faithful

lemma mono {excused excused' : PageId → Prop} {c : Cache} (hf : Faithful excused c)
    (he : ∀ {id}, excused id → excused' id) : Faithful excused' c :=
  { hf with truthful := fun hc hi => (hf.truthful hc hi).imp_right (Or.imp_right he) }

end Faithful

namespace Cache
variable {c : Cache} {name : String} {ps : List Page}

theorem pages_eq_some_iff (hb : c.disk.extent name ≤ UInt32.size) : c.pages name = some ps ↔
    (c.disk.number? name).isSome = true ∧ ps.length = c.disk.extent name ∧
      ∀ n : UInt32, n.toNat < c.disk.extent name → ps[n.toNat]? = some (c.page name n) := by
  rw [pages_eq]
  split
  · next hk =>
    simp only [hk, Option.some.injEq, true_and]
    constructor
    · rintro rfl
      refine ⟨by simp, fun n hn => ?_⟩
      simp [hn]
    · rintro ⟨hlen, hget⟩
      refine List.ext_getElem? fun k => ?_
      by_cases hk : k < c.disk.extent name
      · have hto : (UInt32.ofNat k).toNat = k := by
          rw [UInt32.toNat_ofNat']
          exact Nat.mod_eq_of_lt (Nat.lt_of_lt_of_le hk hb)
        have := hget (UInt32.ofNat k) (by rwa [hto])
        rw [hto] at this
        rw [this]
        simp [hk]
      · rw [List.getElem?_eq_none (by simpa using hk), List.getElem?_eq_none (by omega)]
  · next hk => simp [hk]

end Cache

namespace Sound
variable {own : String → Prop} {opens : List (UInt32 × String)} {holds hs : List Hold} {s s' : Store}
  {h : Hold} {id : PageId} {name : String} {ps : List Page}

lemma pins_of_excused (hs : Sound own opens holds s) (he : s.Excused holds id) :
    s.cache.pool.pins id ≠ 0 := by
  rw [hs.accounted.pinned.pins_eq]
  rcases he with hr | ⟨h, hh, rfl, -⟩
  · omega
  · have hpos : 0 < holdsOn holds h.id := List.countP_pos_iff.mpr ⟨h, hh, by simp⟩
    omega

lemma extent_le (hs : Sound own opens holds s) (hn : own name) :
    s.cache.disk.extent name < UInt32.size := by
  cases hk : s.cache.disk.number? name with
  | none =>
    rw [Disk.extent, Disk.file, Disk.contentsOf_eq, hk]
    change ({} : ByteFile).pages < UInt32.size
    decide
  | some k =>
    rw [Disk.extent, Disk.file_of_number hk]
    exact (hs.orderly.size hn hk).2

lemma opened (hs : Sound own opens holds s) {file : UInt32} (ho : (file, name) ∈ opens) :
    own name ∧ s.cache.disk.ids.find? name = some file ∧
      ∃ g, s.cache.disk.opened.find? file = some g ∧ g.name = name := by
  obtain ⟨g, hg, hname⟩ := hs.accounted.opened.named _ ho
  have hi := (hs.accounted.opened.bound hg).1
  rw [hname] at hi
  exact ⟨(hs.orderly.bound hi).1, hi, g, hg, hname⟩

theorem contents (hs : Sound own opens holds s) (hh : h ∈ holds) (ho : (h.id.file, name) ∈ opens)
    (hp : s.cache.pages name = some ps) : ps[h.id.page.toNat]? = some (s.contents h.frame) := by
  obtain ⟨hn, hi, -⟩ := hs.opened ho
  have hc := hs.accounted.pinned.held h hh
  have hcached : s.cache.pool.cached h.id = some (h.frame, s.cache.pool.frame h.frame) := by
    simp [Pool.cached, hc]
  have hlt := hs.faithful.resident hcached hi
  obtain ⟨-, -, hget⟩ := (Cache.pages_eq_some_iff (Nat.le_of_lt (hs.extent_le hn))).mp hp
  rw [hget _ hlt, Cache.page_of_cached hi hcached]
  rfl

end Sound

namespace Store
variable {s : Store} {holds holds' : List Hold} {id : PageId} {c : Cache} {e : Event} {α : Type}

/-- A request leaves the cache as it is or does its work there, and is entered into the journal. -/
lemma exists_request (r : Request) (act : CacheM α) (event : α → Event) (s : Store) :
    ∃ c e, (request r act event s).2 = { s with cache := c, journal := e :: s.journal } ∧
      (c = s.cache ∨ c = (act s.cache).2) := by
  cases hg : s.refusal r with
  | some e =>
    rw [request_refused hg]
    exact ⟨s.cache, _, rfl, Or.inl rfl⟩
  | none =>
    rw [request_granted hg]
    exact ⟨_, _, rfl, Or.inr rfl⟩

lemma refused_le_cons (s : Store) (c : Cache) (e : Event) (id : PageId) :
    s.refused id ≤ ({ s with cache := c, journal := e :: s.journal } : Store).refused id := by
  rw [refused_cons]
  exact Nat.le_add_right _ _

lemma Excused.cons (hsub : holds ⊆ holds') (h : s.Excused holds id) :
    Excused holds' { s with cache := c, journal := e :: s.journal } id := by
  rcases h with hr | ⟨h, hh, hid⟩
  · have := refused_le_cons s c e id
    exact Or.inl (by omega)
  · exact Or.inr ⟨h, hsub hh, hid⟩

lemma Torn.cons (h : s.Torn) : Torn { s with cache := c, journal := e :: s.journal } := by
  obtain ⟨id, hid⟩ := h
  have := refused_le_cons s c e id
  exact ⟨id, by omega⟩

/-- A pin that is not given back was refused. -/
lemma torn_of_unpinPage {dirty : Bool} {err : StoreError}
    (h : (unpinPage id dirty s).1 = .error err) : (unpinPage id dirty s).2.Torn := by
  have hfailed : ∀ c, Torn { s with cache := c, journal := .failed (.unpin id dirty) :: s.journal } :=
    fun c => ⟨id, by simp [refused, Event.refuses]⟩
  unfold unpinPage Store.request at h ⊢
  split at h
  · exact hfailed s.cache
  · split at h
    · cases h
    · exact hfailed _

end Store

namespace Shown
variable {own : String → Prop} {F : String → Option (List Page)} {t : Prop}
  {opens : List (UInt32 × String)} {holds holds' : List Hold} {s : Store} {h : Hold} {id : PageId}
  {name : String} {ps : List Page} {α : Type}

lemma tear (hs : Shown own F t opens holds s) (ht : s.Torn) : Shown own F True opens holds s :=
  { hs with torn := fun _ => ht }

/-- A request that does to the cache what is not seen. -/
theorem request {r : Request} {act : CacheM α} {event : α → Event}
    (hs : Shown own F t opens holds s) (ha : Accounted opens holds' (Store.request r act event s).2)
    (hsub : holds ⊆ holds')
    (hact : Orderly own (act s.cache).2.disk ∧ Faithful (s.Excused holds) (act s.cache).2 ∧
      Cache.Shows own s.cache (act s.cache).2) :
    Shown own F t opens holds' (Store.request r act event s).2 := by
  obtain ⟨c, e, hr, hc⟩ := Store.exists_request r act event s
  have hcache : Orderly own c.disk ∧ Faithful (s.Excused holds) c ∧ Cache.Shows own s.cache c := by
    rcases hc with rfl | rfl
    · exact ⟨hs.sound.orderly, hs.sound.faithful, .refl own _⟩
    · exact hact
  rw [hr] at ha ⊢
  refine ⟨⟨ha, hcache.1, hcache.2.1.mono (Store.Excused.cons hsub)⟩, fun hn => ?_,
    fun ht => (hs.torn ht).cons⟩
  exact (hcache.2.2.pages_eq hn).trans (hs.shows hn)

theorem readPage (hs : Shown own F t opens holds s) (id : PageId) :
    match Store.readPage id s with
    | (.ok i, s') => Shown own F t opens (⟨id, i, false⟩ :: holds) s'
    | (.error _, s') => Shown own F t opens holds s' := by
  have ⟨⟨ha, ho, hf⟩, _, _⟩ := hs
  have hread := (Accounted.writable opens id.file).read holds id.page s ha
  have hact : Orderly own (Cache.read id s.cache).2.disk ∧
      Faithful (s.Excused holds) (Cache.read id s.cache).2 ∧
      Cache.Shows own s.cache (Cache.read id s.cache).2 := by
    rcases Cache.read_cases ha.pinned.wf id with ⟨e, -, -, he⟩ | ⟨p, hp, hc⟩
    · rw [he]
      exact ⟨ho, hf, .refl own _⟩
    · refine Faithful.claims ha.opened ho hf (fun he => Sound.pins_of_excused ⟨ha, ho, hf⟩ he)
        (fun haway => ?_) hc
      obtain ⟨g, hg, hlt, hr⟩ := Disk.readPage_eq_ok_iff.mp (hp haway)
      refine ⟨g.name, (ha.opened.bound hg).1, ?_, ?_⟩
      · rw [ho.extent_eq hg]
        exact UInt32.lt_iff_toNat_lt.mp hlt
      · rw [Disk.stored, ho.file_eq hg]
        unfold ByteFile.readPage at hr
        split at hr
        · exact (Option.some.inj hr).symm
        · cases hr
  have hshown : ∀ {holds'}, Accounted opens holds' (Store.readPage id s).2 → holds ⊆ holds' →
      Shown own F t opens holds' (Store.readPage id s).2 :=
    fun ha' hsub => request hs ha' hsub hact
  rcases hr : Store.readPage id s with ⟨e | i, s'⟩ <;> rw [hr] at hread hshown
  · exact hshown hread (List.Subset.refl _)
  · exact hshown hread (List.subset_cons_self _ _)

theorem flushFile (hs : Shown own F t opens holds s) (file : UInt32) :
    Shown own F t opens holds (Store.flushFile file s).2 :=
  hs.request ((Accounted.writable opens file).flush holds s hs.sound.accounted)
    (List.Subset.refl _) (Faithful.flush hs.sound.accounted.pinned.wf hs.sound.accounted.opened
      hs.sound.orderly hs.sound.faithful file)

theorem unpinPage (hs : Shown own F t opens (h :: holds) s) :
    Shown own F t opens holds (Store.unpinPage h.id h.dirty s).2 := by
  obtain ⟨⟨ha, ho, hf⟩, hshows, htorn⟩ := hs
  have hunpin := (Accounted.writable opens h.id.file).unpin holds h rfl s ha
  unfold Store.unpinPage at hunpin ⊢
  cases hg : s.refusal (.unpin h.id h.dirty) with
  | some e =>
    rw [Store.request_refused hg] at hunpin ⊢
    refine ⟨⟨hunpin, ho, hf.mono fun {id} he => ?_⟩, hshows, fun ht => (htorn ht).cons⟩
    by_cases hid : id = h.id
    · refine Or.inl ?_
      rw [Store.refused_cons (c := s.cache), hid]
      simp [Event.refuses]
    · rcases he with hr | ⟨h', hh', hid', hdirty⟩
      · exact Store.Excused.cons (List.Subset.refl _) (Or.inl hr)
      · rcases List.mem_cons.mp hh' with rfl | hh'
        · exact absurd hid'.symm hid
        · exact Or.inr ⟨h', hh', hid', hdirty⟩
  | none =>
    obtain ⟨pool, hu, -, f, hc, -, hcached⟩ := ha.pinned.unpin_ok h.dirty
    rw [Store.request_granted hg, hu] at hunpin ⊢
    let s' : Store :=
      { s with cache := { s.cache with pool }, journal := .unpinned h.id :: s.journal }
    have hrepool : Faithful (s'.Excused holds) s'.cache ∧ Cache.Shows own s.cache s'.cache :=
      Faithful.repool rfl fun id => by
        show Faithful.Settled _ _ id (pool.cached id)
        rw [hcached]
        split
        · next hid =>
          subst hid
          have hset : Faithful.Settled (s.Excused (h :: holds)) s.cache h.id
              (s.cache.pool.cached h.id) := hf.settled fun h => h
          rw [hc] at hset
          refine ⟨hset.1, fun name hi => ?_⟩
          obtain ⟨hlt, hcontents, hor⟩ := hset.2 name hi
          refine ⟨hlt, hcontents, ?_⟩
          rcases hor with hd | hst | hr | ⟨h', hh', hid', hdirty⟩
          · exact Or.inl (by simp [hd])
          · exact Or.inr (Or.inl hst)
          · exact Or.inr (Or.inr (Store.Excused.cons (List.Subset.refl _) (Or.inl hr)))
          · rcases List.mem_cons.mp hh' with rfl | hh'
            · exact Or.inl (by simp [hdirty])
            · exact Or.inr (Or.inr (Store.Excused.cons (List.Subset.refl _)
                (Or.inr ⟨h', hh', hid', hdirty⟩)))
        · next hid =>
          refine hf.settled fun he => ?_
          rcases he with hr | ⟨h', hh', hid', hdirty⟩
          · exact Store.Excused.cons (List.Subset.refl _) (Or.inl hr)
          · rcases List.mem_cons.mp hh' with rfl | hh'
            · exact absurd hid'.symm hid
            · exact Store.Excused.cons (List.Subset.refl _) (Or.inr ⟨h', hh', hid', hdirty⟩)
    exact ⟨⟨hunpin, ho, hrepool.1⟩, fun hn => (hrepool.2.pages_eq hn).trans (hshows hn),
      fun ht => (htorn ht).cons⟩

/-- Only which pages are held and marked matters. -/
theorem weaken (hs : Shown own F t opens holds s) (ha : Accounted opens holds' s)
    (hsub : ∀ {id}, s.Excused holds id → s.Excused holds' id) : Shown own F t opens holds' s :=
  ⟨⟨ha, hs.sound.orderly, hs.sound.faithful.mono hsub⟩, hs.shows, hs.torn⟩

theorem lasting (own : String → Prop) (F : String → Option (List Page)) (t : Prop)
    (opens : List (UInt32 × String)) (file : UInt32) : Lasting file (Shown own F t opens) where
  perm hp h := h.weaken ((Accounted.writable opens file).perm hp h.sound.accounted) fun he =>
    he.imp_right fun ⟨h', hh', hid⟩ => ⟨h', hp.subset hh', hid⟩
  mark {h hs s} hh := hh.weaken ((Accounted.writable opens file).mark hh.sound.accounted) fun he =>
    he.imp_right fun ⟨h', hh', hid, hdirty⟩ => by
      rcases List.mem_cons.mp hh' with rfl | hh'
      · exact ⟨{ h' with dirty := true }, List.mem_cons_self, hid, rfl⟩
      · exact ⟨h', List.mem_cons_of_mem _ hh', hid, hdirty⟩
  read hs page s h := by
    have := h.readPage ⟨file, page⟩
    rcases hr : Store.readPage ⟨file, page⟩ s with ⟨_ | _, _⟩ <;> rw [hr] at this <;> exact this
  unpin hs h _ s hh := hh.unpinPage
  flush hs s h := h.flushFile file

end Shown
end PagedHeap
