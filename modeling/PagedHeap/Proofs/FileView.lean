import PagedHeap.Proofs.DiskNames

/-! The files as they are seen through a cache: each page as it is in its frame if it is cached, and
as it is on the disk otherwise. A cache is `Faithful` if a cached page that is not marked dirty is on
the disk as it is in its frame, or is excused for now. Moving pages between the disk and the frames
then does not change what is seen. -/
namespace PagedHeap

namespace Cache
variable {c : Cache} {name : String} {n file : UInt32}

/-- A page of the file of a name, from its frame if it is cached and from the disk otherwise. -/
def page (c : Cache) (name : String) (n : UInt32) : Page :=
  match (c.disk.ids.find? name).bind fun file => c.pool.cached ⟨file, n⟩ with
  | some (_, f) => f.contents
  | none => c.disk.stored name n

/-- The pages of the file of a name, if there is such a file. -/
def pages (c : Cache) (name : String) : Option (List Page) :=
  (c.disk.contentsOf name).map fun f =>
    (List.range f.pages).map fun n => c.page name (UInt32.ofNat n)

lemma page_of_cached {i : Nat} {f : Frame} (hi : c.disk.ids.find? name = some file)
    (hc : c.pool.cached ⟨file, n⟩ = some (i, f)) : c.page name n = f.contents := by
  simp [page, hi, hc]

lemma page_of_away (hc : ∀ file, c.disk.ids.find? name = some file →
    c.pool.cached ⟨file, n⟩ = none) : c.page name n = c.disk.stored name n := by
  unfold page
  cases hi : c.disk.ids.find? name with
  | none => rfl
  | some file => simp [hc file hi]

/-- The frame in which a page of the file of a name is cached. -/
def inFrame? (c : Cache) (name : String) (n : UInt32) : Option (Nat × Frame) :=
  (c.disk.ids.find? name).bind fun file => c.pool.cached ⟨file, n⟩

lemma inFrame?_of_bound (hi : c.disk.ids.find? name = some file) :
    c.inFrame? name n = c.pool.cached ⟨file, n⟩ := by
  rw [inFrame?, hi]
  rfl

lemma inFrame?_eq_some_iff {e : Nat × Frame} : c.inFrame? name n = some e ↔
    ∃ file, c.disk.ids.find? name = some file ∧ c.pool.cached ⟨file, n⟩ = some e :=
  Option.bind_eq_some_iff

lemma page_eq (c : Cache) (name : String) (n : UInt32) : c.page name n =
    (c.inFrame? name n).elim (c.disk.stored name n) fun e => e.2.contents := by
  unfold page inFrame?
  split
  · next hc => rw [hc]; rfl
  · next hc => rw [hc]; rfl

/-- A page is seen as before if it is in the frame it was in, or in none and on the disk as it was. -/
lemma page_congr {c' : Cache} (hframe : c'.inFrame? name n = c.inFrame? name n)
    (hstored : c.inFrame? name n = none → c'.disk.stored name n = c.disk.stored name n) :
    c'.page name n = c.page name n := by
  rw [page_eq, page_eq, hframe]
  cases hc : c.inFrame? name n with
  | none => exact hstored hc
  | some e => rfl

/-- The same pages are seen of the same files. -/
structure Shows (own : String → Prop) (c c' : Cache) : Prop where
  there : ∀ {name}, own name → (c'.disk.number? name).isSome = (c.disk.number? name).isSome
  extent : ∀ {name}, own name → c'.disk.extent name = c.disk.extent name
  page : ∀ {name}, own name → ∀ n, c'.page name n = c.page name n

lemma pages_eq (c : Cache) (name : String) : c.pages name =
    if (c.disk.number? name).isSome
    then some ((List.range (c.disk.extent name)).map fun n => c.page name (UInt32.ofNat n))
    else none := by
  rw [pages, Disk.extent, Disk.file, Disk.contentsOf_eq]
  cases c.disk.number? name <;> rfl

lemma pages_congr {c' : Cache}
    (hthere : (c'.disk.number? name).isSome = (c.disk.number? name).isSome)
    (hextent : c'.disk.extent name = c.disk.extent name)
    (hpage : ∀ n, c'.page name n = c.page name n) : c'.pages name = c.pages name := by
  rw [pages_eq, pages_eq, hthere, hextent]
  simp only [hpage]

theorem Shows.pages_eq {own : String → Prop} {c' : Cache} (h : Shows own c c') (hn : own name) :
    c'.pages name = c.pages name :=
  pages_congr (h.there hn) (h.extent hn) (h.page hn)

lemma Shows.trans {own : String → Prop} {c' c'' : Cache} (h : Shows own c c')
    (h' : Shows own c' c'') : Shows own c c'' where
  there hn := (h'.there hn).trans (h.there hn)
  extent hn := (h'.extent hn).trans (h.extent hn)
  page hn n := (h'.page hn n).trans (h.page hn n)

lemma Shows.refl (own : String → Prop) (c : Cache) : Shows own c c :=
  ⟨fun _ => rfl, fun _ => rfl, fun _ _ => rfl⟩

end Cache

/-- Cached pages have ids that were given at some time. If the file is still there, it has the page,
and one that is neither dirty nor excused is on the disk as it is in its frame. -/
structure Faithful (excused : PageId → Prop) (c : Cache) : Prop where
  issued : ∀ {id i f}, c.pool.cached id = some (i, f) → id.file < c.disk.nextId
  resident : ∀ {id i f name}, c.pool.cached id = some (i, f) →
    c.disk.ids.find? name = some id.file → id.page.toNat < c.disk.extent name
  truthful : ∀ {id i f name}, c.pool.cached id = some (i, f) →
    c.disk.ids.find? name = some id.file →
    f.dirty = true ∨ f.contents = c.disk.stored name id.page ∨ excused id

namespace Faithful
variable {own : String → Prop} {opens : List (UInt32 × String)} {excused excused' : PageId → Prop}
  {c c' : Cache} {id : PageId} {i : Nat} {f : Frame} {p : Page} {h : OpenFile} {name : String}

/-- What is cached of a page after a change of the pool: nothing of a page that is on the disk as it
is, or the page. -/
def Settled (excused : PageId → Prop) (c : Cache) (id : PageId) : Option (Nat × Frame) → Prop
  | none => ∀ name, c.disk.ids.find? name = some id.file →
      c.page name id.page = c.disk.stored name id.page
  | some (_, f) => id.file < c.disk.nextId ∧ ∀ name, c.disk.ids.find? name = some id.file →
      id.page.toNat < c.disk.extent name ∧ f.contents = c.page name id.page ∧
      (f.dirty = true ∨ f.contents = c.disk.stored name id.page ∨ excused id)

lemma settled (hf : Faithful excused c) (he : excused id → excused' id) :
    Settled excused' c id (c.pool.cached id) := by
  cases hc : c.pool.cached id with
  | none =>
    intro name hi
    refine Cache.page_of_away fun file hfile => ?_
    rw [hi] at hfile
    cases hfile
    exact hc
  | some e =>
    obtain ⟨i, f⟩ := e
    exact ⟨hf.issued hc, fun name hi => ⟨hf.resident hc hi, (Cache.page_of_cached hi hc).symm,
      (hf.truthful hc hi).imp_right (Or.imp_right he)⟩⟩

/-- A change of the pool that settles every page is not seen. -/
theorem repool (hdisk : c'.disk = c.disk)
    (hset : ∀ id, Settled excused' c id (c'.pool.cached id)) :
    Faithful excused' c' ∧ Cache.Shows own c c' := by
  have hkept : ∀ {id i f}, c'.pool.cached id = some (i, f) →
      Settled excused' c id (some (i, f)) := fun hc => hc ▸ hset _
  refine ⟨⟨fun {id i f} hc => ?_, fun {id i f name} hc hi => ?_, fun {id i f name} hc hi => ?_⟩,
    ⟨?_, ?_, fun {name} _ n => ?_⟩⟩
  · rw [hdisk]
    exact (hkept hc).1
  · rw [hdisk] at hi ⊢
    exact ((hkept hc).2 name hi).1
  · rw [hdisk] at hi ⊢
    exact ((hkept hc).2 name hi).2.2
  · intro name _
    rw [hdisk]
  · intro name _
    rw [hdisk]
  · cases hi : c.disk.ids.find? name with
    | none =>
      exact Cache.page_congr (by rw [Cache.inFrame?, Cache.inFrame?, hdisk, hi]; rfl) fun _ => by
        rw [hdisk]
    | some file =>
      have := hset ⟨file, n⟩
      cases hc : c'.pool.cached ⟨file, n⟩ with
      | none =>
        rw [hc] at this
        rw [this name hi, ← hdisk]
        refine Cache.page_of_away fun file' hfile => ?_
        rw [hdisk, hi] at hfile
        cases hfile
        exact hc
      | some e =>
        rw [← ((hkept hc).2 name hi).2.1]
        exact Cache.page_of_cached (hdisk ▸ hi) hc

/-- Writing a cached page to the disk is not seen either. -/
theorem write (hd : Opened opens c.disk) (ho : Orderly own c.disk) (hf : Faithful excused c)
    (hc : c.pool.cached id = some (i, f)) (hopen : c.disk.opened.find? id.file = some h) :
    Opened opens (c.disk.written h id f.contents) ∧
    Orderly own (c.disk.written h id f.contents) ∧
    (c.disk.written h id f.contents).stored h.name id.page = f.contents ∧
    Faithful excused { c with disk := c.disk.written h id f.contents } ∧
    Cache.Shows own c { c with disk := c.disk.written h id f.contents } := by
  obtain ⟨hname, -⟩ := hd.bound hopen
  have hown := (ho.bound hname).1
  have hlt := hf.resident hc hname
  rw [ho.extent_eq hopen] at hlt
  have hlt' := UInt32.lt_iff_toNat_lt.mpr hlt
  have hle := UInt32.le_of_lt hlt'
  have hp := Disk.page_ne_noPage_of_lt hlt'
  have hextent : ∀ {name}, own name → (c.disk.written h id f.contents).extent name =
      c.disk.extent name := by
    intro name hn
    rw [ho.extent_written hd hopen hle hn, if_neg]
    rintro ⟨-, he⟩
    rw [he] at hlt
    exact Nat.lt_irrefl _ hlt
  have hself : (c.disk.written h id f.contents).stored h.name id.page = f.contents := by
    rw [ho.stored_written hd hopen hown, if_pos ⟨rfl, rfl⟩]
  refine ⟨hd.written (.page .refl hopen hp), ho.written hd hopen hp, hself,
    ⟨hf.issued, ?_, ?_⟩, ⟨?_, ?_, ?_⟩⟩
  · intro id' i' f' name hc' hi'
    exact (hextent (ho.bound hi').1).symm ▸ hf.resident hc' hi'
  · intro id' i' f' name hc' hi'
    have hi'' : c.disk.ids.find? name = some id'.file := hi'
    dsimp only
    rw [ho.stored_written hd hopen (ho.bound hi'').1]
    by_cases hsame : name = h.name ∧ id'.page = id.page
    · have hid : id' = id := by
        obtain ⟨hn, hpage⟩ := hsame
        rw [hn, hname] at hi''
        cases id'; cases id
        cases hi''
        cases hpage
        rfl
      subst hid
      rw [hc] at hc'
      cases hc'
      rw [if_pos hsame]
      exact Or.inr (Or.inl rfl)
    · rw [if_neg hsame]
      exact hf.truthful hc' hi''
  · intro name _
    exact congrArg Option.isSome (Disk.number?_written ..)
  · intro name hn
    exact hextent hn
  · intro name hn n
    refine Cache.page_congr rfl fun haway => ?_
    rw [ho.stored_written hd hopen hn, if_neg]
    rintro ⟨rfl, rfl⟩
    rw [Cache.inFrame?_of_bound hname] at haway
    cases hc.symm.trans haway

/-- So is the search for a frame, though a page may leave the pool. -/
theorem vacated {r : Except StoreError Nat} {pool' : Pool} {disk' : Disk}
    (hd : Opened opens c.disk) (ho : Orderly own c.disk) (hf : Faithful excused c)
    (hexcused : ∀ {id}, excused id → c.pool.pins id ≠ 0)
    (hv : Pool.Vacated Cache.writeBack c.pool c.disk (r, pool', disk')) :
    Opened opens disk' ∧ Orderly own disk' ∧ disk'.ids = c.disk.ids ∧
      Faithful excused ⟨pool', disk'⟩ ∧ Cache.Shows own c ⟨pool', disk'⟩ := by
  have hsame : ∀ {pool' : Pool}, (∀ id, pool'.cached id = c.pool.cached id) →
      Faithful excused ⟨pool', c.disk⟩ ∧ Cache.Shows own c ⟨pool', c.disk⟩ :=
    fun hs => repool rfl fun id => (hs id).symm ▸ hf.settled fun h => h
  cases hv with
  | unused _ same => exact ⟨hd, ho, rfl, hsame same⟩
  | full _ same => exact ⟨hd, ho, rfl, hsame same⟩
  | @stuck _ victim f _ _ _ _ _ _ failed same =>
    obtain ⟨⟨⟩, -⟩ | ⟨-, rfl⟩ := Cache.writeBack_cases failed
    exact ⟨hd, ho, rfl, hsame same⟩
  | @evicted i victim f _ _ _ there unpinned written now =>
    have leave : ∀ {b : Cache}, b.pool = c.pool → Faithful excused b →
        (∀ name, b.disk.ids.find? name = some victim.file →
          b.disk.stored name victim.page = f.contents) →
        Faithful excused ⟨pool', b.disk⟩ ∧ Cache.Shows own b ⟨pool', b.disk⟩ := by
      intro b hb hbf hstored
      refine repool rfl fun id => ?_
      rw [now]
      split
      · next hid =>
        subst hid
        intro name hi
        rw [hstored name hi]
        exact Cache.page_of_cached hi (by rw [hb]; exact there)
      · rw [← hb]
        exact hbf.settled fun h => h
    rcases written with ⟨hclean, rfl⟩ | ⟨hdirty, hsink⟩
    · refine ⟨hd, ho, rfl, leave rfl hf fun name hi => ?_⟩
      rcases hf.truthful there hi with hdirty | hstored | hex
      · rw [hclean] at hdirty
        cases hdirty
      · exact hstored.symm
      · exact absurd (by simp [Pool.pins, there, unpinned]) (hexcused hex)
    · obtain ⟨-, hw⟩ | ⟨⟨_, ⟨⟩⟩, -⟩ := Cache.writeBack_cases hsink
      obtain ⟨h, hopen, -, rfl⟩ := Disk.writePage_eq_ok_iff.mp hw
      obtain ⟨hd', ho', hself, hf', hshow⟩ := write hd ho hf there hopen
      have hleft := leave (b := { c with disk := c.disk.written h victim f.contents }) rfl hf'
        fun name hi => by rw [hd.inj hi (hd.bound hopen).1, hself]
      exact ⟨hd', ho', rfl, hleft.1, hshow.trans hleft.2⟩

/-- A claim of a frame is not seen if it is for a page that is cached, or for a known page with its
contents as they are on the disk. -/
theorem claims {r : Except StoreError Nat} (hd : Opened opens c.disk) (ho : Orderly own c.disk)
    (hf : Faithful excused c) (hexcused : ∀ {id}, excused id → c.pool.pins id ≠ 0)
    (hknown : c.pool.cached id = none → ∃ name, c.disk.ids.find? name = some id.file ∧
      id.page.toNat < c.disk.extent name ∧ p = c.disk.stored name id.page)
    (hc : Cache.Claims id p c r c') :
    Orderly own c'.disk ∧ Faithful excused c' ∧ Cache.Shows own c c' := by
  obtain ⟨pool', disk'⟩ := c'
  cases hc.claimed with
  | @hit i f _ here now =>
    refine ⟨ho, repool rfl fun other => ?_⟩
    rw [now]
    split
    · next hid =>
      have hset : Settled excused c id (c.pool.cached id) := hf.settled fun h => h
      rw [here] at hset
      rw [hid]
      exact hset
    · exact hf.settled fun h => h
  | failed hv =>
    obtain ⟨-, ho', -, hf', hshow⟩ := vacated hd ho hf hexcused hv
    exact ⟨ho', hf', hshow⟩
  | @miss i between _ _ away hv now =>
    obtain ⟨hd', ho', hids, hf', hshow⟩ := vacated hd ho hf hexcused hv
    obtain ⟨name, hname, hlt, hp⟩ := hknown away
    have hown := (ho.bound hname).1
    have hname' : disk'.ids.find? name = some id.file := hids ▸ hname
    have haway : between.cached id = none := by
      rcases hv.cached_of_ok id with h | ⟨h, -⟩
      · rw [h, away]
      · exact h
    have hpage : ∀ {b : Cache}, b.disk.ids = c.disk.ids → b.pool.cached id = none →
        b.page name id.page = b.disk.stored name id.page := by
      intro b hb hn
      refine Cache.page_of_away fun file hfile => ?_
      rw [hb, hname] at hfile
      cases hfile
      exact hn
    have hseen : p = (⟨between, disk'⟩ : Cache).page name id.page := by
      rw [hshow.page hown, hpage rfl away, hp]
    have hplaced : Faithful excused ⟨pool', disk'⟩ ∧
        Cache.Shows own ⟨between, disk'⟩ ⟨pool', disk'⟩ :=
      repool rfl fun other => by
        rw [now]
        split
        · next hid =>
          rw [hid]
          refine ⟨hd'.below hname', fun m hm => ?_⟩
          obtain rfl := hd'.inj hname' hm
          refine ⟨?_, hseen, Or.inr (Or.inl ?_)⟩
          · exact lt_of_lt_of_eq hlt (hshow.extent hown).symm
          · exact hseen.trans (hpage (b := ⟨between, disk'⟩) hids haway)
        · exact hf'.settled fun h => h
    exact ⟨ho', hplaced.1, hshow.trans hplaced.2⟩

theorem flush (hw : c.pool.Wf) (hd : Opened opens c.disk) (ho : Orderly own c.disk)
    (hf : Faithful excused c) (file : UInt32) :
    Orderly own (Cache.flushFile file c).2.disk ∧ Faithful excused (Cache.flushFile file c).2 ∧
      Cache.Shows own c (Cache.flushFile file c).2 := by
  let kept (pool : Pool) (d : Disk) : Prop := Opened opens d ∧ Orderly own d ∧
    Faithful excused ⟨pool, d⟩ ∧ Cache.Shows own c ⟨pool, d⟩
  have hflush := hw.flush (P := kept) (s := c.disk) Cache.writeBack (fun id => id.file = file)
    (fun {pool d id i} hw hk _ hfind => by
      obtain ⟨hd, ho, hf, hshow⟩ := hk
      unfold Cache.writeBack
      cases hwrite : d.writePage id (pool.frame i).contents with
      | error e => exact ⟨hd, ho, hf, hshow⟩
      | ok d' =>
        obtain ⟨h, hopen, -, rfl⟩ := Disk.writePage_eq_ok_iff.mp hwrite
        have hc : pool.cached id = some (i, pool.frame i) := by simp [Pool.cached, hfind]
        obtain ⟨hd', ho', hself, hf', hshow'⟩ := write (c := ⟨pool, d⟩) hd ho hf hc hopen
        let d' := d.written h id (pool.frame i).contents
        have hclean : Faithful excused ⟨pool.modifyFrame i Frame.clean, d'⟩ ∧
            Cache.Shows own ⟨pool, d'⟩ ⟨pool.modifyFrame i Frame.clean, d'⟩ :=
          repool rfl fun other => by
            have hset : Settled excused ⟨pool, d'⟩ other (pool.cached other) :=
              hf'.settled fun h => h
            have hmod := hw.cached_modifyFrame hfind Frame.clean other
            dsimp only
            rw [hmod]
            split
            · next hid =>
              subst hid
              rw [hc] at hset
              refine ⟨hset.1, fun name hi => ?_⟩
              obtain ⟨hlt, hcontents, -⟩ := hset.2 name hi
              refine ⟨hlt, hcontents, Or.inr (Or.inl ?_)⟩
              rw [hd'.inj hi (hd.bound hopen).1]
              exact hself.symm
            · exact hset
        exact ⟨hd', ho', hclean.1, (hshow.trans hshow').trans hclean.2⟩)
    ⟨hd, ho, hf, .refl own c⟩
  rw [Cache.flushFile_apply]
  exact hflush.2.2

end Faithful
end PagedHeap
