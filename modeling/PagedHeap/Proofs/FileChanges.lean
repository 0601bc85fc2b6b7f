import PagedHeap.Proofs.FileRequests

/-! What changes the files that a store shows: pages are added to them and changed in their frames,
and files are created. Opening and closing files only changes what can be reached. -/
namespace PagedHeap

namespace Faithful
variable {own : String → Prop} {opens : List (UInt32 × String)} {excused : PageId → Prop}
  {c : Cache} {file : UInt32} {h : OpenFile}

lemma uncached_end (ho : Orderly own c.disk) (hf : Faithful excused c)
    (hopen : c.disk.opened.find? file = some h) {i : UInt32}
    (hi : c.disk.ids.find? h.name = some i) : c.pool.cached ⟨i, h.pages⟩ = none := by
  cases hc : c.pool.cached ⟨i, h.pages⟩ with
  | none => rfl
  | some e =>
    have hlt := hf.resident (i := e.1) (f := e.2) hc hi
    rw [ho.extent_eq hopen] at hlt
    exact absurd hlt (Nat.lt_irrefl _)

/-- A page of zeros behind the last page of a file. -/
theorem extend (hd : Opened opens c.disk) (ho : Orderly own c.disk) (hf : Faithful excused c)
    (hopen : c.disk.opened.find? file = some h) (hp : h.pages ≠ noPage) :
    let c' : Cache := { c with disk := c.disk.written h ⟨file, h.pages⟩ Page.blank }
    Opened opens c'.disk ∧ Orderly own c'.disk ∧ Faithful excused c' ∧
      (∀ {name}, own name → c'.disk.extent name =
        if name = h.name then c.disk.extent name + 1 else c.disk.extent name) ∧
      (∀ {name}, own name → ∀ n, c'.page name n =
        if name = h.name ∧ n = h.pages then Page.blank else c.page name n) ∧
      c'.disk.stored h.name h.pages = Page.blank := by
  intro c'
  have hend : c.disk.opened.find? (PageId.mk file h.pages).file = some h := hopen
  have hle : (PageId.mk file h.pages).page ≤ h.pages := UInt32.le_refl _
  have hname := (hd.bound hopen).1
  have hstored : ∀ {name}, own name → ∀ n, c'.disk.stored name n =
      if name = h.name ∧ n = h.pages then Page.blank else c.disk.stored name n :=
    fun hn n => ho.stored_written hd hend hn n
  have hextent : ∀ {name}, own name → c'.disk.extent name =
      if name = h.name then c.disk.extent name + 1 else c.disk.extent name := by
    intro name hn
    have := ho.extent_written (p := Page.blank) hd hend hle hn
    simpa using this
  refine ⟨hd.written (.page .refl hopen hp), ho.written hd hend hp,
    ⟨hf.issued, ?_, ?_⟩, hextent, ?_, ?_⟩
  · intro id i f name hc hi
    have hi' : c.disk.ids.find? name = some id.file := hi
    have hlt := hf.resident hc hi'
    rw [hextent (ho.bound hi').1]
    split <;> omega
  · intro id i f name hc hi
    have hi' : c.disk.ids.find? name = some id.file := hi
    rw [hstored (ho.bound hi').1, if_neg]
    · exact hf.truthful hc hi'
    · rintro ⟨rfl, hpage⟩
      have hid : id = ⟨id.file, h.pages⟩ := by rw [← hpage]
      rw [hid, uncached_end ho hf hopen hi'] at hc
      cases hc
  · intro name hn n
    by_cases hlast : name = h.name ∧ n = h.pages
    · rw [if_pos hlast, Cache.page_of_away, hstored hn, if_pos hlast]
      obtain ⟨rfl, rfl⟩ := hlast
      exact fun i hi => uncached_end ho hf hopen hi
    · rw [if_neg hlast]
      exact Cache.page_congr rfl fun _ => (hstored hn n).trans (if_neg hlast)
  · rw [hstored (ho.bound hname).1, if_pos ⟨rfl, rfl⟩]

/-- The files are what they are in the tree, so that binding an unused id changes none. -/
theorem bind (own : String → Prop) (hf : Faithful excused c) {d : Disk}
    (htree : d.tree = c.disk.tree) (hdir : d.dir = c.disk.dir) (hnext : c.disk.nextId ≤ d.nextId)
    (hids : d.ids = c.disk.ids ∨ ∃ name, c.disk.ids.find? name = none ∧
      d.ids = c.disk.ids.insert name c.disk.nextId) :
    Faithful excused { c with disk := d } ∧ Cache.Shows own c { c with disk := d } := by
  have hplace : ∀ m, d.place m = c.disk.place m := fun m => by
    unfold Disk.place Disk.path
    rw [htree, hdir]
  have hcontents : ∀ m, d.contentsOf m = c.disk.contentsOf m := fun m => by
    unfold Disk.contentsOf
    rw [hplace, htree]
  have hfile : ∀ m, d.file m = c.disk.file m := fun m => by
    unfold Disk.file
    rw [hcontents]
  have hstored : ∀ m n, d.stored m n = c.disk.stored m n := fun m n => by
    unfold Disk.stored
    rw [hfile]
  have hextent : ∀ m, d.extent m = c.disk.extent m := fun m => congrArg ByteFile.pages (hfile m)
  have hback : ∀ {m j n e}, d.ids.find? m = some j → c.pool.cached ⟨j, n⟩ = some e →
      c.disk.ids.find? m = some j := by
    intro m j n e hj hc
    rcases hids with hids | ⟨name, hnone, hids⟩
    · exact hids ▸ hj
    · rw [hids, Table.find?_insert] at hj
      split at hj
      · next hm =>
        cases hj
        exact absurd (hf.issued (i := e.1) (f := e.2) hc) (UInt32.lt_irrefl _)
      · exact hj
  have hkeep : ∀ {m j}, c.disk.ids.find? m = some j → d.ids.find? m = some j := by
    intro m j hj
    rcases hids with hids | ⟨name, hnone, hids⟩
    · exact hids ▸ hj
    · rw [hids, Table.find?_insert, if_neg]
      · exact hj
      · rintro rfl
        cases hnone.symm.trans hj
  refine ⟨⟨fun {id i f} hc => ?_, fun {id i f m} hc hm => ?_, fun {id i f m} hc hm => ?_⟩,
    fun {m} _ => ?_, fun {m} _ => ?_, fun {m} _ n => ?_⟩
  · exact UInt32.lt_of_lt_of_le (hf.issued hc) hnext
  · exact (hextent m).symm ▸ hf.resident hc (hback hm hc)
  · rw [hstored]
    exact hf.truthful hc (hback hm hc)
  · exact congrArg (fun p => (Place.number? p).isSome) (hplace m)
  · exact hextent m
  · refine Cache.page_congr (Option.ext fun e => ?_) fun _ => hstored m n
    rw [Cache.inFrame?_eq_some_iff, Cache.inFrame?_eq_some_iff]
    constructor
    · rintro ⟨j, hj, hc⟩
      exact ⟨j, hback hj hc, hc⟩
    · rintro ⟨j, hj, hc⟩
      exact ⟨j, hkeep hj, hc⟩

/-- A new file is empty, and no other file has changed. -/
theorem create (hd : Opened opens c.disk) (ho : Orderly own c.disk) (hf : Faithful excused c)
    {d : Disk} {name : String} (hn : own name) (hc : c.disk.create name = .ok d) :
    Orderly own d ∧ Faithful excused { c with disk := d } ∧ c.pages name = none ∧
      Cache.pages { c with disk := d } name = some [] ∧
      ∀ {m}, own m → m ≠ name → Cache.pages { c with disk := d } m = c.pages m := by
  have hnew := ho.created hn hc
  have hids := hnew.bindings.1
  have hsame : ∀ {m}, own m → m ≠ name → d.contentsOf m = c.disk.contentsOf m :=
    hnew.contentsOf_other ho
  have hother : ∀ {m i}, c.disk.ids.find? m = some i → d.file m = c.disk.file m := by
    intro m i hi
    obtain ⟨hm, k, hk⟩ := ho.bound hi
    unfold Disk.file
    rw [hsame hm]
    rintro rfl
    cases hnew.unused.symm.trans hk
  refine ⟨hnew.orderly hd ho, ⟨fun {id i f} hc => ?_, fun {id i f m} hc hm => ?_,
    fun {id i f m} hc hm => ?_⟩, ?_, ?_, fun {m} hm hne => ?_⟩
  · exact lt_of_lt_of_eq (hf.issued hc) hnew.bindings.2.2.symm
  · have hm' : c.disk.ids.find? m = some id.file := hids ▸ hm
    unfold Disk.extent
    rw [hother hm']
    exact hf.resident hc hm'
  · have hm' : c.disk.ids.find? m = some id.file := hids ▸ hm
    unfold Disk.stored
    rw [hother hm']
    exact hf.truthful hc hm'
  · rw [Cache.pages_eq, hnew.unused]
    rfl
  · unfold Cache.pages
    rw [hnew.contentsOf_self]
    rfl
  · unfold Cache.pages
    rw [hsame hm hne]
    cases hf' : c.disk.contentsOf m with
    | none => rfl
    | some f =>
      refine congrArg some (List.map_congr_left fun n _ => ?_)
      unfold Cache.page Disk.stored Disk.file
      rw [hids, hsame hm hne]

end Faithful

/-- New contents of a frame are those of the page that is cached in it, and of no other page. -/
theorem Cache.page_setContents {opens : List (UInt32 × String)} {c : Cache} {id : PageId} {i : Nat}
    {name name' : String} {n : UInt32} (hd : Opened opens c.disk) (hw : c.pool.Wf)
    (hfind : c.pool.find? id = some i) (hi : c.disk.ids.find? name = some id.file) (page : Page) :
    (c.setContents i page).page name' n =
      if name' = name ∧ n = id.page then page else c.page name' n := by
  have hcached := hw.cached_modifyFrame hfind fun f => { f with contents := page }
  by_cases hsame : name' = name ∧ n = id.page
  · obtain ⟨rfl, rfl⟩ := hsame
    have hc := hcached id
    rw [if_pos rfl] at hc
    rw [if_pos ⟨rfl, rfl⟩]
    exact Cache.page_of_cached (c := c.setContents i page) hi hc
  · rw [if_neg hsame]
    refine Cache.page_congr (Option.ext fun e => ?_) fun _ => rfl
    rw [Cache.inFrame?_eq_some_iff, Cache.inFrame?_eq_some_iff]
    refine exists_congr fun j => and_congr_right fun hj => ?_
    have hid : (⟨j, n⟩ : PageId) ≠ id := by
      rintro rfl
      exact hsame ⟨hd.inj hj hi, rfl⟩
    have hc := hcached ⟨j, n⟩
    rw [if_neg hid] at hc
    rw [← hc]
    rfl

/-- A page that is changed in its frame is held dirty by who changed it. -/
lemma Store.Excused.soil {s : Store} {h : Hold} {holds : List Hold} {id : PageId} (page : Page)
    (hx : s.Excused (h :: holds) id) :
    Store.Excused ({ h with dirty := true } :: holds) (s.overwrite h.frame page) id := by
  rcases hx with hr | ⟨h', hh', hid, hdirty⟩
  · exact Or.inl hr
  · rcases List.mem_cons.mp hh' with rfl | hh'
    · exact Or.inr ⟨_, List.mem_cons_self, hid, rfl⟩
    · exact Or.inr ⟨h', List.mem_cons_of_mem _ hh', hid, hdirty⟩

namespace Shown
variable {own : String → Prop} {F : String → Option (List Page)} {t : Prop}
  {opens : List (UInt32 × String)} {holds : List Hold} {s : Store} {h : Hold} {file : UInt32}
  {name : String} {ps : List Page}

open Function (update)

lemma update_same (hp : F name = some ps) : update F name (some ps) = F := by
  rw [← hp, Function.update_eq_self]

lemma pages_iff (hs : Sound own opens holds s) (hn : own name) : s.cache.pages name = some ps ↔
    (s.cache.disk.number? name).isSome = true ∧ ps.length = s.cache.disk.extent name ∧
      ∀ n : UInt32, n.toNat < s.cache.disk.extent name →
        ps[n.toNat]? = some (s.cache.page name n) :=
  Cache.pages_eq_some_iff (Nat.le_of_lt (hs.extent_le hn))

/-- The pages of the files after a page of zeros came behind the last page of one of them. -/
lemma pages_extended (hs : Sound own opens holds s) {c : Cache} {g : OpenFile}
    (hn : own g.name) (hps : s.cache.pages g.name = some ps) (hlen : g.pages.toNat = ps.length)
    (hroom : ps.length + 1 < UInt32.size)
    (hthere : ∀ name, c.disk.number? name = s.cache.disk.number? name)
    (hextent : ∀ {name}, own name → c.disk.extent name =
      if name = g.name then s.cache.disk.extent name + 1 else s.cache.disk.extent name)
    (hpage : ∀ {name}, own name → ∀ n, c.page name n =
      if name = g.name ∧ n = g.pages then Page.blank else s.cache.page name n)
    (hn' : own name) :
    c.pages name = if name = g.name then some (ps ++ [Page.blank]) else s.cache.pages name := by
  by_cases hname : name = g.name
  · subst hname
    obtain ⟨hk, hlen', hget⟩ := (pages_iff hs hn).mp hps
    rw [if_pos rfl, Cache.pages_eq_some_iff (by rw [hextent hn, if_pos rfl, ← hlen']; omega)]
    refine ⟨by rw [hthere]; exact hk, ?_, fun n hlt => ?_⟩
    · rw [hextent hn, if_pos rfl, List.length_append, hlen', List.length_singleton]
    · rw [hextent hn, if_pos rfl] at hlt
      rw [hpage hn]
      by_cases hlast : n = g.pages
      · rw [if_pos ⟨rfl, hlast⟩, hlast, hlen, List.getElem?_append_right (Nat.le_refl _),
          Nat.sub_self]
        rfl
      · have hne : n.toNat ≠ g.pages.toNat := fun h => hlast (UInt32.toNat_inj.mp h)
        rw [if_neg fun h => hlast h.2, List.getElem?_append_left (by omega)]
        exact hget n (by omega)
  · rw [if_neg hname]
    refine Cache.pages_congr ?_ ?_ fun n => ?_
    · rw [hthere]
    · rw [hextent hn', if_neg hname]
    · rw [hpage hn', if_neg fun h => hname h.1]

/-- The pages of the files after a change of one page of one of them. -/
lemma pages_edited (hs : Sound own opens holds s) {c : Cache} {n : UInt32} {page : Page}
    (hn : own name) (hps : s.cache.pages name = some ps) (hdisk : c.disk = s.cache.disk)
    (hpage : ∀ other m, c.page other m =
      if other = name ∧ m = n then page else s.cache.page other m) (other : String) :
    c.pages other = if other = name then some (ps.set n.toNat page) else s.cache.pages other := by
  by_cases hname : other = name
  · subst hname
    obtain ⟨hk, hlen, hget⟩ := (pages_iff hs hn).mp hps
    rw [if_pos rfl, Cache.pages_eq_some_iff (hdisk ▸ Nat.le_of_lt (hs.extent_le hn)), hdisk]
    refine ⟨hk, List.length_set.trans hlen, fun m hlt => ?_⟩
    rw [hpage, List.getElem?_set]
    by_cases hm : m = n
    · have hlt' : n.toNat < ps.length := by rw [hlen, ← hm]; exact hlt
      rw [if_pos (congrArg UInt32.toNat hm.symm), if_pos hlt', if_pos ⟨rfl, hm⟩]
    · rw [if_neg fun he => hm (UInt32.toNat_inj.mp he).symm, if_neg fun he => hm he.2]
      exact hget m hlt
  · rw [if_neg hname]
    refine Cache.pages_congr (by rw [hdisk]) (by rw [hdisk]) fun m => ?_
    rw [hpage, if_neg fun h => hname h.1]

/-- A page is added behind the others, or no page, if that fails. -/
theorem allocPage (hs : Shown own F t opens holds s) (ho : (file, name) ∈ opens)
    (hp : F name = some ps) :
    match Store.allocPage file s with
    | (.ok (n, i), s') => n.toNat = ps.length ∧ n ≠ noPage ∧
        Shown own (update F name (some (ps ++ [Page.blank]))) t opens (⟨⟨file, n⟩, i, false⟩ :: holds)
          s'
    | (.error _, s') => ∃ qs, (qs = ps ∨ qs = ps ++ [Page.blank] ∧ ps.length + 1 < UInt32.size) ∧
        Shown own (update F name (some qs)) t opens holds s' := by
  have ⟨⟨ha, hord, hf⟩, hshows, htorn⟩ := hs
  obtain ⟨hn, hi, g, hopen, rfl⟩ := hs.sound.opened ho
  have hacc := (Accounted.writable opens file).alloc holds s ha
  unfold Store.allocPage at hacc ⊢
  have hsame : ∀ {c e}, c = s.cache → Accounted opens holds
      { s with cache := c, journal := e :: s.journal } →
      Shown own (update F g.name (some ps)) t opens holds
        { s with cache := c, journal := e :: s.journal } := by
    rintro c e rfl ha'
    rw [update_same hp]
    exact ⟨⟨ha', hord, hf.mono (Store.Excused.cons (List.Subset.refl _))⟩, hshows,
      fun ht => (htorn ht).cons⟩
  cases hg : s.refusal (.alloc file) with
  | some e =>
    rw [Store.request_refused hg] at hacc ⊢
    exact ⟨ps, Or.inl rfl, hsame rfl hacc⟩
  | none =>
    rw [Store.request_granted hg] at hacc ⊢
    rcases Cache.alloc_cases ha.pinned.wf file with ⟨e, -, he⟩ | ⟨n, disk, r, hd, hc, hr⟩
    · rw [he] at hacc ⊢
      exact ⟨ps, Or.inl rfl, hsame rfl hacc⟩
    · obtain ⟨g', hg', rfl, hne, rfl⟩ := Disk.allocPage_eq_ok_iff.mp hd
      rw [hopen] at hg'
      cases hg'
      obtain ⟨hd', ho', hf', hextent, hpage, hstored⟩ := hf.extend ha.opened hord hopen hne
      have hlen : g.pages.toNat = ps.length := by
        rw [((pages_iff hs.sound hn).mp ((hshows hn).trans hp)).2.1]
        exact (hord.extent_eq hopen).symm
      have hroom : ps.length + 1 < UInt32.size := by
        have := g.pages.toNat_lt
        have : g.pages.toNat ≠ 4294967295 := fun h => hne (UInt32.toNat_inj.mp h)
        simp only [UInt32.size] at *
        omega
      let c' : Cache := { s.cache with disk := s.cache.disk.written g ⟨file, g.pages⟩ Page.blank }
      have hlt : (⟨file, g.pages⟩ : PageId).page.toNat < c'.disk.extent g.name := by
        rw [hextent hn, if_pos rfl, hord.extent_eq hopen]
        exact Nat.lt_succ_self _
      have hi' : c'.disk.ids.find? g.name = some (⟨file, g.pages⟩ : PageId).file := hi
      have hclaims := Faithful.claims (c := c') hd' ho' hf' (fun he => hs.sound.pins_of_excused he)
        (fun _ => ⟨g.name, hi', hlt, hstored.symm⟩) hc
      have hshown : ∀ {name'}, own name' → (Cache.alloc file s.cache).2.pages name' =
          update F g.name (some (ps ++ [Page.blank])) name' := by
        intro name' hn'
        have hthere : ∀ name, c'.disk.number? name = s.cache.disk.number? name :=
          fun _ => Disk.number?_written ..
        have hnew := pages_extended (c := c') hs.sound hn ((hshows hn).trans hp) hlen hroom hthere
          hextent hpage hn'
        rw [hclaims.2.2.pages_eq hn', Function.update_apply, ← hshows hn']
        exact hnew
      rw [hr] at hacc ⊢
      cases r with
      | error e =>
        refine ⟨_, Or.inr ⟨rfl, hroom⟩, ⟨hacc, hclaims.1,
          hclaims.2.1.mono (Store.Excused.cons (List.Subset.refl _))⟩, hshown,
          fun ht => (htorn ht).cons⟩
      | ok i =>
        exact ⟨hlen, hne, ⟨hacc, hclaims.1,
          hclaims.2.1.mono (Store.Excused.cons (List.subset_cons_self _ _))⟩, hshown,
          fun ht => (htorn ht).cons⟩

/-- A change of a pinned page in its frame is a change of that page alone. -/
theorem overwrite (hs : Shown own F t opens (h :: holds) s) (ho : (h.id.file, name) ∈ opens)
    (hp : F name = some ps) (page : Page) :
    Shown own (update F name (some (ps.set h.id.page.toNat page))) t opens
      ({ h with dirty := true } :: holds) (s.overwrite h.frame page) := by
  have ⟨⟨ha, hord, hf⟩, hshows, htorn⟩ := hs
  obtain ⟨hn, hi, -⟩ := hs.sound.opened ho
  have hfind := ha.pinned.held h List.mem_cons_self
  have hcached := ha.pinned.wf.cached_modifyFrame hfind fun f => { f with contents := page }
  have hback : ∀ {id i f}, (s.overwrite h.frame page).cache.pool.cached id = some (i, f) →
      id ≠ h.id → s.cache.pool.cached id = some (i, f) := by
    intro id i f hc hid
    have hc' := (hcached id).symm.trans hc
    rwa [if_neg hid] at hc'
  have hpage : ∀ name' n, (s.overwrite h.frame page).cache.page name' n =
      if name' = name ∧ n = h.id.page then page else s.cache.page name' n :=
    fun _ _ => Cache.page_setContents ha.opened ha.pinned.wf hfind hi page
  have hthere : ∀ {id i f}, (s.overwrite h.frame page).cache.pool.cached id = some (i, f) →
      ∃ i f, s.cache.pool.cached id = some (i, f) := by
    intro id i f hc
    by_cases hid : id = h.id
    · exact ⟨h.frame, s.cache.pool.frame h.frame, by simp [Pool.cached, hid, hfind]⟩
    · exact ⟨i, f, hback hc hid⟩
  refine ⟨⟨(Accounted.writable opens h.id.file).edit page ha, hord, ⟨?_, ?_, ?_⟩⟩,
    fun {name'} hn' => ?_, htorn⟩
  · intro id i f hc
    obtain ⟨i', f', hc'⟩ := hthere hc
    exact hf.issued hc'
  · intro id i f name' hc hi'
    obtain ⟨i', f', hc'⟩ := hthere hc
    exact hf.resident hc' hi'
  · intro id i f name' hc hi'
    by_cases hid : id = h.id
    · exact Or.inr (Or.inr (Or.inr ⟨_, List.mem_cons_self, hid.symm, rfl⟩))
    · exact (hf.truthful (hback hc hid) hi').imp_right (Or.imp_right (Store.Excused.soil page))
  · rw [pages_edited (c := (s.overwrite h.frame page).cache) hs.sound hn ((hshows hn).trans hp) rfl
      hpage, Function.update_apply, hshows hn']

theorem openFile (hn : own name) : Ensures (Shown own F t opens holds) (Store.openFile name)
    fun r s => match r with
      | .ok id => Shown own F t ((id, name) :: opens) holds s
      | .error _ => Shown own F t opens holds s := by
  rintro s ⟨⟨ha, ho, hf⟩, hshows, htorn⟩
  have hacc := Accounted.openFile opens holds name s ha
  rw [Store.openFile, Store.onDisk_apply] at hacc ⊢
  cases hopen : s.cache.disk.openFile name with
  | error e => exact ⟨⟨ha, ho, hf⟩, hshows, htorn⟩
  | ok r =>
    rw [hopen] at hacc
    obtain ⟨ho', htree, hdir, -, hids⟩ := ho.openFile hn hopen
    obtain ⟨hf', hshows'⟩ := hf.bind own htree hdir (Disk.Later.openFile hopen).next <| by
      rcases hids with hids | ⟨hid, hnone, hids⟩
      · exact Or.inl hids
      · exact Or.inr ⟨name, hnone, hid ▸ hids⟩
    exact ⟨⟨hacc, ho', hf'⟩, fun hm => (hshows'.pages_eq hm).trans (hshows hm), htorn⟩

theorem closeFile (opens : List (UInt32 × String)) (holds : List Hold) (id : UInt32)
    (name : String) : Ensures (Shown own F t ((id, name) :: opens) holds) (Store.closeFile id)
      fun _ => Shown own F t opens holds := by
  intro s ⟨⟨ha, ho, hf⟩, hshows, htorn⟩
  have hacc := Accounted.closeFile opens holds id name s ha
  obtain ⟨d, hc, -⟩ := ha.opened.closeFile
  rw [Store.closeFile, Store.updateDisk_apply, hc] at hacc ⊢
  obtain ⟨ho', htree, hdir, hids⟩ := ho.closeFile hc
  obtain ⟨hf', hshows'⟩ := hf.bind own htree hdir (Disk.Later.closeFile hc).next (Or.inl hids)
  exact ⟨⟨hacc, ho', hf'⟩, fun hm => (hshows'.pages_eq hm).trans (hshows hm), htorn⟩

theorem managed (own : String → Prop) (F : String → Option (List Page)) (t : Prop) :
    Managed (Shown own F t) where
  lasting _ := lasting own F t _ _
  perm hp h := ⟨⟨Accounted.managed.perm hp h.sound.accounted, h.sound.orderly, h.sound.faithful⟩,
    h.shows, h.torn⟩
  leave opens hs id name s h := closeFile opens hs id name _ ((lasting own F t _ id).flush hs s h)

theorem admits (hn : own name) : Admits (Shown own F t) name := fun opens holds =>
  Store.openHeap_ensures (fun id => (lasting own F t _ id).browsed)
    ⟨openFile hn, fun id => closeFile opens holds id name⟩

theorem createFile (hn : own name) (hs : Shown own F t opens holds s) :
    match Store.createFile name s with
    | (.ok _, s') => F name = none ∧ Shown own (update F name (some [])) t opens holds s'
    | (.error _, s') => Shown own F t opens holds s' := by
  have ⟨⟨ha, ho, hf⟩, hshows, htorn⟩ := hs
  have hacc := Accounted.createFile name s ha
  rw [Store.createFile, Store.updateDisk_apply] at hacc ⊢
  cases hc : s.cache.disk.create name with
  | error e => exact hs
  | ok d =>
    rw [hc] at hacc
    obtain ⟨ho', hf', hnone, hnew, hsame⟩ := hf.create ha.opened ho hn hc
    refine ⟨(hshows hn).symm.trans hnone, ⟨⟨hacc, ho', hf'⟩, fun {m} hm => ?_, htorn⟩⟩
    by_cases hm' : m = name
    · rw [hm', Function.update_self]
      exact hnew
    · rw [Function.update_of_ne hm', ← hshows hm]
      exact hsame hm hm'

end Shown
end PagedHeap
