import PagedHeap.Proofs.ScanTurns
import PagedHeap.Proofs.Serving

/-! Open heap files whose requests are served. Their current page can be given back, and another page
of the file be taken, unless the store is short of pins; so a search goes on until it finds something
or comes to the end, and a scan goes back to its mark. -/
namespace PagedHeap

namespace Shown
variable {own : String → Prop} {F : String → Option (List Page)} {t : Prop}
  {opens : List (UInt32 × String)} {holds : List Hold} {s : Store} {name : String} {ps : List Page}

lemma length_eq (hs : Shown own F t opens holds s) (hn : own name) (hps : F name = some ps) :
    s.cache.disk.extent name = ps.length :=
  ((pages_iff hs.sound hn).mp ((hs.shows hn).trans hps)).2.1.symm

end Shown

/-- The store goes on serving those who have the files open, and no pin was left behind. -/
structure Site.Steady (c : Site) (s s' : Store) : Prop where
  serves : s'.Serves c.opens
  refused : ∀ id, s'.refused id = s.refused id

lemma Site.Steady.trans {c : Site} {s s' s'' : Store} (h : c.Steady s s') (h' : c.Steady s' s'') :
    c.Steady s s'' := ⟨h'.serves, fun id => (h'.refused id).trans (h.refused id)⟩

/-- A page is pinned as before then, but for what the file holds. -/
lemma Site.Steady.pins {c : Site} {t : Prop} {ps : List Page} {s s' : Store} {f g : HeapFile}
    (hs : c.Steady s s') (h : c.On t ps f s) (h' : c.On t ps g s') (id : PageId) :
    s'.cache.pool.pins id + holdsOn f.holds id = s.cache.pool.pins id + holdsOn g.holds id := by
  have hbefore := h.holds.sound.accounted.pinned.pins_eq id
  have hafter := h'.holds.sound.accounted.pinned.pins_eq id
  have hsame := hs.refused id
  simp only [holdsOn, List.countP_append] at hbefore hafter ⊢
  omega

/-- An open heap file where nothing was refused. -/
abbrev Site.Neat (c : Site) (n : Nat) : HeapFile → Store → Prop :=
  Kept (Tidy n c.opens c.opens) c.rest c.id c.name

lemma Site.writable (c : Site) (n : Nat) : Writable c.id (Tidy n c.opens c.opens) :=
  Tended.writable c.isOpen

namespace HeapFile
open HandleM
variable {c : Site} {t : Prop} {ps : List Page} {f : HeapFile} {s : Store} {p : PinnedPage}
  {n k : Nat} {m : UInt32}

lemma length_holds_le (f : HeapFile) : f.holds.length ≤ 2 := by
  rw [holds, List.length_map, List.length_append]
  cases f.current <;> cases f.header <;> simp

lemma serves_of_neat (ht : c.Neat k f s) : s.Serves c.opens :=
  ht.holds.serves (List.Subset.refl _)

lemma not_short_of_neat {e : StoreError} (ht : c.Neat k f s)
    (hroom : c.rest.length + 2 < min k Frame.maxPins) : ¬ s.Short e := by
  have hle := f.length_holds_le
  exact ht.holds.not_short (by rw [List.length_append]; omega)

/-- A file without a current page holds one pin. -/
lemma not_short_of_left {e : StoreError} (ht : c.Neat k f s) (hnone : f.current = none)
    (hroom : c.rest.length + 1 < min k Frame.maxPins) : ¬ s.Short e := by
  have hle : f.holds.length ≤ 1 := by
    rw [holds, hnone]
    cases f.header <;> simp
  exact ht.holds.not_short (by rw [List.length_append]; omega)

lemma editHeader_smooth (edit : FileHeader → Except StoreError FileHeader)
    (hp : f.header = some p) : s.Smooth [] (editHeader edit f s).2 := by
  rw [editHeader_some edit hp]
  cases FileHeader.ofPage (s.contents p.frame) with
  | none => exact .refl s
  | some hd =>
    dsimp only
    cases edit hd with
    | error e => exact .refl s
    | ok hd' => exact (Store.Smooth.refl s).overwrite _ _

variable (h : c.On t ps f s) (hs : s.Serves c.opens)
include h hs

lemma releaseCurrent_served : (releaseCurrent f s).1.1 = .ok () ∧
    c.Steady s (releaseCurrent f s).2 := by
  cases hc : f.current with
  | none =>
    rw [releaseCurrent_none hc]
    exact ⟨rfl, hs, fun _ => rfl⟩
  | some p =>
    have hheld := h.holds.sound.accounted
    rw [holds_of_some hc] at hheld
    obtain ⟨s', hu, hs'⟩ := hs.unpinPage (h := p.hold f.id) hheld ⟨_, h.isOpen_of p⟩
    have hu : Store.unpinPage ⟨f.id, p.number⟩ p.dirty s = (.ok (), s') := hu
    have hsame := fun id => Store.refused_unpinPage id (congrArg Prod.fst hu)
    rw [releaseCurrent_some hc]
    rw [hu] at hsame ⊢
    exact ⟨rfl, hs', hsame⟩

lemma pinCurrent_served (m : UInt32) :
    c.Steady s (pinCurrent m f s).2 ∧
    match pinCurrent m f s with
    | ((.ok _, g), _) => (∃ i, g = { f with current := some { number := m, frame := i } }) ∧
        Heap.page? ps m ≠ none
    | ((.error e, g), s') => g = f ∧
        (e = .pageNotFound ⟨f.id, m⟩ ∧ Heap.page? ps m = none ∨
          s'.Short e ∧ Heap.page? ps m ≠ none) := by
  have hopen : (f.id, c.name) ∈ c.opens := h.id_eq ▸ c.isOpen
  have hread := hs.readPage h.holds.sound hopen m
  have hsame := s.refused_readPage ⟨f.id, m⟩
  rw [h.holds.length_eq h.own (Function.update_self ..)] at hread
  have hthere : m.toNat < ps.length → Heap.page? ps m ≠ none := fun hlt hnone =>
    Nat.not_le_of_lt hlt (List.getElem?_eq_none_iff.mp hnone)
  rw [pinCurrent_apply]
  rcases hr : Store.readPage ⟨f.id, m⟩ s with ⟨e | i, s'⟩ <;> rw [hr] at hread hsame
  · obtain ⟨hs', hwhy⟩ := hread
    exact ⟨⟨hs', hsame⟩, rfl, hwhy.imp (And.imp_right fun hle => List.getElem?_eq_none hle)
      (And.imp_right hthere)⟩
  · exact ⟨⟨hread.2, hsame⟩, ⟨i, rfl⟩, hthere hread.1⟩

lemma switchTo_served (m : UInt32) :
    c.Steady s (switchTo m f s).2 ∧
    match switchTo m f s with
    | ((.ok _, g), _) => (∃ i, g = { f with current := some { number := m, frame := i } }) ∧
        Heap.page? ps m ≠ none
    | ((.error e, g), s') => g = { f with current := none } ∧
        (e = .pageNotFound ⟨f.id, m⟩ ∧ Heap.page? ps m = none ∨
          s'.Short e ∧ Heap.page? ps m ≠ none) := by
  obtain ⟨hok, hsteady⟩ := releaseCurrent_served h hs
  obtain ⟨hon, -⟩ := releaseCurrent_keeps (c.lasting t ps) f s h
  have hleft := releaseCurrent_left f s
  unfold switchTo
  rw [HandleM.bind_apply]
  rcases hr : releaseCurrent f s with ⟨⟨res, g⟩, s'⟩
  rw [hr] at hok hsteady hon hleft
  obtain rfl : res = .ok () := hok
  obtain rfl : g = _ := hleft
  obtain ⟨hsteady', hpin⟩ := pinCurrent_served hon hsteady.serves m
  exact ⟨hsteady.trans hsteady', hpin⟩

section Insert
variable {hd : FileHeader} {body : List UInt32} {spare : Option UInt32}

lemma seekLast_served (hl : Heap.Layout t ps hd body spare) : (seekLast f s).2.Serves c.opens ∧
    ∀ e, (seekLast f s).1.1 = .error e → (seekLast f s).2.Short e := by
  have hpage := hl.page_lt (List.mem_append_left _ hl.last_mem)
  unfold seekLast
  rw [h.lastPage hl.header]
  dsimp only
  split
  · exact ⟨hs, nofun⟩
  · obtain ⟨hsteady, hswitch⟩ := switchTo_served h hs hd.last
    refine ⟨hsteady.serves, fun e he => ?_⟩
    rcases hsw : switchTo hd.last f s with ⟨⟨e' | _, g⟩, s'⟩ <;> rw [hsw] at hswitch he
    · cases he
      exact (hswitch.2.resolve_left fun hnone =>
        Nat.not_le_of_lt hpage (List.getElem?_eq_none_iff.mp hnone.2)).1
    · cases he

/-- A page can be added, unless the file has too many. -/
lemma appendPage_served (hl : Heap.Layout t ps hd body spare) (hcur : f.currentPage = some hd.last)
    {e : StoreError} (he : (appendPage f s).1.1 = .error e) :
    (appendPage f s).2.Short e ∨ e = .countOverflow ∧ ps.length + 1 = UInt32.size := by
  obtain ⟨old, hc, -⟩ := currentPage_eq_some_iff.mp hcur
  have hopen : (f.id, c.name) ∈ c.opens := h.isOpen_of old
  have hI := Accounted.writable c.opens f.id
  have halloc := hI.alloc (f.holds ++ c.rest) s h.holds.sound.accounted
  have hserved := hs.allocPage h.holds.sound hopen
  have hasks := Store.asks_allocPage h.holds.sound.accounted.pinned.wf f.id
  have happend := appendPage_on hl h hcur
  rw [h.holds.length_eq h.own (Function.update_self ..)] at hserved
  rw [appendPage_some hc] at he happend ⊢
  rcases ha : Store.allocPage f.id s with ⟨e' | ⟨k, i⟩, s'⟩ <;>
    rw [ha] at halloc hserved hasks he happend
  · cases he
    exact hserved.2
  rw [holds_of_some hc] at halloc
  have hlinked := hI.edit (((s'.overwrite i (Page.empty k)).contents old.frame).setNext (some k))
    (hI.perm (List.Perm.swap ..) (hI.edit (Page.empty k) halloc))
  have hserves : (linked s' old k i).Serves c.opens :=
    Store.Serves.overwrite (Store.Serves.overwrite hserved _ _) _ _
  obtain ⟨s'', hu, -⟩ := hserves.unpinPage (h := { old.hold f.id with dirty := true })
    hlinked ⟨_, hopen⟩
  have hu : Store.unpinPage ⟨f.id, old.number⟩ true (linked s' old k i) = (.ok (), s'') := hu
  have hback := Store.asks_unpinPage (linked s' old k i) ⟨f.id, old.number⟩ true
  obtain ⟨p, hp, -⟩ := Kept.header h
  have hsmooth : s.Smooth [⟨f.id, k⟩] (linked s' old k i) :=
    (Store.Smooth.overwrite hasks _ _).overwrite _ _
  rw [hu] at hback
  dsimp only at he happend
  rw [hu] at he happend
  dsimp only at he happend
  have hcounted := (hsmooth.trans hback).trans (editHeader_smooth (fun hd => hd.addPage k)
    (f := { f with current := some { number := k, frame := i, dirty := true }, cursor := none }) hp)
  rcases hedit : editHeader (fun hd => hd.addPage k)
    { f with current := some { number := k, frame := i, dirty := true }, cursor := none } s''
    with ⟨⟨e' | _, g⟩, s₃⟩ <;> rw [hedit] at he happend hcounted
  · exact (hcounted.not_broken happend.1).elim
  · cases he

/-- No request of an insertion fails, unless the store is short of pins, or there is no room in the last
page and the file has too many. -/
theorem insert_served (hl : Heap.Layout t ps hd body spare) {page : Page}
    (hlast : Heap.page? ps hd.last = some page) {b : Bytes} (hlen : b.length ≤ Page.maxRecord) :
    (∃ added, s.Smooth added (insert b f s).2) ∨
      ∃ e, (insert b f s).1.1 = .error e ∧ ((insert b f s).2.Short e ∨
        e = .countOverflow ∧ ¬ page.shown.Fits b ∧ ps.length + 1 = UInt32.size) := by
  have hins := insertion_on hl hlast hlen h
  have hseek := seekLast_served h hs hl
  rcases hi : insert b f s with ⟨⟨res, g⟩, s'⟩
  rw [hi] at hins
  cases hins with
  | here _ _ smooth => exact Or.inl ⟨_, smooth⟩
  | behind _ _ smooth => exact Or.inl ⟨_, smooth⟩
  | uncounted _ _ smooth => exact Or.inl ⟨_, smooth⟩
  | @failed e _ _ _ _ stop =>
    refine Or.inr ⟨e, rfl, ?_⟩
    cases stop with
    | @seek e' failed told =>
      rw [failed] at hseek
      have hshort := hseek.2 e' rfl
      exact Or.inl (told (by rintro rfl; cases hshort) ▸ hshort)
    | append crowded before on there failed =>
      rw [before] at hseek
      have happend := appendPage_served (e := e) on hseek.1 hl there
      rw [failed] at happend
      exact (happend rfl).imp_right fun ⟨he, hfull⟩ => ⟨he, crowded, hfull⟩

end Insert

end HeapFile

namespace Scan
open HandleM HeapFile Heap
variable {c : Site} {t : Prop} {ps : List Page} {hd : FileHeader} {scan : Scan} {s : Store}
  {body : List UInt32} {spare : Option UInt32} {p : PinnedPage}

section Served
variable (h : c.On t ps scan.file s) (hs : s.Serves c.opens)
include h hs

lemma leave_served {next? : Option UInt32} (hnext : ∀ m, next? = some m → page? ps m ≠ none) :
    (leave next? scan s).2.Serves c.opens ∧
      ∀ e, (leave next? scan s).1.1 = .error e → (leave next? scan s).2.Short e := by
  obtain ⟨hok, hsteady⟩ := releaseCurrent_served h hs
  obtain ⟨hon, -⟩ := releaseCurrent_keeps (c.lasting t ps) scan.file s h
  unfold leave
  rw [HandleM.bind_apply, onFile_apply]
  rcases hr : releaseCurrent scan.file s with ⟨⟨res, g⟩, s'⟩
  rw [hr] at hok hsteady hon
  obtain rfl : res = .ok () := hok
  dsimp only
  rw [HandleM.bind_apply, onFile_apply]
  cases next? with
  | none => exact ⟨hsteady.serves, nofun⟩
  | some m =>
    obtain ⟨hsteady', hpin⟩ := pinCurrent_served (hon.cursor none) hsteady.serves m
    dsimp only [change]
    rw [HandleM.bind_apply, onFile_apply]
    dsimp only
    rcases hp : pinCurrent m { g with cursor := none } s' with ⟨⟨e | _, g'⟩, s''⟩ <;>
      rw [hp] at hpin hsteady'
    · refine ⟨hsteady'.serves, ?_⟩
      rintro _ ⟨⟩
      exact (hpin.2.resolve_left fun hnone => hnext m rfl hnone.2).1
    · exact ⟨hsteady'.serves, nofun⟩

theorem reset_served (hmark : ∀ n, scan.mark.page = some n → IsData ps n) :
    (reset scan s).1.1 = .ok () ∨
      ∃ e, (reset scan s).2.Short e ∧ (reset scan s).1.2.file.current = none := by
  by_cases hsame : scan.mark.page = scan.file.currentPage
  · rw [reset_here hsame]
    exact Or.inl rfl
  obtain ⟨hok, hsteady⟩ := releaseCurrent_served h hs
  obtain ⟨hon, hnone⟩ := releaseCurrent_keeps (c.lasting t ps) scan.file s h
  rw [reset_there hsame]
  rcases hr : releaseCurrent scan.file s with ⟨⟨res, g⟩, s'⟩
  rw [hr] at hok hsteady hon hnone
  obtain rfl : res = .ok () := hok
  dsimp only
  cases hm : scan.mark.page with
  | none => exact Or.inl rfl
  | some n =>
    obtain ⟨-, hpin⟩ := pinCurrent_served hon hsteady.serves n
    dsimp only
    rcases hp : pinCurrent n g s' with ⟨⟨e | _, g'⟩, s''⟩ <;> rw [hp] at hpin
    · obtain ⟨rfl, ⟨-, hgone⟩ | ⟨hshort, -⟩⟩ := hpin
      · obtain ⟨-, q, hq, -⟩ := hmark n hm
        cases hq.symm.trans hgone
      · exact Or.inr ⟨e, hshort, hnone⟩
    · exact Or.inl rfl

end Served

/-- No request of a search fails, unless the store is short of pins. -/
theorem steps_served (hl : Layout t ps hd body spare) (fuel : Nat) (h : c.On t ps scan.file s)
    (hf : Site.OnDataPage ps scan.file) (hs : s.Serves c.opens) :
    (steps fuel scan s).2.failures = s.failures ∨
      ∃ e, (steps fuel scan s).1.1 = .error e ∧ (steps fuel scan s).2.Short e := by
  induction fuel generalizing scan s with
  | zero => exact Or.inl rfl
  | succ k ih =>
    have hkeep := step_keeps (c.lasting t ps) scan s h
    unfold steps
    rw [HandleM.bind_apply]
    cases hc : scan.file.current with
    | none =>
      rw [step_none hc]
      split
      · next heq => split at heq <;> cases heq; exact Or.inl rfl
      · next heq => split at heq <;> cases heq; exact Or.inl rfl
    | some p =>
      have hdata := hf p.number (by rw [currentPage, hc]; rfl)
      rcases step_on hl hf h hc with ⟨slot, b, -, -, -, hstep⟩ | ⟨-, hstep⟩
      · rw [hstep] at hkeep ⊢
        by_cases hv : scan.shows b = true
        · rw [if_pos hv]
          exact Or.inl rfl
        · rw [if_neg hv]
          exact ih hkeep hf hs
      · have hthere : ∀ m, Heap.next? ps p.number = some m → IsData ps m := fun m hm =>
          ((hl.next_spec (hl.mem_of_next hdata hm) hm).2.1).elim hl.isData hl.isData_spare
        obtain ⟨hs', hshort⟩ := leave_served h hs fun m hm hnone => by
          obtain ⟨-, q, hq, -⟩ := hthere m hm
          cases hq.symm.trans hnone
        rw [hstep] at hkeep ⊢
        obtain ⟨res, scan', s', heq, hcases⟩ := leave_cases hc (Heap.next? ps p.number) s
        rw [heq] at hkeep hshort hs' ⊢
        rcases hcases with ⟨e, rfl, -⟩ | ⟨hsame, ⟨-, rfl, rfl⟩ | ⟨m, i, hm, rfl, rfl⟩⟩
        · exact Or.inr ⟨e, rfl, hshort e rfl⟩
        · exact Or.inl hsame
        · refine (ih hkeep (fun n hn => ?_) hs').imp_left (·.trans hsame)
          cases hn
          exact hthere m hm

/-- A search that starts on a page of the chain comes to an answer. -/
lemma next_served (hl : Layout t ps hd body spare) (h : c.On t ps scan.file s)
    (hf : Site.OnDataPage ps scan.file) (hs : s.Serves c.opens) (hc : scan.file.current ≠ none) :
    (∃ found, (next scan s).1.1 = .ok found) ∨
      ∃ e, (next scan s).1.1 = .error e ∧ (next scan s).2.Short e :=
  (steps_served hl _ h hf hs).imp_left (next_ok hl hf h hc)

end Scan

namespace Workspace
variable {own : String → Prop} {w : Workspace} {cache : Cache} {key : String} {old : Handle}
  {actions : List Action}

/-- Where nothing was ever refused, a scan can go back to its mark while the others leave a frame. -/
theorem reset_ok {config : Config} {tree : FileTree} {scan : Scan}
    (hc : Cache.ofConfig config tree = .ok cache)
    (h : Standing own ((start cache fun _ _ => none).run actions))
    (hf : ((start cache fun _ _ => none).run actions).handles.find? key = some (.scan scan))
    (hroom : (heldBy (((start cache fun _ _ => none).run actions).handles.erase key)).length + 1 <
      min config.frames Frame.maxPins) :
    (perform (.reset key) ((start cache fun _ _ => none).run actions)).1 = .ok (.answer .done) := by
  obtain ⟨ps, hd, body, spare, -, -, hs, hon⟩ := h.on hf
  let c := site own ((start cache fun _ _ => none).run actions) key (.scan scan)
  have halone := (run_tidy hc actions).alone (Tended.upheld ..).toManaged hf
  have hneat : c.Neat config.frames scan.file _ := halone
  have hok : (Scan.reset scan ((start cache fun _ _ => none).run actions).store).1.1 = .ok () := by
    rcases Scan.reset_served hon (HeapFile.serves_of_neat hneat) hs.2 with hok | ⟨e, hshort, hnone⟩
    · exact hok
    · have hneat' := Scan.reset_keeps (c.writable config.frames).toLasting scan _ hneat
      exact absurd hshort (HeapFile.not_short_of_left hneat' hnone hroom)
  rw [(perform_of_onScan (a := .reset key) hf rfl).1, hok]
  rfl

/-- At most two pages are pinned where one handle is all that is held. -/
lemma length_heldBy_le (hd : w.handles.Distinct) (hf : w.handles.find? key = some old)
    (halone : ∀ other, other ≠ key → w.handles.find? other = none) :
    (heldBy w.handles).length ≤ 2 := by
  rw [(heldBy_perm hd hf).length_eq, List.length_append, heldBy_erase hd halone]
  exact old.file.length_holds_le

end Workspace
end PagedHeap
