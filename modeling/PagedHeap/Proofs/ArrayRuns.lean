import PagedHeap.Proofs.DiskRuns
import PagedHeap.Proofs.PageArrays
import PagedHeap.Proofs.Runs

/-! Runs of a disk on arrays of pages. What each file is after some calls can be read off the log:
creating a file makes an empty array, and pages are put into it or appended to it by the ids under
which it is open. The number of pages that the disk keeps for an open file, and the one that it
counts when it opens one, are both the length of the array. -/
namespace PagedHeap

/-- Whether a call names no file but one of these. -/
def DiskCall.Within (own : String → Prop) : DiskCall → Prop
  | create name | openFile name | destroy name => own name
  | _ => True

namespace DiskLog

/-- The name under which a file was last opened with an id. -/
def nameOf (id : UInt32) : DiskLog → Option String
  | [] => none
  | (.openFile name, .ok (some other)) :: rest => if other = id then some name else nameOf id rest
  | _ :: rest => nameOf id rest

/-- The array that a file is, if there is one, where it was this one at first. -/
def array (name : String) (start : Option (List Page)) : DiskLog → Option (List Page)
  | [] => start
  | (.create other, .ok _) :: rest => if other = name then some [] else array name start rest
  | (.destroy other, .ok _) :: rest => if other = name then none else array name start rest
  | (.writePage id p, .ok _) :: rest =>
    if nameOf id.file rest = some name
      then (array name start rest).map fun ps => PageArray.put ps id.page.toNat p
      else array name start rest
  | (.allocPage id, .ok _) :: rest =>
    if nameOf id rest = some name then (array name start rest).map fun ps => ps ++ [Page.blank]
    else array name start rest
  | _ :: rest => array name start rest

/-- What was last written to a page of a file since it was made; a page that was not written is blank,
or what it was at first. -/
def latest (name : String) (start : Option (List Page)) (n : Nat) : DiskLog → Page
  | [] => (start.getD [])[n]?.getD Page.blank
  | (.create other, .ok _) :: rest => if other = name then Page.blank else latest name start n rest
  | (.writePage id p, .ok _) :: rest =>
    if nameOf id.file rest = some name ∧ n = id.page.toNat then p else latest name start n rest
  | _ :: rest => latest name start n rest

variable {name : String} {start : Option (List Page)} {log : DiskLog} {ps : List Page}

/-- Each page of an array is what was last written there. -/
theorem getD_array (h : array name start log = some ps) (n : Nat) :
    ps[n]?.getD Page.blank = latest name start n log := by
  induction log generalizing ps with
  | nil =>
    cases h
    rfl
  | cons entry rest ih =>
    obtain ⟨call, _ | r⟩ := entry
    · cases call <;> exact ih h
    · cases call with
      | openFile | closeFile => exact ih h
      | create other =>
        rw [array] at h
        rw [latest]
        split at h
        · next hname =>
          cases h
          rw [if_pos hname]
          rfl
        · next hname =>
          rw [if_neg hname]
          exact ih h
      | destroy other =>
        rw [array] at h
        split at h
        · cases h
        · exact ih h
      | writePage id p =>
        rw [array] at h
        rw [latest]
        split at h
        · next hname =>
          obtain ⟨qs, hqs, rfl⟩ := Option.map_eq_some_iff.mp h
          rw [PageArray.getD_put, ih hqs]
          simp only [hname, true_and]
        · next hname =>
          rw [if_neg fun hwritten => hname hwritten.1]
          exact ih h
      | allocPage id =>
        rw [array] at h
        split at h
        · obtain ⟨qs, hqs, rfl⟩ := Option.map_eq_some_iff.mp h
          refine Eq.trans ?_ (ih hqs)
          rw [← PageArray.put_length, PageArray.getD_put]
          split
          · next hn => rw [hn, List.getElem?_eq_none (Nat.le_refl _), Option.getD_none]
          · rfl
        · exact ih h

end DiskLog

/-- What can be done with a file that is open under an id, and is this array. -/
structure Access (d : Disk) (id : UInt32) (name : String) (ps : List Page) : Prop where
  pages : d.pagesOf name = some ps
  count : d.numPages id = .ok (UInt32.ofNat ps.length) ∧ ps.length < UInt32.size
  read : ∀ n : UInt32, d.readPage ⟨id, n⟩ =
    match ps[n.toNat]? with
    | some p => .ok p
    | none => .error (.pageNotFound ⟨id, n⟩)
  /-- Pages are written wherever they can be counted, and no other file is changed. -/
  write : ∀ (n : UInt32) (p : Page), n ≠ noPage → ∃ d', d.writePage ⟨id, n⟩ p = .ok d' ∧
    d'.pagesOf name = some (PageArray.put ps n.toNat p) ∧
    d'.numPages id = .ok (UInt32.ofNat (PageArray.put ps n.toNat p).length) ∧
    ∀ m, d.number? m ≠ d.number? name → d'.contentsOf m = d.contentsOf m
  /-- Pages are added for as long as they can be counted, and no other file is changed. -/
  alloc : ps.length + 1 < UInt32.size → ∃ d', d.allocPage id = .ok (UInt32.ofNat ps.length, d') ∧
    d'.pagesOf name = some (ps ++ [Page.blank]) ∧
    d'.numPages id = .ok (UInt32.ofNat (ps.length + 1)) ∧
    ∀ m, d.number? m ≠ d.number? name → d'.contentsOf m = d.contentsOf m
  /-- The file is closed for good and opened again under its id, and is as it was. -/
  reopen : d.uses id = 1 → ∃ shut d', d.closeFile id = .ok shut ∧
    shut.handle id = .error (.fileNotOpen id) ∧ shut.openFile name = .ok (id, d') ∧
    d'.pagesOf name = some ps ∧ d'.numPages id = d.numPages id ∧
    ∀ n, d'.readPage ⟨id, n⟩ = d.readPage ⟨id, n⟩

namespace Shelved
variable {own : String → Prop} {d d' : Disk} {id : UInt32} {h : OpenFile} {p : Page}
  {ps : List Page} {n : UInt32}

/-- What is open and is this array has the pages of the array, and they are counted. -/
lemma contents_of_pages (hs : Shelved own d) (hf : d.opened.find? id = some h)
    (hps : d.pagesOf h.name = some ps) :
    (d.contents h).Whole ∧ (d.contents h).toPages = ps ∧ h.pages.toNat = ps.length := by
  obtain ⟨-, hcontents, hwhole, hlen⟩ := hs.exists_pages hf
  rw [Disk.pagesOf, hcontents] at hps
  cases hps
  exact ⟨hwhole, rfl, hlen⟩

lemma numPages (hs : Shelved own d) (hf : d.opened.find? id = some h)
    (hps : d.pagesOf h.name = some ps) : d.numPages id = .ok (UInt32.ofNat ps.length) := by
  obtain ⟨-, -, hlen⟩ := hs.contents_of_pages hf hps
  rw [← hlen, UInt32.ofNat_toNat, Disk.numPages, Disk.handle_of_find? hf]
  rfl

lemma readPage (hs : Shelved own d) (hf : d.opened.find? id = some h)
    (hps : d.pagesOf h.name = some ps) (n : UInt32) : d.readPage ⟨id, n⟩ =
      match ps[n.toNat]? with
      | some p => .ok p
      | none => .error (.pageNotFound ⟨id, n⟩) := by
  obtain ⟨hwhole, rfl, hlen⟩ := hs.contents_of_pages hf hps
  have hread := hwhole.readPage n.toNat
  cases hp : (d.contents h).toPages[n.toNat]? with
  | none =>
    have hle : h.pages ≤ n := by
      rw [UInt32.le_iff_toNat_le, hlen]
      exact List.getElem?_eq_none_iff.mp hp
    simp [Disk.readPage, Disk.handle_of_find? hf, hle, bind, Except.bind, throw, throwThe,
      MonadExceptOf.throw]
  | some p =>
    have hlt : n < h.pages := by
      rw [UInt32.lt_iff_toNat_lt, hlen]
      exact (List.getElem?_eq_some_iff.mp hp).choose
    exact Disk.readPage_eq_ok_iff.mpr ⟨h, hf, hlt, hread.trans hp⟩

/-- A page that is written is put into the array, and the disk counts it. -/
lemma writePage (hs : Shelved own d) (hf : d.opened.find? id = some h)
    (hps : d.pagesOf h.name = some ps) (hn : n ≠ noPage) (p : Page) :
    (d.written h ⟨id, n⟩ p).pagesOf h.name = some (PageArray.put ps n.toNat p) ∧
      (d.written h ⟨id, n⟩ p).numPages id =
        .ok (UInt32.ofNat (PageArray.put ps n.toNat p).length) ∧
      ∀ m, d.number? m ≠ d.number? h.name →
        (d.written h ⟨id, n⟩ p).contentsOf m = d.contentsOf m := by
  obtain ⟨hwhole, rfl, -⟩ := hs.contents_of_pages hf hps
  obtain ⟨hs', hself, -⟩ := hs.written ⟨id, n⟩ p hf hn
  have hpages : (d.written h ⟨id, n⟩ p).pagesOf h.name =
      some (PageArray.put (d.contents h).toPages n.toNat p) := by
    rw [Disk.pagesOf, hself, Option.map_some, hwhole.toPages_writePage]
  have hopen : (d.written h ⟨id, n⟩ p).opened.find? id =
      some { h with pages := if h.pages ≤ n then n + 1 else h.pages } := by
    simp [Disk.written, Table.find?_insert]
  refine ⟨hpages, hs'.numPages hopen hpages, fun m hm => Disk.contentsOf_written ?_⟩
  rwa [(hs.orderly.opened hf).1] at hm

lemma allocPage (hs : Shelved own d) (hf : d.opened.find? id = some h)
    (hps : d.pagesOf h.name = some ps) (hroom : ps.length + 1 < UInt32.size) :
    ∃ d', d.allocPage id = .ok (UInt32.ofNat ps.length, d') ∧
      d'.pagesOf h.name = some (ps ++ [Page.blank]) ∧
      d'.numPages id = .ok (UInt32.ofNat (ps.length + 1)) ∧
      ∀ m, d.number? m ≠ d.number? h.name → d'.contentsOf m = d.contentsOf m := by
  obtain ⟨-, -, hlen⟩ := hs.contents_of_pages hf hps
  have hne : h.pages ≠ noPage := fun he => by
    rw [he] at hlen
    simp only [noPage, UInt32.reduceToNat, UInt32.size] at hlen hroom
    omega
  have halloc := Disk.allocPage_eq_ok_iff.mpr ⟨h, hf, rfl, hne, rfl⟩
  obtain ⟨hput, hnum, hothers⟩ := hs.writePage hf hps hne Page.blank
  rw [hlen, PageArray.put_length] at hput hnum
  rw [List.length_append, List.length_singleton] at hnum
  rw [← hlen, UInt32.ofNat_toNat]
  exact ⟨_, halloc, hput, hlen ▸ hnum, hothers⟩

/-- What was opened once is closed for good and opened again, and nothing is different. -/
lemma reopen (hs : Shelved own d) (hf : d.opened.find? id = some h)
    (hps : d.pagesOf h.name = some ps) (hone : d.uses id = 1) :
    ∃ shut d', d.closeFile id = .ok shut ∧ shut.handle id = .error (.fileNotOpen id) ∧
      shut.openFile h.name = .ok (id, d') ∧ d'.pagesOf h.name = some ps ∧
      d'.numPages id = d.numPages id ∧ ∀ n, d'.readPage ⟨id, n⟩ = d.readPage ⟨id, n⟩ := by
  obtain ⟨opens, hopened⟩ := hs.opened
  have huses : h.uses = 1 := UInt32.toNat_inj.mp ((Disk.uses_of_find? hf).symm.trans hone)
  have hshut : d.closeFile id = .ok (d.closed id h) := Disk.closeFile_eq_ok_iff.mpr ⟨h, hf, rfl⟩
  obtain ⟨hs₁, hsame₁⟩ := hs.closeFile hshut
  have hnone : (d.closed id h).opened.find? id = none := by
    rw [Disk.find?_closed, if_pos rfl, if_pos huses]
  have hbound : (d.closed id h).ids.find? h.name = some id := (hopened.bound hf).1
  have hclosed : (d.closed id h).openAs? h.name = none := by
    simp [Disk.openAs?, hbound, hnone]
  obtain ⟨l, hl⟩ : ∃ l, (d.closed id h).place h.name = .file l h.number := by
    have hk : d.number? h.name = some h.number := (hs.orderly.opened hf).1
    rw [Disk.number?] at hk
    cases hp : d.place h.name <;> rw [hp] at hk <;> cases hk
    exact ⟨_, hp⟩
  have hopen := Disk.openFile_eq_ok_iff.mpr (Disk.Opening.bound hl hclosed hbound)
  obtain ⟨hs₂, hsame₂⟩ := hs₁.openFile (hs.exists_pages hf).1 hopen
  have hf₂ := Table.find?_insert (d.closed id h).opened id id
    ((d.closed id h).asOpened h.name h.number)
  rw [if_pos rfl] at hf₂
  have hps₂ := hps
  rw [Disk.pagesOf, ← hsame₁, ← hsame₂] at hps₂
  refine ⟨_, _, hshut, Disk.opened_eq_none_iff.mp hnone, hopen, hps₂, ?_, fun n => ?_⟩
  · rw [hs₂.numPages hf₂ hps₂, hs.numPages hf hps]
  · rw [hs₂.readPage hf₂ hps₂, hs.readPage hf hps]

/-- What is open can be used as an array. -/
theorem access (hs : Shelved own d) (hf : d.opened.find? id = some h)
    (hps : d.pagesOf h.name = some ps) : Access d id h.name ps where
  pages := hps
  count := by
    obtain ⟨-, -, hlen⟩ := hs.contents_of_pages hf hps
    exact ⟨hs.numPages hf hps, hlen ▸ h.pages.toNat_lt⟩
  read := hs.readPage hf hps
  write _ p hn := ⟨_, Disk.writePage_of_open hf hn, hs.writePage hf hps hn p⟩
  alloc := hs.allocPage hf hps
  reopen := hs.reopen hf hps

end Shelved

namespace DiskUse
variable {own : String → Prop} {start : String → Option (List Page)} {u : DiskUse} {call : DiskCall}
  {name : String} {id : UInt32} {page : PageId} {p : Page} {d' : Disk}

/-- The log tells what the files are, and which of them are open. -/
structure Recorded (own : String → Prop) (start : String → Option (List Page)) (u : DiskUse) :
    Prop where
  shelved : Shelved own u.disk
  named : ∀ {id h}, u.disk.opened.find? id = some h → u.log.nameOf id = some h.name
  pages : ∀ {name}, own name → u.disk.pagesOf name = u.log.array name (start name)

namespace Recorded

lemma failed (h : Recorded own start u) (call : DiskCall) (e : StoreError) :
    Recorded own start { u with log := (call, .error e) :: u.log } := by
  refine ⟨h.shelved, fun hf => Eq.trans ?_ (h.named hf), fun hn => (h.pages hn).trans ?_⟩
  all_goals cases call <;> rfl

lemma create (h : Recorded own start u) (hn : own name) (hc : u.disk.create name = .ok d') :
    Recorded own start { disk := d', log := (.create name, .ok none) :: u.log } := by
  obtain ⟨hs, hfiles⟩ := h.shelved.create hn hc
  refine ⟨hs, fun {i g} hf => ?_, fun {m} hm => ?_⟩
  · obtain ⟨-, l, -, rfl⟩ := Disk.create_eq_ok_iff.mp hc
    exact h.named hf
  · rw [DiskLog.array, ← h.pages hm, Disk.pagesOf, hfiles m hm]
    simp only [eq_comm (a := m)]
    split <;> rfl

lemma destroy (h : Recorded own start u) (hn : own name) (hr : u.disk.destroy name = .ok d') :
    Recorded own start { disk := d', log := (.destroy name, .ok none) :: u.log } := by
  obtain ⟨hs, hfiles⟩ := h.shelved.destroy hn hr
  refine ⟨hs, fun {i g} hf => ?_, fun {m} hm => ?_⟩
  · obtain ⟨-, l, k, -, rfl⟩ := Disk.destroy_eq_ok_iff.mp hr
    exact h.named hf
  · rw [DiskLog.array, ← h.pages hm, Disk.pagesOf, hfiles m hm]
    simp only [eq_comm (a := m)]
    split <;> rfl

lemma openFile (h : Recorded own start u) (hn : own name)
    (ho : u.disk.openFile name = .ok (id, d')) :
    Recorded own start { disk := d', log := (.openFile name, .ok (some id)) :: u.log } := by
  obtain ⟨opens, hopened⟩ := h.shelved.opened
  obtain ⟨hs, hsame⟩ := h.shelved.openFile hn ho
  refine ⟨hs, fun {i g} hf => ?_, fun {m} hm => ?_⟩
  · have hopen : d'.opened.find? i = if i = id then d'.opened.find? id else u.disk.opened.find? i := by
      cases Disk.openFile_eq_ok_iff.mp ho <;>
        (simp only [Table.find?_insert]; split <;> simp)
    have hname : ∀ {g}, d'.opened.find? id = some g → g.name = name := by
      intro g hg
      cases Disk.openFile_eq_ok_iff.mp ho with
      | again hi here =>
        rw [Table.find?_insert, if_pos rfl] at hg
        cases hg
        exact hopened.inj (hopened.bound here).1 hi
      | bound | new =>
        rw [Table.find?_insert, if_pos rfl] at hg
        cases hg
        rfl
    rw [DiskLog.nameOf]
    rw [hopen] at hf
    split at hf
    · next hi => rw [if_pos hi.symm, hname hf]
    · next hi =>
      rw [if_neg (Ne.symm hi)]
      exact h.named hf
  · rw [Disk.pagesOf, hsame]
    exact h.pages hm

lemma closeFile (h : Recorded own start u) (hc : u.disk.closeFile id = .ok d') :
    Recorded own start { disk := d', log := (.closeFile id, .ok none) :: u.log } := by
  obtain ⟨hs, hsame⟩ := h.shelved.closeFile hc
  refine ⟨hs, fun {i g} hf => ?_, fun {m} hm => ?_⟩
  · obtain ⟨k, hk, rfl⟩ := Disk.closeFile_eq_ok_iff.mp hc
    rw [Disk.find?_closed] at hf
    split at hf
    · next hi =>
      subst hi
      split at hf
      · cases hf
      · cases hf
        have hname := h.named hk
        exact hname
    · exact h.named hf
  · rw [Disk.pagesOf, hsame]
    exact h.pages hm

lemma written {g : OpenFile} (h : Recorded own start u) (page : PageId) (p : Page)
    (hf : u.disk.opened.find? page.file = some g) (hp : page.page ≠ noPage) {log : DiskLog}
    (hnames : ∀ i, log.nameOf i = u.log.nameOf i)
    (hlog : ∀ m, log.array m (start m) = if u.log.nameOf page.file = some m
      then (u.log.array m (start m)).map fun ps => PageArray.put ps page.page.toNat p
      else u.log.array m (start m)) :
    Recorded own start { disk := u.disk.written g page p, log } := by
  obtain ⟨hs, hself, hothers⟩ := h.shelved.written page p hf hp
  obtain ⟨-, hcontents, hwhole, -⟩ := h.shelved.exists_pages hf
  refine ⟨hs, fun {i k} hk => ?_, fun {m} hm => ?_⟩
  · rw [hnames]
    simp only [Disk.written, Table.find?_insert] at hk
    split at hk
    · next hi =>
      subst hi
      cases hk
      have hname := h.named hf
      exact hname
    · exact h.named hk
  · rw [hlog, h.named hf, ← h.pages hm, Disk.pagesOf, Disk.pagesOf]
    by_cases hname : m = g.name
    · rw [if_pos (congrArg some hname.symm), hname, hself, hcontents, Option.map_some,
        Option.map_some, Option.map_some, hwhole.toPages_writePage]
    · rw [if_neg fun he => hname (Option.some.inj he).symm, hothers m hm hname]

lemma writePage (h : Recorded own start u) (hw : u.disk.writePage page p = .ok d') :
    Recorded own start { disk := d', log := (.writePage page p, .ok none) :: u.log } := by
  obtain ⟨g, hf, hp, rfl⟩ := Disk.writePage_eq_ok_iff.mp hw
  exact h.written page p hf hp (fun _ => rfl) fun _ => rfl

lemma allocPage {file n : UInt32} (h : Recorded own start u)
    (ha : u.disk.allocPage file = .ok (n, d')) :
    Recorded own start { disk := d', log := (.allocPage file, .ok none) :: u.log } := by
  obtain ⟨g, hf, rfl, hp, rfl⟩ := Disk.allocPage_eq_ok_iff.mp ha
  obtain ⟨hn, hcontents, -, hlen⟩ := h.shelved.exists_pages hf
  refine h.written ⟨file, g.pages⟩ Page.blank hf hp (fun _ => rfl) fun m => ?_
  rw [DiskLog.array, h.named hf]
  by_cases hname : some g.name = some m
  · rw [if_pos hname, if_pos hname, ← Option.some.inj hname, ← h.pages hn, Disk.pagesOf,
      hcontents, Option.map_some, Option.map_some, Option.map_some, hlen, PageArray.put_length]
  · rw [if_neg hname, if_neg hname]

/-- The log stays right, call after call. -/
theorem step (h : Recorded own start u) (hcall : call.Within own) :
    Recorded own start (u.step call) := by
  cases hc : call.outcome u.disk with
  | error e =>
    rw [DiskUse.step, answer, call.act_apply, hc]
    exact h.failed call e
  | ok r =>
    rw [DiskUse.step, answer, call.act_apply, hc]
    cases call with
    | create name =>
      obtain ⟨d', hd, rfl⟩ := DiskCall.exists_of_map_eq_ok hc
      exact h.create hcall hd
    | openFile name =>
      obtain ⟨⟨id, d'⟩, hd, rfl⟩ := DiskCall.exists_of_map_eq_ok hc
      exact h.openFile hcall hd
    | closeFile id =>
      obtain ⟨d', hd, rfl⟩ := DiskCall.exists_of_map_eq_ok hc
      exact h.closeFile hd
    | destroy name =>
      obtain ⟨d', hd, rfl⟩ := DiskCall.exists_of_map_eq_ok hc
      exact h.destroy hcall hd
    | writePage page p =>
      obtain ⟨d', hd, rfl⟩ := DiskCall.exists_of_map_eq_ok hc
      exact h.writePage hd
    | allocPage file =>
      obtain ⟨⟨n, d'⟩, hd, rfl⟩ := DiskCall.exists_of_map_eq_ok hc
      exact h.allocPage hd

theorem run (h : Recorded own start u) {calls : List DiskCall}
    (hcalls : ∀ call ∈ calls, call.Within own) : Recorded own start (u.run calls) := by
  induction calls generalizing u with
  | nil => exact h
  | cons call rest ih =>
    obtain ⟨hcall, hrest⟩ := List.forall_mem_cons.mp hcalls
    exact ih (h.step hcall) hrest

end Recorded

/-- The files of these names are arrays of pages, which can be read off the log. -/
structure Paged (own : String → Prop) (start : String → Option (List Page)) (u : DiskUse) : Prop where
  arrays : ∀ name, own name → u.disk.pagesOf name = u.log.array name (start name)
  /-- Each page is what was last written there. -/
  latest : ∀ name ps n, own name → u.disk.pagesOf name = some ps → n < ps.length →
    ps[n]? = some (u.log.latest name (start name) n)
  /-- The bytes of a file are those of its pages, and no more. -/
  bytes : ∀ name ps, own name → u.disk.pagesOf name = some ps → ∃ f,
    u.disk.contentsOf name = some f ∧ f.size = ps.length * pageSize ∧
      f.toBytes = ps.flatMap Page.toBytes
  /-- What is open can be used as the array of its name. -/
  opened : ∀ id h, u.disk.handle id = .ok h → own h.name ∧ u.log.nameOf id = some h.name ∧
    ∃ ps, Access u.disk id h.name ps

theorem Recorded.paged (h : Recorded own start u) : u.Paged own start where
  arrays name hn := h.pages hn
  latest name ps n hn hps hlt := by
    have hlast := DiskLog.getD_array ((h.pages hn).symm.trans hps) n
    rw [List.getElem?_eq_getElem hlt, Option.getD_some] at hlast
    rw [List.getElem?_eq_getElem hlt, hlast]
  bytes name ps hn hps := by
    obtain ⟨f, hf, rfl⟩ := Option.map_eq_some_iff.mp hps
    have hwhole := h.shelved.whole hn hf
    exact ⟨f, hf, by rw [ByteFile.length_toPages, hwhole.size], hwhole.toBytes⟩
  opened id g hg := by
    have hf := Disk.find?_of_handle hg
    obtain ⟨hn, hcontents, -⟩ := h.shelved.exists_pages hf
    have hps : u.disk.pagesOf g.name = some _ := congrArg (Option.map _) hcontents
    exact ⟨hn, h.named hf, _, h.shelved.access hf hps⟩

/-- Over every run of a disk on names that lead to files of their own, the files are arrays of
pages. -/
theorem run_paged {dir : String} {tree : FileTree} {d : Disk} (hd : Disk.mount dir tree = .ok d)
    (ho : Orderly own d) (hw : ∀ name f, own name → d.contentsOf name = some f → f.Whole)
    {calls : List DiskCall} (hcalls : ∀ call ∈ calls, call.Within own) :
    (run { disk := d } calls).Paged own d.pagesOf := by
  have hstart : Recorded own d.pagesOf { disk := d } := by
    refine ⟨.of_mount hd ho fun hn hf => hw _ _ hn hf, fun {id h} hf => ?_, fun _ => rfl⟩
    obtain ⟨tree', -, rfl⟩ := Disk.mount_eq_ok_iff.mp hd
    cases hf
  exact (hstart.run hcalls).paged

/-- A page is written behind others that never were, and another one is added. -/
theorem run_paged_small :
    let page := Page.blank.put 0 1
    let calls : List DiskCall := [.create "t", .openFile "t", .writePage ⟨0, 2⟩ page, .allocPage 0]
    ∃ d, Disk.mount "data" {} = .ok d ∧ Orderly (· = "t") d ∧
      (∀ name f, name = "t" → d.contentsOf name = some f → f.Whole) ∧
      (∀ call ∈ calls, call.Within (· = "t")) ∧
      (run { disk := d } calls).Paged (· = "t") d.pagesOf ∧
      (run { disk := d } calls).disk.pagesOf "t" =
        some [Page.blank, Page.blank, page, Page.blank] := by
  intro page calls
  have hd : Disk.mount "data" {} = .ok Cache.small.disk := rfl
  have horderly := (Workspace.holdsHeapFiles_of_ready .small).orderly
  have hwhole : ∀ name f, name = "t" → Cache.small.disk.contentsOf name = some f → f.Whole :=
    fun name f hn hf => by cases (Ready.small.absent hn).symm.trans hf
  have hcalls : ∀ call ∈ calls, call.Within (· = "t") := by
    simp [calls, DiskCall.Within]
  have hpaged := run_paged hd horderly hwhole hcalls
  exact ⟨_, hd, horderly, hwhole, hcalls, hpaged, (hpaged.arrays "t" rfl).trans rfl⟩

/-- What an array cannot be told from. The number of pages is kept in 32 bits, so that no page can be
added to a file with the most pages that fit in, and a file with more of them is taken for a shorter
one; and it is kept for each name, so that a file with two names has two numbers. -/
theorem run_uncounted :
    (let u := run { disk := Cache.small.disk }
        [.create "t", .openFile "t", .writePage ⟨0, 4294967294⟩ Page.blank]
     u.disk.numPages 0 = .ok 4294967295 ∧ u.disk.allocPage 0 = .error .countOverflow) ∧
    (let tree := Cache.small.disk.tree.addFile ["t", "data"] { size := 4294967296 * pageSize }
     let u := run { disk := { Cache.small.disk with tree } } [.openFile "t"]
     (u.disk.contentsOf "t").map (·.size) = some (4294967296 * pageSize) ∧
       u.disk.numPages 0 = .ok 0 ∧ u.disk.readPage ⟨0, 0⟩ = .error (.pageNotFound ⟨0, 0⟩)) ∧
    (let u := run { disk := Cache.small.disk }
        [.create "t", .openFile "t", .openFile "./t", .writePage ⟨0, 0⟩ Page.blank]
     (u.disk.contentsOf "./t").map (·.size) = some pageSize ∧ u.disk.numPages 0 = .ok 1 ∧
       u.disk.numPages 1 = .ok 0 ∧ u.disk.readPage ⟨1, 0⟩ = .error (.pageNotFound ⟨1, 0⟩)) := by
  refine ⟨⟨rfl, rfl⟩, ⟨rfl, rfl, rfl⟩, rfl, rfl, rfl, rfl⟩

end DiskUse
end PagedHeap
