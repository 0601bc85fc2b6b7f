import PagedHeap.Proofs.OpenSteps
import PagedHeap.Proofs.PinRequests

/-! What an open heap file holds. An invariant of the pins held and of the store that requests about
a file keep is `Lasting` for the file; one that also withstands new pages and changed contents is
`Writable`. Whatever is done with an open heap file keeps such an invariant, with the pins of the file
as they are before and after among those held. -/
namespace PagedHeap

/-- An invariant of the pins held and of the store that requests about a file keep. -/
structure Lasting (file : UInt32) (I : List Hold → Store → Prop) : Prop where
  perm : ∀ {hs hs' s}, hs.Perm hs' → I hs s → I hs' s
  mark : ∀ {h hs s}, I (h :: hs) s → I ({ h with dirty := true } :: hs) s
  read : ∀ hs page, Ensures (I hs) (Store.readPage ⟨file, page⟩) fun r s =>
    match r with
    | .ok i => I (⟨⟨file, page⟩, i, false⟩ :: hs) s
    | .error _ => I hs s
  unpin : ∀ hs h, h.id.file = file →
    Ensures (I (h :: hs)) (Store.unpinPage h.id h.dirty) fun _ => I hs
  flush : ∀ hs, Ensures (I hs) (Store.flushFile file) fun _ => I hs

/-- One that is kept where pages of the file are read and given back unchanged. -/
structure Browsed (file : UInt32) (I : List Hold → Store → Prop) : Prop where
  read : ∀ hs page, Ensures (I hs) (Store.readPage ⟨file, page⟩) fun r s =>
    match r with
    | .ok i => I (⟨⟨file, page⟩, i, false⟩ :: hs) s
    | .error _ => I hs s
  unpin : ∀ hs page i, Ensures (I (⟨⟨file, page⟩, i, false⟩ :: hs))
    (Store.unpinPage ⟨file, page⟩ false) fun _ => I hs

lemma Lasting.browsed {file : UInt32} {I : List Hold → Store → Prop} (hI : Lasting file I) :
    Browsed file I := ⟨hI.read, fun hs page i => hI.unpin hs ⟨⟨file, page⟩, i, false⟩ rfl⟩

/-- One that is kept also where pages are added and changed, if the change is to be reported. -/
structure Writable (file : UInt32) (I : List Hold → Store → Prop) : Prop extends Lasting file I where
  alloc : ∀ hs, Ensures (I hs) (Store.allocPage file) fun r s =>
    match r with
    | .ok (n, i) => I (⟨⟨file, n⟩, i, false⟩ :: hs) s
    | .error _ => I hs s
  edit : ∀ {h hs s} page, I (h :: hs) s →
    I ({ h with dirty := true } :: hs) (s.overwrite h.frame page)

/-- An open heap file of this id and name has its header page pinned, and its pins are among those
that the invariant is about. -/
structure Kept (I : List Hold → Store → Prop) (rest : List Hold) (id : UInt32) (name : String)
    (f : HeapFile) (s : Store) : Prop where
  holds : I (f.holds ++ rest) s
  id_eq : f.id = id
  name_eq : f.name = name
  isOpen : f.isOpen = true
  header : ∃ p, f.header = some p ∧ p.number = 0

lemma Kept.cursor {I : List Hold → Store → Prop} {rest : List Hold} {id : UInt32} {name : String}
    {f : HeapFile} {s : Store} (h : Kept I rest id name f s) (cursor : Option RecordId) :
    Kept I rest id name { f with cursor } s :=
  ⟨h.holds, h.id_eq, h.name_eq, h.isOpen, h.header⟩

namespace HeapFile
open HandleM
variable {I : List Hold → Store → Prop} {rest : List Hold} {id : UInt32} {name : String}

lemma file_of_holds {f : HeapFile} {h : Hold} (hh : h ∈ f.holds) : h.id.file = f.id := by
  obtain ⟨p, -, rfl⟩ := List.mem_map.mp hh
  rfl

lemma holds_of_none {f : HeapFile} (h : f.current = none) :
    f.holds = f.header.toList.map (·.hold f.id) := by simp [holds, h]

lemma holds_of_some {f : HeapFile} {p : PinnedPage} (h : f.current = some p) :
    f.holds = p.hold f.id :: f.header.toList.map (·.hold f.id) := by simp [holds, h]

theorem releaseCurrent_keeps (hI : Lasting id I) :
    HandleM.Ensures (Kept I rest id name) releaseCurrent fun _ f s =>
      Kept I rest id name f s ∧ f.current = none := by
  intro f s h
  cases hc : f.current with
  | none =>
    rw [releaseCurrent_none hc]
    exact ⟨h, hc⟩
  | some p =>
    rw [releaseCurrent_some hc]
    have hs := h.holds
    rw [holds_of_some hc] at hs
    exact ⟨⟨hI.unpin _ (p.hold f.id) h.id_eq s hs, h.id_eq, h.name_eq, h.isOpen, h.header⟩, rfl⟩

theorem pinCurrent_keeps (hI : Lasting id I) (n : UInt32) :
    HandleM.Ensures (fun f s => Kept I rest id name f s ∧ f.current = none) (pinCurrent n) fun _ f s =>
      Kept I rest id name f s := by
  rintro f s ⟨h, hc⟩
  obtain rfl := h.id_eq
  have hs := hI.read (f.holds ++ rest) n s h.holds
  rw [pinCurrent_apply]
  rcases hr : Store.readPage ⟨f.id, n⟩ s with ⟨e | i, s'⟩
  · rw [hr] at hs
    exact ⟨hs, h.id_eq, h.name_eq, h.isOpen, h.header⟩
  · rw [hr, holds_of_none hc] at hs
    exact ⟨hs, h.id_eq, h.name_eq, h.isOpen, h.header⟩

theorem switchTo_keeps (hI : Lasting id I) (n : UInt32) :
    HandleM.Ensures (Kept I rest id name) (switchTo n) fun _ => Kept I rest id name :=
  .bind (releaseCurrent_keeps hI) (fun _ => pinCurrent_keeps hI n) fun _ _ _ h => h.1

theorem readCurrent_keeps (slot : Nat) :
    HandleM.Ensures (Kept I rest id name) (readCurrent slot) fun _ => Kept I rest id name := by
  intro f s h
  cases hc : f.current with
  | none => rw [readCurrent_none slot hc]; exact h
  | some p => rw [readCurrent_some slot hc]; exact h

theorem markDirty_keeps (hI : Lasting id I) :
    HandleM.Ensures (Kept I rest id name) markDirty fun _ => Kept I rest id name := by
  intro f s h
  refine ⟨?_, h.id_eq, h.name_eq, h.isOpen, h.header⟩
  have hs := h.holds
  cases hc : f.current with
  | none => simpa [markDirty, change, holds, hc] using hs
  | some p =>
    rw [holds_of_some hc] at hs
    simpa [markDirty, change, holds, hc, PinnedPage.hold] using hI.mark hs

theorem readRecord_keeps (hI : Lasting id I) (r : RecordId) :
    HandleM.Ensures (Kept I rest id name) (readRecord r) fun _ => Kept I rest id name := by
  have hread : ∀ handler : StoreError → FileM Bytes,
      (∀ e, HandleM.Ensures (Kept I rest id name) (handler e) fun _ => Kept I rest id name) →
      HandleM.Ensures (Kept I rest id name) (do
        let bs ← tryCatch (readCurrent r.slot) handler
        change fun f => { f with cursor := some r }
        pure bs) fun _ => Kept I rest id name := by
    intro handler hh
    refine .bind (.tryCatch (readCurrent_keeps r.slot) (fun _ _ _ h => h) hh) (fun bs => ?_)
      fun _ _ _ h => h
    exact .change (fun _ _ h => h.cursor (some r)) (.pure fun _ _ h => h)
  refine .held fun f => ?_
  dsimp only
  split
  · exact .throw_bind fun _ _ h => h.2
  · split
    · refine .bind ((switchTo_keeps hI r.page).weaken (fun _ _ h => h.2) fun _ _ _ h => h)
        (fun _ => hread _ fun e => ?_) fun _ _ _ h => h
      refine .bind (.attempt (releaseCurrent_keeps hI)) (fun _ => .throw fun _ _ h => h.1)
        fun _ _ _ h => h.1
    · exact (hread _ fun e => .throw fun _ _ h => h).weaken (fun _ _ h => h.2) fun _ _ _ h => h

theorem seekLast_keeps (hI : Lasting id I) :
    HandleM.Ensures (Kept I rest id name) seekLast fun _ => Kept I rest id name := by
  intro f s h
  unfold seekLast
  dsimp only
  split
  · exact h
  · exact switchTo_keeps hI _ f s h

lemma holds_perm {f : HeapFile} {p : PinnedPage} (h : f.header = some p) :
    (f.holds ++ rest).Perm (p.hold f.id :: (f.current.toList.map (·.hold f.id) ++ rest)) := by
  simp only [holds, h, Option.toList_some, List.map_append, List.map_cons, List.map_nil,
    List.append_assoc, List.singleton_append]
  exact List.perm_middle

theorem editCurrent_keeps (hI : Writable id I) {α : Type}
    (edit : Page → Except StoreError (α × Page)) :
    HandleM.Ensures (Kept I rest id name) (editCurrent edit) fun _ => Kept I rest id name := by
  intro f s h
  cases hc : f.current with
  | none => rw [editCurrent_none edit hc]; exact h
  | some p =>
    rw [editCurrent_some edit hc]
    cases edit (s.contents p.frame) with
    | error e => exact h
    | ok r =>
      have hs := h.holds
      rw [holds_of_some hc] at hs
      exact ⟨hI.edit r.2 hs, h.id_eq, h.name_eq, h.isOpen, h.header⟩

theorem editHeader_keeps (hI : Writable id I) (edit : FileHeader → Except StoreError FileHeader) :
    HandleM.Ensures (Kept I rest id name) (editHeader edit) fun _ => Kept I rest id name := by
  intro f s h
  obtain ⟨p, hp, hzero⟩ := h.header
  rw [editHeader_some edit hp]
  cases FileHeader.ofPage (s.contents p.frame) with
  | none => exact h
  | some hd =>
    dsimp only
    cases edit hd with
    | error e => exact h
    | ok hd' =>
      let g : HeapFile := { f with header := some { p with dirty := true } }
      have hs := hI.edit (hd'.toPage (s.contents p.frame)) (hI.perm (holds_perm hp) h.holds)
      have hg : (g.holds ++ rest).Perm
          ({ p.hold f.id with dirty := true } :: (f.current.toList.map (·.hold f.id) ++ rest)) :=
        holds_perm (f := g) rfl
      exact ⟨hI.perm hg.symm hs, h.id_eq, h.name_eq, h.isOpen, _, rfl, hzero⟩

theorem insertLast_keeps (hI : Writable id I) (r : Bytes) :
    HandleM.Ensures (Kept I rest id name) (insertLast r) fun _ => Kept I rest id name := by
  refine .bind (seekLast_keeps hI.toLasting) (fun _ => ?_) fun _ _ _ h => h
  refine .bind (editCurrent_keeps hI _) (fun slot => .held fun f => ?_) fun _ _ _ h => h
  split
  · exact .throw fun _ _ h => h.2
  · next p hp =>
    refine .hold ?_
    have hkept : ∀ g s, (g = { f with cursor := some ⟨p.number, slot⟩ } ∧
        ∃ f', f' = f ∧ Kept I rest id name f' s) → Kept I rest id name g s := by
      rintro g s ⟨rfl, _, rfl, h⟩
      exact h.cursor _
    exact .bind ((editHeader_keeps hI _).weaken hkept fun _ _ _ h => h)
      (fun _ => .pure fun _ _ h => h) fun _ _ _ h => h

theorem appendPage_keeps (hI : Writable id I) :
    HandleM.Ensures (Kept I rest id name) appendPage fun _ => Kept I rest id name := by
  intro f s h
  obtain rfl := h.id_eq
  cases hc : f.current with
  | none => rw [appendPage_none hc]; exact h
  | some old =>
    rw [appendPage_some hc]
    have hs := hI.alloc (f.holds ++ rest) s h.holds
    rcases ha : Store.allocPage f.id s with ⟨e | ⟨n, i⟩, s'⟩ <;> rw [ha] at hs
    · exact ⟨hs, h.id_eq, h.name_eq, h.isOpen, h.header⟩
    · let g : HeapFile :=
        { f with current := some { number := n, frame := i, dirty := true }, cursor := none }
      rw [holds_of_some hc] at hs
      have hlinked := hI.edit
        (((s'.overwrite i (Page.empty n)).contents old.frame).setNext (some n))
        (hI.perm (List.Perm.swap ..) (hI.edit (Page.empty n) hs))
      have hg : I (g.holds ++ rest)
          (Store.unpinPage ⟨f.id, old.number⟩ true (linked s' old n i)).2 := by
        have := hI.unpin _ { old.hold f.id with dirty := true } rfl _ hlinked
        exact this
      have hkept := fun s'' hs'' =>
        (⟨hs'', h.id_eq, h.name_eq, h.isOpen, h.header⟩ : Kept I rest f.id name g s'')
      dsimp only
      rcases hu : Store.unpinPage ⟨f.id, old.number⟩ true (linked s' old n i) with ⟨e | _, s''⟩
      · rw [hu] at hg
        exact hkept _ hg
      · rw [hu] at hg
        exact editHeader_keeps hI _ g s'' (hkept _ hg)

theorem insert_keeps (hI : Writable id I) (r : Bytes) :
    HandleM.Ensures (Kept I rest id name) (insert r) fun _ => Kept I rest id name := by
  unfold insert
  dsimp only
  split
  · exact .throw_bind fun _ _ h => h
  · refine .tryCatch (insertLast_keeps hI r) (fun _ _ _ h => h) fun e => ?_
    split
    · exact .bind (appendPage_keeps hI) (fun _ => insertLast_keeps hI r) fun _ _ _ h => h
    · exact .throw fun _ _ h => h

end HeapFile
end PagedHeap
