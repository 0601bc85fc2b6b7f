import PagedHeap.Proofs.PageAccess

/-! Which bytes of a data page an edit can change. One that fails changes none, although the page is
edited in place; one that succeeds writes the slots, the bounds of the free space and the records
alone, and of these no more than it has to. -/
namespace PagedHeap.Page
variable {p q : Page} {n : UInt32} {s a b : Nat} {r : Bytes}

/-- The pages have the same kind, number and next page, byte by byte. -/
structure SameIdentity (p q : Page) : Prop where
  kind : SameOn p q 0 2
  links : SameOn p q 8 16

lemma SameIdentity.refl (p : Page) : SameIdentity p p := ⟨.refl p 0 2, .refl p 8 16⟩

lemma SameIdentity.trans {r : Page} (h : SameIdentity p q) (h' : SameIdentity q r) :
    SameIdentity p r := ⟨h.kind.trans h'.kind, h.links.trans h'.links⟩

/-- What lies in the slots and behind them, and the bounds of the free space, may differ. -/
lemma SameIdentity.setBounds {count start stop : Nat} (h : SameOn q p 0 16) :
    SameIdentity (q.setBounds count start stop) p :=
  ⟨(sameOn_setBounds (by omega)).trans (h.mono (by omega) (by omega)),
    (sameOn_setBounds (by omega)).trans (h.mono (by omega) (by omega))⟩

lemma sameOn_delete (hd : p.delete s = .ok q) (h : b ≤ 16 + 4 * s ∨ 16 + 4 * s + 4 ≤ a) :
    SameOn q p a b := by
  obtain ⟨-, -, rfl⟩ := delete_eq_ok_iff.mp hd
  exact sameOn_setSlot h.symm

lemma sameOn_update (hu : p.update s r = .ok q) (h : b ≤ 16 + 4 * s ∨ 16 + 4 * s + 4 ≤ a)
    (hr : b ≤ (p.slot s).position ∨ (p.slot s).position + r.length ≤ a) : SameOn q p a b := by
  obtain ⟨-, -, -, rfl⟩ := update_eq_ok_iff.mp hu
  exact (sameOn_setSlot h.symm).trans (sameOn_splice hr.symm)

/-- The record that is overwritten is not shorter, and lies behind the slots. -/
lemma Wf.update_place (h : p.Wf n) (hu : p.update s r = .ok q) :
    r.length ≤ (p.slot s).length ∧ p.freeEnd ≤ (p.slot s).position := by
  obtain ⟨r₀, hr, hlen, -⟩ := update_eq_ok_iff.mp hu
  obtain ⟨hs, hl, rfl⟩ := h.record_eq_ok_iff.mp hr
  rw [length_slice] at hlen
  exact ⟨hlen, (h.inside hs hl).1⟩

lemma Wf.identity_compact (h : p.Wf n) (hc : p.compact = .ok q) : SameIdentity q p := by
  obtain ⟨c, -, hs, hcompact⟩ := h.stack_ok
  obtain rfl := Except.ok.inj (hcompact.symm.trans hc)
  exact .setBounds hs.header

lemma Wf.identity_write (h : p.Wf n) (hw : p.write s r = .ok q) (hroom : r.length ≤ p.freeSpace) :
    SameIdentity q p := by
  have hstart := h.start
  simp only [freeSpace] at hroom
  have habove := h.above
  obtain ⟨-, rfl⟩ := write_eq_ok h.start hw
  exact .setBounds ((sameOn_setSlot (by omega)).trans (sameOn_splice (by omega)))

/-- The page may have been compacted before the record was written. -/
lemma Wf.identity_insert (h : p.Wf n) (hi : p.insert r = .ok (s, q)) : SameIdentity q p := by
  have hlen : r.length ≤ maxRecord := by
    refine Nat.le_of_not_lt fun hlen => ?_
    simp [Page.insert, hlen, bind, Except.bind, throw, throwThe, MonadExceptOf.throw] at hi
  obtain ⟨-, habove, hbelow⟩ := h.space
  obtain ⟨needed, -, heq, hroom⟩ := h.insert_eq hlen
  have hfits : ∀ c : Page, c.slotCount = p.slotCount → needed ≤ c.freeSpace →
      r.length ≤ c.freeSpace := by
    intro c hc hfree
    rcases hroom c hc hfree with ⟨-, hr⟩ | ⟨-, hr⟩ <;> omega
  have hwrite : ∀ {c : Page}, (do return (p.shown.vacancy, ← c.write p.shown.vacancy r)) =
      (.ok (s, q) : Except StoreError (Nat × Page)) → ∃ v, c.write v r = .ok q := by
    intro c hc
    cases hw : c.write p.shown.vacancy r with
    | error e => simp [hw, bind, Except.bind] at hc
    | ok q' =>
      obtain ⟨-, rfl⟩ : p.shown.vacancy = s ∧ q' = q := by
        simpa [hw, bind, Except.bind, pure, Except.pure] using hc
      exact ⟨_, hw⟩
  rw [heq] at hi
  split at hi
  · next hfree =>
    obtain ⟨v, hw⟩ := hwrite hi
    exact h.identity_write hw (hfits p rfl hfree)
  · split at hi
    · next hfree =>
      obtain ⟨c, hc, hcw, -, hcount, hstart, hend, -⟩ := h.compact
      have hspace : needed ≤ c.freeSpace := by
        simp only [freeSpace, hstart, hend] at hfree ⊢
        omega
      rw [hc] at hi
      obtain ⟨v, hw⟩ := hwrite hi
      exact (hcw.identity_write hw (hfits c hcount hspace)).trans (h.identity_compact hc)
    · cases hi

lemma edit_failed {e : PageEdit} {error : StoreError} (h : (p.edit e).1 = .error error) :
    (p.edit e).2 = p := by
  cases e
  case setNext => cases h
  all_goals
    simp only [Page.edit] at h ⊢
    split at h
    · cases h
    · rfl

/-- What editing the page in place leaves as it is. -/
structure Framed (p : Page) : Prop where
  failed : ∀ e error, (PageM.edit e p).1 = .error error → (PageM.edit e p).2 = p
  record : ∀ s, (PageM.record s p).2 = p
  identity : ∀ e, (∀ next, e ≠ .setNext next) → SameIdentity (PageM.edit e p).2 p
  delete : ∀ s i, (PageM.edit (.delete s) p).2.byte i ≠ p.byte i →
    16 + 4 * s ≤ i ∧ i < 16 + 4 * s + 4
  update : ∀ s r i, (PageM.edit (.update s r) p).2.byte i ≠ p.byte i →
    r.length ≤ (p.slot s).length ∧
      (16 + 4 * s ≤ i ∧ i < 16 + 4 * s + 4 ∨
        (p.slot s).position ≤ i ∧ i < (p.slot s).position + r.length)
  setNext : ∀ next i, (PageM.edit (.setNext next) p).2.byte i ≠ p.byte i → 12 ≤ i ∧ i < 16

lemma SameOn.at {i : Nat} (h : SameOn q p i (i + 1)) : q.byte i = p.byte i :=
  h i (Nat.le_refl i) (Nat.lt_succ_self i)

theorem Wf.framed (h : p.Wf n) : p.Framed where
  failed e error he := by
    rw [PageM.edit_eq h] at he ⊢
    exact edit_failed he
  record s := by rw [PageM.record_eq h]
  identity e hne := by
    rw [PageM.edit_eq h]
    cases e with
    | insert r =>
      simp only [Page.edit]
      cases hi : p.insert r with
      | error e => exact .refl p
      | ok found => exact h.identity_insert hi
    | delete s =>
      simp only [Page.edit]
      cases hd : p.delete s with
      | error e => exact .refl p
      | ok q => exact ⟨sameOn_delete hd (by omega), sameOn_delete hd (by omega)⟩
    | update s r =>
      have hstart := h.start
      have habove := h.above
      simp only [Page.edit]
      cases hu : p.update s r with
      | error e => exact .refl p
      | ok q =>
        have hplace := (h.update_place hu).2
        exact ⟨sameOn_update hu (by omega) (by omega), sameOn_update hu (by omega) (by omega)⟩
    | compact =>
      simp only [Page.edit]
      cases hc : p.compact with
      | error e => exact .refl p
      | ok q => exact h.identity_compact hc
    | setNext next => exact absurd rfl (hne next)
  delete s i hi := by
    by_contra hout
    refine hi ?_
    rw [PageM.edit_eq h]
    simp only [Page.edit]
    cases hd : p.delete s with
    | error e => rfl
    | ok q => exact (sameOn_delete hd (by omega)).at
  update s r i hi := by
    rw [PageM.edit_eq h] at hi
    simp only [Page.edit] at hi
    cases hu : p.update s r with
    | error e => exact absurd (by rw [hu]) hi
    | ok q =>
      rw [hu] at hi
      refine ⟨(h.update_place hu).1, ?_⟩
      by_contra hout
      exact hi (sameOn_update hu (by omega) (by omega)).at
  setNext next i hi := by
    by_contra hout
    refine hi ?_
    rw [PageM.edit_eq h]
    exact (sameOn_setNext (by omega)).at

/-- Editing a page in place changes the bytes it has to and no others, whatever was done to the page
since it was set up. -/
theorem after_framed (p : Page) (n : UInt32) (es : List PageEdit) :
    (PageM.after es (PageM.init n p).2).Framed := (PageM.after_init p n es).1.framed

end PagedHeap.Page
