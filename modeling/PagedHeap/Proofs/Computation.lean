import Mathlib.Tactic.Common
import PagedHeap.HeapFile

/-! Computations that may fail, step by step. `Ensures P act Q` says that `act`, started in a state
with `P`, ends in a result and a state with `Q`, whether it fails or not; the rules follow the ways
in which computations are put together. -/
namespace PagedHeap
variable {S σ τ α β : Type}

section Store

lemma bind_apply (x : ExceptT StoreError (StateM S) α)
    (f : α → ExceptT StoreError (StateM S) β) (s : S) :
    (x >>= f) s = match x s with
      | (.ok a, s') => f a s'
      | (.error e, s') => (.error e, s') := by
  change ExceptT.bindCont f (x s).1 (x s).2 = _
  rcases x s with ⟨_ | _, _⟩ <;> rfl

lemma tryCatch_apply (x : ExceptT StoreError (StateM S) α)
    (f : StoreError → ExceptT StoreError (StateM S) α) (s : S) :
    (tryCatch x f) s = match x s with
      | (.ok a, s') => (.ok a, s')
      | (.error e, s') => f e s' := by
  change ExceptT.tryCatch x f s = _
  simp only [ExceptT.tryCatch, ExceptT.mk, bind, StateT.bind]
  rcases x s with ⟨_ | _, _⟩ <;> rfl

/-- Started in a state with `P`, the computation ends in a result and a state with `Q`. -/
def Ensures (P : S → Prop) (act : ExceptT StoreError (StateM S) α)
    (Q : Except StoreError α → S → Prop) : Prop := ∀ s, P s → Q (act s).1 (act s).2

namespace Ensures
variable {P P' : S → Prop} {Q Q' R : Except StoreError α → S → Prop}
  {x : ExceptT StoreError (StateM S) α}

theorem weaken (h : Ensures P x Q) (hp : ∀ s, P' s → P s) (hq : ∀ r s, Q r s → Q' r s) :
    Ensures P' x Q' := fun s hs => hq _ _ (h s (hp s hs))

end Ensures
end Store

namespace HandleM

lemma bind_apply (x : HandleM σ α) (f : α → HandleM σ β) (h : σ) (s : Store) :
    (x >>= f) h s = match x h s with
      | ((.ok a, h'), s') => f a h' s'
      | ((.error e, h'), s') => ((.error e, h'), s') := by
  change ExceptT.bindCont f (x h s).1.1 (x h s).1.2 (x h s).2 = _
  rcases x h s with ⟨⟨_ | _, _⟩, _⟩ <;> rfl

lemma tryCatch_apply (x : HandleM σ α) (f : StoreError → HandleM σ α) (h : σ) (s : Store) :
    (tryCatch x f) h s = match x h s with
      | ((.ok a, h'), s') => ((.ok a, h'), s')
      | ((.error e, h'), s') => f e h' s' := by
  change ExceptT.tryCatch x f h s = _
  simp only [ExceptT.tryCatch, ExceptT.mk, bind, StateT.bind]
  rcases x h s with ⟨⟨_ | _, _⟩, _⟩ <;> rfl

lemma lift_except (x : Except StoreError α) (h : σ) (s : Store) :
    (liftM x : HandleM σ α) h s = ((x, h), s) := by cases x <;> rfl

lemma lift_store (act : StoreM α) (h : σ) (s : Store) :
    (liftM act : HandleM σ α) h s = (((act s).1, h), (act s).2) := rfl

lemma lift_except_bind (x : Except StoreError α) (f : α → HandleM σ β) (h : σ) (s : Store) :
    (liftM x >>= f) h s = match x with
      | .ok a => f a h s
      | .error e => ((.error e, h), s) := by cases x <;> rfl

lemma lift_store_bind (act : StoreM α) (f : α → HandleM σ β) (h : σ) (s : Store) :
    (liftM act >>= f) h s = match act s with
      | (.ok a, s') => f a h s'
      | (.error e, s') => ((.error e, h), s') := by
  rw [bind_apply, lift_store]
  rcases act s with ⟨_ | _, _⟩ <;> rfl

lemma held_bind (f : σ → HandleM σ β) (h : σ) (s : Store) : (held >>= f) h s = f h h s := rfl

lemma hold_bind (h' : σ) (f : Unit → HandleM σ β) (h : σ) (s : Store) :
    (hold h' >>= f) h s = f () h' s := rfl

lemma change_bind (g : σ → σ) (f : Unit → HandleM σ β) (h : σ) (s : Store) :
    (change g >>= f) h s = f () (g h) s := rfl

lemma contents_bind (frame : Nat) (f : Page → HandleM σ β) (h : σ) (s : Store) :
    (contents frame >>= f) h s = f (s.contents frame) h s := rfl

/-- Started where `P` holds of what is held open and of the store, the computation ends where `Q`
holds of its result and of both. -/
def Ensures (P : σ → Store → Prop) (act : HandleM σ α)
    (Q : Except StoreError α → σ → Store → Prop) : Prop :=
  ∀ h s, P h s → Q (act h s).1.1 (act h s).1.2 (act h s).2

namespace Ensures
variable {P P' : σ → Store → Prop} {Q Q' R : Except StoreError α → σ → Store → Prop}
  {x : HandleM σ α}

theorem weaken (h : Ensures P x Q) (hp : ∀ h s, P' h s → P h s)
    (hq : ∀ r h s, Q r h s → Q' r h s) : Ensures P' x Q' :=
  fun f s hs => hq _ _ _ (h f s (hp f s hs))

theorem pure {a : α} (h : ∀ f s, P f s → Q (.ok a) f s) : Ensures P (Pure.pure a) Q := h

theorem throw {e : StoreError} (h : ∀ f s, P f s → Q (.error e) f s) :
    Ensures P (MonadExcept.throw e) Q := h

theorem throw_bind {e : StoreError} {f : α → HandleM σ β}
    {T : Except StoreError β → σ → Store → Prop} (h : ∀ f s, P f s → T (.error e) f s) :
    Ensures P (MonadExcept.throw e >>= f) T := h

theorem bind {f : α → HandleM σ β} {T : Except StoreError β → σ → Store → Prop}
    (hx : Ensures P x Q) (hf : ∀ a, Ensures (Q (.ok a)) (f a) T)
    (he : ∀ e h s, Q (.error e) h s → T (.error e) h s) : Ensures P (x >>= f) T := by
  intro h s hs
  have hQ := hx h s hs
  rw [bind_apply]
  rcases hxs : x h s with ⟨⟨_ | a, h'⟩, s'⟩ <;> rw [hxs] at hQ
  · exact he _ _ _ hQ
  · exact hf a h' s' hQ

theorem tryCatch {f : StoreError → HandleM σ α} (hx : Ensures P x R)
    (hok : ∀ a h s, R (.ok a) h s → Q (.ok a) h s) (hf : ∀ e, Ensures (R (.error e)) (f e) Q) :
    Ensures P (MonadExcept.tryCatch x f) Q := by
  intro h s hs
  have hR := hx h s hs
  rw [tryCatch_apply]
  rcases hxs : x h s with ⟨⟨e | a, h'⟩, s'⟩ <;> rw [hxs] at hR
  · exact hf e h' s' hR
  · exact hok a h' s' hR

theorem held {f : σ → HandleM σ β} {T : Except StoreError β → σ → Store → Prop}
    (hf : ∀ h, Ensures (fun h' s => h' = h ∧ P h' s) (f h) T) :
    Ensures P (HandleM.held >>= f) T := by
  intro h s hs
  exact hf h h s ⟨rfl, hs⟩

theorem hold {h' : σ} {f : Unit → HandleM σ β} {T : Except StoreError β → σ → Store → Prop}
    (hf : Ensures (fun g s => g = h' ∧ ∃ h, P h s) (f ()) T) :
    Ensures P (HandleM.hold h' >>= f) T := by
  intro h s hs
  exact hf h' s ⟨rfl, h, hs⟩

theorem change {g : σ → σ} {f : Unit → HandleM σ β} {T : Except StoreError β → σ → Store → Prop}
    {R : σ → Store → Prop} (hg : ∀ h s, P h s → R (g h) s) (hf : Ensures R (f ()) T) :
    Ensures P (HandleM.change g >>= f) T := by
  intro h s hs
  exact hf (g h) s (hg h s hs)

theorem attempt {act : HandleM σ Unit} (hx : Ensures P act fun _ => P') :
    Ensures P (HandleM.attempt act) fun _ => P' :=
  tryCatch hx (fun _ _ _ h => h) fun _ => pure fun _ _ h => h

end Ensures
end HandleM
end PagedHeap
