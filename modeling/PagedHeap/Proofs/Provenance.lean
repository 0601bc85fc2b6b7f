import PagedHeap.Proofs.Removal

/-! Where the records of a file come from. A record that is there after a run was there before, or was
put there by an insertion or an update through a handle on the file; and what is read are records
that are there. -/
namespace PagedHeap

open Function (update)

namespace Workspace
variable {own : String → Prop} {w w' : Workspace} {a : Action} {actions : List Action}
  {name key : String} {b : Bytes} {r : RecordId} {old : Handle}
  {res : Except StoreError (Reply Answer)}

/-- The action is to put this record into the file of a name, as a new one or over another. -/
def Puts (w : Workspace) (name : String) (b : Bytes) (a : Action) : Prop :=
  ∃ key h, w.handles.find? key = some h ∧ h.file.name = name ∧
    (a = .insert key b ∨ a = .update key b)

/-- One of the actions of a run is to put this record into the file of a name. -/
def PutIn (w : Workspace) (actions : List Action) (name : String) (b : Bytes) : Prop :=
  ∃ before a after, actions = before ++ a :: after ∧ (w.run before).Puts name b a

/-- At most one record is set, of the file of a handle, and to what was given for it. -/
lemma Effect.cases (h : Effect own w a res w') : Keeps own w w' ∨
    ∃ key old r x, w.handles.find? key = some old ∧ Sets own w w' old.file.name r x ∧
      ∀ b, x = some b → a = .insert key b ∨ a = .update key b := by
  cases h.edit with
  | kept hkeeps _ => exact Or.inl hkeeps
  | inserted ha _ hf _ hs =>
    exact Or.inr ⟨_, _, _, _, hf, hs, fun b hb => Or.inl (by cases hb; exact ha)⟩
  | removed _ _ hf _ _ hs => exact Or.inr ⟨_, _, _, _, hf, hs, nofun⟩
  | replaced ha _ hf _ _ hs =>
    exact Or.inr ⟨_, _, _, _, hf, hs, fun b hb => Or.inr (by cases hb; exact ha)⟩

/-- A record that is there after an action was there before, or the action is to put it there. -/
theorem content_perform (h : Standing own w) (ha : a.Within own) (hn : own name)
    (hb : (perform a w).2.content name r = some b) :
    w.content name r = some b ∨ w.Puts name b a := by
  rcases ha.cases with hon | ⟨file, hfile, rfl⟩
  · have hout := perform_outcome h a hon
    rcases hout.effect with ⟨key, b', rfl, -, old, ps, qs, r', hf, -, hps, hqs, hins, -⟩ |
      heffect
    · by_cases hname : old.file.name = name
      · subst hname
        rw [content_of_pages hqs, hins.put, Function.update_apply] at hb
        split at hb
        · cases hb
          exact Or.inr ⟨key, old, hf, rfl, Or.inl rfl⟩
        · exact Or.inl ((congrFun (content_of_pages hps) r).trans hb)
      · have hsame := hout.spares hn fun ⟨old', hf', hname'⟩ => by
          cases hf.symm.trans hf'
          exact hname hname'
        rw [content, hsame] at hb
        exact Or.inl hb
    · rcases heffect.cases with hk | ⟨key, old, r', x, hf, hs, hx⟩
      · exact Or.inl ((congrFun (hk name hn) r).symm.trans hb)
      · rw [hs name hn] at hb
        split at hb
        · next hname =>
          rw [Function.update_apply] at hb
          split at hb
          · exact Or.inr ⟨key, old, hf, hname.symm, hx b hb⟩
          · exact Or.inl (hname ▸ hb)
        · exact Or.inl hb
  · rw [perform_destroy] at hb
    cases hr : w.store.cache.disk.destroy file with
    | error e =>
      rw [hr] at hb
      exact Or.inl hb
    | ok d =>
      rw [hr] at hb
      have hpages := (destroy_standing h hfile hr).2 hn
      dsimp only at hb
      rw [content, hpages, Function.update_apply] at hb
      split at hb
      · cases hb
      · exact Or.inl hb

theorem content_run (h : Standing own w) (hwithin : ∀ a ∈ actions, a.Within own) (hn : own name)
    (hb : (w.run actions).content name r = some b) :
    w.content name r = some b ∨ w.PutIn actions name b := by
  induction actions generalizing w with
  | nil => exact Or.inl hb
  | cons a rest ih =>
    obtain ⟨ha, hrest⟩ := List.forall_mem_cons.mp hwithin
    rcases ih (perform_standing h ha) hrest hb with hb | ⟨before, a', after, rfl, hp⟩
    · exact (content_perform h ha hn hb).imp_right fun hp => ⟨[], a, rest, rfl, hp⟩
    · exact Or.inr ⟨a :: before, a', after, rfl, hp⟩

/-- What is read or found through a handle on the file of a name are records with a property. -/
structure ReadsOnly (w : Workspace) (key name : String) (P : Bytes → Prop) : Prop where
  readRecord : ∀ {r b}, (perform (.readRecord key r) w).1 = .ok (.answer (.record b)) → P b
  current : ∀ {b}, (perform (.current key) w).1 = .ok (.answer (.record b)) → P b
  next : ∀ {r}, (perform (.next key) w).1 = .ok (.answer (.found (some r))) →
    ∃ b, w.content name r = some b ∧ P b

/-- What is read are records of the file. -/
theorem readsOnly (h : Standing own w) (hf : w.handles.find? key = some old) {P : Bytes → Prop}
    (hP : ∀ {r b}, w.content old.file.name r = some b → P b) :
    w.ReadsOnly key old.file.name P where
  readRecord {r b} hres := by
    rcases (readRecord_outcome h key r).effect with ⟨k, b', hins, -⟩ | heffect
    · cases hins
    · rw [hres] at heffect
      obtain ⟨-, old', hf', hb⟩ := heffect
      cases hf.symm.trans hf'
      exact hP hb
  current {b} hres := by
    rcases (current_outcome h key).effect with ⟨k, b', hins, -⟩ | heffect
    · cases hins
    · rw [hres] at heffect
      obtain ⟨-, scan, r, hf', -, hb⟩ := heffect
      cases hf.symm.trans hf'
      exact hP hb
  next {r} hres := by
    rcases (next_outcome h key).effect with ⟨k, b', hins, -⟩ | heffect
    · cases hins
    · rw [hres] at heffect
      obtain ⟨-, scan, b, hf', hb, -⟩ := heffect
      cases hf.symm.trans hf'
      exact ⟨b, hb, hP hb⟩

end Workspace
end PagedHeap
