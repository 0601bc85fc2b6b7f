import PagedHeap.Proofs.CacheRequests
import PagedHeap.Proofs.FileSteps
import PagedHeap.Proofs.Pins
import PagedHeap.Proofs.PoolRoom

/-! What a computation on an open heap file has asked of the store, read off the journal: either no
request failed, and then it is known which pages were added to files, or one did, and then the
computation tells of a full page only if the gate said so. -/
namespace PagedHeap

section Errors

lemma Disk.handle_ne_pageFull {d : Disk} (file : UInt32) : d.handle file ≠ .error .pageFull := by
  unfold Disk.handle
  split <;> exact nofun

lemma Disk.writePage_ne_pageFull {d : Disk} (id : PageId) (p : Page) :
    d.writePage id p ≠ .error .pageFull := by
  intro h
  cases hh : d.handle id.file with
  | error e =>
    rw [Disk.writePage, hh] at h
    cases h
    exact Disk.handle_ne_pageFull _ hh
  | ok g =>
    by_cases hp : id.page = noPage
    · simp [Disk.writePage, hh, hp, bind, Except.bind, throw, throwThe, MonadExceptOf.throw] at h
    · rw [Disk.writePage_of_open (Disk.find?_of_handle hh) hp] at h
      cases h

lemma Disk.readPage_ne_pageFull {d : Disk} (id : PageId) : d.readPage id ≠ .error .pageFull := by
  intro h
  cases hh : d.handle id.file with
  | error e =>
    rw [Disk.readPage, hh] at h
    cases h
    exact Disk.handle_ne_pageFull _ hh
  | ok g =>
    by_cases hp : g.pages ≤ id.page
    · simp [Disk.readPage, hh, hp, bind, Except.bind, throw, throwThe, MonadExceptOf.throw] at h
    · cases hr : (d.contents g).readPage id.page.toNat <;>
        simp [Disk.readPage, hh, hp, hr, bind, Except.bind, throw, throwThe, MonadExceptOf.throw,
          pure, Except.pure] at h

lemma Disk.allocPage_ne_pageFull {d : Disk} (file : UInt32) :
    d.allocPage file ≠ .error .pageFull := by
  intro h
  cases hh : d.handle file with
  | error e =>
    rw [Disk.allocPage, hh] at h
    cases h
    exact Disk.handle_ne_pageFull _ hh
  | ok g =>
    cases hw : d.writePage ⟨file, g.pages⟩ Page.blank with
    | error e =>
      simp only [Disk.allocPage, hh, hw, bind, Except.bind] at h
      cases h
      exact Disk.writePage_ne_pageFull _ _ hw
    | ok d' => simp [Disk.allocPage, hh, hw, bind, Except.bind, pure, Except.pure] at h

namespace Cache
variable {c : Cache} {id : PageId} {contents : Page}

lemma claim_ne_pageFull (hw : c.pool.Wf) :
    (onPool (Pool.claim writeBack id contents) c).1 ≠ .error .pageFull := by
  intro h
  rcases hw.claim_error h with ⟨he, -⟩ | ⟨victim, i, f, d', -, -, hs⟩
  · cases he
  · unfold writeBack at hs
    split at hs
    · cases hs
    · next he =>
      cases hs
      exact Disk.writePage_ne_pageFull _ _ he

lemma read_ne_pageFull (hw : c.pool.Wf) : (read id c).1 ≠ .error .pageFull := by
  cases hf : c.pool.fetch id with
  | some found =>
    obtain ⟨i, pool⟩ := found
    rw [read_of_fetch hf]
    exact nofun
  | none =>
    cases hd : c.disk.readPage id with
    | error e =>
      rw [read_of_error hf hd]
      rintro ⟨⟩
      exact Disk.readPage_ne_pageFull _ hd
    | ok page =>
      rw [read_of_ok hf hd]
      exact claim_ne_pageFull hw

lemma alloc_ne_pageFull (hw : c.pool.Wf) (file : UInt32) :
    (alloc file c).1 ≠ .error .pageFull := by
  cases hd : c.disk.allocPage file with
  | error e =>
    rw [alloc_of_error hd]
    rintro ⟨⟩
    exact Disk.allocPage_ne_pageFull _ hd
  | ok found =>
    obtain ⟨n, disk⟩ := found
    have hclaim : (onPool (Pool.claim writeBack ⟨file, n⟩ Page.blank) { c with disk }).1 ≠
        .error .pageFull := claim_ne_pageFull hw
    rw [alloc_of_ok hd]
    cases hc : (onPool (Pool.claim writeBack ⟨file, n⟩ Page.blank) { c with disk }).1 with
    | error e =>
      rintro ⟨⟩
      exact hclaim hc
    | ok i => exact nofun

lemma unpin_ne_pageFull (dirty : Bool) : (unpin id dirty c).1 ≠ .error .pageFull := by
  unfold unpin
  split
  · exact nofun
  · next he =>
    rintro ⟨⟩
    cases ((Pool.unpin_eq_error_iff _).mp he).1

end Cache
end Errors

/-- The pages that were added to files, by these events. -/
def Event.additions (events : List Event) : List PageId :=
  events.filterMap fun
    | .allocated id => some id
    | _ => none

namespace Store
variable {s s' s'' : Store} {es es' : List Event} {added more : List PageId} {e e' : StoreError}
  {α : Type}

/-- These events were entered into the journal from one state to another, the latest first. -/
structure Entered (es : List Event) (s s' : Store) : Prop where
  gate : s'.gate = s.gate
  journal : s'.journal = es ++ s.journal

/-- The events since an earlier state of the store, the latest first. -/
def since (s s₀ : Store) : List Event := s.journal.take (s.journal.length - s₀.journal.length)

/-- The gate failed one of these requests as if a page were full. -/
def Feigned (s : Store) (es : List Event) : Prop :=
  ∃ newer r older, es = newer ++ .failed r :: older ∧
    s.gate (older.length + s.journal.length) r = some .pageFull

/-- From one state to another no request failed, and these pages were added to files. -/
def Smooth (added : List PageId) (s s' : Store) : Prop :=
  ∃ es, Entered es s s' ∧ (∀ r, .failed r ∉ es) ∧ Event.additions es = added

/-- From one state to another a request failed, and if the failure is a full page the gate said so. -/
def Broken (e : StoreError) (s s' : Store) : Prop :=
  ∃ es, Entered es s s' ∧ (∃ r, .failed r ∈ es) ∧ (e = .pageFull → s.Feigned es)

/-- What is asked of the store by a computation that fails only where a request does. -/
def Asks (added : α → List PageId) (s : Store) : Except StoreError α → Store → Prop
  | .ok a, s' => s.Smooth (added a) s'
  | .error e, s' => s.Broken e s'

lemma Entered.trans (h : Entered es s s') (h' : Entered es' s' s'') : Entered (es' ++ es) s s'' :=
  ⟨h'.gate.trans h.gate, by rw [h'.journal, h.journal, List.append_assoc]⟩

lemma Entered.since_eq (h : Entered es s s') : s'.since s = es := by
  rw [since, h.journal, List.length_append, Nat.add_sub_cancel_right, List.take_left]

lemma Smooth.refl (s : Store) : Smooth [] s s := ⟨[], ⟨rfl, rfl⟩, nofun, rfl⟩

lemma Smooth.trans (h : Smooth added s s') (h' : Smooth more s' s'') :
    Smooth (more ++ added) s s'' := by
  obtain ⟨es, hes, hok, rfl⟩ := h
  obtain ⟨es', hes', hok', rfl⟩ := h'
  refine ⟨es' ++ es, hes.trans hes', fun r hr => ?_, List.filterMap_append⟩
  exact (List.mem_append.mp hr).elim (hok' r) (hok r)

lemma Smooth.broken (h : Smooth added s s') (h' : Broken e s' s'') : Broken e s s'' := by
  obtain ⟨es, hes, -, -⟩ := h
  obtain ⟨es', hes', ⟨r, hr⟩, hfull⟩ := h'
  refine ⟨es' ++ es, hes.trans hes', ⟨r, List.mem_append_left _ hr⟩, fun he => ?_⟩
  obtain ⟨newer, r, older, rfl, hg⟩ := hfull he
  refine ⟨newer, r, older ++ es, by simp, ?_⟩
  rw [List.length_append, Nat.add_assoc, ← List.length_append, ← hes.journal, ← hes.gate]
  exact hg

lemma Smooth.asks {f : α → List PageId} {r : Except StoreError α} (h : Smooth [] s s')
    (h' : Asks f s' r s'') : Asks f s r s'' := by
  cases r with
  | error e => exact h.broken h'
  | ok a =>
    have hboth := h.trans h'
    rwa [List.append_nil] at hboth

/-- Another failure can be reported in place of one, if it does not tell of a full page. -/
lemma Broken.report (h : Broken e s s') (he : e' ≠ .pageFull) : Broken e' s s' := by
  obtain ⟨es, hes, hr, -⟩ := h
  exact ⟨es, hes, hr, fun h => absurd h he⟩

lemma Smooth.since (h : Smooth added s s') :
    (∀ r, .failed r ∉ s'.since s) ∧ Event.additions (s'.since s) = added := by
  obtain ⟨es, hes, h⟩ := h
  rwa [hes.since_eq]

lemma Broken.since (h : Broken e s s') :
    (∃ r, .failed r ∈ s'.since s) ∧ (e = .pageFull → s.Feigned (s'.since s)) := by
  obtain ⟨es, hes, h⟩ := h
  rwa [hes.since_eq]

/-- Either no request failed or one did. -/
lemma Smooth.not_broken (h : Smooth added s s') : ¬ Broken e s s' := by
  intro h'
  obtain ⟨r, hr⟩ := h'.since.1
  exact h.since.1 r hr

lemma Smooth.overwrite (h : Smooth added s s') (frame : Nat) (page : Page) :
    Smooth added s (s'.overwrite frame page) := by
  obtain ⟨es, hes, h⟩ := h
  exact ⟨es, ⟨hes.gate, hes.journal⟩, h⟩

/-- A request is entered once, done or failed. -/
lemma asks_request {r : Request} {act : CacheM α} {event : α → Event}
    (hact : (act s.cache).1 ≠ .error .pageFull) (hevent : ∀ a r', event a ≠ .failed r') :
    Asks (fun a => Event.additions [event a]) s (request r act event s).1
      (request r act event s).2 := by
  cases hg : s.refusal r with
  | some e =>
    rw [request_refused hg]
    refine ⟨[.failed r], ⟨rfl, rfl⟩, ⟨r, List.mem_singleton_self _⟩, fun he =>
      ⟨[], r, [], rfl, ?_⟩⟩
    rcases refusal_eq_some hg with hgate | ⟨hpins, -⟩
    · rw [List.length_nil, Nat.zero_add, hgate, he]
    · cases he.symm.trans hpins
  | none =>
    rw [request_granted hg]
    cases ha : (act s.cache).1 with
    | error e =>
      exact ⟨[.failed r], ⟨rfl, rfl⟩, ⟨r, List.mem_singleton_self _⟩, fun he =>
        absurd (ha.trans (congrArg Except.error he)) hact⟩
    | ok a =>
      exact ⟨[event a], ⟨rfl, rfl⟩, fun r' hr => hevent a r' (List.mem_singleton.mp hr).symm, rfl⟩

lemma asks_readPage (hw : s.cache.pool.Wf) (id : PageId) :
    Asks (fun _ => []) s (readPage id s).1 (readPage id s).2 :=
  asks_request (Cache.read_ne_pageFull hw) fun _ _ => nofun

lemma asks_allocPage (hw : s.cache.pool.Wf) (file : UInt32) :
    Asks (fun r => [⟨file, r.1⟩]) s (allocPage file s).1 (allocPage file s).2 :=
  asks_request (Cache.alloc_ne_pageFull hw file) fun _ _ => nofun

lemma asks_unpinPage (s : Store) (id : PageId) (dirty : Bool) :
    Asks (fun _ => []) s (unpinPage id dirty s).1 (unpinPage id dirty s).2 :=
  asks_request (Cache.unpin_ne_pageFull dirty) fun _ _ => nofun

end Store
end PagedHeap
