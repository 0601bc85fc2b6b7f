import PagedHeap.Proofs.CacheMirror

/-! A cache in use by clients that pin pages of open files, change them in their frames, and mark them
dirty when they give back their pins. Whatever is evicted and loaded again in between, each page is
found as it was last written. -/
namespace PagedHeap

structure ClientPin (κ : Type) where
  client : κ
  id : PageId
  frame : Nat
  deriving DecidableEq

inductive CacheAction (κ : Type)
  | alloc (client : κ) (file : UInt32)
  | read (client : κ) (id : PageId)
  /-- The client that holds this pin changes the contents of its frame. -/
  | write (pin : ClientPin κ) (contents : Page)
  | unpin (client : κ) (id : PageId) (dirty : Bool)
  | flushFile (file : UInt32)
  | flushAll

/-- A cache, and what its clients hold and did. -/
structure CacheUse (κ : Type) where
  cache : Cache
  pins : List (ClientPin κ) := []
  /-- The pages that a client changed since it last reported a change of them. -/
  changed : List (κ × PageId) := []
  /-- What was last written to each page, and zeros behind the ends of the files. -/
  memory : PageId → Page

namespace CacheUse
variable {κ : Type} [DecidableEq κ] {u : CacheUse κ}

def start (n : Nat) (d : Disk) : CacheUse κ where
  cache := ⟨Pool.ofSize n, d⟩
  memory id := if id.page < d.count id.file then d.saved id else Page.blank

def isBy (client : κ) (id : PageId) (pin : ClientPin κ) : Bool :=
  pin.client = client && pin.id = id

def step (u : CacheUse κ) : CacheAction κ → CacheUse κ
  | .alloc client file =>
    match Cache.alloc file u.cache with
    | (.ok (n, i), cache) => { u with cache, pins := ⟨client, ⟨file, n⟩, i⟩ :: u.pins }
    | (.error _, cache) => { u with cache }
  | .read client id =>
    match Cache.read id u.cache with
    | (.ok i, cache) => { u with cache, pins := ⟨client, id, i⟩ :: u.pins }
    | (.error _, cache) => { u with cache }
  | .write pin contents =>
    { u with
      cache := u.cache.setContents pin.frame contents
      changed := (pin.client, pin.id) :: u.changed
      memory := Function.update u.memory pin.id contents }
  | .unpin client id dirty =>
    match Cache.unpin id dirty u.cache with
    | (.ok _, cache) =>
      { u with
        cache
        pins := u.pins.eraseP (isBy client id)
        changed := if dirty then u.changed.filter (· ≠ (client, id)) else u.changed }
    | (.error _, cache) => { u with cache }
  | .flushFile file => { u with cache := (Cache.flushFile file u.cache).2 }
  | .flushAll => { u with cache := (Cache.flushAll u.cache).2 }

/-- Whether an action is in order: it is about an open file, asks for no more pins on a page than can
be counted, changes a page that is held, and gives back a pin that the client holds, or one where
nobody holds any. The last pin of a client on a page that it changed is given back dirty. -/
def Legal (u : CacheUse κ) : CacheAction κ → Prop
  | .alloc _ file => (u.cache.disk.opened.find? file).isSome
  | .read _ id => (u.cache.disk.opened.find? id.file).isSome ∧
      u.pins.countP (·.id = id) < Frame.maxPins
  | .write pin _ => pin ∈ u.pins
  | .unpin client id dirty => (∀ pin ∈ u.pins, pin.id ≠ id) ∨
      0 < u.pins.countP (isBy client id) ∧
        (dirty = false → (client, id) ∈ u.changed → 1 < u.pins.countP (isBy client id))
  | .flushFile _ | .flushAll => True

instance (u : CacheUse κ) : (a : CacheAction κ) → Decidable (u.Legal a)
  | .alloc _ file => inferInstanceAs (Decidable ((u.cache.disk.opened.find? file).isSome = true))
  | .read _ id => inferInstanceAs (Decidable ((u.cache.disk.opened.find? id.file).isSome = true ∧
      u.pins.countP (·.id = id) < Frame.maxPins))
  | .write pin _ => inferInstanceAs (Decidable (pin ∈ u.pins))
  | .unpin client id dirty => inferInstanceAs (Decidable ((∀ pin ∈ u.pins, pin.id ≠ id) ∨
      0 < u.pins.countP (isBy client id) ∧
        (dirty = false → (client, id) ∈ u.changed → 1 < u.pins.countP (isBy client id))))
  | .flushFile _ | .flushAll => inferInstanceAs (Decidable True)

def run (u : CacheUse κ) (actions : List (CacheAction κ)) : CacheUse κ := actions.foldl step u

def AllLegal : CacheUse κ → List (CacheAction κ) → Prop
  | _, [] => True
  | u, a :: rest => u.Legal a ∧ (u.step a).AllLegal rest

instance decidableAllLegal : (u : CacheUse κ) → (actions : List (CacheAction κ)) →
    Decidable (u.AllLegal actions)
  | _, [] => inferInstanceAs (Decidable True)
  | u, a :: rest =>
    let _ := decidableAllLegal (u.step a) rest
    inferInstanceAs (Decidable (u.Legal a ∧ (u.step a).AllLegal rest))

/-- The cache mirrors what was written, the pins are those of the clients, and whoever has a change
to report holds a pin. -/
structure Coherent (pins : List (ClientPin κ)) (changed : List (κ × PageId))
    (memory : PageId → Page) (c : Cache) : Prop where
  wf : c.pool.Wf
  idle : c.pool.Idle
  mirrors : c.Mirrors (fun id => ∃ k, (k, id) ∈ changed) memory
  held : ∀ id, c.pool.pins id = pins.countP (·.id = id)
  frames : ∀ pin ∈ pins, c.pool.find? pin.id = some pin.frame
  reported : ∀ e ∈ changed, 0 < pins.countP (isBy e.1 e.2)

namespace Coherent
variable {pins : List (ClientPin κ)} {changed : List (κ × PageId)} {memory : PageId → Page}
  {c c' : Cache} {id : PageId} {p : Page}

omit [DecidableEq κ] in
lemma countP_pos {pins : List (ClientPin κ)} {pin : ClientPin κ} (h : pin ∈ pins) :
    0 < pins.countP (·.id = pin.id) := List.countP_pos_iff.mpr ⟨pin, h, by simp⟩

lemma isBy_iff {client : κ} {pin : ClientPin κ} :
    isBy client id pin = true ↔ pin.client = client ∧ pin.id = id := by
  simp [isBy]

lemma busy (h : Coherent pins changed memory c) (hb : ∃ k, (k, id) ∈ changed) :
    c.pool.pins id ≠ 0 := by
  obtain ⟨k, hk⟩ := hb
  obtain ⟨pin, hpin, hby⟩ := List.countP_pos_iff.mp (h.reported _ hk)
  obtain ⟨-, rfl⟩ := isBy_iff.mp hby
  rw [h.held]
  exact Nat.ne_of_gt (countP_pos hpin)

theorem claim (h : Coherent pins changed memory c) (hfew : pins.countP (·.id = id) < Frame.maxPins)
    (hlt : id.page < c.disk.count id.file)
    (hp : c.pool.cached id = none → p = c.disk.saved id) {r : Except StoreError Nat}
    (hc : Cache.Claims id p c r c') (hidle : c'.pool.Idle) :
    (∀ file, c'.disk.count file = c.disk.count file) ∧
      match r with
      | .ok i => c'.contents i = memory id ∧
          ∀ client, Coherent (⟨client, id, i⟩ :: pins) changed memory c'
      | .error _ => Coherent pins changed memory c' := by
  obtain ⟨hm, hcount, hcontents⟩ := h.mirrors.claims h.busy hlt hp hc
  have hclaimed := hc.claimed
  cases r with
  | error e =>
    have hsame := hclaimed.cached_of_error
    refine ⟨hcount, hc.wf, hidle, hm, fun other => ?_, fun pin hpin => ?_, h.reported⟩
    · rw [← h.held, Pool.pins, hsame]
      rfl
    · rw [Pool.find?_eq_map_cached, hsame, ← Pool.find?_eq_map_cached]
      exact h.frames pin hpin
  | ok i =>
    refine ⟨hcount, hcontents i rfl, fun client => ⟨hc.wf, hidle, hm, fun other => ?_,
      fun pin hpin => ?_, fun e he => ?_⟩⟩
    · rw [hclaimed.pins_eq ((h.held id).symm ▸ hfew), h.held, List.countP_cons]
      simp [eq_comm]
    · rcases List.mem_cons.mp hpin with rfl | hpin
      · exact hclaimed.find?_self
      · refine hclaimed.find?_pinned (h.frames pin hpin) ?_
        rw [h.held]
        exact Nat.ne_of_gt (countP_pos hpin)
    · rw [List.countP_cons]
      exact Nat.lt_of_lt_of_le (h.reported e he) (Nat.le_add_right ..)

lemma extend (h : Coherent pins changed memory c) {file : UInt32} {g : OpenFile}
    (hf : c.disk.opened.find? file = some g) (hn : c.disk.count file ≠ noPage) :
    Coherent pins changed memory
      ⟨c.pool, c.disk.written g ⟨file, c.disk.count file⟩ Page.blank⟩ :=
  ⟨h.wf, h.idle, h.mirrors.extend hf hn, h.held, h.frames, h.reported⟩

lemma change (h : Coherent pins changed memory c) {pin : ClientPin κ} (hpin : pin ∈ pins)
    (p : Page) : Coherent pins ((pin.client, pin.id) :: changed)
      (Function.update memory pin.id p) (c.setContents pin.frame p) where
  wf := h.wf.modifyFrame pin.frame (fun f => { f with contents := p }) rfl
  idle := h.idle.modifyFrame (fun f => { f with contents := p }) fun _ => rfl
  mirrors := h.mirrors.change h.wf (h.frames pin hpin) p ⟨_, List.mem_cons_self⟩
    fun ⟨k, hk⟩ => ⟨k, List.mem_cons_of_mem _ hk⟩
  held id := (Pool.pins_modifyFrame (fun f => { f with contents := p }) (fun _ => rfl) pin.frame
    id).trans (h.held id)
  frames := h.frames
  reported e he := by
    rcases List.mem_cons.mp he with rfl | he
    · exact List.countP_pos_iff.mpr ⟨pin, hpin, by simp [isBy]⟩
    · exact h.reported e he

omit [DecidableEq κ] in
/-- What is counted after one of some pins was taken out, of which all are counted, or none. -/
lemma countP_eraseP {q r : ClientPin κ → Bool} {pins : List (ClientPin κ)}
    (hq : 0 < pins.countP q) :
    ((∀ pin, q pin = true → r pin = true) → (pins.eraseP q).countP r + 1 = pins.countP r) ∧
      ((∀ pin, q pin = true → r pin = false) → (pins.eraseP q).countP r = pins.countP r) := by
  obtain ⟨first, hfirst, hqf⟩ := List.countP_pos_iff.mp hq
  obtain ⟨pin, before, after, -, hqp, rfl, he⟩ := List.exists_of_eraseP hfirst hqf
  rw [he, List.countP_append, List.countP_append, List.countP_cons]
  constructor
  · intro hr
    rw [hr pin hqp, if_pos rfl]
    omega
  · intro hr
    rw [hr pin hqp]
    rfl

lemma countP_page_eraseP {client : κ} (hby : 0 < pins.countP (isBy client id)) (other : PageId) :
    (pins.eraseP (isBy client id)).countP (·.id = other) + (if other = id then 1 else 0) =
      pins.countP (·.id = other) := by
  obtain ⟨hone, hnone⟩ := countP_eraseP (r := (·.id = other)) hby
  split
  · next ho => exact hone fun pin hpin => by simpa using (isBy_iff.mp hpin).2.trans ho.symm
  · next ho => exact hnone fun pin hpin => by simpa using (isBy_iff.mp hpin).2 ▸ Ne.symm ho

lemma countP_isBy_eraseP {client : κ} (hby : 0 < pins.countP (isBy client id)) (e : κ × PageId) :
    (pins.eraseP (isBy client id)).countP (isBy e.1 e.2) + (if e = (client, id) then 1 else 0) =
      pins.countP (isBy e.1 e.2) := by
  obtain ⟨hone, hnone⟩ := countP_eraseP (r := isBy e.1 e.2) hby
  split
  · next he =>
    subst he
    exact hone fun pin hpin => hpin
  · next he =>
    refine hnone fun pin hpin => Bool.eq_false_iff.mpr fun hbe => he ?_
    obtain ⟨hc, hid⟩ := isBy_iff.mp hpin
    obtain ⟨hc', hid'⟩ := isBy_iff.mp hbe
    exact Prod.ext (hc'.symm.trans hc) (hid'.symm.trans hid)

lemma mem_changed_of_unpin {client : κ} {dirty : Bool} {e : κ × PageId}
    (he : e ∈ if dirty then changed.filter (· ≠ (client, id)) else changed) :
    e ∈ changed ∧ (e = (client, id) → dirty = false) := by
  cases dirty with
  | false => exact ⟨he, fun _ => rfl⟩
  | true =>
    obtain ⟨hmem, hne⟩ := List.mem_filter.mp he
    exact ⟨hmem, fun he => absurd he (of_decide_eq_true hne)⟩

/-- A client gives back a pin. A change that it has not reported is reported now, or it holds
another pin on the page. -/
lemma unpin (h : Coherent pins changed memory c) {client : κ} {dirty : Bool} {pool' : Pool}
    (hu : c.pool.unpin id dirty = .ok pool') (hby : 0 < pins.countP (isBy client id))
    (hlast : dirty = false → (client, id) ∈ changed → 1 < pins.countP (isBy client id)) :
    Coherent (pins.eraseP (isBy client id))
      (if dirty then changed.filter (· ≠ (client, id)) else changed) memory
      ⟨pool', c.disk⟩ := by
  have hpins : c.pool.pins id ≠ 0 := by
    have := countP_page_eraseP hby id
    rw [if_pos rfl] at this
    rw [h.held]
    omega
  obtain ⟨i, f, hc, hf⟩ := Pool.exists_cached_of_pins hpins
  obtain ⟨pool₁, hp₁, hw, hnow⟩ := h.wf.unpin_ok hc (by omega) dirty
  obtain rfl : pool₁ = pool' := Except.ok.inj (hp₁.symm.trans hu)
  refine ⟨hw, h.idle.unpin h.wf hu, h.mirrors.unpin h.wf hu ?_, fun other => ?_, fun pin hpin => ?_,
    fun e he => ?_⟩
  · rintro other ⟨k, hk⟩
    cases dirty with
    | false => exact Or.inl ⟨k, by simpa using hk⟩
    | true =>
      by_cases hko : (k, other) = (client, id)
      · exact Or.inr ⟨(Prod.mk.inj hko).2, rfl⟩
      · rw [if_pos rfl]
        exact Or.inl ⟨k, List.mem_filter.mpr ⟨hk, decide_eq_true hko⟩⟩
  · have hcount := countP_page_eraseP hby other
    have hheld := h.held other
    rw [Pool.pins, hnow]
    split
    · next ho =>
      subst ho
      rw [if_pos rfl] at hcount
      dsimp only [Option.map_some, Option.getD_some]
      rw [Pool.pins, hc] at hheld hpins
      dsimp only [Option.map_some, Option.getD_some] at hheld hpins
      rw [Frame.pins_drop hpins]
      omega
    · next ho =>
      rw [if_neg ho] at hcount
      rw [Pool.pins] at hheld
      omega
  · rw [Pool.find?_eq_map_cached, hnow]
    have hframe := h.frames pin (List.mem_of_mem_eraseP hpin)
    split
    · next ho =>
      rw [ho, Pool.find?_eq_map_cached, hc] at hframe
      exact hframe
    · rw [← Pool.find?_eq_map_cached]
      exact hframe
  · obtain ⟨hmem, hown⟩ := mem_changed_of_unpin he
    have hrep := h.reported e hmem
    have hcount := countP_isBy_eraseP hby e
    split at hcount
    · next heq =>
      have hmore := hlast (hown heq) (heq ▸ hmem)
      rw [heq] at hcount ⊢
      dsimp only at hcount ⊢
      omega
    · omega

lemma flush (h : Coherent pins changed memory c) (select : PageId → Bool) :
    ∃ k pool' disk', c.pool.flush Cache.writeBack select c.disk = (.ok k, pool', disk') ∧
      Coherent pins changed memory ⟨pool', disk'⟩ ∧
      ∀ file, disk'.count file = c.disk.count file := by
  obtain ⟨k, pool', disk', hf, hm, hcount⟩ := h.mirrors.flush h.wf select
  obtain ⟨hw, hsame⟩ := h.wf.flush_same Cache.writeBack select c.disk
  have hidle := h.idle.flush h.wf Cache.writeBack select c.disk
  rw [hf] at hw hsame hidle
  exact ⟨k, pool', disk', hf, ⟨hw, hidle, hm, fun id => (hsame.pins id).trans (h.held id),
    fun pin hpin => (hsame.find _).trans (h.frames pin hpin), h.reported⟩, hcount⟩

end Coherent

section Requests
variable {pins : List (ClientPin κ)} {changed : List (κ × PageId)} {memory : PageId → Page}
  {c : Cache} {id : PageId} {p : Page}

/-- A claim for a page of an open file gives it as it was last written, unless the page is not cached
and every frame is pinned. -/
theorem Coherent.claimed (h : Coherent pins changed memory c) (id : PageId)
    (hfew : pins.countP (·.id = id) < Frame.maxPins) (hlt : id.page < c.disk.count id.file)
    (hp : c.pool.cached id = none → p = c.disk.saved id) :
    match Cache.onPool (Pool.claim Cache.writeBack id p) c with
    | (.ok i, c') => (c.pool.contains id = true ∨ ¬ c.pool.Full) ∧ c'.contents i = memory id ∧
        (∀ file, c'.disk.count file = c.disk.count file) ∧
        ∀ client, Coherent (⟨client, id, i⟩ :: pins) changed memory c'
    | (.error e, c') => (e = .poolFull ∧ c.pool.contains id = false ∧ c.pool.Full) ∧
        (∀ file, c'.disk.count file = c.disk.count file) ∧ Coherent pins changed memory c' := by
  have hid := PageId.ne_unassigned (Disk.page_ne_noPage_of_lt hlt)
  have hclaims := Cache.claims_onPool h.wf hid p
  have hidle := h.idle.claim h.wf Cache.writeBack id p c.disk
  obtain ⟨hcount, hresult⟩ := h.claim hfew hlt hp hclaims hidle
  have hrefused : ∀ e, c.pool.contains id = false →
      ((Cache.onPool (Pool.claim Cache.writeBack id p) c).1 = .error e ↔
        e = .poolFull ∧ c.pool.Full) := by
    intro e haway
    refine h.wf.claim_error_iff h.idle
      (Pool.cached_eq_none_iff.mpr (Pool.contains_eq_false_iff.mp haway)) (fun hc hs => ?_) p
    obtain ⟨disk', hw, -⟩ := h.mirrors.write hc
    rw [hw] at hs
    cases hs
  generalize hr : Cache.onPool (Pool.claim Cache.writeBack id p) c = r at *
  obtain ⟨e | i, c'⟩ := r
  · have haway : c.pool.contains id = false := by
      refine Pool.contains_eq_false_iff.mpr (Pool.cached_eq_none_iff.mp ?_)
      refine Pool.fetch_eq_none_iff.mp (Option.eq_none_iff_forall_ne_some.mpr fun found hf => ?_)
      have hclaim : (c.pool.claim Cache.writeBack id p c.disk).1 = .ok found.1 :=
        congrArg Prod.fst (Pool.claim_of_fetch hf p)
      cases (congrArg Prod.fst hr).symm.trans hclaim
    exact ⟨⟨((hrefused e haway).mp rfl).1, haway, ((hrefused e haway).mp rfl).2⟩, hcount, hresult⟩
  · refine ⟨?_, hresult.1, hcount, hresult.2⟩
    cases haway : c.pool.contains id with
    | true => exact Or.inl rfl
    | false =>
      refine Or.inr fun hfull => ?_
      have := (hrefused _ haway).mpr ⟨rfl, hfull⟩
      cases this

/-- Reading a page of an open file gives it as it was last written, or fails: if it is not cached,
since there is no such page or no frame for it. -/
theorem Coherent.read (h : Coherent pins changed memory c)
    (hopen : (c.disk.opened.find? id.file).isSome)
    (hfew : pins.countP (·.id = id) < Frame.maxPins) :
    match Cache.read id c with
    | (.ok i, c') => c'.contents i = memory id ∧
        (c.pool.contains id = true ∨ id.page < c.disk.count id.file ∧ ¬ c.pool.Full) ∧
        (∀ file, c'.disk.count file = c.disk.count file) ∧
        ∀ client, Coherent (⟨client, id, i⟩ :: pins) changed memory c'
    | (.error e, c') => c.pool.contains id = false ∧
        (e = .pageNotFound id ∧ c.disk.count id.file ≤ id.page ∨
          e = .poolFull ∧ id.page < c.disk.count id.file ∧ c.pool.Full) ∧
        (∀ file, c'.disk.count file = c.disk.count file) ∧ Coherent pins changed memory c' := by
  obtain ⟨g, hg⟩ := Option.isSome_iff_exists.mp hopen
  have hread := h.mirrors.regular.readPage hg
  cases hf : c.pool.fetch id with
  | some found =>
    have hhere : c.pool.contains id = true := by
      rw [← Bool.not_eq_false, Pool.contains_eq_false_iff, ← Pool.cached_eq_none_iff,
        ← Pool.fetch_eq_none_iff, hf]
      exact Option.some_ne_none _
    obtain ⟨-, f, hc, -⟩ := h.wf.fetch hf
    have hclaimed := h.claimed id hfew (p := Page.blank) (h.mirrors.inside hc).1 fun haway => by
      rw [hc] at haway
      cases haway
    have heq : Cache.onPool (Pool.claim Cache.writeBack id Page.blank) c = Cache.read id c := by
      rw [Cache.read_of_fetch hf, Cache.onPool, Pool.claim_of_fetch hf]
    rw [heq] at hclaimed
    generalize Cache.read id c = r at hclaimed
    obtain ⟨e | i, c'⟩ := r
    · rw [hhere] at hclaimed
      cases hclaimed.1.2.1
    · exact ⟨hclaimed.2.1, Or.inl hhere, hclaimed.2.2⟩
  | none =>
    have haway : c.pool.contains id = false :=
      Pool.contains_eq_false_iff.mpr (Pool.cached_eq_none_iff.mp (Pool.fetch_eq_none_iff.mp hf))
    by_cases hlt : id.page < c.disk.count id.file
    · have hclaimed := h.claimed id hfew hlt fun _ => rfl
      rw [Cache.read_of_ok hf (hread.trans (if_neg (UInt32.not_le.mpr hlt)))]
      generalize Cache.onPool (Pool.claim Cache.writeBack id (c.disk.saved id)) c = r at hclaimed
      obtain ⟨e | i, c'⟩ := r
      · obtain ⟨⟨he, -, hfull⟩, hrest⟩ := hclaimed
        exact ⟨haway, Or.inr ⟨he, hlt, hfull⟩, hrest⟩
      · obtain ⟨hroom, hcontents, hrest⟩ := hclaimed
        rw [haway] at hroom
        exact ⟨hcontents, Or.inr ⟨hlt, hroom.resolve_left Bool.false_ne_true⟩, hrest⟩
    · have hle := UInt32.not_lt.mp hlt
      rw [Cache.read_of_error hf (hread.trans (if_pos hle))]
      exact ⟨haway, Or.inl ⟨rfl, hle⟩, fun _ => rfl, h⟩

/-- Adding a page to an open file gives a page of zeros, or fails: if the number of pages would not
fit, or there is no frame for the page, which is then in the file all the same. -/
theorem Coherent.alloc (h : Coherent pins changed memory c) {file : UInt32}
    (hopen : (c.disk.opened.find? file).isSome) :
    match Cache.alloc file c with
    | (.ok (n, i), c') => n = c.disk.count file ∧ n ≠ noPage ∧ ¬ c.pool.Full ∧
        c'.contents i = Page.blank ∧ memory ⟨file, n⟩ = Page.blank ∧
        ∀ client, Coherent (⟨client, ⟨file, n⟩, i⟩ :: pins) changed memory c'
    | (.error e, c') => (e = .countOverflow ∧ c.disk.count file = noPage ∨
          e = .poolFull ∧ c.disk.count file ≠ noPage ∧ c.pool.Full) ∧
        Coherent pins changed memory c' := by
  obtain ⟨g, hg⟩ := Option.isSome_iff_exists.mp hopen
  have halloc := Disk.allocPage_eq hg
  by_cases hn : c.disk.count file = noPage
  · rw [Cache.alloc_of_error (halloc.trans (if_pos hn))]
    exact ⟨Or.inl ⟨rfl, hn⟩, h⟩
  · have hnew := h.extend hg hn
    have hcount := Disk.Regular.count_extended (p := Page.blank) hg file
    have hlast : c.disk.opened.find? (PageId.mk file (c.disk.count file)).file = some g := hg
    have hsaved := h.mirrors.regular.saved_written (p := Page.blank) hlast
      ⟨file, c.disk.count file⟩
    have hblank : memory ⟨file, c.disk.count file⟩ = Page.blank :=
      h.mirrors.beyond (UInt32.le_refl (c.disk.count file))
    rw [if_pos rfl] at hcount hsaved
    have hnone : c.pool.cached ⟨file, c.disk.count file⟩ = none :=
      Option.eq_none_iff_forall_ne_some.mpr fun found hc =>
        UInt32.lt_irrefl _ (h.mirrors.inside hc).1
    have haway : c.pool.contains ⟨file, c.disk.count file⟩ = false :=
      Pool.contains_eq_false_iff.mpr (Pool.cached_eq_none_iff.mp hnone)
    have hfew : pins.countP (·.id = ⟨file, c.disk.count file⟩) < Frame.maxPins := by
      rw [← h.held, Pool.pins, hnone]
      exact Nat.zero_lt_of_ne_zero (by decide)
    have hclaimed := hnew.claimed ⟨file, c.disk.count file⟩ hfew
      (hcount.symm ▸ (Disk.lt_add_one_iff hn).mpr (UInt32.le_refl _)) fun _ => hsaved.symm
    rw [Cache.alloc_of_ok (halloc.trans (if_neg hn))]
    generalize Cache.onPool (Pool.claim Cache.writeBack ⟨file, c.disk.count file⟩ Page.blank)
      ⟨c.pool, c.disk.written g ⟨file, c.disk.count file⟩ Page.blank⟩ = r at hclaimed ⊢
    obtain ⟨e | i, c'⟩ := r
    · obtain ⟨⟨he, -, hfull⟩, -, hc⟩ := hclaimed
      exact ⟨Or.inr ⟨he, hn, hfull⟩, hc⟩
    · obtain ⟨hroom, hcontents, -, hc⟩ := hclaimed
      rw [haway] at hroom
      exact ⟨rfl, hn, hroom.resolve_left Bool.false_ne_true, hcontents.trans hblank, hblank, hc⟩

end Requests

abbrev Sound (u : CacheUse κ) : Prop := Coherent u.pins u.changed u.memory u.cache

lemma sound_start (n : Nat) {d : Disk} (hd : d.Regular) : (start n d : CacheUse κ).Sound where
  wf := Pool.wf_ofSize n
  idle := Pool.idle_ofSize n
  mirrors := ⟨hd, fun _ hlt => (if_pos hlt).symm, fun hle => if_neg (UInt32.not_lt.mpr hle)⟩
  held _ := rfl
  frames := nofun
  reported := nofun

/-- An action that is in order keeps what is noted right. -/
theorem Sound.step (h : u.Sound) {a : CacheAction κ} (ha : u.Legal a) : (u.step a).Sound := by
  cases a with
  | alloc client file =>
    have halloc := Coherent.alloc h ha
    simp only [CacheUse.step]
    generalize Cache.alloc file u.cache = r at halloc ⊢
    obtain ⟨_ | ⟨n, i⟩, c'⟩ := r
    · exact halloc.2
    · exact halloc.2.2.2.2.2 client
  | read client id =>
    have hread := Coherent.read h ha.1 ha.2
    simp only [CacheUse.step]
    generalize Cache.read id u.cache = r at hread ⊢
    obtain ⟨_ | i, c'⟩ := r
    · exact hread.2.2.2
    · exact hread.2.2.2 client
  | write pin contents => exact Coherent.change h ha contents
  | unpin client id dirty =>
    cases hu : u.cache.pool.unpin id dirty with
    | error e =>
      have hcall : Cache.unpin id dirty u.cache = (.error e, u.cache) := by simp [Cache.unpin, hu]
      simp only [CacheUse.step, hcall]
      exact h
    | ok pool' =>
      have hcall : Cache.unpin id dirty u.cache = (.ok (), ⟨pool', u.cache.disk⟩) := by
        simp [Cache.unpin, hu]
      simp only [CacheUse.step, hcall]
      rcases ha with hnone | ⟨hby, hlast⟩
      · have hzero : u.cache.pool.pins id = 0 := by
          rw [Coherent.held h]
          exact List.countP_eq_zero.mpr fun pin hpin => by simpa using hnone pin hpin
        rw [(Pool.unpin_eq_error_iff _).mpr ⟨rfl, hzero⟩] at hu
        cases hu
      · exact Coherent.unpin h hu hby hlast
  | flushFile file =>
    obtain ⟨k, pool', disk', hf, hc, -⟩ := Coherent.flush h fun id => id.file = file
    have heq : (Cache.flushFile file u.cache).2 = ⟨pool', disk'⟩ := by
      rw [Cache.flushFile_apply, hf]
    simp only [CacheUse.step, heq]
    exact hc
  | flushAll =>
    obtain ⟨k, pool', disk', hf, hc, -⟩ := Coherent.flush h fun _ => true
    have heq : (Cache.flushAll u.cache).2 = ⟨pool', disk'⟩ := by
      unfold Cache.flushAll
      rw [Cache.onPool, hf]
    simp only [CacheUse.step, heq]
    exact hc

lemma Sound.run (h : u.Sound) {actions : List (CacheAction κ)} (ha : u.AllLegal actions) :
    (u.run actions).Sound := by
  induction actions generalizing u with
  | nil => exact h
  | cons a rest ih => exact ih (h.step ha.1) ha.2

/-- What a cache gives, compared with what was last written to each page. -/
structure Transparent (u : CacheUse κ) : Prop where
  read_ok : ∀ {client id i c'}, u.Legal (.read client id) →
    Cache.read id u.cache = (.ok i, c') → c'.contents i = u.memory id
  read_missing : ∀ {client id}, u.Legal (.read client id) →
    ((Cache.read id u.cache).1 = .error (.pageNotFound id) ↔
      u.cache.pool.contains id = false ∧ u.cache.disk.count id.file ≤ id.page)
  read_full : ∀ {client id}, u.Legal (.read client id) →
    ((Cache.read id u.cache).1 = .error .poolFull ↔ u.cache.pool.contains id = false ∧
      id.page < u.cache.disk.count id.file ∧ u.cache.pool.Full)
  read_fails : ∀ {client id e}, u.Legal (.read client id) →
    (Cache.read id u.cache).1 = .error e → e = .pageNotFound id ∨ e = .poolFull
  alloc_ok : ∀ {client file n i c'}, u.Legal (.alloc client file) →
    Cache.alloc file u.cache = (.ok (n, i), c') → n = u.cache.disk.count file ∧
      c'.contents i = Page.blank ∧ u.memory ⟨file, n⟩ = Page.blank
  /-- The number of pages has to be one that can be counted. -/
  alloc_full : ∀ {client file}, u.Legal (.alloc client file) → u.cache.disk.count file ≠ noPage →
    ((Cache.alloc file u.cache).1 = .error .poolFull ↔ u.cache.pool.Full)
  alloc_fails : ∀ {client file e}, u.Legal (.alloc client file) →
    (Cache.alloc file u.cache).1 = .error e →
    e = .poolFull ∨ e = .countOverflow ∧ u.cache.disk.count file = noPage
  held : ∀ pin ∈ u.pins, u.cache.contents pin.frame = u.memory pin.id
  /-- When all changes were reported, writing out all pages brings the disk up to date. -/
  flushed : ∃ k c', Cache.flushAll u.cache = (.ok k, c') ∧ (u.changed = [] →
    ∀ id, id.page < u.cache.disk.count id.file → c'.disk.saved id = u.memory id)

lemma Sound.flushed (h : u.Sound) : ∃ k c', Cache.flushAll u.cache = (.ok k, c') ∧
    (u.changed = [] →
      ∀ id, id.page < u.cache.disk.count id.file → c'.disk.saved id = u.memory id) := by
  obtain ⟨k, pool', disk', hf, hc, hcount⟩ := Coherent.flush h fun _ => true
  refine ⟨k, ⟨pool', disk'⟩, by rw [Cache.flushAll, Cache.onPool, hf], fun hnone id hlt => ?_⟩
  have hfit := hc.mirrors.fits id
  have hlt' : id.page < disk'.count id.file := (hcount id.file).symm ▸ hlt
  dsimp only at hfit
  cases hcached : pool'.cached id with
  | none =>
    rw [hcached] at hfit
    exact hfit hlt'
  | some e =>
    obtain ⟨i, f⟩ := e
    rw [hcached] at hfit
    obtain ⟨-, -, hdirty | ⟨k, hk⟩ | hsaved⟩ := hfit
    · have hsame := (Coherent.wf h).flush_same Cache.writeBack (fun _ => true) u.cache.disk
      rw [hf] at hsame
      have hfind := (hsame.2.find id).symm.trans (Pool.cached_eq_some_iff.mp hcached).1
      rw [(Coherent.wf h).flush_clean hf hfind hcached rfl] at hdirty
      cases hdirty
    · rw [hnone] at hk
      cases hk
    · exact hsaved

theorem Sound.transparent (h : u.Sound) : u.Transparent where
  read_ok hlegal heq := by
    have hread := Coherent.read h hlegal.1 hlegal.2
    rw [heq] at hread
    exact hread.1
  read_missing {_ id} hlegal := by
    have hread := Coherent.read h hlegal.1 hlegal.2
    generalize Cache.read id u.cache = r at hread ⊢
    obtain ⟨e | i, c'⟩ := r
    · obtain ⟨haway, ⟨rfl, hle⟩ | ⟨rfl, hlt, -⟩, -⟩ := hread
      · simp [haway, hle]
      · simp [UInt32.not_le.mpr hlt]
    · obtain ⟨-, hhere | ⟨hlt, -⟩, -⟩ := hread
      · simp [hhere]
      · simp [UInt32.not_le.mpr hlt]
  read_full {_ id} hlegal := by
    have hread := Coherent.read h hlegal.1 hlegal.2
    generalize Cache.read id u.cache = r at hread ⊢
    obtain ⟨e | i, c'⟩ := r
    · obtain ⟨haway, ⟨rfl, hle⟩ | ⟨rfl, hlt, hfull⟩, -⟩ := hread
      · simp [UInt32.not_lt.mpr hle]
      · simp [haway, hlt, hfull]
    · obtain ⟨-, hhere | ⟨-, hroom⟩, -⟩ := hread
      · simp [hhere]
      · simp [hroom]
  read_fails {_ id e} hlegal he := by
    have hread := Coherent.read h hlegal.1 hlegal.2
    generalize Cache.read id u.cache = r at hread he
    obtain ⟨e' | i, c'⟩ := r
    · cases he
      exact hread.2.1.imp And.left And.left
    · cases he
  alloc_ok hopen heq := by
    have halloc := Coherent.alloc h hopen
    rw [heq] at halloc
    exact ⟨halloc.1, halloc.2.2.2.1, halloc.2.2.2.2.1⟩
  alloc_full {_ file} hopen hn := by
    have halloc := Coherent.alloc h hopen
    generalize Cache.alloc file u.cache = r at halloc ⊢
    obtain ⟨e | ⟨n, i⟩, c'⟩ := r
    · rcases halloc.1 with ⟨-, hn'⟩ | ⟨rfl, -, hfull⟩
      · exact absurd hn' hn
      · simp [hfull]
    · simp [halloc.2.2.1]
  alloc_fails {_ file e} hopen he := by
    have halloc := Coherent.alloc h hopen
    generalize Cache.alloc file u.cache = r at halloc he
    obtain ⟨e' | ⟨n, i⟩, c'⟩ := r
    · cases he
      exact halloc.1.symm.imp And.left fun h => h
    · cases he
  held pin hpin := by
    have hc := Pool.cached_eq_some_iff.mpr ⟨Coherent.frames h pin hpin, rfl⟩
    exact (Coherent.mirrors h).inside hc |>.2.1
  flushed := h.flushed

/-- Whatever clients do with a new pool over a disk with open files, each page is found as it was last
written. -/
theorem run_transparent (n : Nat) {d : Disk} (hd : d.Regular) {actions : List (CacheAction κ)}
    (ha : (start n d).AllLegal actions) : ((start n d).run actions).Transparent :=
  ((sound_start n hd).run ha).transparent

/-- One client fills a page and gives it back, and it leaves the only frame to make room for another
page, on which a second client is still at work. -/
theorem run_transparent_evicted :
    let d : Disk :=
      { tree := FileTree.addFile {} ["t"] {}, dir := "", ids := ⟨[("t", 0)]⟩,
        opened := ⟨[(0, { name := "t", number := 0, pages := 0, uses := 1 })]⟩, nextId := 1 }
    let actions : List (CacheAction Nat) := [.alloc 0 0, .write ⟨0, ⟨0, 0⟩, 0⟩ (Page.blank.put 0 7),
      .unpin 0 ⟨0, 0⟩ true, .alloc 1 0, .write ⟨1, ⟨0, 1⟩, 0⟩ (Page.blank.put 0 8)]
    d.Regular ∧ (start 1 d).AllLegal actions ∧ ((start 1 d).run actions).Transparent := by
  intro d actions
  have hopen : ∀ {i h}, d.opened.find? i = some h →
      i = 0 ∧ h = { name := "t", number := 0, pages := 0, uses := 1 } := by
    intro i h hf
    have hmem := Table.mem_of_find? hf
    simpa [d] using hmem
  have hd : d.Regular := by
    refine ⟨fun hg hh _ => (hopen hg).1.trans (hopen hh).1.symm, fun hf => ?_⟩
    rw [(hopen hf).2]
    exact Nat.zero_le _
  have ha : (start 1 d).AllLegal actions := by decide +kernel
  exact ⟨hd, ha, run_transparent 1 hd ha⟩

section Unbounded

/-- A disk with one open file, of so many pages of zeros. -/
def zeros (pages : UInt32) : Disk where
  tree := FileTree.addFile {} ["t"] { size := pages.toNat * pageSize }
  dir := ""
  ids := ⟨[("t", 0)]⟩
  opened := ⟨[(0, { name := "t", number := 0, pages, uses := 1 })]⟩
  nextId := 1

lemma regular_zeros (pages : UInt32) : (zeros pages).Regular := by
  have hopen : ∀ {i h}, (zeros pages).opened.find? i = some h →
      i = 0 ∧ h = { name := "t", number := 0, pages, uses := 1 } := by
    intro i h hf
    have hmem := Table.mem_of_find? hf
    simpa [zeros] using hmem
  refine ⟨fun hg hh _ => (hopen hg).1.trans (hopen hh).1.symm, fun hf => ?_⟩
  rw [(hopen hf).2]
  exact Nat.le_refl (pages.toNat * pageSize)

/-- However often its first page is read, it stands in the only frame. -/
lemma run_reads {pages : UInt32} (hp : 0 < pages) (client : κ) (k : Nat) :
    (start 1 (zeros pages)).run (List.replicate (k + 1) (.read client ⟨0, 0⟩)) =
      { start 1 (zeros pages) with
        cache := ⟨Pool.single ⟨0, 0⟩ ((zeros pages).saved ⟨0, 0⟩) (UInt32.ofNat (k + 1)), zeros pages⟩
        pins := List.replicate (k + 1) ⟨client, ⟨0, 0⟩, 0⟩ } := by
  have hopen : (zeros pages).opened.find? (⟨0, 0⟩ : PageId).file =
      some { name := "t", number := 0, pages, uses := 1 } := rfl
  have hread := (regular_zeros pages).readPage hopen
  rw [Disk.count_of_open hopen, if_neg (UInt32.not_le.mpr hp)] at hread
  induction k with
  | zero =>
    have haway : (Pool.ofSize 1).fetch ⟨0, 0⟩ = none := rfl
    rw [List.replicate_one, run, List.foldl_cons, List.foldl_nil, step, start,
      Cache.read_of_ok haway hread, Cache.onPool, Pool.claim_ofSize_one]
    rfl
  | succ k ih =>
    rw [run] at ih ⊢
    rw [List.replicate_succ', List.foldl_append, ih, List.foldl_cons,
      List.foldl_nil, step, Cache.read_of_fetch (Pool.fetch_single ..), ← UInt32.ofNat_one,
      ← UInt32.ofNat_add]
    rfl

/-- No page can be added where the number of pages would not fit, though every frame is pinned. And a
page that was read one time more than can be counted makes room, though nobody gave back a pin. -/
theorem not_transparent_unbounded :
    let reads : Nat → List (CacheAction Nat) := fun k => List.replicate k (.read 0 ⟨0, 0⟩)
    let long := (start 1 (zeros noPage)).run (reads 1)
    let round := (start 1 (zeros 1)).run (reads UInt32.size)
    ((zeros noPage).Regular ∧ long.cache.pool.Full ∧
        (Cache.alloc 0 long.cache).1 = .error .countOverflow) ∧
      (zeros 1).Regular ∧ round.pins = List.replicate UInt32.size ⟨0, ⟨0, 0⟩, 0⟩ ∧
        (Cache.alloc 0 round.cache).1 = .ok (1, 0) := by
  intro reads long round
  have hopen : ∀ pages, (zeros pages).opened.find? 0 =
      some { name := "t", number := 0, pages, uses := 1 } := fun _ => rfl
  have halloc : ∀ pages, (zeros pages).allocPage 0 = _ := fun pages => Disk.allocPage_eq (hopen pages)
  refine ⟨⟨regular_zeros _, ?_⟩, regular_zeros _, ?_⟩
  · have hlong : long = _ := run_reads (by decide) 0 0
    rw [hlong]
    refine ⟨fun i hi => ?_, ?_⟩
    · obtain rfl : i = 0 := Nat.lt_one_iff.mp hi
      exact Nat.one_ne_zero
    · rw [Cache.alloc_of_error ((halloc noPage).trans (if_pos rfl))]
  · obtain ⟨k, hk⟩ : ∃ k, UInt32.size = k + 1 := ⟨4294967295, rfl⟩
    have hround : round = _ := (congrArg (fun n => (start 1 (zeros 1)).run (reads n)) hk).trans
      (run_reads (by decide) 0 k)
    have hcount : UInt32.ofNat (k + 1) = 0 := by
      rw [← hk]
      decide
    rw [hround, hcount, hk]
    refine ⟨rfl, ?_⟩
    rw [Cache.alloc_of_ok ((halloc 1).trans (if_neg (by decide))), Cache.onPool,
      Pool.claim_single_other _ _ _ _ (by decide) (by decide)]
    rfl

end Unbounded

end CacheUse
end PagedHeap
