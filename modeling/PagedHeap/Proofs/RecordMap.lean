import Mathlib.Data.List.Perm.Basic
import PagedHeap.Proofs.Runs

/-! Heap files are record maps. In every run each action changes the records of the files as it
should, and none if it fails, and the headers count the records. -/
namespace PagedHeap

open Function (update)

namespace RecordId

lemma lt_irrefl (r : RecordId) : ¬ r < r := by
  rw [lt_iff]
  rintro (h | ⟨-, h⟩)
  · exact UInt32.lt_irrefl _ h
  · exact Nat.lt_irrefl _ h

lemma lt_asymm {a b : RecordId} (h : a < b) : ¬ b < a := by
  rw [lt_iff] at h ⊢
  rintro (hlt | ⟨heq, hslot⟩) <;> rcases h with h | ⟨heq', hslot'⟩
  · exact UInt32.lt_asymm h hlt
  · exact UInt32.lt_irrefl _ (heq' ▸ hlt)
  · exact UInt32.lt_irrefl _ (heq ▸ h)
  · exact Nat.lt_asymm hslot hslot'

variable {α : Type} {f : α → RecordId} {xs ys : List α}

lemma nodup_of_sorted (h : xs.Pairwise fun a b => f a < f b) : xs.Nodup := by
  refine h.imp ?_
  rintro a _ hlt rfl
  exact lt_irrefl _ hlt

/-- Lists in the order of their ids are the same if they have the same members. -/
lemma eq_of_sorted (hx : xs.Pairwise fun a b => f a < f b) (hy : ys.Pairwise fun a b => f a < f b)
    (hmem : ∀ a, a ∈ xs ↔ a ∈ ys) : xs = ys := by
  have hperm := (List.perm_ext_iff_of_nodup (nodup_of_sorted hx) (nodup_of_sorted hy)).mpr hmem
  exact hperm.eq_of_pairwise (fun _ _ _ _ hlt hgt => (lt_asymm hlt hgt).elim) hx hy

end RecordId

namespace Heap
variable {t : Prop} {ps qs : List Page} {r : RecordId} {b : Bytes}

def ids (ps : List Page) : List RecordId := (records ps).map Prod.fst

lemma length_ids (ps : List Page) : (ids ps).length = (records ps).length := List.length_map _

lemma mem_ids : r ∈ ids ps ↔ ∃ b, content ps r = some b := by
  unfold ids
  rw [List.mem_map]
  constructor
  · rintro ⟨⟨r', b⟩, hmem, rfl⟩
    exact ⟨b, mem_records.mp hmem⟩
  · rintro ⟨b, hb⟩
    exact ⟨(r, b), mem_records.mpr hb, rfl⟩

lemma Formed.sorted (h : Formed t ps) : (chain ps).Pairwise (· < ·) := by
  rcases h with hb | ⟨hd, body, spare, hl⟩
  · rw [chain_blank hb]
    exact .nil
  · rw [hl.chain_eq]
    exact (List.pairwise_cons.mp hl.sorted).2

lemma Formed.pairwise_ids (h : Formed t ps) : (ids ps).Pairwise (· < ·) :=
  List.Pairwise.map Prod.fst (fun _ _ hlt => hlt) (pairwise_records h.sorted)

lemma Formed.nodup_ids (h : Formed t ps) : (ids ps).Nodup :=
  RecordId.nodup_of_sorted (f := id) h.pairwise_ids

lemma length_eq_of_ids (hp : Formed t ps) (hq : Formed t qs) (h : ∀ r, r ∈ ids qs ↔ r ∈ ids ps) :
    (records qs).length = (records ps).length := by
  rw [← length_ids, ← length_ids, RecordId.eq_of_sorted (f := id) hq.pairwise_ids hp.pairwise_ids h]

lemma length_eq_of_content (hp : Formed t ps) (hq : Formed t qs) (h : content qs = content ps) :
    (records qs).length = (records ps).length :=
  length_eq_of_ids hp hq fun r => by rw [mem_ids, mem_ids, h]

lemma length_of_update (hp : Formed t ps) (hq : Formed t qs) (h : content ps r = none)
    (hcontent : content qs = update (content ps) r (some b)) :
    (records qs).length = (records ps).length + 1 := by
  have hnew : r ∉ ids ps := fun hr => by
    obtain ⟨b', hb'⟩ := mem_ids.mp hr
    cases h.symm.trans hb'
  have hmem : ∀ r', r' ∈ ids qs ↔ r' ∈ r :: ids ps := by
    intro r'
    rw [mem_ids, List.mem_cons, mem_ids, hcontent, Function.update_apply]
    by_cases hr : r' = r <;> simp [hr]
  have hperm := (List.perm_ext_iff_of_nodup hq.nodup_ids
    (List.nodup_cons.mpr ⟨hnew, hp.nodup_ids⟩)).mpr hmem
  rw [← length_ids, ← length_ids, hperm.length_eq, List.length_cons]

lemma length_of_inserted (hp : Formed t ps) (hq : Formed t qs) (h : Inserted r b ps qs) :
    (records qs).length = (records ps).length + 1 := length_of_update hp hq h.free h.put

/-- Taking a record out and then putting it back gives the records there were. -/
lemma length_of_deleted (hp : Formed t ps) (hq : Formed t qs) (h : content ps r = some b)
    (hcontent : content qs = update (content ps) r none) :
    (records ps).length = (records qs).length + 1 := by
  refine length_of_update (r := r) (b := b) hq hp ?_ ?_
  · rw [hcontent, Function.update_self]
  · rw [hcontent, Function.update_idem, ← h, Function.update_eq_self]

lemma length_of_replaced {b' : Bytes} (hp : Formed t ps) (hq : Formed t qs)
    (h : content ps r = some b) (hcontent : content qs = update (content ps) r (some b')) :
    (records qs).length = (records ps).length := by
  refine length_eq_of_ids hp hq fun r' => ?_
  rw [mem_ids, mem_ids, hcontent, Function.update_apply]
  by_cases hr : r' = r
  · simp [hr, h]
  · rw [if_neg hr]

lemma Change.length_le (hp : Formed t ps) (hq : Formed t qs) (h : Change ps qs) :
    (records qs).length ≤ (records ps).length + 1 := by
  cases h with
  | same h => exact (length_eq_of_content hp hq h.1).le.trans (Nat.le_succ _)
  | inserted h _ => exact (length_of_inserted hp hq h).le
  | uncounted h _ _ => exact (length_of_inserted hp hq h).le
  | deleted h hcontent _ => have := length_of_deleted hp hq h hcontent; omega
  | replaced h hcontent _ => exact (length_of_replaced hp hq h hcontent).le.trans (Nat.le_succ _)

/-- The header goes on counting the records, as long as their number fits. -/
theorem Change.counted (hp : Formed t ps) (hq : Formed t qs) (h : Change ps qs)
    (hcount : count ps = (records ps).length) (hfew : (records qs).length < UInt32.size) :
    count qs = (records qs).length := by
  cases h with
  | same h => rw [h.2, hcount, length_eq_of_content hp hq h.1]
  | inserted h hc => rw [hc, hcount, length_of_inserted hp hq h]
  | uncounted h hc hfull => have := length_of_inserted hp hq h; omega
  | deleted h hcontent hc => have := length_of_deleted hp hq h hcontent; omega
  | replaced h hcontent hc => rw [hc, hcount, length_of_replaced hp hq h hcontent]

end Heap

namespace Workspace
variable {own : String → Prop} {w w' : Workspace} {name : String} {ps qs : List Page}
  {cache : Cache} {actions : List Action}

/-- The records of a file with their ids; none if there is no such file. -/
def records (w : Workspace) (name : String) : List (RecordId × Bytes) :=
  ((w.pages name).map Heap.records).getD []

/-- The files have so few records that their numbers fit into the headers. -/
def Few (own : String → Prop) (w : Workspace) : Prop :=
  ∀ name, own name → (w.records name).length < UInt32.size

/-- The records of every file are counted in its header, and that is what open handles read. -/
structure Counted (own : String → Prop) (w : Workspace) : Prop where
  header : ∀ {name ps}, own name → w.pages name = some ps → Heap.count ps = (w.records name).length
  handle : ∀ {key h}, w.handles.find? key = some h →
    (h.file.recordCount w.store).toNat = (w.records h.file.name).length

lemma records_of_pages (h : w.pages name = some ps) : w.records name = Heap.records ps := by
  rw [records, h]
  rfl

theorem mem_records {r : RecordId} {b : Bytes} :
    (r, b) ∈ w.records name ↔ w.content name r = some b := by
  unfold records content
  cases w.pages name with
  | none => simp
  | some ps => exact Heap.mem_records

lemma Standing.pairwise_records (h : Standing own w) (hn : own name) :
    (w.records name).Pairwise fun a b => a.1 < b.1 := by
  cases hps : w.pages name with
  | none =>
    rw [records, hps]
    exact .nil
  | some ps =>
    rw [records_of_pages hps]
    exact Heap.pairwise_records (h.formed name ps hn hps).sorted

lemma length_records_of_empty (h : Heap.content qs = fun _ => none) :
    (Heap.records qs).length = 0 := by
  rw [List.length_eq_zero_iff, List.eq_nil_iff_forall_not_mem]
  rintro ⟨r, b⟩ hmem
  rw [Heap.mem_records, h] at hmem
  cases hmem

lemma Standing.counted (h : Standing own w)
    (hcount : ∀ {name ps}, own name → w.pages name = some ps →
      Heap.count ps = (Heap.records ps).length) : Counted own w := by
  refine ⟨fun hn hps => (hcount hn hps).trans (by rw [records_of_pages hps]), fun {key old} hf => ?_⟩
  obtain ⟨ps, hd, body, spare, hps, hl, -, hon⟩ := h.on hf
  rw [records_of_pages hps, ← hcount (h.own_of_find hf) hps, HeapFile.recordCount, hon.fileHeader,
    hl.header, Heap.count_eq hl.header]
  rfl

lemma Moves.length_records_le (h : Standing own w) (h' : Standing own w') (hm : Moves own w w')
    (hn : own name) : (w'.records name).length ≤ (w.records name).length + 1 := by
  cases hps : w.pages name with
  | some ps =>
    obtain ⟨qs, hqs, -, hchange⟩ := (hm name hn).1 ps hps
    rw [records_of_pages hps, records_of_pages hqs]
    have hp := h.formed name ps hn hps
    have hq := h'.formed name qs hn hqs
    exact hchange.length_le (hp.mono fun _ => trivial) (hq.mono fun _ => trivial)
  | none =>
    cases hqs : w'.pages name with
    | none => simp [records, hps, hqs]
    | some qs =>
      have hempty := ((hm name hn).2 hps qs hqs).1
      rw [records_of_pages hqs, length_records_of_empty hempty]
      exact Nat.zero_le _

theorem length_records_run (h : Standing own w) (hon : ∀ a ∈ actions, a.On own) (hn : own name) :
    ((w.run actions).records name).length ≤ (w.records name).length + actions.length := by
  induction actions generalizing w with
  | nil => exact Nat.le_refl _
  | cons a rest ih =>
    obtain ⟨ha, hrest⟩ := List.forall_mem_cons.mp hon
    have hout := perform_outcome h a ha
    have hstep := hout.moves.length_records_le h hout.standing hn
    have hrun := ih hout.standing hrest
    rw [List.length_cons]
    exact hrun.trans (by omega)

lemma Outcome.counted {a : Action} {r : Except StoreError (Reply Answer)} (h : Standing own w)
    (ho : Outcome own a w r w') (hc : Counted own w) (hfew : Few own w') : Counted own w' := by
  refine ho.standing.counted fun {name qs} hn hqs => ?_
  have hfit : (Heap.records qs).length < UInt32.size := records_of_pages hqs ▸ hfew name hn
  cases hps : w.pages name with
  | some ps =>
    obtain ⟨qs', hqs', -, hchange⟩ := (ho.moves name hn).1 ps hps
    cases hqs.symm.trans hqs'
    have hp := h.formed name ps hn hps
    have hq := ho.standing.formed name qs hn hqs
    refine hchange.counted (hp.mono fun _ => trivial) (hq.mono fun _ => trivial) ?_ hfit
    exact (hc.header hn hps).trans (by rw [records_of_pages hps])
  | none =>
    obtain ⟨hempty, hzero⟩ := (ho.moves name hn).2 hps qs hqs
    rw [hzero, length_records_of_empty hempty]

/-- A record is never left uncounted while the numbers fit. -/
lemma Outcome.effect_of_few {a : Action} {r : Except StoreError (Reply Answer)}
    (h : Standing own w) (ho : Outcome own a w r w') (hc : Counted own w) (hfew : Few own w') :
    Effect own w a r w' := by
  rcases ho.effect with ⟨key, b, -, -, old, ps, qs, r', -, hn, hps, hqs, hins, -, hfull⟩ | he
  · have hp := h.formed _ ps hn hps
    have hq := ho.standing.formed _ qs hn hqs
    have hlen := Heap.length_of_inserted (hp.mono fun _ => trivial) (hq.mono fun _ => trivial) hins
    have hfit : (Heap.records qs).length < UInt32.size := records_of_pages hqs ▸ hfew _ hn
    have hcount := hc.header hn hps
    rw [records_of_pages hps] at hcount
    omega
  · exact he

/-- The headers count the records as long as the numbers fit. -/
theorem Standing.counted_run (h : Standing own w) (hc : Counted own w)
    (hon : ∀ a ∈ actions, a.On own)
    (hfew : ∀ before, before <+: actions → Few own (w.run before)) :
    Counted own (w.run actions) := by
  induction actions generalizing w with
  | nil => exact hc
  | cons a rest ih =>
    obtain ⟨ha, hrest⟩ := List.forall_mem_cons.mp hon
    have hout := perform_outcome h a ha
    have hstep := hfew [a] (List.cons_prefix_cons.mpr ⟨rfl, List.nil_prefix⟩)
    exact ih hout.standing (hout.counted h hc hstep) hrest fun before hb =>
      hfew (a :: before) (List.cons_prefix_cons.mpr ⟨rfl, hb⟩)

lemma start_counted (h : Ready own cache) (gate : Gate) : Counted own (start cache gate) := by
  refine (start_standing h gate).counted fun {name ps} hn hps => ?_
  cases (start_pages h gate hn).symm.trans hps

lemma few_of_length (h : Ready own cache) (gate : Gate) (hon : ∀ a ∈ actions, a.On own)
    (hlen : actions.length < UInt32.size) {before : List Action} (hb : before <+: actions) :
    Few own ((start cache gate).run before) := by
  intro name hn
  have hrun := length_records_run (start_standing h gate) (fun a ha => hon a (hb.subset ha)) hn
  rw [show (start cache gate).records name = [] by rw [records, start_pages h gate hn]; rfl] at hrun
  have hle := hb.length_le
  rw [List.length_nil] at hrun
  omega

end Workspace
end PagedHeap
