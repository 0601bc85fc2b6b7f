import PagedHeap.Proofs.DiskRuns

/-! Ids and counts of openings. An id goes with one name until its file is destroyed and with no other
name after that, a file is open for as long as it was opened more often than closed, and calls are
refused exactly for what the log and the directory show. -/
namespace PagedHeap.DiskUse
variable {u : DiskUse} {call : DiskCall} {name other : String} {id : UInt32}

/-- No attempt to destroy a file by this name succeeds. -/
def Undestroyed (name : String) (u : DiskUse) (calls : List DiskCall) : Prop :=
  ∀ before after, calls = before ++ .destroy name :: after →
    ∀ r, (u.run before).answer (.destroy name) ≠ .ok r

/-- What a name is bound to after an opening or a destruction of its file. -/
lemma Sound.bound_openFile (h : u.Sound) (hn : Plain name)
    (ho : u.answer (.openFile name) = .ok (some id)) :
    (u.step (.openFile name)).disk.ids.find? name = some id := by
  have hstep : (u.step (.openFile name)).Sound := h.step hn
  rw [hstep.named, DiskUse.step, ho, DiskLog.idOf, if_pos rfl]

lemma Sound.unbound_destroy (h : u.Sound) (hn : Plain name) {r : Option UInt32}
    (hr : u.answer (.destroy name) = .ok r) :
    (u.step (.destroy name)).disk.ids.find? name = none := by
  have hstep : (u.step (.destroy name)).Sound := h.step hn
  rw [hstep.named, DiskUse.step, hr, DiskLog.idOf, if_pos rfl]

lemma answer_bound {id' : UInt32} (hi : u.disk.ids.find? name = some id)
    (ho : u.answer (.openFile name) = .ok (some id')) : id' = id := by
  rcases u.step_cases (.openFile name) with ⟨e, he, -⟩ | ⟨r, d', hr, done, -⟩
  · cases he.symm.trans ho
  · obtain rfl : r = some id' := Except.ok.inj (hr.symm.trans ho)
    cases done with
    | openFile hd =>
      cases Disk.openFile_eq_ok_iff.mp hd with
      | again hb | bound _ _ hb => exact Option.some.inj (hb.symm.trans hi)
      | new _ _ hb => cases hb.symm.trans hi

/-- A binding lasts for as long as the file is not destroyed. -/
lemma Sound.bound_step (h : u.Sound) (hcall : call.Plainly) (hi : u.disk.ids.find? name = some id)
    (hd : call = .destroy name → ∀ r, u.answer call ≠ .ok r) :
    (u.step call).disk.ids.find? name = some id := by
  have hidle : DiskLog.idOf name ((call, u.answer call) :: u.log) = some id := by
    have hold : u.log.idOf name = some id := (h.named name).symm.trans hi
    cases call with
    | create | closeFile | writePage | allocPage => exact hold
    | openFile other =>
      cases ha : u.answer (.openFile other) with
      | error => exact hold
      | ok r =>
        cases r with
        | none => exact hold
        | some i =>
          rw [DiskLog.idOf]
          split
          · next hname =>
            subst hname
            rw [answer_bound hi ha]
          · exact hold
    | destroy other =>
      cases ha : u.answer (.destroy other) with
      | error => exact hold
      | ok r =>
        rw [DiskLog.idOf, if_neg]
        · exact hold
        · rintro rfl
          exact hd rfl r ha
  rw [(h.step hcall).named]
  exact hidle

lemma Sound.bound_run {calls : List DiskCall} (h : u.Sound)
    (hcalls : ∀ call ∈ calls, call.Plainly) (hi : u.disk.ids.find? name = some id)
    (hd : Undestroyed name u calls) : (u.run calls).disk.ids.find? name = some id := by
  induction calls generalizing u with
  | nil => exact hi
  | cons call rest ih =>
    obtain ⟨hcall, hrest⟩ := List.forall_mem_cons.mp hcalls
    have hnow := h.bound_step hcall hi fun hname => by
      subst hname
      exact hd [] rest rfl
    exact ih (h.step hcall) hrest hnow fun before after hsplit =>
      hd (call :: before) after (by rw [hsplit]; rfl)

/-- Two openings give the same id exactly if they are of one name that was not destroyed in between. -/
theorem Sound.openings (h : u.Sound) (hn : Plain name) (hother : Plain other)
    {between : List DiskCall} (hcalls : ∀ call ∈ between, call.Plainly) {id' : UInt32}
    (ho : u.answer (.openFile name) = .ok (some id))
    (ho' : ((u.step (.openFile name)).run between).answer (.openFile other) = .ok (some id')) :
    id = id' ↔ name = other ∧ Undestroyed name (u.step (.openFile name)) between := by
  have hstart : (u.step (.openFile name)).Sound := h.step hn
  have hbound := h.bound_openFile hn ho
  obtain ⟨opens, hopened⟩ := hstart.opened
  have hlt := hopened.below hbound
  generalize u.step (.openFile name) = v at hstart hbound hopened hlt ho' ⊢
  have hlast := (hstart.run hcalls).bound_openFile hother ho'
  constructor
  · rintro rfl
    have hname : name = other := by
      rcases ((v.later_run between).trans (later_step _ _)).ids hlast with hi | hle
      · exact hopened.inj hbound hi
      · exact absurd hlt (UInt32.not_lt.mpr hle)
    refine ⟨hname, ?_⟩
    subst hname
    rintro before after rfl r hr
    obtain ⟨hbefore, hafter⟩ := List.forall_mem_append.mp hcalls
    have hnone := (hstart.run hbefore).unbound_destroy hn hr
    rw [run_append] at hlast
    have hlater := ((later_run ((v.run before).step (.destroy name)) after).trans
      (later_step _ (.openFile name)))
    rcases hlater.ids hlast with hi | hle
    · cases hnone.symm.trans hi
    · have hnext := ((v.later_run before).trans (later_step _ (.destroy name))).next
      exact absurd hlt (UInt32.not_lt.mpr (UInt32.le_trans hnext hle))
  · rintro ⟨rfl, hd⟩
    exact (answer_bound (hstart.bound_run hcalls hbound hd) ho').symm

lemma Sound.present_of_open (h : u.Sound) (ho : u.disk.isOpen name = true) :
    u.disk.present name = true := by
  obtain ⟨⟨id, g⟩, hg⟩ := Option.isSome_iff_exists.mp ho
  obtain ⟨hi, hf⟩ := Disk.openAs?_eq_some_iff.mp hg
  obtain ⟨opens, hopened⟩ := h.opened
  rw [← hopened.inj (hopened.bound hf).1 hi]
  exact h.there hf

/-- A file is open exactly while it was opened more often than closed. -/
lemma Sound.opened_iff (h : u.Sound) (id : UInt32) :
    u.disk.opened.find? id = none ↔ u.log.closes id = u.log.opens id := by
  obtain ⟨opens, hopened⟩ := h.opened
  have huses := h.uses id
  cases hf : u.disk.opened.find? id with
  | none =>
    rw [Disk.uses, hf] at huses
    simpa using huses
  | some g =>
    have hpos := (hopened.bound hf).2
    rw [Disk.uses_of_find? hf] at huses
    simp only [reduceCtorEq, false_iff]
    omega

lemma Sound.closes_le (h : u.Sound) (id : UInt32) : u.log.closes id ≤ u.log.opens id :=
  h.uses id ▸ Nat.le_add_left _ _

lemma Sound.isOpen_iff (h : u.Sound) (name : String) : u.disk.isOpen name = true ↔
    ∃ id, u.log.idOf name = some id ∧ u.log.closes id < u.log.opens id := by
  rw [Disk.isOpen, Option.isSome_iff_exists]
  constructor
  · rintro ⟨⟨id, g⟩, hg⟩
    obtain ⟨hi, hf⟩ := Disk.openAs?_eq_some_iff.mp hg
    refine ⟨id, (h.named name).symm.trans hi, Nat.lt_of_le_of_ne (h.closes_le id) fun he => ?_⟩
    cases hf.symm.trans ((h.opened_iff id).mpr he)
  · rintro ⟨id, hi, hlt⟩
    cases hf : u.disk.opened.find? id with
    | none => exact absurd ((h.opened_iff id).mp hf) (Nat.ne_of_lt hlt)
    | some g => exact ⟨(id, g), Disk.openAs?_eq_some_iff.mpr ⟨(h.named name).trans hi, hf⟩⟩

/-- Whether there is something of a name after a call, as it was before or as the call left it. -/
def leaves (call : DiskCall) (answer : Except StoreError (Option UInt32)) (name : String)
    (before : Bool) : Bool :=
  match call, answer with
  | .create other, .ok _ => name = other || before
  | .destroy other, .ok _ => name ≠ other && before
  | _, _ => before

/-- Files come by creation and go by destruction. -/
lemma Sound.present_step (h : u.Sound) (hcall : call.Plainly) (hn : Plain name) :
    (u.step call).disk.present name = leaves call (u.answer call) name (u.disk.present name) := by
  rcases u.step_cases call with ⟨e, ha, hstep⟩ | ⟨r, d', ha, done, hstep⟩ <;> rw [hstep, ha]
  · cases call <;> rfl
  · cases done with
    | @create other d' hd =>
      obtain ⟨l, hp, hdiffers⟩ := Disk.differs_create hd
      have hspot : u.disk.spot? other = some l := congrArg Place.spot? hp
      rw [leaves]
      by_cases hname : name = other
      · subst hname
        rw [Disk.present_of_spot ((hdiffers.place name).spot?_eq.trans hspot),
          hdiffers.tree.entries, if_pos rfl]
        simp
      · have heq := (hdiffers.place name).occupied_eq fun hl =>
          hname (h.mounted.spot?_inj hn hcall hl hspot)
        rw [decide_eq_false hname, Bool.false_or]
        exact heq
    | openFile hd => cases Disk.openFile_eq_ok_iff.mp hd <;> rfl
    | closeFile hd =>
      obtain ⟨g, -, rfl⟩ := Disk.closeFile_eq_ok_iff.mp hd
      rfl
    | @destroy other d' hd =>
      obtain ⟨l, k, hp, hdiffers⟩ := Disk.differs_destroy hd
      have hspot : d'.spot? other = some l :=
        (hdiffers.place other).spot?_eq.symm.trans (congrArg Place.spot? hp)
      rw [leaves]
      by_cases hname : name = other
      · subst hname
        rw [Disk.present_of_spot hspot, hdiffers.tree.free]
        simp
      · have heq := (hdiffers.place name).occupied_eq fun hl =>
          hname ((h.mounted.destroy hd).spot?_inj hn hcall hl hspot)
        rw [decide_eq_true hname, Bool.true_and]
        exact heq.symm
    | writePage hw | allocPage hw => exact hw.present

/-- What calls are granted and refused for, and what they change, where the log shows how often each
file was opened and closed. -/
structure Regular (u : DiskUse) : Prop where
  closes_le : ∀ id, u.log.closes id ≤ u.log.opens id
  /-- A name is open while its id was opened more often than closed. -/
  isOpen_iff : ∀ name, u.disk.isOpen name = true ↔
    ∃ id, u.log.idOf name = some id ∧ u.log.closes id < u.log.opens id
  /-- Requests for pages of other files are refused. -/
  requests : ∀ (id : PageId) p, let shut := u.log.closes id.file = u.log.opens id.file
    (u.disk.readPage id = .error (.fileNotOpen id.file) ↔ shut) ∧
      (u.disk.writePage id p = .error (.fileNotOpen id.file) ↔ shut) ∧
      (u.disk.allocPage id.file = .error (.fileNotOpen id.file) ↔ shut) ∧
      (u.disk.numPages id.file = .error (.fileNotOpen id.file) ↔ shut)
  close : ∀ id,
    u.log.closes id = u.log.opens id ∧ u.answer (.closeFile id) = .error (.fileNotOpen id) ∨
      u.log.closes id < u.log.opens id ∧ u.answer (.closeFile id) = .ok none
  /-- A file is created exactly if there is nothing of its name. -/
  create : ∀ name, (∀ reason, u.answer (.create name) ≠ .error (.io reason)) →
    u.disk.present name = true ∧ u.answer (.create name) = .error (.fileExists name) ∨
      u.disk.present name = false ∧ u.answer (.create name) = .ok none
  /-- A file is opened exactly if it is there, as long as there are ids and the openings that were not
  taken back can be counted. -/
  openFile : ∀ name, (∀ reason, u.answer (.openFile name) ≠ .error (.io reason)) →
    u.disk.present name = false ∧ u.answer (.openFile name) = .error (.fileNotFound name) ∨
      u.disk.present name = true ∧ ((∃ id, u.answer (.openFile name) = .ok (some id)) ∨
        u.answer (.openFile name) = .error .countOverflow ∧ (¬ u.log.bindings + 1 < UInt32.size ∨
          ∃ id, u.log.idOf name = some id ∧ ¬ u.log.opens id + 1 < UInt32.size + u.log.closes id))
  /-- A file is destroyed exactly if it is there and not open. -/
  destroy : ∀ name, (∀ reason, u.answer (.destroy name) ≠ .error (.io reason)) →
    u.disk.isOpen name = true ∧ u.answer (.destroy name) = .error (.fileOpen name) ∨
      u.disk.isOpen name = false ∧
        (u.disk.present name = false ∧ u.answer (.destroy name) = .error (.fileNotFound name) ∨
          u.disk.present name = true ∧ u.answer (.destroy name) = .ok none)
  /-- Files come by creation and go by destruction. -/
  present : ∀ call name, call.Plainly → Plain name →
    (u.step call).disk.present name = leaves call (u.answer call) name (u.disk.present name)
  /-- A call that fails changes neither the ids and the counts nor the files. -/
  failed : ∀ call e, u.answer call = .error e → (u.step call).disk = u.disk

theorem Sound.regular (h : u.Sound) : u.Regular where
  closes_le := h.closes_le
  isOpen_iff := h.isOpen_iff
  requests id p := by
    simp only [← h.opened_iff]
    exact u.disk.requests_refused_iff id p
  close id := by
    rw [← h.opened_iff]
    cases hf : u.disk.opened.find? id with
    | none =>
      have hc : u.disk.closeFile id = .error (.fileNotOpen id) := by
        simp [Disk.closeFile, Disk.opened_eq_none_iff.mp hf, bind, Except.bind]
      exact Or.inl ⟨rfl, by rw [answer_closeFile, hc]; rfl⟩
    | some g =>
      have hc : u.disk.closeFile id = .ok (u.disk.closed id g) :=
        Disk.closeFile_eq_ok_iff.mpr ⟨g, hf, rfl⟩
      have hlt := Nat.lt_of_le_of_ne (h.closes_le id) fun he => by
        cases hf.symm.trans ((h.opened_iff id).mpr he)
      exact Or.inr ⟨hlt, by rw [answer_closeFile, hc]; rfl⟩
  create name hio := by
    simp only [answer_create] at hio ⊢
    have hquiet : ∀ reason, u.disk.create name ≠ .error (.io reason) := fun reason he =>
      hio reason (by rw [he]; rfl)
    rcases Disk.create_cases hquiet with ⟨hp, he⟩ | ⟨hp, d', hd⟩
    · exact Or.inl ⟨hp, by rw [he]; rfl⟩
    · exact Or.inr ⟨hp, by rw [hd]; rfl⟩
  openFile name hio := by
    simp only [answer_openFile] at hio ⊢
    have hquiet : ∀ reason, u.disk.openFile name ≠ .error (.io reason) := fun reason he =>
      hio reason (by rw [he]; rfl)
    rcases Disk.openFile_cases hquiet h.present_of_open with ⟨hp, he⟩ | ⟨hp, ⟨r, hd⟩ | ⟨he, hroom⟩⟩
    · exact Or.inl ⟨hp, by rw [he]; rfl⟩
    · exact Or.inr ⟨hp, Or.inl ⟨r.1, by rw [hd]; rfl⟩⟩
    · refine Or.inr ⟨hp, Or.inr ⟨by rw [he]; rfl, hroom.imp (h.next ▸ ·) ?_⟩⟩
      rintro ⟨id, hi, hfew⟩
      have huses := h.uses id
      exact ⟨id, (h.named name).symm.trans hi, by omega⟩
  destroy name hio := by
    simp only [answer_destroy] at hio ⊢
    have hquiet : ∀ reason, u.disk.destroy name ≠ .error (.io reason) := fun reason he =>
      hio reason (by rw [he]; rfl)
    rcases Disk.destroy_cases hquiet with ⟨ho, he⟩ | ⟨ho, ⟨hp, he⟩ | ⟨hp, d', hd⟩⟩
    · exact Or.inl ⟨ho, by rw [he]; rfl⟩
    · exact Or.inr ⟨ho, Or.inl ⟨hp, by rw [he]; rfl⟩⟩
    · exact Or.inr ⟨ho, Or.inr ⟨hp, by rw [hd]; rfl⟩⟩
  present call name hcall hn := h.present_step hcall hn
  failed call e he := by
    rcases u.step_cases call with ⟨e', -, hstep⟩ | ⟨r, d', ha, -, -⟩
    · rw [hstep]
    · cases ha.symm.trans he

/-- Ids and counts are kept right over every run of a disk on plain names, and two openings in it give
the same id exactly if they are of one name whose file was not destroyed in between. -/
theorem run_regular {dir : String} {tree : FileTree} {d : Disk} (hd : Disk.mount dir tree = .ok d)
    {calls : List DiskCall} (hcalls : ∀ call ∈ calls, call.Plainly) :
    (run { disk := d } calls).Regular ∧
      ∀ first between last name other id id',
        calls = first ++ .openFile name :: (between ++ .openFile other :: last) →
          let u := run { disk := d } first
          u.answer (.openFile name) = .ok (some id) →
            ((u.step (.openFile name)).run between).answer (.openFile other) = .ok (some id') →
            (id = id' ↔ name = other ∧ Undestroyed name (u.step (.openFile name)) between) := by
  refine ⟨((sound_mount hd).run hcalls).regular, ?_⟩
  rintro first between last name other id id' rfl u ho ho'
  have hu : u.Sound := (sound_mount hd).run fun c hc => hcalls c (by simp [hc])
  have hname : DiskCall.Plainly (.openFile name) := hcalls _ (by simp)
  have hother : DiskCall.Plainly (.openFile other) := hcalls _ (by simp)
  exact hu.openings hname hother (fun c hc => hcalls c (by simp [hc])) ho ho'

/-- A file is opened, closed and destroyed, and opened again after a new one was created. -/
theorem run_regular_recreated :
    let calls : List DiskCall := [.create "t", .openFile "t", .closeFile 0, .destroy "t", .create "t",
      .openFile "t"]
    ∃ d, Disk.mount "data" {} = .ok d ∧ (∀ call ∈ calls, call.Plainly) ∧
      (run { disk := d } calls).Regular ∧ (run { disk := d } calls).log.opens 1 = 1 := by
  intro calls
  have hplain : Plain "t" := ⟨by decide, by decide, by decide, by decide⟩
  have hcalls : ∀ call ∈ calls, call.Plainly := by
    simp [calls, DiskCall.Plainly, hplain]
  obtain ⟨d, hd⟩ : ∃ d, Disk.mount "data" {} = .ok d := ⟨_, rfl⟩
  refine ⟨d, hd, hcalls, (run_regular hd hcalls).1, ?_⟩
  cases hd
  decide +kernel

end PagedHeap.DiskUse
