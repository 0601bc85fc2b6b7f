import PagedHeap.Proofs.Holding

/-! What a scan holds. A scan does nothing to the store but through its file, so that it keeps the
pins of its file in order as the file does. -/
namespace PagedHeap
variable {I : List Hold → Store → Prop} {rest : List Hold} {id : UInt32} {name : String}

/-- The file of an open scan holds its pins. -/
abbrev KeptScan (I : List Hold → Store → Prop) (rest : List Hold) (id : UInt32) (name : String)
    (scan : Scan) (s : Store) : Prop := Kept I rest id name scan.file s

namespace Scan
open HandleM
variable {α : Type}

theorem onFile_ensures {P : HeapFile → Store → Prop} {act : FileM α}
    {Q : Except StoreError α → HeapFile → Store → Prop} (h : HandleM.Ensures P act Q) :
    HandleM.Ensures (fun scan s => P scan.file s) (onFile act) fun r scan s => Q r scan.file s :=
  fun scan s hs => h scan.file s hs

theorem leave_keeps (hI : Lasting id I) (next? : Option UInt32) :
    HandleM.Ensures (KeptScan I rest id name) (leave next?) fun _ => KeptScan I rest id name := by
  refine .bind (onFile_ensures (HeapFile.releaseCurrent_keeps hI)) (fun _ => ?_) fun _ _ _ h => h.1
  refine .bind (Q := fun _ scan s => KeptScan I rest id name scan s ∧ scan.file.current = none)
    (fun scan s h => ⟨h.1.cursor none, h.2⟩) (fun _ => ?_) fun _ _ _ h => h.1
  cases next? with
  | none => exact .change (fun _ _ h => h.1) (.pure fun _ _ h => h)
  | some n =>
    exact .bind (onFile_ensures (HeapFile.pinCurrent_keeps hI n)) (fun _ => .pure fun _ _ h => h)
      fun _ _ _ h => h

theorem step_keeps (hI : Lasting id I) :
    HandleM.Ensures (KeptScan I rest id name) step fun _ => KeptScan I rest id name := by
  intro scan s h
  cases hc : scan.file.current with
  | none => rw [step_none hc]; exact h
  | some p =>
    rw [step_some hc]
    cases candidate (s.contents p.frame) scan.file.cursor with
    | error e => exact h
    | ok slot =>
      cases slot with
      | none => exact leave_keeps hI _ scan s h
      | some slot =>
        dsimp only
        cases (s.contents p.frame).record slot with
        | error e => exact h
        | ok record => exact h.cursor _

theorem steps_keeps (hI : Lasting id I) (fuel : Nat) :
    HandleM.Ensures (KeptScan I rest id name) (steps fuel) fun _ => KeptScan I rest id name := by
  induction fuel with
  | zero => exact .throw fun _ _ h => h
  | succ k ih =>
    refine .bind (step_keeps hI) (fun found => ?_) fun _ _ _ h => h
    cases found with
    | done found => exact .pure fun _ _ h => h
    | onward => exact ih

theorem next_keeps (hI : Lasting id I) :
    HandleM.Ensures (KeptScan I rest id name) next fun _ => KeptScan I rest id name :=
  fun scan s h => steps_keeps hI _ scan s h

lemma currentId_keeps : HandleM.Ensures (KeptScan I rest id name) currentId
    fun _ => KeptScan I rest id name := by
  intro scan s h
  rw [currentId_apply]
  exact h

theorem current_keeps :
    HandleM.Ensures (KeptScan I rest id name) current fun _ => KeptScan I rest id name :=
  .bind currentId_keeps (fun r => onFile_ensures (HeapFile.readCurrent_keeps r.slot))
    fun _ _ _ h => h

theorem reset_keeps (hI : Lasting id I) :
    HandleM.Ensures (KeptScan I rest id name) reset fun _ => KeptScan I rest id name := by
  refine .held fun scan => ?_
  have hback : HandleM.Ensures (KeptScan I rest id name) (change fun scan => { scan with
      file := { scan.file with cursor := scan.mark.cursor }, finished := scan.mark.finished })
      fun _ => KeptScan I rest id name := fun _ _ h => h.cursor _
  dsimp only
  split
  · refine .bind ((onFile_ensures (HeapFile.releaseCurrent_keeps hI)).weaken (fun _ _ h => h.2)
      fun _ _ _ h => h) (fun _ => ?_) fun _ _ _ h => h.1
    cases scan.mark.page with
    | none => exact hback.weaken (fun _ _ h => h.1) fun _ _ _ h => h
    | some n =>
      exact .bind (onFile_ensures (HeapFile.pinCurrent_keeps hI n)) (fun _ => hback)
        fun _ _ _ h => h
  · exact hback.weaken (fun _ _ h => h.2) fun _ _ _ h => h

theorem delete_keeps (hI : Writable id I) :
    HandleM.Ensures (KeptScan I rest id name) delete fun _ => KeptScan I rest id name := by
  refine .bind currentId_keeps (fun r => ?_) fun _ _ _ h => h
  exact onFile_ensures (.bind (HeapFile.editCurrent_keeps hI _)
    (fun _ => HeapFile.editHeader_keeps hI _) fun _ _ _ h => h)

theorem update_keeps (hI : Writable id I) (record : Bytes) :
    HandleM.Ensures (KeptScan I rest id name) (update record) fun _ => KeptScan I rest id name :=
  .bind currentId_keeps (fun _ => onFile_ensures (HeapFile.editCurrent_keeps hI _))
    fun _ _ _ h => h

theorem stop_keeps (hI : Lasting id I) :
    HandleM.Ensures (KeptScan I rest id name) stop fun _ => KeptScan I rest id name :=
  .change (fun _ _ h => h)
    ((onFile_ensures (HeapFile.releaseCurrent_keeps hI)).weaken (fun _ _ h => h) fun _ _ _ h => h.1)

theorem readRecord_keeps (hI : Lasting id I) (r : RecordId) :
    HandleM.Ensures (KeptScan I rest id name) (readRecord r) fun _ => KeptScan I rest id name :=
  .bind (onFile_ensures (HeapFile.readRecord_keeps hI r))
    (fun _ => .change (fun _ _ h => h) (.pure fun _ _ h => h)) fun _ _ _ h => h

theorem start_keeps (offset length : Nat) (type : FieldType) (value : Option Bytes)
    (comparison : Comparison) : HandleM.Ensures (KeptScan I rest id name)
      (start offset length type value comparison) fun _ => KeptScan I rest id name := by
  intro scan s h
  cases value with
  | none => exact h
  | some value =>
    simp only [start, HandleM.lift_except_bind]
    cases Predicate.new offset length type value comparison <;> exact h

end Scan
end PagedHeap
