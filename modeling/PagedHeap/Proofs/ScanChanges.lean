import PagedHeap.Proofs.Insertions

/-! What scans do to the records of their file: the record under the cursor is read, deleted or
overwritten. The scan stays where it is. -/
namespace PagedHeap

open Function (update)

namespace HeapFile
open HandleM Heap
variable {c : Site} {t : Prop} {ps qs : List Page} {hd : FileHeader} {f : HeapFile} {s : Store}
  {r : RecordId} {b : Bytes} {body : List UInt32} {spare : Option UInt32}

/-- A record is replaced on the current page, or everything stays as it is. -/
theorem changeCurrent_on (hl : Layout t ps hd body spare) (hf : Site.OnDataPage ps f)
    (h : c.On t ps f s)
    (hcur : f.currentPage = some r.page) (change : Page → Except StoreError Page) {x : Option Bytes}
    (hchange : ∀ {n p q}, Page.Wf n p → change p = .ok q → q.Wf n ∧ q.next? = p.next? ∧
      (∃ b, p.entry r.slot = some b) ∧ ∀ k, q.entry k = if k = r.slot then x else p.entry k) :
    match editCurrent (fun page => do return ((), ← change page)) f s with
    | ((.ok _, g), s') => g.currentPage = f.currentPage ∧ g.cursor = f.cursor ∧
        (∃ b, content ps r = some b) ∧ ∃ qs, c.On t qs g s' ∧ Layout t qs hd body spare ∧
          Evolves ps qs ∧ content qs = update (content ps) r x
    | ((.error _, g), s') => g = f ∧ s' = s := by
  obtain ⟨p, hp, hn⟩ := currentPage_eq_some_iff.mp hcur
  have hpage := h.current hp
  obtain ⟨h0, q, hq, hw⟩ := hf _ hcur
  rw [hn] at hpage
  cases hpage.symm.trans hq
  rw [editCurrent_some _ hp]
  cases hc : change (s.contents p.frame) with
  | error e => exact ⟨rfl, rfl⟩
  | ok page =>
    obtain ⟨hw', hnext, ⟨b, hb⟩, hentry⟩ := hchange hw hc
    have hcontent : content ps r = some b := (hl.content_of_entry h0 hpage r.slot).trans hb
    obtain ⟨hl', hev, hcontent'⟩ :=
      hl.edit_slot (hl.mem_body_of_content hcontent) hpage hw' hnext hentry
    refine ⟨?_, rfl, ⟨b, hcontent⟩, _, hn ▸ h.overwrite hp page, hl', hev, hcontent'⟩
    rw [hcur, currentPage, Option.map_some, hn]

end HeapFile

namespace Scan
open HandleM HeapFile Heap
variable {c : Site} {t : Prop} {ps qs : List Page} {hd : FileHeader} {scan scan' : Scan} {s : Store}
  {r : RecordId} {b : Bytes} {body : List UInt32} {spare : Option UInt32}

lemma under_eq_ok_iff : scan.under = .ok r ↔
    scan.file.cursor = some r ∧ scan.file.currentPage = some r.page := by
  unfold under
  split
  · next r' hr' =>
    rw [hr', Option.some_inj]
    split
    · next hcur =>
      exact ⟨fun h => by cases h; exact ⟨rfl, hcur⟩, fun h => congrArg Except.ok h.1⟩
    · next hcur => exact ⟨fun h => (nomatch h), fun h => absurd (h.1 ▸ h.2) hcur⟩
  · next hnone => exact ⟨fun h => (nomatch h), fun h => (nomatch hnone.symm.trans h.1)⟩

/-- The scan is where it was, with the same filter and the same mark. -/
structure Still (scan scan' : Scan) : Prop where
  position : scan'.position = scan.position
  file : scan'.file.name = scan.file.name
  filter : scan'.filter = scan.filter
  mark : scan'.mark = scan.mark

lemma Still.refl (scan : Scan) : scan.Still scan := ⟨rfl, rfl, rfl, rfl⟩

lemma Still.of_file {f : HeapFile} (hcur : f.currentPage = scan.file.currentPage)
    (hcursor : f.cursor = scan.file.cursor) (hname : f.name = scan.file.name) :
    scan.Still { scan with file := f } := by
  refine ⟨?_, hname, rfl, rfl⟩
  unfold Scan.position
  rw [hcur, hcursor]

theorem current_on (hl : Layout t ps hd body spare) (hf : Site.OnDataPage ps scan.file)
    (h : c.On t ps scan.file s) :
    (current scan s).2 = s ∧ (current scan s).1.2 = scan ∧
      ∀ b, (current scan s).1.1 = .ok b → ∃ r, scan.under = .ok r ∧ content ps r = some b := by
  unfold current
  rw [HandleM.bind_apply, currentId_apply]
  cases hu : scan.under with
  | error e => exact ⟨rfl, rfl, fun b hb => nomatch hb⟩
  | ok r =>
    obtain ⟨-, hcur⟩ := under_eq_ok_iff.mp hu
    obtain ⟨p, hp, hn⟩ := currentPage_eq_some_iff.mp hcur
    dsimp only
    rw [onFile_apply]
    have hread := readCurrent_on hl (hf _ hcur).1 scan.file s ⟨h, hcur⟩
    refine ⟨?_, ?_, fun b hb => ⟨r, rfl, hread.2.2 b hb⟩⟩
    · rw [readCurrent_some r.slot hp]
    · rw [readCurrent_some r.slot hp]

/-- The record under the cursor is deleted and no longer counted, or all stays as it is. -/
theorem delete_on (hl : Layout t ps hd body spare) (hf : Site.OnDataPage ps scan.file)
    (h : c.On t ps scan.file s) :
    scan.Still (delete scan s).1.2 ∧
    match delete scan s with
    | ((.ok _, scan'), s') => ∃ r b, scan.under = .ok r ∧ content ps r = some b ∧
        c.Reaches t ps (fun qs => content qs = Function.update (content ps) r none ∧
          count qs = count ps - 1) scan'.file s'
    | ((.error _, scan'), s') => scan' = scan ∧ s' = s := by
  unfold delete
  rw [HandleM.bind_apply, currentId_apply]
  cases hu : scan.under with
  | error e => exact ⟨.refl scan, rfl, rfl⟩
  | ok r =>
    obtain ⟨-, hcur⟩ := under_eq_ok_iff.mp hu
    have hchange := changeCurrent_on hl hf h hcur (fun page => page.delete r.slot)
      (x := none) fun hw hd => hw.delete hd
    dsimp only
    rw [onFile_apply, HandleM.bind_apply]
    rcases he : editCurrent (fun page => do return ((), ← page.delete r.slot)) scan.file s
      with ⟨⟨e | _, g⟩, s'⟩ <;> rw [he] at hchange
    · obtain ⟨rfl, rfl⟩ := hchange
      exact ⟨.refl scan, rfl, rfl⟩
    · obtain ⟨hcur', hcursor, ⟨b, hb⟩, qs, hon, hl', hev, hcontent⟩ := hchange
      obtain ⟨g', s'', rs, hd', heq, hg', hon', -, hl'', hev', hcontent', -, hcount⟩ :=
        recount_on hl' hon (fun h => .ok h.dropRecord) rfl rfl rfl rfl
      have hpage : g'.currentPage = scan.file.currentPage := by
        rw [← hcur', HeapFile.currentPage, hg'.1]
        rfl
      dsimp only
      rw [heq]
      have hname : g'.name = scan.file.name := hon'.name_eq.trans h.name_eq.symm
      refine ⟨.of_file hpage (hg'.2.trans hcursor) hname, r, b, rfl, hb, t, rs, _, _, _,
        fun ht => ht, hon', hl'', hev.trans hev' hl', ?_, hcontent'.trans hcontent, ?_⟩
      · exact onDataPage_of_mem hl'' (hpage.trans hcur) (hl.mem_body_of_content hb)
      · rw [hcount, count_eq hl.header, records_dropRecord]

/-- The record under the cursor is overwritten, or all stays as it is. -/
theorem update_on (hl : Layout t ps hd body spare) (hf : Site.OnDataPage ps scan.file)
    (h : c.On t ps scan.file s) (b : Bytes) :
    scan.Still (Scan.update b scan s).1.2 ∧
    match Scan.update b scan s with
    | ((.ok _, scan'), s') => ∃ r b₀, scan.under = .ok r ∧ content ps r = some b₀ ∧
        c.Reaches t ps (fun qs => content qs = Function.update (content ps) r (some b) ∧
          count qs = count ps) scan'.file s'
    | ((.error _, scan'), s') => scan' = scan ∧ s' = s := by
  unfold Scan.update
  rw [HandleM.bind_apply, currentId_apply]
  cases hu : scan.under with
  | error e => exact ⟨.refl scan, rfl, rfl⟩
  | ok r =>
    obtain ⟨-, hcur⟩ := under_eq_ok_iff.mp hu
    have hchange := changeCurrent_on hl hf h hcur (fun page => page.update r.slot b)
      (x := some b) fun hw hd => hw.update hd
    dsimp only
    rw [onFile_apply]
    rcases he : editCurrent (fun page => do return ((), ← page.update r.slot b)) scan.file s
      with ⟨⟨e | _, g⟩, s'⟩ <;> rw [he] at hchange
    · obtain ⟨rfl, rfl⟩ := hchange
      exact ⟨.refl scan, rfl, rfl⟩
    · obtain ⟨hcur', hcursor, ⟨b₀, hb⟩, qs, hon, hl', hev, hcontent⟩ := hchange
      have hname : g.name = scan.file.name := hon.name_eq.trans h.name_eq.symm
      refine ⟨.of_file hcur' hcursor hname, r, b₀, rfl, hb, t, qs, _, _, _, fun ht => ht, hon, hl',
        hev, ?_, hcontent, (count_eq hl'.header).trans (count_eq hl.header).symm⟩
      exact onDataPage_of_mem hl' (hcur'.trans hcur) (hl.mem_body_of_content hb)

end Scan
end PagedHeap
