import DeclFront.Diagnostic.Sink
import DeclFront.Parser.Cursor
import Mathlib.Data.List.TakeWhile

/-!
# The order of display

The diagnostics of a text are kept in the order of their reports and shown in the order of display.
A limit cuts the reports and puts the marker where the cut is (`Sink.toList_reportAll_withLimit`).
The order of display is total, so sorting is stable and well determined
(`Sink.sorted_eq_mergeSort`), keeps every part that is in order already (`filter_mergeSort`), and
sorts two parts apart when the first precedes the second (`mergeSort_append`).
-/

namespace DeclFront

namespace Sink

/-! ## What is kept -/

theorem toList_reportAll_unlimited (s : Sink) (hs : s.limit = none) (ds : List Diagnostic) :
    (s.reportAll ds).toList = s.toList ++ ds := by
  induction ds generalizing s with
  | nil => simp [reportAll]
  | cons d ds ih =>
    have hreport : s.report d = { s with kept := s.kept.push d } := by
      simp [report, hasRoom, hs]
    show ((s.report d).reportAll ds).toList = _
    rw [ih _ (by simp [hreport, hs]), hreport]
    simp [toList]

/-- Without a limit, every diagnostic is kept. -/
theorem toList_reportAll (ds : List Diagnostic) :
    ((ofUserLimit 0).reportAll ds).toList = ds := by
  rw [toList_reportAll_unlimited _ rfl]
  rfl

/-- Behind the marker nothing more is kept. -/
theorem reportAll_of_isSaturated {s : Sink} (h : s.isSaturated = true) (ds : List Diagnostic) :
    s.reportAll ds = s := by
  have hroom : s.hasRoom = false := by
    cases hlimit : s.limit with
    | none => simp [isSaturated, hlimit] at h
    | some n =>
      have hlt : n < s.kept.size := by simpa [isSaturated, hlimit] using h
      simpa [hasRoom, hlimit] using Nat.le_of_lt hlt
  induction ds with
  | nil => rfl
  | cons d ds ih =>
    have hreport : s.report d = s := by simp [report, hroom, h]
    show (s.report d).reportAll ds = s
    rw [hreport, ih]

theorem toList_reportAll_of_le {n : Nat} {kept : Array Diagnostic} (h : kept.size ≤ n)
    (ds : List Diagnostic) :
    (reportAll ⟨some n, kept⟩ ds).toList =
      kept.toList ++ ds.take (n - kept.size) ++ (ds[n - kept.size]?.map marker).toList := by
  induction ds generalizing kept with
  | nil => simp [reportAll, toList]
  | cons d ds ih =>
    show ((report ⟨some n, kept⟩ d).reportAll ds).toList = _
    rcases Nat.lt_or_eq_of_le h with hlt | rfl
    · have hreport : report ⟨some n, kept⟩ d = ⟨some n, kept.push d⟩ := by
        simp [report, hasRoom, hlt]
      have hsub : n - kept.size = n - (kept.push d).size + 1 := by
        rw [Array.size_push]
        omega
      rw [hreport, ih (by rw [Array.size_push]; exact hlt), hsub, List.take_succ_cons,
        List.getElem?_cons_succ]
      simp
    · have hreport : report ⟨some kept.size, kept⟩ d = ⟨some kept.size, kept.push (marker d)⟩ := by
        simp [report, hasRoom, isSaturated]
      have hsaturated : isSaturated ⟨some kept.size, kept.push (marker d)⟩ = true := by
        simp [isSaturated]
      rw [hreport, reportAll_of_isSaturated hsaturated, Nat.sub_self]
      simp [toList]

/-- Under a limit the first reports are kept, and the marker stands for the one behind them. -/
theorem toList_reportAll_withLimit (n : Nat) (ds : List Diagnostic) :
    ((withLimit n).reportAll ds).toList = ds.take n ++ (ds[n]?.map marker).toList := by
  rw [withLimit, toList_reportAll_of_le (Nat.zero_le n)]
  rfl

theorem size_le_size_report (s : Sink) (d : Diagnostic) : s.size ≤ (s.report d).size := by
  unfold report
  split
  · simp [size]
  · split <;> simp [size]

theorem size_le_size_reportAll (s : Sink) (ds : List Diagnostic) :
    s.size ≤ (s.reportAll ds).size := by
  induction ds generalizing s with
  | nil => exact Nat.le_refl _
  | cons d ds ih => exact Nat.le_trans (size_le_size_report s d) (ih _)

/-- The first diagnostic is kept, whatever limit a user gives. -/
theorem size_report_ofUserLimit (limit : Nat) (d : Diagnostic) :
    ((ofUserLimit limit).report d).size = 1 := by
  by_cases h : limit = 0
  · simp [ofUserLimit, h, unlimited, report, hasRoom, size]
  · simp [ofUserLimit, h, withLimit, report, hasRoom, size, Nat.pos_of_ne_zero h]

theorem mem_report {s : Sink} {d e : Diagnostic} (h : e ∈ (s.report d).toList) :
    e ∈ s.toList ∨ e = d ∨ e = marker d := by
  unfold report at h
  split at h
  · have h : e ∈ s.toList ∨ e = d := by simpa [toList] using h
    exact h.imp_right .inl
  · split at h
    · exact .inl h
    · have h : e ∈ s.toList ∨ e = marker d := by simpa [toList] using h
      exact h.imp_right .inr

/-- What holds of all that is reported, and then of the marker, holds of all that is kept. -/
theorem forall_reportAll {P : Diagnostic → Prop} (hmarker : ∀ d, P d → P (marker d)) {s : Sink}
    {ds : List Diagnostic} (hs : ∀ d ∈ s.toList, P d) (hds : ∀ d ∈ ds, P d) :
    ∀ d ∈ (s.reportAll ds).toList, P d := by
  induction ds generalizing s with
  | nil => exact hs
  | cons d ds ih =>
    obtain ⟨hd, hds⟩ := List.forall_mem_cons.1 hds
    refine ih (s := s.report d) (fun e he => ?_) hds
    rcases mem_report he with he | rfl | rfl
    · exact hs e he
    · exact hd
    · exact hmarker d hd

/-! ## The order -/

theorem precedes_iff {d e : Diagnostic} : precedes d e = true ↔
    isMarker d = isMarker e ∧ d.offset ≤ e.offset ∨ isMarker d = false ∧ isMarker e = true := by
  simp only [precedes]
  cases isMarker d <;> cases isMarker e <;> simp

theorem precedes_trans (d e f : Diagnostic) (hde : precedes d e = true)
    (hef : precedes e f = true) : precedes d f = true := by
  rw [precedes_iff] at *
  rcases hde with ⟨hde, hle⟩ | ⟨hd, he⟩ <;> rcases hef with ⟨hef, hle'⟩ | ⟨he', hf⟩
  · exact .inl ⟨hde.trans hef, Nat.le_trans hle hle'⟩
  · exact .inr ⟨hde.trans he', hf⟩
  · exact .inr ⟨hd, hef ▸ he⟩
  · exact .inr ⟨hd, hf⟩

theorem precedes_total (d e : Diagnostic) : (precedes d e || precedes e d) = true := by
  simp only [precedes]
  cases isMarker d <;> cases isMarker e <;> simp [Nat.le_total]

theorem pairwise_of_isSorted {ds : List Diagnostic} (h : isSorted ds = true) :
    ds.Pairwise (precedes · ·) := by
  induction ds with
  | nil => exact .nil
  | cons d ds ih =>
    cases ds with
    | nil => exact List.pairwise_singleton _ _
    | cons e ds =>
      rw [isSorted, Bool.and_eq_true] at h
      have hds := ih h.2
      refine List.pairwise_cons.2 ⟨fun f hf => ?_, hds⟩
      rcases List.mem_cons.1 hf with rfl | hf
      · exact h.1
      · exact precedes_trans d e f h.1 (List.rel_of_pairwise_cons hds hf)

/-- The diagnostics are shown as a stable sort puts them. -/
theorem sorted_eq_mergeSort (s : Sink) : s.sorted = s.toList.mergeSort precedes := by
  unfold sorted
  split
  · rw [List.mergeSort_of_pairwise (pairwise_of_isSorted ‹_›)]
  · rfl

theorem sorted_eq_nil_iff (s : Sink) : s.sorted = [] ↔ s.size = 0 := by
  rw [sorted_eq_mergeSort, ← List.length_eq_zero_iff, List.length_mergeSort]
  simp [toList, size]

/-- Nothing is shown only if nothing was reported, whatever limit a user gives. -/
theorem sorted_reportAll_eq_nil_iff (limit : Nat) (ds : List Diagnostic) :
    ((ofUserLimit limit).reportAll ds).sorted = [] ↔ ds = [] := by
  rw [sorted_eq_nil_iff]
  cases ds with
  | nil => by_cases h : limit = 0 <;> simp [ofUserLimit, h, reportAll, size, unlimited, withLimit]
  | cons d ds =>
    have hle := size_le_size_reportAll ((ofUserLimit limit).report d) ds
    rw [size_report_ofUserLimit] at hle
    exact iff_of_false (Nat.pos_iff_ne_zero.1 hle) (List.cons_ne_nil d ds)

/-- What is sorted by a number stands in the order of that number. -/
theorem pairwise_mergeSort_key {α : Type} (key : α → Nat) (as : List α) :
    (as.mergeSort fun a b => key a ≤ key b).Pairwise fun a b => key a ≤ key b := by
  refine (List.pairwise_mergeSort (fun a b c hab hbc => ?_) (fun a b => ?_) as).imp
    fun hle => of_decide_eq_true hle
  · exact decide_eq_true (Nat.le_trans (of_decide_eq_true hab) (of_decide_eq_true hbc))
  · simpa using Nat.le_total (key a) (key b)

/-! ## Sorting parts -/

/-- Sorting leaves a part alone that is in order already. -/
theorem filter_mergeSort {p : Diagnostic → Bool} {ds : List Diagnostic}
    (h : (ds.filter p).Pairwise (precedes · ·)) :
    (ds.mergeSort precedes).filter p = ds.filter p := by
  have hsub := List.sublist_mergeSort precedes_trans precedes_total h List.filter_sublist
  have hlen := ((List.mergeSort_perm ds precedes).filter p).length_eq
  have hsub := hsub.filter p
  rw [List.filter_filter] at hsub
  simp only [Bool.and_self] at hsub
  exact (hsub.eq_of_length hlen.symm).symm

section

variable {α : Type} {p : α → Bool} {as bs : List α}

theorem takeWhile_append_of_neg (h : ∀ b ∈ bs, p b = false) :
    (as ++ bs).takeWhile p = as.takeWhile p := by
  rw [List.takeWhile_append]
  split
  · rename_i hlen
    rw [List.takeWhile_prefix p |>.eq_of_length hlen]
    cases bs with
    | nil => simp
    | cons b bs => simp [h b List.mem_cons_self]
  · rfl

theorem dropWhile_append_of_neg (h : ∀ b ∈ bs, p b = false) :
    (as ++ bs).dropWhile p = as.dropWhile p ++ bs := by
  rw [List.dropWhile_append]
  split
  · rename_i hempty
    rw [List.isEmpty_iff.1 hempty]
    cases bs with
    | nil => simp
    | cons b bs => simp [h b List.mem_cons_self]
  · rfl

end

/-- Sorting puts the first diagnostic in front of those that it may precede. -/
theorem mergeSort_cons_eq (d : Diagnostic) (ds : List Diagnostic) :
    (d :: ds).mergeSort precedes =
      (ds.mergeSort precedes).takeWhile (!precedes d ·) ++
        d :: (ds.mergeSort precedes).dropWhile (!precedes d ·) := by
  obtain ⟨before, behind, hsort, hrest, hbefore⟩ :=
    List.mergeSort_cons precedes_trans precedes_total d ds
  have hpairwise := List.pairwise_mergeSort precedes_trans precedes_total (d :: ds)
  rw [hsort, List.pairwise_append] at hpairwise
  have hbehind : ∀ e ∈ behind, (!precedes d e) = false := fun e he => by
    simpa using List.rel_of_pairwise_cons hpairwise.2.1 he
  rw [hsort, hrest, takeWhile_append_of_neg hbehind, dropWhile_append_of_neg hbehind,
    List.takeWhile_eq_self_iff.2 hbefore, List.dropWhile_eq_nil_iff.2 hbefore, List.nil_append]

/-- Two parts of which the first precedes the second are sorted apart. -/
theorem mergeSort_append {ds es : List Diagnostic}
    (h : ∀ d ∈ ds, ∀ e ∈ es, precedes d e = true) :
    (ds ++ es).mergeSort precedes = ds.mergeSort precedes ++ es.mergeSort precedes := by
  induction ds with
  | nil => simp
  | cons d ds ih =>
    have hes : ∀ e ∈ es.mergeSort precedes, (!precedes d e) = false := fun e he => by
      simpa using h d List.mem_cons_self e (List.mem_mergeSort.1 he)
    rw [List.cons_append, mergeSort_cons_eq, mergeSort_cons_eq,
      ih fun d' hd' => h d' (List.mem_cons_of_mem d hd'), takeWhile_append_of_neg hes,
      dropWhile_append_of_neg hes, List.append_assoc, List.cons_append]

end Sink

namespace Cursor

theorem diagnostics_zero (c : Cursor) :
    c.diagnostics 0 = c.raised.reverse.mergeSort Sink.precedes := by
  rw [diagnostics, Sink.sorted_eq_mergeSort, Sink.toList_reportAll]

/-- No diagnostic is shown only if none was raised. -/
theorem diagnostics_eq_nil_iff (c : Cursor) (limit : Nat) :
    c.diagnostics limit = [] ↔ c.raised = [] :=
  (Sink.sorted_reportAll_eq_nil_iff limit _).trans List.reverse_eq_nil_iff

end Cursor

end DeclFront
