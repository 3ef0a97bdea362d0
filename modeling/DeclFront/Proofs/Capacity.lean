import DeclFront.Proofs.Display
import Mathlib.Data.Prod.Lex

/-!
# What a sink keeps of its reports

A sink tells from the diagnostics it keeps whether it has dropped a report and how many errors it
holds. A **ledger** has these two as a flag and a counter, which each report brings up to date, and
answers whether the report was kept. One step of the two is compared for every sink
(`Sink.report_ledger`); so the flag, the counter and the answers of any run are those told from the
diagnostics.

**Theorem (`Sink.keeps_first_reports`).** Whatever is reported, a sink keeps the first reports up to
its limit, and one marker in the place of the next. It shows what it keeps as the stable sort by the
key of display does. That sort is described by its result alone: the keys stand in order, and those
diagnostics that have one key stand as they were. No other list is like that
(`eq_of_pairwise_of_filter_eq`).
-/

namespace DeclFront

/-! ## Sorting by a key -/

section

variable {α β : Type} [LinearOrder β] {key : α → β} {as bs : List α}

/-- What is in the order of a key is told by the elements that have each key. -/
theorem eq_of_pairwise_of_filter_eq (has : as.Pairwise (key · ≤ key ·))
    (hbs : bs.Pairwise (key · ≤ key ·))
    (h : ∀ k, as.filter (key · = k) = bs.filter (key · = k)) : as = bs := by
  induction as generalizing bs with
  | nil =>
    cases bs with
    | nil => rfl
    | cons b bs => simpa using h (key b)
  | cons a as ih =>
    cases bs with
    | nil => simpa using h (key a)
    | cons b bs =>
      have hmem (x : α) : x ∈ a :: as ↔ x ∈ b :: bs := by
        have hx := congrArg (x ∈ ·) (h (key x))
        simpa using hx
      obtain ⟨hleast, hrest⟩ := List.pairwise_cons.1 has
      obtain ⟨hleast', hrest'⟩ := List.pairwise_cons.1 hbs
      have hle : key a ≤ key b := by
        rcases List.mem_cons.1 ((hmem b).2 List.mem_cons_self) with rfl | hb
        · exact le_rfl
        · exact hleast b hb
      have hge : key b ≤ key a := by
        rcases List.mem_cons.1 ((hmem a).1 List.mem_cons_self) with rfl | ha
        · exact le_rfl
        · exact hleast' a ha
      have hkey : key b = key a := le_antisymm hge hle
      -- both lists begin with the first of those that have the least key
      have hfirst := h (key a)
      rw [List.filter_cons_of_pos (by simp), List.filter_cons_of_pos (by simp [hkey])] at hfirst
      obtain ⟨rfl, heq⟩ := List.cons.inj hfirst
      have hfilter : ∀ k, as.filter (key · = k) = bs.filter (key · = k) := by
        intro k
        by_cases hk : key a = k
        · exact hk ▸ heq
        · simpa [hk] using h k
      exact congrArg (a :: ·) (ih hrest hrest' hfilter)

end

/-! ## Books that are kept -/

/-- What a sink keeps, with a flag and a counter beside it. -/
structure Ledger where
  entries : Array Diagnostic
  /-- How many diagnostics are kept as reported; `none` keeps all. -/
  limit : Option Nat
  /-- The number of errors among the entries. -/
  errors : Nat
  /-- A report was dropped, and the marker is there. -/
  saturated : Bool
deriving DecidableEq

namespace Ledger

/-- No entries. -/
def ofLimit (limit : Option Nat) : Ledger := ⟨#[], limit, 0, false⟩

/-- Adds an entry, and counts it if it is an error. -/
def enter (l : Ledger) (d : Diagnostic) : Ledger :=
  { l with
    entries := l.entries.push d
    errors := if d.isError then l.errors + 1 else l.errors }

/-- Enters `d`, or the marker in its place, or nothing; and answers whether it was `d`. -/
def report (l : Ledger) (d : Diagnostic) : Bool × Ledger :=
  if l.saturated then (false, l)
  else if l.limit.any (· ≤ l.entries.size) then
    (false, { l with saturated := true }.enter (Sink.marker d))
  else (true, l.enter d)

/-- Reports the diagnostics of a list in turn. Gives the answers. -/
def reportAll (l : Ledger) : List Diagnostic → List Bool × Ledger
  | [] => ([], l)
  | d :: ds =>
    let (answer, l) := l.report d
    let (answers, l) := l.reportAll ds
    (answer :: answers, l)

end Ledger

namespace Sink

variable {s : Sink} {d : Diagnostic}

/-- The books of a sink, told from what it keeps. -/
def ledger (s : Sink) : Ledger := ⟨s.kept, s.limit, s.errorCount, s.isSaturated⟩

/-- The answers to the reports of a list, told from what is kept in front of each. -/
def answers (s : Sink) (ds : List Diagnostic) : List Bool :=
  (List.range ds.length).map fun i => (s.reportAll (ds.take i)).hasRoom

theorem isSaturated_of_hasRoom (h : s.hasRoom = true) : s.isSaturated = false := by
  cases hlimit : s.limit with
  | none => simp [isSaturated, hlimit]
  | some n =>
    have hlt : s.kept.size < n := by simpa [hasRoom, hlimit] using h
    simpa [isSaturated, hlimit] using Nat.le_of_lt hlt

theorem hasRoom_eq_not_any (s : Sink) : s.hasRoom = !s.limit.any (· ≤ s.kept.size) := by
  cases hlimit : s.limit with
  | none => simp [hasRoom, hlimit]
  | some n =>
    simp only [hasRoom, hlimit, Option.all_some, Option.any_some, ← Nat.not_le, decide_not]

theorem ledger_push (s : Sink) (d : Diagnostic) : ({ s with kept := s.kept.push d } : Sink).ledger =
    { s.ledger.enter d with
      saturated := ({ s with kept := s.kept.push d } : Sink).isSaturated } := by
  by_cases h : d.isError = true <;> simp [ledger, Ledger.enter, errorCount, h]

/-- A report changes the books as it changes what they are told from, and its answer is whether
there was room. -/
theorem report_ledger (s : Sink) (d : Diagnostic) :
    s.ledger.report d = (s.hasRoom, (s.report d).ledger) := by
  have hany : s.ledger.limit.any (· ≤ s.ledger.entries.size) = !s.hasRoom := by
    rw [hasRoom_eq_not_any, Bool.not_not]
    rfl
  have hflag : s.ledger.saturated = s.isSaturated := rfl
  rw [Ledger.report, hany, hflag]
  cases hroom : s.hasRoom with
  | true =>
    have hpush : ({ s with kept := s.kept.push d } : Sink).isSaturated = false := by
      cases hlimit : s.limit with
      | none => rfl
      | some n =>
        have hlt : s.kept.size < n := by simpa [hasRoom, hlimit] using hroom
        simpa [isSaturated] using Nat.succ_le_of_lt hlt
    have hreport : s.report d = { s with kept := s.kept.push d } := by simp [report, hroom]
    rw [isSaturated_of_hasRoom hroom, hreport, ledger_push, hpush]
    simp [Ledger.enter, hflag, isSaturated_of_hasRoom hroom]
  | false =>
    cases hfull : s.isSaturated with
    | true =>
      have hreport : s.report d = s := by simp [report, hroom, hfull]
      rw [hreport]
      rfl
    | false =>
      have hpush : ({ s with kept := s.kept.push (marker d) } : Sink).isSaturated = true := by
        cases hlimit : s.limit with
        | none => simp [hasRoom, hlimit] at hroom
        | some n =>
          have hle : n ≤ s.kept.size := by simpa [hasRoom, hlimit] using hroom
          simpa [isSaturated] using Nat.lt_succ_of_le hle
      have hreport : s.report d = { s with kept := s.kept.push (marker d) } := by
        simp [report, hroom, hfull]
      rw [hreport, ledger_push, hpush]
      rfl

/-- The books of a run are told from what is kept in the end, and its answers from what was kept in
front of each report. -/
theorem reportAll_ledger (s : Sink) (ds : List Diagnostic) :
    s.ledger.reportAll ds = (s.answers ds, (s.reportAll ds).ledger) := by
  induction ds generalizing s with
  | nil => rfl
  | cons d ds ih =>
    have hanswers : s.answers (d :: ds) = s.hasRoom :: (s.report d).answers ds := by
      rw [answers, List.length_cons, List.range_succ_eq_map, List.map_cons, List.map_map]
      rfl
    rw [Ledger.reportAll, report_ledger, hanswers]
    simp only [ih (s.report d)]
    rfl

/-! ## The first reports -/

section

variable (limit : Option Nat) (ds : List Diagnostic)

/-- The first reports are kept, and the marker stands for the one behind them. Without a limit there
is none behind them. -/
theorem toList_reportAll_fresh : (reportAll ⟨limit, #[]⟩ ds).toList =
    ds.take (limit.getD ds.length) ++ (ds[limit.getD ds.length]?.map marker).toList := by
  cases limit with
  | none =>
    rw [toList_reportAll_unlimited _ rfl]
    simp [toList]
  | some n => exact toList_reportAll_withLimit n ds

theorem limit_report (s : Sink) (d : Diagnostic) : (s.report d).limit = s.limit := by
  unfold report
  split
  · rfl
  · split <;> rfl

theorem limit_reportAll (s : Sink) : (s.reportAll ds).limit = s.limit := by
  induction ds generalizing s with
  | nil => rfl
  | cons d ds ih => exact (ih (s.report d)).trans (limit_report s d)

theorem size_reportAll_fresh {n : Nat} :
    (reportAll ⟨some n, #[]⟩ ds).kept.size = min ds.length (n + 1) := by
  have hlist := congrArg List.length (toList_reportAll_fresh (some n) ds)
  rw [toList, Array.length_toList] at hlist
  rw [hlist, Option.getD_some, List.length_append, List.length_take]
  rcases Nat.lt_or_ge n ds.length with h | h
  · simp [h]
    omega
  · simp [h]
    omega

/-- A report is dropped if it stands behind the limit. -/
theorem isSaturated_reportAll_fresh :
    (reportAll ⟨limit, #[]⟩ ds).isSaturated = decide (limit.getD ds.length < ds.length) := by
  rw [isSaturated, limit_reportAll]
  cases limit with
  | none => simp
  | some n =>
    rw [size_reportAll_fresh]
    simp

theorem hasRoom_reportAll_fresh :
    (reportAll ⟨limit, #[]⟩ ds).hasRoom = limit.all (ds.length < ·) := by
  rw [hasRoom, limit_reportAll]
  cases limit with
  | none => rfl
  | some n =>
    rw [size_reportAll_fresh]
    exact decide_eq_decide.2 (by omega)

theorem answers_fresh : answers ⟨limit, #[]⟩ ds =
    (List.range ds.length).map fun i => decide (i < limit.getD ds.length) := by
  refine List.map_congr_left fun i hi => ?_
  have hi : i < ds.length := List.mem_range.1 hi
  rw [hasRoom_reportAll_fresh, List.length_take, Nat.min_eq_left (Nat.le_of_lt hi)]
  cases limit with
  | none => simp [hi]
  | some n => simp

end

/-! ## The stable sort -/

/-- The key of display: markers stand behind all others, and else the offset decides. -/
def displayKey (d : Diagnostic) : Bool ×ₗ Nat := toLex (d.code == .tooManyErrors, d.offset)

theorem precedes_iff_displayKey {d e : Diagnostic} :
    precedes d e = true ↔ displayKey d ≤ displayKey e := by
  rw [precedes_iff, displayKey, displayKey, Prod.Lex.toLex_le_toLex]
  show _ ↔ (isMarker d < isMarker e ∨ isMarker d = isMarker e ∧ d.offset ≤ e.offset)
  cases isMarker d <;> cases isMarker e <;> simp

theorem isSorted_iff {ds : List Diagnostic} :
    isSorted ds = true ↔ ds.Pairwise (displayKey · ≤ displayKey ·) := by
  constructor
  · exact fun h => (pairwise_of_isSorted h).imp precedes_iff_displayKey.1
  · intro h
    induction ds with
    | nil => rfl
    | cons d ds ih =>
      obtain ⟨hle, hds⟩ := List.pairwise_cons.1 h
      cases ds with
      | nil => rfl
      | cons e ds =>
        rw [isSorted, ih hds, Bool.and_true]
        exact precedes_iff_displayKey.2 (hle e List.mem_cons_self)

theorem pairwise_sorted (s : Sink) : s.sorted.Pairwise (displayKey · ≤ displayKey ·) := by
  rw [sorted_eq_mergeSort]
  exact (List.pairwise_mergeSort precedes_trans precedes_total _).imp precedes_iff_displayKey.1

/-- Diagnostics that have one key are shown as they were reported. -/
theorem filter_sorted (s : Sink) (k : Bool ×ₗ Nat) :
    s.sorted.filter (displayKey · = k) = s.toList.filter (displayKey · = k) := by
  rw [sorted_eq_mergeSort]
  refine filter_mergeSort (List.pairwise_of_forall_mem_list fun d hd e he => ?_)
  have hd : displayKey d = k := of_decide_eq_true ((List.mem_filter.1 hd).2)
  have he : displayKey e = k := of_decide_eq_true ((List.mem_filter.1 he).2)
  exact precedes_iff_displayKey.2 (hd.trans he.symm).le

/-- **The law of a sink.** Behind any reports a sink holds the first of them, up to its limit, and
behind these, if there was another report, one marker of no length in the phase and at the place of
the first that was dropped. Just the reports up to the limit are answered with "kept". The flag that
a report was dropped and the counter of errors, brought up to date with each report, are what the
diagnostics that are held tell. These are shown in the order of display as the stable sort puts
them, and as they are if they are in that order. -/
theorem keeps_first_reports (limit : Option Nat) (ds : List Diagnostic) :
    let s := (Sink.mk limit #[]).reportAll ds
    let room := limit.getD ds.length
    (s.toList = ds.take room ++ (ds[room]?.map fun d =>
      ⟨.tooManyErrors, .error, d.phase, d.position, 0, none, .empty⟩).toList) ∧
    ((Ledger.ofLimit limit).reportAll ds =
      ((List.range ds.length).map fun i => decide (i < room), s.ledger)) ∧
    (∀ i < ds.length, ((Sink.mk limit #[]).reportAll (ds.take i)).hasRoom = decide (i < room)) ∧
    (s.isSaturated = true ↔ room < ds.length) ∧
    s.errorCount = (s.toList.filter (·.severity = .error)).length ∧
    s.sorted.Perm s.toList ∧ s.sorted.Pairwise (displayKey · ≤ displayKey ·) ∧
    (∀ k, s.sorted.filter (displayKey · = k) = s.toList.filter (displayKey · = k)) ∧
    (∀ es : List Diagnostic, es.Pairwise (displayKey · ≤ displayKey ·) →
      (∀ k, es.filter (displayKey · = k) = s.toList.filter (displayKey · = k)) → es = s.sorted) ∧
    s.sorted = s.toList.mergeSort (displayKey · ≤ displayKey ·) ∧
    (isSorted s.toList = true ↔ s.toList.Pairwise (displayKey · ≤ displayKey ·)) ∧
    (isSorted s.toList = true → s.sorted = s.toList) := by
  intro s room
  have hledger : (Ledger.ofLimit limit).reportAll ds = (answers ⟨limit, #[]⟩ ds, s.ledger) := by
    have hofLimit : Ledger.ofLimit limit = (Sink.mk limit #[]).ledger := by
      cases limit <;> simp [Ledger.ofLimit, ledger, errorCount, isSaturated]
    rw [hofLimit, reportAll_ledger]
  have hsorted : s.sorted = s.toList.mergeSort (displayKey · ≤ displayKey ·) := by
    rw [sorted_eq_mergeSort]
    congr
    funext d e
    exact Bool.eq_iff_iff.2 (precedes_iff_displayKey.trans (decide_eq_true_iff).symm)
  refine ⟨toList_reportAll_fresh limit ds, ?_, ?_, ?_, ?_, ?_, pairwise_sorted s, filter_sorted s,
    ?_, hsorted, isSorted_iff, fun h => if_pos h⟩
  · rw [hledger, answers_fresh]
  · intro i hi
    have hanswer := congrArg (·[i]?) (answers_fresh limit ds)
    simpa [answers, hi] using hanswer
  · rw [isSaturated_reportAll_fresh, decide_eq_true_iff]
  · rw [← List.countP_eq_length_filter, errorCount, ← Array.countP_toList]
    exact List.countP_congr fun d _ => by simp [Diagnostic.isError]
  · rw [hsorted]
    exact List.mergeSort_perm _ _
  · intro es hes hfilter
    exact eq_of_pairwise_of_filter_eq hes (pairwise_sorted s) fun k =>
      (hfilter k).trans (filter_sorted s k).symm

end Sink

end DeclFront
