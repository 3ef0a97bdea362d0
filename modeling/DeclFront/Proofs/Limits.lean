import DeclFront.Proofs.Whereabouts

/-!
# A limit cuts the reports and touches nothing else

A sink may be fed while a text is parsed, each move with what it raises (`Cursor.Feeds`). What was
raised is never taken back, so at every cursor the sink has been given a first part of all reports,
in their order, however the lexer and the parser took turns (`Cursor.Feeds.eq_reportAll`). No parser
looks at the sink, and what a full sink turns away still mutes the complaints that follow at the
same offset; hence the reports are the same under every limit.

**Theorem (`Module.cuts_reports`).** The limit decides how many of the reports are kept, and whether
a marker stands behind them; the tree and the trivia do not depend on it.
-/

namespace DeclFront

namespace Cursor

variable {c d : Cursor} {limit : Nat}

/-! ## What was raised stays raised -/

theorem raised_suffix_peek (c : Cursor) : c.raised <:+ c.peek.2.raised := by
  cases hr : c.ahead with
  | nil => simp [peek_of_ahead_nil hr]
  | cons r rs =>
    rw [peek_of_ahead hr]
    exact List.suffix_append _ _

theorem raised_suffix_advance (c : Cursor) : c.raised <:+ c.advance.raised := by
  cases hr : c.ahead with
  | nil => simp [advance_of_ahead_nil hr]
  | cons r rs =>
    rw [advance_of_ahead hr]
    exact List.suffix_append _ _

theorem raised_suffix_report (c : Cursor) (x : Diagnostic) : c.raised <:+ (c.report x).raised := by
  rcases raised_report c x with hr | ⟨-, hr⟩ <;> simp [hr]

theorem Step.raised_suffix (hs : Step c d) : c.raised <:+ d.raised := by
  cases hs with
  | peek => exact raised_suffix_peek c
  | advance => exact raised_suffix_advance c
  | complain => exact raised_suffix_report c _
  | skipEmpty =>
    exact ((raised_suffix_advance c).trans (raised_suffix_advance _)).trans
      (raised_suffix_report _ _)

/-! ## A sink that is fed on the way -/

/-- The sink under a limit that is given every complaint when it is raised: first those on the way
to the first token, then those of each move. -/
inductive Feeds (limit : Nat) (start : Cursor) : Cursor → Sink → Prop
  | start : Feeds limit start start ((Sink.ofUserLimit limit).reportAll start.raised.reverse)
  | move {c d : Cursor} {k : Sink} {new : List Diagnostic} (h : Feeds limit start c k)
    (hs : Step c d) (hnew : d.raised.reverse = c.raised.reverse ++ new) :
    Feeds limit start d (k.reportAll new)

/-- Whatever the moves were, the sink has been given what was raised, in order. -/
theorem Feeds.eq_reportAll {start : Cursor} {k : Sink} (h : Feeds limit start c k) :
    k = (Sink.ofUserLimit limit).reportAll c.raised.reverse := by
  induction h with
  | start => rfl
  | move _ _ hnew ih =>
    rw [hnew, ih, Sink.reportAll, Sink.reportAll, Sink.reportAll, List.foldl_append]

/-- Some moves feed a sink. -/
theorem Reaches.feeds {start : Cursor} (h : start.Reaches c) (limit : Nat) :
    Feeds limit start c ((Sink.ofUserLimit limit).reportAll c.raised.reverse) := by
  induction h with
  | refl => exact .start
  | tail _ hs ih =>
    obtain ⟨new, hnew⟩ := List.reverse_prefix.2 hs.raised_suffix
    have hfed := ih.move hs hnew.symm
    rwa [hfed.eq_reportAll] at hfed

end Cursor

namespace Module

variable {cs : List Char}

/-- The complaints about a text, in the order of their reports. -/
def reports (cs : List Char) : List Diagnostic := (lastCursor cs).raised.reverse

theorem isMarker_of_mem_reports {x : Diagnostic} (h : x ∈ reports cs) : Sink.isMarker x = false :=
  (offset_of_mem_raised (List.mem_reverse.1 h)).1

/-- Without a marker among them, diagnostics are shown in the order of their offsets alone. -/
theorem mergeSort_precedes {ds : List Diagnostic} (h : ∀ d ∈ ds, Sink.isMarker d = false) :
    ds.mergeSort Sink.precedes = ds.mergeSort fun d e => d.offset ≤ e.offset := by
  have hmap := List.map_mergeSort (f := id) (r := Sink.precedes)
    (s := fun d e : Diagnostic => decide (d.offset ≤ e.offset)) (l := ds) fun d hd e he => by
      simp [Sink.precedes, h d hd, h e he]
  simpa using hmap

/-- Under a limit that is not passed, all reports are shown. -/
theorem diagnostics_of_le {limit : Nat} (policy : TriviaPolicy)
    (h : limit = 0 ∨ (reports cs).length ≤ limit) :
    (ofChars cs limit policy).diagnostics =
      (reports cs).mergeSort fun d e => d.offset ≤ e.offset := by
  have hkept : ((Sink.ofUserLimit limit).reportAll (reports cs)).toList = reports cs := by
    by_cases hzero : limit = 0
    · rw [hzero, Sink.toList_reportAll]
    · have hle := h.resolve_left hzero
      rw [Sink.ofUserLimit, if_neg hzero, Sink.toList_reportAll_withLimit,
        List.take_of_length_le hle, List.getElem?_eq_none hle]
      exact List.append_nil _
  show ((Sink.ofUserLimit limit).reportAll (reports cs)).sorted = _
  rw [Sink.sorted_eq_mergeSort, hkept, mergeSort_precedes fun _ => isMarker_of_mem_reports]

/-- Under a limit that is passed, the first reports are shown, and the marker behind them. -/
theorem diagnostics_of_getElem? {limit : Nat} (policy : TriviaPolicy) (hlimit : limit ≠ 0)
    {x : Diagnostic} (h : (reports cs)[limit]? = some x) :
    (ofChars cs limit policy).diagnostics =
      ((reports cs).take limit).mergeSort (fun d e => d.offset ≤ e.offset) ++ [Sink.marker x] := by
  have hkept : ((Sink.ofUserLimit limit).reportAll (reports cs)).toList =
      (reports cs).take limit ++ [Sink.marker x] := by
    rw [Sink.ofUserLimit, if_neg hlimit, Sink.toList_reportAll_withLimit, h]
    rfl
  have hfirst : ∀ d ∈ (reports cs).take limit, Sink.isMarker d = false := fun d hd =>
    isMarker_of_mem_reports (List.mem_of_mem_take hd)
  have hlast : ∀ d ∈ (reports cs).take limit, ∀ e ∈ [Sink.marker x], Sink.precedes d e = true := by
    intro d hd e he
    rw [List.mem_singleton.1 he]
    exact Sink.precedes_iff.2 (.inr ⟨hfirst d hd, rfl⟩)
  show ((Sink.ofUserLimit limit).reportAll (reports cs)).sorted = _
  rw [Sink.sorted_eq_mergeSort, hkept, Sink.mergeSort_append hlast, mergeSort_precedes hfirst,
    List.mergeSort_singleton]

/-- **A limit cuts the reports and touches nothing else.** The header and the declarations of a text
depend on no option, the trivia only on what is done with it, the diagnostics only on the limit.
What a sink without a limit is given while the text is parsed are the reports, without a marker
among them. Under every limit the diagnostics are what a sink with this limit would have kept that
is fed in the same way: all reports, sorted by their offsets without changing the order of those at
one offset, or, where they are more than the limit, the first of them, sorted, and one marker, which
has the phase and the place of the next report. -/
theorem cuts_reports (s : Source) :
    (∀ limit limit' policy policy',
      (ofSource s limit policy).header = (ofSource s limit' policy').header ∧
      (ofSource s limit policy).members = (ofSource s limit' policy').members) ∧
    (∀ limit limit' policy, (ofSource s limit policy).trivia = (ofSource s limit' policy).trivia) ∧
    (∀ limit policy policy',
      (ofSource s limit policy).diagnostics = (ofSource s limit policy').diagnostics) ∧
    ∃ all : Sink, Cursor.Feeds 0 (Cursor.ofChars s.chars) (lastCursor s.chars) all ∧
      (∀ x ∈ all.toList, x.code ≠ .tooManyErrors) ∧
      ∀ limit policy,
        (∃ kept : Sink, Cursor.Feeds limit (Cursor.ofChars s.chars) (lastCursor s.chars) kept ∧
          (ofSource s limit policy).diagnostics = kept.sorted) ∧
        (limit = 0 ∨ all.toList.length ≤ limit → (ofSource s limit policy).diagnostics =
          all.toList.mergeSort fun d e => d.offset ≤ e.offset) ∧
        ∀ x, limit ≠ 0 → all.toList[limit]? = some x → (ofSource s limit policy).diagnostics =
          (all.toList.take limit).mergeSort (fun d e => d.offset ≤ e.offset) ++
            [⟨.tooManyErrors, .error, x.phase, x.position, 0, none, .empty⟩] := by
  have hall : ((Sink.ofUserLimit 0).reportAll (reports s.chars)).toList = reports s.chars :=
    Sink.toList_reportAll _
  have hreaches := reaches_lastCursor s.chars
  refine ⟨fun _ _ _ _ => ⟨rfl, rfl⟩, fun _ _ _ => rfl, fun _ _ _ => rfl, _, hreaches.feeds 0, ?_⟩
  show (∀ x ∈ ((Sink.ofUserLimit 0).reportAll (reports s.chars)).toList, _) ∧ _
  rw [← reports, hall]
  constructor
  · intro x hx hcode
    have hmarker := isMarker_of_mem_reports hx
    rw [Sink.isMarker, hcode] at hmarker
    exact Bool.noConfusion hmarker
  · intro limit policy
    refine ⟨⟨_, hreaches.feeds limit, rfl⟩, diagnostics_of_le policy, ?_⟩
    intro x hlimit hx
    exact diagnostics_of_getElem? policy hlimit hx

end Module

end DeclFront
