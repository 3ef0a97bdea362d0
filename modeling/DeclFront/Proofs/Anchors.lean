import DeclFront.Proofs.KindsOnly
import DeclFront.Proofs.Limits

/-!
# Diagnostics are anchored in the text

A diagnostic is about some characters of the text: those of a segment, those of a token, those from
a bracket to the one that closes it, or none at all where a limit cut the reports. Its place is the
one that counting from the beginning of the text gives, and its length is their bytes (`Marks`).
Tokens and complaints of the lexer mark characters from the start, every move keeps that
(`Cursor.Anchored.step`), and only an empty pair of brackets joins the marks of two tokens.

**Theorem (`Module.anchors_diagnostics`).** Whatever the options are, the diagnostics mark
characters of the text. They are shown in the order of their offsets with a marker only at the end,
and that does not change the order in which the parser raised its own.
-/

namespace DeclFront

/-! ## Marks -/

/-- The place `p` and the length `n` are those of some characters of the text. -/
def Marks (cs : List Char) (p : Position) (n : Nat) : Prop :=
  ∃ before text, before ++ text <+: cs ∧ p = .recount before ∧ n = byteLength text

section

variable {cs : List Char} {p q : Position} {m n : Nat}

theorem Marks.empty (h : Marks cs p n) : Marks cs p 0 := by
  obtain ⟨before, text, hprefix, hp, -⟩ := h
  refine ⟨before, [], ?_, hp, rfl⟩
  rw [List.append_nil]
  exact (List.prefix_append before text).trans hprefix

theorem Marks.le (h : Marks cs p n) : p.offset + n ≤ byteLength cs := by
  obtain ⟨before, text, ⟨rest, hcs⟩, rfl, rfl⟩ := h
  rw [← hcs, byteLength_append, byteLength_append]
  exact Nat.le_add_right _ _

theorem Marks.isValid {s : String} (h : Marks s.toList p n) :
    String.Pos.Raw.IsValid s ⟨p.offset⟩ ∧ String.Pos.Raw.IsValid s ⟨p.offset + n⟩ := by
  obtain ⟨before, text, hprefix, rfl, rfl⟩ := h
  have hstop := isValid_of_isPrefix hprefix
  rw [byteLength_append] at hstop
  exact ⟨isValid_of_isPrefix ((List.prefix_append before text).trans hprefix), hstop⟩

theorem Marks.exists_recount (h : Marks cs p n) :
    ∃ before, before <+: cs ∧ p = .recount before := by
  obtain ⟨before, text, hprefix, hp, -⟩ := h
  exact ⟨before, (List.prefix_append before text).trans hprefix, hp⟩

/-- Of two beginnings of a text, the one with fewer bytes is the beginning of the other. -/
theorem isPrefix_of_byteLength_le {as bs : List Char} (ha : as <+: cs) (hb : bs <+: cs)
    (hle : byteLength as ≤ byteLength bs) : as <+: bs := by
  rcases List.prefix_or_prefix_of_prefix ha hb with h | ⟨rest, rfl⟩
  · exact h
  · cases rest with
    | nil => simp
    | cons c rest =>
      rw [byteLength_append, byteLength_cons] at hle
      have hpos := c.utf8Size_pos
      omega

/-- From the beginning of one mark to the end of a later one. -/
theorem Marks.join (hp : Marks cs p m) (hq : Marks cs q n) (hle : p.offset ≤ q.offset) :
    Marks cs p (q.offset + n - p.offset) := by
  obtain ⟨before, text, hprefix, rfl, rfl⟩ := hp
  obtain ⟨before', text', hprefix', rfl, rfl⟩ := hq
  have hstart : byteLength before ≤ byteLength (before' ++ text') := by
    rw [byteLength_append]
    exact Nat.le_trans hle (Nat.le_add_right _ _)
  obtain ⟨text, htext⟩ :=
    isPrefix_of_byteLength_le ((List.prefix_append _ _).trans hprefix) hprefix' hstart
  refine ⟨before, text, htext ▸ hprefix', rfl, ?_⟩
  show byteLength before' + byteLength text' - byteLength before = byteLength text
  rw [← byteLength_append, ← htext, byteLength_append, Nat.add_sub_cancel_left]

theorem Segment.marks_of_mem {s : Segment} (h : s ∈ ofText .origin cs) :
    Marks cs s.position s.length := by
  obtain ⟨before, hprefix, hposition, -⟩ := exists_prefix_of_mem h
  exact ⟨before, s.text, hprefix, hposition, rfl⟩

end

/-! ## Parsing -/

namespace Cursor

variable {cs : List Char} {c d : Cursor}

/-- The tokens to come mark characters of the text, and so does everything found wrong with it. -/
structure Anchored (cs : List Char) (c : Cursor) : Prop extends c.Timely where
  tokens : ∀ t ∈ c.tokens, Marks cs t.position t.length
  findings : ∀ x ∈ c.findings, Marks cs x.position x.length

namespace Anchored

theorem advance (h : c.Anchored cs) : c.advance.Anchored cs := by
  refine ⟨h.toTimely.advance, ?_, ?_⟩
  · intro t ht
    exact h.tokens t ((tokens_advance_suffix c).subset ht)
  · rw [findings_advance]
    exact h.findings

/-- The brackets of an empty list mark the characters from the one to the other. -/
theorem emptyComplaint (h : c.Anchored cs) (hclose : c.advance.current.kind = .rightBracket)
    (code : DiagnosticCode) :
    Marks cs (emptyComplaint code c.current c.advance.current).position
      (Cursor.emptyComplaint code c.current c.advance.current).length := by
  have hend : c.current.kind ≠ .endOfInput := by
    intro hk
    rw [h.closed.advance_of_end hk, hk] at hclose
    exact absurd hclose (by decide)
  have hordered := h.ordered
  rw [h.closed.tokens_advance hend] at hordered
  have hle : c.current.stop ≤ c.advance.current.start :=
    (List.pairwise_cons.1 hordered).1 _ List.mem_cons_self
  exact (h.tokens _ List.mem_cons_self).join (h.advance.tokens _ List.mem_cons_self)
    (Nat.le_trans (Nat.le_add_right _ _) hle)

/-- **One move.** -/
theorem step (hs : Step c d) (h : c.Anchored cs) : d.Anchored cs := by
  have htimely := hs.timely h.toTimely
  cases hs with
  | peek =>
    refine ⟨htimely, ?_, ?_⟩
    · rw [tokens_peek]
      exact h.tokens
    · rw [findings_peek]
      exact h.findings
  | advance => exact h.advance
  | complain =>
    refine ⟨htimely, ?_, ?_⟩
    · rw [tokens_report]
      exact h.tokens
    · exact forall_findings_report (h.tokens _ List.mem_cons_self) h.findings
  | skipEmpty _ hclose =>
    have hbehind := h.advance.advance
    refine ⟨htimely, ?_, ?_⟩
    · rw [Cursor.skipEmpty, tokens_report]
      exact hbehind.tokens
    · exact forall_findings_report (h.emptyComplaint hclose _) hbehind.findings

end Anchored

theorem anchored_ofChars (cs : List Char) : (ofChars cs).Anchored cs := by
  refine ⟨timely_ofChars cs, ?_, ?_⟩
  · intro t ht
    rw [tokens_ofChars] at ht
    rcases List.mem_append.1 ht with ht | ht
    · obtain ⟨s, hs, hst⟩ := List.mem_filterMap.1 (List.mem_filter.1 ht).1
      obtain ⟨k, -, rfl⟩ := Option.map_eq_some_iff.1 hst
      exact Segment.marks_of_mem hs
    · rw [List.mem_singleton.1 ht]
      exact ⟨cs, [], by simp, Position.after_origin cs, rfl⟩
  · intro x hx
    rw [findings_ofChars] at hx
    obtain ⟨s, hs, hsx⟩ := List.mem_filterMap.1 hx
    obtain ⟨code, -, rfl⟩ := Segment.diagnostic?_eq_some hsx
    exact Segment.marks_of_mem hs

end Cursor

/-! ## The diagnostics of a text -/

namespace Module

variable {cs : List Char} {x : Diagnostic}

theorem marks_of_mem_reports (h : x ∈ reports cs) : Marks cs x.position x.length := by
  have hlast : (lastCursor cs).Anchored cs :=
    (reaches_lastCursor cs).keeps Cursor.Anchored.step (Cursor.anchored_ofChars cs)
  exact hlast.findings x (List.mem_append_left _ h)

theorem marks_of_mem_diagnostics {limit : Nat} (policy : TriviaPolicy)
    (h : x ∈ (ofChars cs limit policy).diagnostics) : Marks cs x.position x.length := by
  have h : x ∈ ((Sink.ofUserLimit limit).reportAll (reports cs)).sorted := h
  rw [Sink.sorted_eq_mergeSort, List.mem_mergeSort] at h
  refine Sink.forall_reportAll (P := fun x => Marks cs x.position x.length) ?_ ?_ ?_ x h
  · exact fun d hd => hd.empty
  · by_cases hlimit : limit = 0 <;>
      simp [Sink.ofUserLimit, hlimit, Sink.unlimited, Sink.withLimit, Sink.toList]
  · exact fun d hd => marks_of_mem_reports hd

/-- What is shown is in the order of the offsets, but for a marker at the end. -/
theorem exists_diagnostics_append (cs : List Char) (limit : Nat) (policy : TriviaPolicy) :
    ∃ ds ms, (ofChars cs limit policy).diagnostics = ds ++ ms ∧
      (∀ x ∈ ds, x.code ≠ .tooManyErrors) ∧ (∀ x ∈ ms, x.code = .tooManyErrors) ∧
      ms.length ≤ 1 ∧ ds.Pairwise fun x y => x.offset ≤ y.offset := by
  have hsorted := Sink.pairwise_mergeSort_key Diagnostic.offset
  have hcode {ds : List Diagnostic} (hds : ds ⊆ reports cs) :
      ∀ x ∈ ds.mergeSort fun x y => x.offset ≤ y.offset, x.code ≠ .tooManyErrors := by
    intro x hx hcode
    have hmarker := isMarker_of_mem_reports (hds (List.mem_mergeSort.1 hx))
    rw [Sink.isMarker, hcode] at hmarker
    exact Bool.noConfusion hmarker
  by_cases hle : limit = 0 ∨ (reports cs).length ≤ limit
  · refine ⟨_, [], (diagnostics_of_le policy hle).trans (List.append_nil _).symm,
      hcode (List.Subset.refl _), ?_, Nat.zero_le _, hsorted _⟩
    simp
  · obtain ⟨hlimit, hlt⟩ := not_or.1 hle
    have hnext := List.getElem?_eq_getElem (Nat.lt_of_not_le hlt)
    refine ⟨_, _, diagnostics_of_getElem? policy hlimit hnext, hcode (List.take_subset _ _), ?_,
      Nat.le_refl _, hsorted _⟩
    intro x hx
    rw [List.mem_singleton.1 hx]
    rfl

/-- The complaints of the parser are shown as they were kept, under every limit. -/
theorem filter_isParsing_sorted (cs : List Char) (limit : Nat) :
    ((Sink.ofUserLimit limit).reportAll (reports cs)).sorted.filter Diagnostic.isParsing =
      ((Sink.ofUserLimit limit).reportAll (reports cs)).toList.filter Diagnostic.isParsing := by
  have hreports : ((reports cs).filter Diagnostic.isParsing).Pairwise (Sink.precedes · ·) := by
    have hfilter : (reports cs).filter Diagnostic.isParsing = (lastCursor cs).parsed.reverse :=
      List.filter_reverse
    rw [hfilter]
    exact pairwise_parsed cs
  rw [Sink.sorted_eq_mergeSort, Sink.filter_mergeSort]
  by_cases hlimit : limit = 0
  · rw [hlimit, Sink.toList_reportAll]
    exact hreports
  · rw [Sink.ofUserLimit, if_neg hlimit, Sink.toList_reportAll_withLimit, List.filter_append]
    refine List.pairwise_append.2 ⟨?_, ?_, ?_⟩
    · exact hreports.sublist ((List.take_sublist limit _).filter _)
    · cases (reports cs)[limit]? with
      | none => exact .nil
      | some y => exact (List.pairwise_singleton _ _).sublist List.filter_sublist
    · intro x hx y hy
      obtain ⟨z, -, rfl⟩ := Option.map_eq_some_iff.1 (Option.mem_toList.1 (List.mem_filter.1 hy).1)
      have hx := isMarker_of_mem_reports (List.mem_of_mem_take (List.mem_filter.1 hx).1)
      exact Sink.precedes_iff.2 (.inr ⟨hx, rfl⟩)

/-- **Diagnostics are anchored in the text.** Under all options, the bytes of a diagnostic lie in
the text and cut no character, and its line and column are those that counting from the beginning of
the text gives. The diagnostics stand in the order of their offsets, but for a marker, of which
there is at most one, at the end. Those of the parser stand in the order in which they reached the
sink, which is fed with every complaint when it is raised. -/
theorem anchors_diagnostics (s : Source) (limit : Nat) (policy : TriviaPolicy) :
    (∀ x ∈ (ofSource s limit policy).diagnostics,
      x.offset + x.length ≤ s.length ∧
      String.Pos.Raw.IsValid s.text ⟨x.offset⟩ ∧
      String.Pos.Raw.IsValid s.text ⟨x.offset + x.length⟩ ∧
      ∃ before, before <+: s.chars ∧ x.position = .recount before) ∧
    (∃ ds ms, (ofSource s limit policy).diagnostics = ds ++ ms ∧
      (∀ x ∈ ds, x.code ≠ .tooManyErrors) ∧ (∀ x ∈ ms, x.code = .tooManyErrors) ∧
      ms.length ≤ 1 ∧ ds.Pairwise fun x y => x.offset ≤ y.offset) ∧
    ∃ kept : Sink, Cursor.Feeds limit (Cursor.ofChars s.chars) (lastCursor s.chars) kept ∧
      (ofSource s limit policy).diagnostics = kept.sorted ∧
      (ofSource s limit policy).diagnostics.filter (·.phase == .parsing) =
        kept.toList.filter (·.phase == .parsing) := by
  refine ⟨?_, exists_diagnostics_append s.chars limit policy, _,
    (reaches_lastCursor s.chars).feeds limit, rfl, filter_isParsing_sorted s.chars limit⟩
  intro x hx
  have hmarks := marks_of_mem_diagnostics policy hx
  obtain ⟨hstart, hstop⟩ := hmarks.isValid
  rw [Source.length_eq]
  exact ⟨hmarks.le, hstart, hstop, hmarks.exists_recount⟩

end Module

end DeclFront
