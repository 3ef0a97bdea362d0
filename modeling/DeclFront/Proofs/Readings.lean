import DeclFront.Lexical.Lex
import DeclFront.Parser.Cursor
import DeclFront.Proofs.Segments
import DeclFront.Proofs.Steps

/-!
# The readings of a text

What the raw reader and the stage without trivia give for a text, as one function of its segments
(`gather`): a token with the complaints and the trivia met on the way to it. The two differ in the
kinds of tokens that are passed over.

Every complaint about a segment and every token of the text occurs in the readings once, and in
order. Their tokens end with the end of input, which stands nowhere else.
-/

namespace DeclFront

/-- A reading with complaints and trivia met before. -/
def Reading.behind (raised : List Diagnostic) (passed : List Token) (r : Reading) : Reading :=
  ⟨r.answer, raised ++ r.complaints, passed ++ r.passed⟩

/-- The readings of the segments of a text that ends at `stop`. Tokens whose kinds are in `skips`
are passed over. -/
def gather (skips : TokenKind → Bool) (stop : Position) : List Segment → List Reading
  | [] => [⟨.token ⟨.endOfInput, stop, 0⟩, [], []⟩]
  | s :: ss =>
    match s.token? with
    | none => (gather skips stop ss).modifyHead (.behind s.diagnostic?.toList [])
    | some t =>
      if skips t.kind then (gather skips stop ss).modifyHead (.behind s.diagnostic?.toList [t])
      else ⟨.token t, s.diagnostic?.toList, []⟩ :: gather skips stop ss

section

variable {skips : TokenKind → Bool} {stop : Position} {s : Segment} {ss : List Segment} {t : Token}

theorem gather_blank (h : s.token? = none) : gather skips stop (s :: ss) =
    (gather skips stop ss).modifyHead (.behind s.diagnostic?.toList []) := by
  simp [gather, h]

theorem gather_skipped (h : s.token? = some t) (hk : skips t.kind = true) :
    gather skips stop (s :: ss) =
      (gather skips stop ss).modifyHead (.behind s.diagnostic?.toList [t]) := by
  simp [gather, h, hk]

theorem gather_kept (h : s.token? = some t) (hk : skips t.kind = false) :
    gather skips stop (s :: ss) =
      ⟨.token t, s.diagnostic?.toList, []⟩ :: gather skips stop ss := by
  simp [gather, h, hk]

end

/-! ## What the sources give -/

theorem reverse_toList {α : Type} (a : Option α) : a.toList.reverse = a.toList := by
  cases a <;> rfl

namespace TokenSource

variable {σ : Type} [TokenSource σ] {s s' : σ} {t : Token}

theorem readOn_of_last {made : List Reading}
    (h : ∀ t, (read s).1.answer = .token t → t.kind = .endOfInput) :
    readOn made s = made.reverse ++ [(read s).1] := by
  rw [readOn]
  split
  · simp
  · rename_i t ht
    rw [if_pos (h t ht)]
    simp

theorem readOn_of_token {made : List Reading} (h : (read s).1.answer = .token t)
    (hk : t.kind ≠ .endOfInput) : readOn made s = readOn ((read s).1 :: made) (read s).2 := by
  rw [readOn]
  split
  · simp_all
  · rename_i u hu
    obtain rfl : u = t := by simpa [h] using hu.symm
    rw [if_neg hk]

theorem readOn_eq (made : List Reading) (s : σ) : readOn made s = made.reverse ++ readings s := by
  rw [readings]
  induction hn : remaining s using Nat.strongRecOn generalizing made s with
  | ind n ih =>
    by_cases h : ∃ t, (read s).1.answer = .token t ∧ t.kind ≠ .endOfInput
    · obtain ⟨t, ht, hk⟩ := h
      have hlt : remaining (read s).2 < n := hn ▸ remaining_lt s t ht
      rw [readOn_of_token ht hk, readOn_of_token ht hk, ih _ hlt _ _ rfl, ih _ hlt [_] _ rfl]
      simp
    · have hlast : ∀ t, (read s).1.answer = .token t → t.kind = .endOfInput :=
        fun t ht => Decidable.byContradiction fun hk => h ⟨t, ht, hk⟩
      rw [readOn_of_last hlast, readOn_of_last hlast]
      rfl

theorem readings_of_last (h : ∀ t, (read s).1.answer = .token t → t.kind = .endOfInput) :
    readings s = [(read s).1] :=
  readOn_of_last h

theorem readings_of_token (h : (read s).1.answer = .token t) (hk : t.kind ≠ .endOfInput) :
    readings s = (read s).1 :: readings (read s).2 := by
  rw [readings, readOn_of_token h hk, readOn_eq]
  rfl

/-- A source whose first reading has more behind it. -/
theorem readings_behind {raised : List Diagnostic} {passed : List Token}
    (h : read s = ((read s').1.behind raised passed, (read s').2)) :
    readings s = (readings s').modifyHead (.behind raised passed) := by
  have hanswer : (read s).1.answer = (read s').1.answer := by rw [h]; rfl
  by_cases hlast : ∃ t, (read s').1.answer = .token t ∧ t.kind ≠ .endOfInput
  · obtain ⟨t, ht, hk⟩ := hlast
    rw [readings_of_token ht hk, readings_of_token (hanswer.trans ht) hk, h]
    rfl
  · have hlast : ∀ t, (read s').1.answer = .token t → t.kind = .endOfInput :=
      fun t ht => Decidable.byContradiction fun hk => hlast ⟨t, ht, hk⟩
    rw [readings_of_last hlast, readings_of_last (hanswer ▸ hlast), h]
    rfl

/-- A source that follows the segments of a text: it stands before `src ss` when the segments `ss`
are still to come. -/
structure Follows (skips : TokenKind → Bool) (stop : Position) (src : List Segment → σ) : Prop where
  nil : (read (src [])).1 = ⟨.token ⟨.endOfInput, stop, 0⟩, [], []⟩
  blank : ∀ {s ss}, s.token? = none → read (src (s :: ss)) =
    ((read (src ss)).1.behind s.diagnostic?.toList [], (read (src ss)).2)
  skipped : ∀ {s ss t}, s.token? = some t → skips t.kind = true → read (src (s :: ss)) =
    ((read (src ss)).1.behind s.diagnostic?.toList [t], (read (src ss)).2)
  kept : ∀ {s ss t}, s.token? = some t → skips t.kind = false → read (src (s :: ss)) =
    (⟨.token t, s.diagnostic?.toList, []⟩, src ss)

theorem Follows.readings_eq {skips : TokenKind → Bool} {stop : Position} {src : List Segment → σ}
    (h : Follows skips stop src) {ss : List Segment}
    (hend : ∀ s ∈ ss, s.kind ≠ some .endOfInput) : readings (src ss) = gather skips stop ss := by
  induction ss with
  | nil =>
    rw [readings_of_last, h.nil, gather]
    rintro t ht
    obtain rfl : (⟨.endOfInput, stop, 0⟩ : Token) = t := by simpa [h.nil] using ht
    rfl
  | cons s ss ih =>
    have ih := ih fun s hs => hend s (List.mem_cons_of_mem _ hs)
    cases ht : s.token? with
    | none => rw [gather_blank ht, readings_behind (h.blank ht), ih]
    | some t =>
      cases hk : skips t.kind with
      | true => rw [gather_skipped ht hk, readings_behind (h.skipped ht hk), ih]
      | false =>
        have hne : t.kind ≠ .endOfInput := by
          obtain ⟨k, hkind, rfl⟩ := Option.map_eq_some_iff.1 ht
          exact fun heq => hend s List.mem_cons_self (hkind.trans (congrArg some heq))
        rw [gather_kept ht hk, readings_of_token (by rw [h.kept ht hk]) hne, h.kept ht hk, ih]

end TokenSource

namespace Reader

theorem next_eq (stop : Position) (finished : Bool) (raised : List Diagnostic)
    (ss : List Segment) : next stop finished raised ss =
      ((next stop finished [] ss).1.behind raised.reverse [], (next stop finished [] ss).2) := by
  induction ss generalizing raised with
  | nil => simp [next, Reading.behind]
  | cons s ss ih =>
    rw [next, next]
    split
    · simp [Reading.behind]
    · rw [ih, ih (s.diagnostic?.toList ++ [])]
      simp [Reading.behind]

/-- The raw reader passes over no token. -/
theorem follows (stop : Position) :
    TokenSource.Follows (fun _ => false) stop fun ss => Reader.mk ss stop false where
  nil := rfl
  blank h := by
    show next _ _ _ _ = _
    rw [next, next_eq]
    simp [h, reverse_toList, TokenSource.read, read]
  skipped _ h := absurd h (by decide)
  kept h _ := by
    show next _ _ _ _ = _
    simp [next, h, reverse_toList]

end Reader

namespace Significant

variable {σ : Type} [TokenSource σ] {s : σ} {t : Token} {raised : List Diagnostic}
  {passed : List Token}

theorem pass_of_trivia (h : (TokenSource.read s).1.answer = .token t)
    (hk : t.kind.isTrivia = true) : pass raised passed s =
      pass (raised ++ (TokenSource.read s).1.complaints) (passed ++ [t])
        (TokenSource.read s).2 := by
  rw [pass]
  split
  · simp_all
  · rename_i u hu
    obtain rfl : u = t := by simpa [h] using hu.symm
    rw [if_pos hk]

theorem pass_of_kept (h : ∀ t, (TokenSource.read s).1.answer = .token t → t.kind.isTrivia = false) :
    pass raised passed s =
      (⟨(TokenSource.read s).1.answer, raised ++ (TokenSource.read s).1.complaints, passed⟩,
        (TokenSource.read s).2) := by
  rw [pass]
  split
  · simp [*]
  · rename_i t ht
    simp [ht, h t ht]

theorem pass_eq (raised : List Diagnostic) (passed : List Token) (s : σ) :
    pass raised passed s = ((pass [] [] s).1.behind raised passed, (pass [] [] s).2) := by
  induction hn : TokenSource.remaining s using Nat.strongRecOn generalizing raised passed s with
  | ind n ih =>
    by_cases h : ∃ t, (TokenSource.read s).1.answer = .token t ∧ t.kind.isTrivia = true
    · obtain ⟨t, ht, hk⟩ := h
      have hlt : TokenSource.remaining (TokenSource.read s).2 < n :=
        hn ▸ TokenSource.remaining_lt s t ht
      rw [pass_of_trivia ht hk, pass_of_trivia ht hk, ih _ hlt _ _ _ rfl,
        ih _ hlt ([] ++ _) _ _ rfl]
      simp [Reading.behind]
    · have hkept : ∀ t, (TokenSource.read s).1.answer = .token t → t.kind.isTrivia = false :=
        fun t ht => by simpa using fun hk => h ⟨t, ht, hk⟩
      rw [pass_of_kept hkept, pass_of_kept hkept]
      simp [Reading.behind]

/-- The stage over a source whose first reading has more behind it. -/
theorem pass_behind {s' : σ} (h : TokenSource.read s =
    ((TokenSource.read s').1.behind raised passed, (TokenSource.read s').2)) :
    pass [] [] s = ((pass [] [] s').1.behind raised [], (pass [] [] s').2) := by
  have hanswer : (TokenSource.read s).1.answer = (TokenSource.read s').1.answer := by rw [h]; rfl
  by_cases htrivia : ∃ t, (TokenSource.read s').1.answer = .token t ∧ t.kind.isTrivia = true
  · obtain ⟨t, ht, hk⟩ := htrivia
    rw [pass_of_trivia ht hk, pass_of_trivia (hanswer.trans ht) hk, h, pass_eq ([] ++ _),
      pass_eq ([] ++ (TokenSource.read s').1.complaints)]
    simp [Reading.behind]
  · have hkept : ∀ t, (TokenSource.read s').1.answer = .token t → t.kind.isTrivia = false :=
      fun t ht => by simpa using fun hk => htrivia ⟨t, ht, hk⟩
    rw [pass_of_kept hkept, pass_of_kept (hanswer ▸ hkept), h]
    simp [Reading.behind]

theorem read_ofSource (s : σ) :
    TokenSource.read (ofSource s) = ((pass [] [] s).1, ofSource (pass [] [] s).2) := (rfl)

/-- The stage over the raw reader passes over the trivia. -/
theorem follows (stop : Position) :
    TokenSource.Follows TokenKind.isTrivia stop fun ss => ofSource (Reader.mk ss stop false) where
  nil := by
    have h := (Reader.follows stop).nil
    rw [read_ofSource, pass_of_kept fun t ht => ?_]
    · simp [h]
    · obtain rfl : (⟨.endOfInput, stop, 0⟩ : Token) = t := by simpa [h] using ht
      rfl
  blank h := by
    rw [read_ofSource, read_ofSource, pass_behind ((Reader.follows stop).blank h)]
  skipped {s ss t} h hk := by
    have hread := @(Reader.follows stop).kept s ss t h rfl
    rw [read_ofSource, read_ofSource, pass_of_trivia (by rw [hread]) hk, hread, pass_eq]
    rfl
  kept {s ss t} h hk := by
    have hread := @(Reader.follows stop).kept s ss t h rfl
    rw [read_ofSource, pass_of_kept (by simp [hread, hk]), hread]
    simp

end Significant

/-! ## What the readings bring -/

/-- The readings of a text. -/
def Segment.readings (skips : TokenKind → Bool) (cs : List Char) : List Reading :=
  gather skips (Position.origin.after cs) (Segment.ofText .origin cs)

theorem readings_reader (cs : List Char) :
    TokenSource.readings (Reader.ofChars cs) = Segment.readings (fun _ => false) cs :=
  (Reader.follows _).readings_eq fun _ hs => (Segment.lawful_of_mem hs).ne_endOfInput

theorem readings_significant (cs : List Char) :
    TokenSource.readings (Significant.ofSource (Reader.ofChars cs)) =
      Segment.readings TokenKind.isTrivia cs :=
  (Significant.follows _).readings_eq fun _ hs => (Segment.lawful_of_mem hs).ne_endOfInput

section

variable (skips : TokenKind → Bool) (stop : Position) (ss : List Segment)

theorem gather_ne_nil : gather skips stop ss ≠ [] := by
  induction ss with
  | nil => simp [gather]
  | cons s ss ih =>
    rw [gather]
    split
    · simpa using ih
    · split
      · simpa using ih
      · simp

/-- What a reading has behind it does not concern its answer. -/
theorem map_modifyHead_behind {α : Type} (f : Reading → α) (raised : List Diagnostic)
    (passed : List Token) (h : ∀ r, f (r.behind raised passed) = f r) (rs : List Reading) :
    (rs.modifyHead (.behind raised passed)).map f = rs.map f := by
  cases rs <;> simp [h]

theorem flatMap_modifyHead {α : Type} (f : Reading → List α) (g : Reading → Reading) (as : List α)
    (h : ∀ r, f (g r) = as ++ f r) {rs : List Reading} (hrs : rs ≠ []) :
    (rs.modifyHead g).flatMap f = as ++ rs.flatMap f := by
  cases rs with
  | nil => exact absurd rfl hrs
  | cons r rs => simp [h]

/-- The tokens that are not passed over, and the end of input. -/
theorem map_answer_gather : (gather skips stop ss).map (·.answer) =
    ((ss.filterMap Segment.token?).filter (!skips ·.kind)).map .token ++
      [.token ⟨.endOfInput, stop, 0⟩] := by
  induction ss with
  | nil => rfl
  | cons s ss ih =>
    cases ht : s.token? with
    | none =>
      rw [gather_blank ht, map_modifyHead_behind _ _ _ fun _ => rfl, ih]
      simp [ht]
    | some t =>
      cases hk : skips t.kind with
      | true =>
        rw [gather_skipped ht hk, map_modifyHead_behind _ _ _ fun _ => rfl, ih]
        simp [ht, hk]
      | false =>
        rw [gather_kept ht hk, List.map_cons, ih]
        simp [ht, hk]

theorem map_value_gather : (gather skips stop ss).map (·.answer.value) =
    (ss.filterMap Segment.token?).filter (!skips ·.kind) ++ [⟨.endOfInput, stop, 0⟩] := by
  have h := congrArg (List.map Answer.value) (map_answer_gather skips stop ss)
  simpa [Function.comp_def, Answer.value] using h

/-- Every complaint about a segment, once and in order. -/
theorem flatMap_complaints_gather : (gather skips stop ss).flatMap (·.complaints) =
    ss.filterMap Segment.diagnostic? := by
  induction ss with
  | nil => rfl
  | cons s ss ih =>
    have hcons : (s :: ss).filterMap Segment.diagnostic? =
        s.diagnostic?.toList ++ ss.filterMap Segment.diagnostic? := by
      cases h : s.diagnostic? <;> simp [h]
    rw [hcons, ← ih]
    cases ht : s.token? with
    | none =>
      rw [gather_blank ht]
      exact flatMap_modifyHead _ _ _ (fun _ => rfl) (gather_ne_nil skips stop ss)
    | some t =>
      cases hk : skips t.kind with
      | true =>
        rw [gather_skipped ht hk]
        exact flatMap_modifyHead _ _ _ (fun _ => rfl) (gather_ne_nil skips stop ss)
      | false => rw [gather_kept ht hk, List.flatMap_cons]

/-- Every token passed over, once and in order. -/
theorem flatMap_passed_gather : (gather skips stop ss).flatMap (·.passed) =
    (ss.filterMap Segment.token?).filter (skips ·.kind) := by
  induction ss with
  | nil => rfl
  | cons s ss ih =>
    cases ht : s.token? with
    | none =>
      rw [gather_blank ht, flatMap_modifyHead _ (.behind s.diagnostic?.toList []) []
        (fun _ => rfl) (gather_ne_nil skips stop ss), ih]
      simp [ht]
    | some t =>
      cases hk : skips t.kind with
      | true =>
        rw [gather_skipped ht hk,
          flatMap_modifyHead _ (.behind s.diagnostic?.toList [t]) [t] (fun _ => rfl)
            (gather_ne_nil skips stop ss), ih]
        simp [ht, hk]
      | false =>
        rw [gather_kept ht hk, List.flatMap_cons, ih]
        simp [ht, hk]

end

/-! ## Readings of other texts -/

/-- The answer with another token. -/
def Answer.map (f : Token → Token) : Answer → Answer
  | .token t => .token (f t)
  | .exhausted t => .exhausted (f t)

@[simp] theorem Answer.value_map (f : Token → Token) (a : Answer) :
    (a.map f).value = f a.value := by
  cases a <;> rfl

/-- The reading with other tokens and complaints. -/
def Reading.map (f : Token → Token) (g : Diagnostic → Diagnostic) (r : Reading) : Reading :=
  ⟨r.answer.map f, r.complaints.map g, r.passed.map f⟩

section

variable {skips : TokenKind → Bool} {f : Token → Token} {g : Diagnostic → Diagnostic}
  {F : Segment → Segment} {stop stop' : Position} {ss : List Segment}

theorem map_modifyHead_map (raised : List Diagnostic) (passed : List Token) (rs : List Reading) :
    (rs.modifyHead (.behind raised passed)).map (Reading.map f g) =
      (rs.map (Reading.map f g)).modifyHead (.behind (raised.map g) (passed.map f)) := by
  cases rs <;> simp [Reading.map, Reading.behind]

/-- If segments give the tokens and complaints of others, up to replacing them, their readings are
those of the others, replaced. -/
theorem gather_map (hkind : ∀ t, (f t).kind = t.kind)
    (hstop : f ⟨.endOfInput, stop, 0⟩ = ⟨.endOfInput, stop', 0⟩)
    (htoken : ∀ s ∈ ss, (F s).token? = s.token?.map f)
    (hcomplaint : ∀ s ∈ ss, (F s).diagnostic? = s.diagnostic?.map g) :
    gather skips stop' (ss.map F) = (gather skips stop ss).map (Reading.map f g) := by
  induction ss with
  | nil =>
    rw [List.map_nil, gather, gather, ← hstop]
    rfl
  | cons s ss ih =>
    obtain ⟨ht', htokens⟩ := List.forall_mem_cons.1 htoken
    obtain ⟨hx', hcomplaints⟩ := List.forall_mem_cons.1 hcomplaint
    have ih := ih htokens hcomplaints
    have hlist : (F s).diagnostic?.toList = s.diagnostic?.toList.map g := by
      rw [hx']
      cases s.diagnostic? <;> rfl
    rw [List.map_cons]
    cases ht : s.token? with
    | none =>
      rw [gather_blank ht, gather_blank (by rw [ht', ht]; rfl), ih, map_modifyHead_map, hlist]
      rfl
    | some t =>
      have ht' : (F s).token? = some (f t) := by rw [ht', ht]; rfl
      have hkind := congrArg skips (hkind t)
      cases hk : skips t.kind with
      | true =>
        rw [gather_skipped ht hk, gather_skipped ht' (hkind.trans hk), ih, map_modifyHead_map,
          hlist]
        rfl
      | false =>
        rw [gather_kept ht hk, gather_kept ht' (hkind.trans hk), ih, hlist]
        rfl

end

/-! ## The tokens of a text -/

/-- Every token of a text, trivia included, without the end of input. -/
def Segment.tokens (cs : List Char) : List Token :=
  (Segment.ofText .origin cs).filterMap Segment.token?

/-- Every complaint about a segment of a text. -/
def Segment.complaints (cs : List Char) : List Diagnostic :=
  (Segment.ofText .origin cs).filterMap Segment.diagnostic?

/-- The end of input of a text. -/
def endOfInput (cs : List Char) : Token := ⟨.endOfInput, Position.origin.after cs, 0⟩

theorem filterMap_token?_readings (skips : TokenKind → Bool) (cs : List Char) :
    (Segment.readings skips cs).filterMap (·.answer.token?) =
      (Segment.tokens cs).filter (!skips ·.kind) ++ [endOfInput cs] := by
  have h := congrArg (List.filterMap Answer.token?)
    (map_answer_gather skips (Position.origin.after cs) (Segment.ofText .origin cs))
  simpa [Function.comp_def, Answer.token?, Segment.tokens, Segment.readings, endOfInput] using h

theorem map_value_readings (skips : TokenKind → Bool) (cs : List Char) :
    (Segment.readings skips cs).map (·.answer.value) =
      (Segment.tokens cs).filter (!skips ·.kind) ++ [endOfInput cs] :=
  map_value_gather _ _ _

theorem tokens_lexRaw (s : Source) (limit : Nat) :
    (lexRaw s limit).tokens = Segment.tokens s.chars ++ [endOfInput s.chars] := by
  simp [lexRaw, TokenSource.collect, Reader.ofSource, readings_reader, filterMap_token?_readings]

theorem tokens_lexSignificant (s : Source) (limit : Nat) : (lexSignificant s limit).tokens =
    (Segment.tokens s.chars).filter (!·.kind.isTrivia) ++ [endOfInput s.chars] := by
  simp [lexSignificant, TokenSource.collect, Reader.ofSource, readings_significant,
    filterMap_token?_readings]

theorem diagnostics_lexRaw (s : Source) (limit : Nat) : (lexRaw s limit).diagnostics =
    ((Sink.ofUserLimit limit).reportAll (Segment.complaints s.chars)).sorted := by
  simp [lexRaw, TokenSource.collect, Reader.ofSource, readings_reader, Segment.readings,
    flatMap_complaints_gather, Segment.complaints]

theorem diagnostics_lexSignificant (s : Source) (limit : Nat) :
    (lexSignificant s limit).diagnostics =
      ((Sink.ofUserLimit limit).reportAll (Segment.complaints s.chars)).sorted := by
  simp [lexSignificant, TokenSource.collect, Reader.ofSource, readings_significant,
    Segment.readings, flatMap_complaints_gather, Segment.complaints]

/-! ## Before the first token -/

namespace Cursor

theorem ofReadings_eq (cs : List Char) :
    ofChars cs = ofReadings (Segment.readings TokenKind.isTrivia cs) := by
  rw [ofChars, readings_significant]

/-- The complaints of the readings, those that were noticed and those to come. -/
theorem complaints_ofReadings (rs : List Reading) :
    (ofReadings rs).raised.reverse ++ (ofReadings rs).ahead.flatMap (·.complaints) =
      rs.flatMap (·.complaints) := by
  cases rs <;> simp [ofReadings]

theorem passed_ofReadings (rs : List Reading) :
    (ofReadings rs).passed.reverse ++ (ofReadings rs).ahead.flatMap (·.passed) =
      rs.flatMap (·.passed) := by
  cases rs <;> simp [ofReadings]

theorem tokens_ofReadings {rs : List Reading} (h : rs ≠ []) :
    (ofReadings rs).tokens = rs.map (·.answer.value) := by
  cases rs with
  | nil => exact absurd rfl h
  | cons r rs => rfl

theorem tokens_ofChars (cs : List Char) : (ofChars cs).tokens =
    (Segment.tokens cs).filter (!·.kind.isTrivia) ++ [endOfInput cs] := by
  have hne : Segment.readings TokenKind.isTrivia cs ≠ [] := gather_ne_nil _ _ _
  rw [ofReadings_eq, tokens_ofReadings hne, map_value_readings]

theorem terminated_append {ts : List Token} {t : Token} (hts : ∀ u ∈ ts, u.kind ≠ .endOfInput)
    (ht : t.kind = .endOfInput) : Terminated (ts ++ [t]) :=
  (terminated_append_iff (List.cons_ne_nil t [])).2 ⟨hts, .last ht⟩

theorem kind_ne_endOfInput {cs : List Char} {t : Token} (h : t ∈ Segment.tokens cs) :
    t.kind ≠ .endOfInput := by
  obtain ⟨s, hs, ht⟩ := List.mem_filterMap.1 h
  obtain ⟨k, hk, rfl⟩ := Option.map_eq_some_iff.1 ht
  exact fun heq => (Segment.lawful_of_mem hs).ne_endOfInput (hk.trans (congrArg some heq))

/-- The tokens of a text end with the end of input, and have no other. -/
theorem closed_ofChars (cs : List Char) : (ofChars cs).Closed := by
  rw [Closed, tokens_ofChars]
  exact terminated_append (fun t ht => kind_ne_endOfInput (List.mem_filter.1 ht).1) rfl

end Cursor

end DeclFront
