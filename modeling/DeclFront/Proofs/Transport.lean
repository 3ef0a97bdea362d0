import DeclFront.Proofs.Translation

/-!
# Every parser carries every translation

The parsers of recovery and of the grammar, one by one. Where a parser looks at two tokens, the rule
for looking behind the current token needs the kind of that token, so those parsers are followed
from a given cursor.

The parsers that have types inside are treated over any two parsers of types of which one carries
the other. The layer of a type only asks that of cursors with fewer tokens left than its own.
-/

namespace DeclFront

open DeclFront.Parser

namespace Translation

variable {T : Translation} {α β : Type} {n : Nat} {c : Cursor}

/-! ## Recovery -/

theorem Carries.skipUntil {stop : Parser Bool} (h : T.Carries n stop stop id) :
    T.Carries n (skipUntil stop) (skipUntil stop) id := by
  refine .bindSame (.loop (G := id) (fun s => ?_) (0, 0)) fun _ => .pure rfl
  obtain ⟨depth, skipped⟩ := s
  refine .bindSame carries_currentKind fun k => .ite (.pure rfl) ?_
  refine .ite (.bindSame h fun stops => ?_) (.bindSame (.pure rfl) fun stops => ?_)
  all_goals
    refine .ite (.pure rfl) ?_
    exact .bind carries_advance fun _ => .pure rfl

theorem carries_synchronize (s : KindSet) :
    T.Carries n (synchronize s) (synchronize s) id :=
  .skipUntil (carries_checkSet s)

theorem carriesAt_namesDeclaration (h : c.current.kind = .identifier) :
    T.CarriesAt c namesDeclaration namesDeclaration id :=
  .bind (carriesAt_peekKind (.inl h)) fun _ => .pure rfl

theorem carries_atDeclarationStop : T.Carries n atDeclarationStop atDeclarationStop id := by
  intro c hn
  refine .bind (carries_currentKind c hn) fun _ => ?_
  simp only [currentKind_apply, id]
  split
  · exact .pure rfl
  · exact carriesAt_namesDeclaration ‹_›
  · exact .pure rfl

theorem carries_recoverDeclaration :
    T.Carries n recoverDeclaration recoverDeclaration id := by
  refine .bindSame (.skipUntil carries_atDeclarationStop) fun _ => ?_
  exact .bind (carries_eat .terminator) fun _ => .pure rfl

theorem carries_skipGroup : T.Carries n skipGroup skipGroup id := by
  refine .bind carries_advance fun _ => .bindSame (carries_synchronize .closer) fun _ => ?_
  exact .bind carries_advance fun _ => .pure rfl

/-! ## Names and generics -/

theorem span_token (t : Token) : (T.token t).span = t.span.map T.offset := by
  simp [Token.span, Span.map, T.start_token, T.stop_token]

theorem ofSegments_map (segment : Token) (segments : List Token) :
    Path.ofSegments ((segment :: segments).map T.token) =
      (Path.ofSegments (segment :: segments)).map T.token T.offset := by
  have hlast : (segments.map T.token).getLastD (T.token segment) =
      T.token (segments.getLastD segment) := by
    simp [List.getLastD_eq_getLast?, List.getLast?_map]
  simp only [Path.ofSegments, Path.map, List.map_cons, Path.spanOf_cons, hlast, span_token,
    Span.map_merge T.offset_mono]

theorem missing_map (t : Token) :
    Path.missing (T.token t) = (Path.missing t).map T.token T.offset := by
  rw [Path.missing, ← T.missing_token]
  exact ofSegments_map t.missing []

theorem typeMissing_map (t : Token) :
    TypeExpr.missing (T.token t) = (TypeExpr.missing t).map T.token T.offset := by
  simp [TypeExpr.missing, TypeRef.missing, TypeExpr.map, missing_map, Path.map]

theorem carries_furtherSegment :
    T.Carries n furtherSegment furtherSegment (Round.map T.token) := by
  refine .bindSame (carries_check .dot) fun _ => .bindSame (carries_check .colonColon) fun _ => ?_
  refine .ite (.bind carries_advance fun _ => .bind (carries_eat .identifier) fun segment => ?_)
    (.pure rfl)
  cases segment with
  | some t => exact .pure rfl
  | none => exact .bindSame (carries_unexpected _) fun _ => .pure rfl

theorem carries_path : T.Carries n path path (Path.map T.token T.offset) := by
  refine .bind (carries_eat .identifier) fun first => ?_
  cases first with
  | some first =>
    exact .bind (.collect carries_furtherSegment) fun segments =>
      .pure (ofSegments_map first segments).symm
  | none =>
    exact .bindSame (carries_unexpected _) fun _ => .bind carries_current fun t =>
      .pure (missing_map t).symm

theorem carries_commaAndMore : T.Carries n commaAndMore commaAndMore id := by
  refine .bind (carries_eat .comma) fun comma => ?_
  cases comma with
  | some comma => exact .bindSame (carries_check .rightBracket) fun _ => .pure rfl
  | none => exact .pure rfl

theorem carries_closeBracket : T.Carries n closeBracket closeBracket id := by
  refine .bind (carries_eat .rightBracket) fun close => ?_
  cases close with
  | some close => exact .pure rfl
  | none =>
    refine .bindSame (carries_unexpected _) fun _ =>
      .bindSame (carries_synchronize .bracketStop) fun _ => ?_
    exact .bind (carries_eat .rightBracket) fun _ => .pure rfl

theorem carries_genericParam :
    T.Carries n genericParam genericParam (Round.map T.token) := by
  refine .bind (carries_eat .identifier) fun param => ?_
  cases param with
  | some param => exact .bindSame carries_commaAndMore fun _ => .pure rfl
  | none => exact .bindSame (carries_unexpected _) fun _ => .pure rfl

/-- An empty list is complained about in one move with its two brackets. -/
theorem CarriesAt.bracketed {empty : DiagnosticCode} (hempty : Cursor.IsEmptyList empty)
    {round : Parser (Round α)} {round' : Parser (Round β)} {F : α → β}
    (h : T.Carries n round round' (Round.map F)) (hn : T.valid c → c.advance.left < n) :
    T.CarriesAt c (bracketed empty round) (bracketed empty round')
      (Prod.map (List.map F) (Span.map T.offset)) := by
  have hadvance {b : Cursor} (hb : T.valid b) (hl : ¬ T.lost b.advance) :
      (T.cursor b).advance.current.kind = b.advance.current.kind := by
    have hv := T.valid_step Cursor.Step.advance hb
    rw [T.advance_cursor hb hl, T.current_cursor hv hl, T.kind_token]
  by_cases hk : c.advance.current.kind = .rightBracket
  · intro hc
    have hr : c.Reaches (c.skipEmpty empty) := (Cursor.Step.skipEmpty hempty hk).reaches
    rw [bracketed_of_empty hk]
    refine ⟨hr, fun hl => ?_⟩
    have hl' := T.not_lost_of_reaches hr hl
    have hl'' : ¬ T.lost c.advance := fun h =>
      hl (T.lost_report _ (T.lost_step Cursor.Step.advance h))
    rw [bracketed_of_empty ((hadvance hc hl'').trans hk),
      T.skipEmpty_cursor hempty hc hl, T.current_cursor hc hl', T.start_token,
      T.consumedTo_cursor (T.valid_of_reaches hr hc) hl]
    rfl
  · have hrest : T.Carries n
        (do
          let items ← Parser.collect round
          closeBracket
          return (items, ⟨c.current.start, ← consumedTo⟩))
        (do
          let items ← Parser.collect round'
          closeBracket
          return (items, ⟨T.offset c.current.start, ← consumedTo⟩))
        (Prod.map (List.map F) (Span.map T.offset)) :=
      .bind (.collect h) fun items => .bindSame carries_closeBracket fun _ =>
        .bind carries_consumedTo fun stop => .pure rfl
    intro hc
    have hr : c.Reaches c.advance := Cursor.Step.advance.reaches
    obtain ⟨hr', hrun⟩ := hrest _ (hn hc) (T.valid_of_reaches hr hc)
    rw [bracketed_of_ne hk]
    refine ⟨hr.trans hr', fun hl => ?_⟩
    have hl' := T.not_lost_of_reaches hr' hl
    rw [bracketed_of_ne (by rwa [hadvance hc hl']),
      T.current_cursor hc (T.not_lost_of_reaches hr hl'), T.start_token, T.advance_cursor hc hl']
    exact hrun hl

theorem carries_genericParams :
    T.Carries n genericParams genericParams (GenericParams.map T.token T.offset) := by
  intro c hn
  refine .bind (CarriesAt.bracketed (.inl rfl) carries_genericParam fun _ =>
    Nat.lt_of_le_of_lt Cursor.Step.advance.left_le hn) fun _ => ?_
  exact .pure rfl

/-! ## Consuming a token first -/

theorem Carries.eatThen {k : TokenKind} (hk : k ≠ .endOfInput) {f : Option Token → Parser α}
    {g : Option Token → Parser β} {G : α → β}
    (hsome : ∀ t, T.Carries n (f (some t)) (g (some (T.token t))) G)
    (hnone : T.Carries (n + 1) (f none) (g none) G) :
    T.Carries (n + 1) (eat k >>= f) (eat k >>= g) G := by
  intro c hn hc
  refine CarriesAt.bind (carries_eat k c hn) (fun _ => ?_) hc
  by_cases h : c.current.kind = k
  · rw [eat_of_eq h]
    have := (T.closed hc).left_advance (by rwa [h])
    exact hsome _ _ (by simp only; omega)
  · rw [eat_of_ne h]
    exact hnone c hn

theorem Carries.expectThen {k : TokenKind} (hk : k ≠ .endOfInput) {f : Option Token → Parser α}
    {g : Option Token → Parser β} {G : α → β}
    (hsome : ∀ t, T.Carries n (f (some t)) (g (some (T.token t))) G)
    (hnone : T.Carries (n + 1) (f none) (g none) G) :
    T.Carries (n + 1) (expect k >>= f) (expect k >>= g) G := by
  intro c hn hc
  refine CarriesAt.bind (carries_expect k c hn) (fun _ => ?_) hc
  by_cases h : c.current.kind = k
  · rw [expect_of_eq h]
    have := (T.closed hc).left_advance (by rwa [h])
    exact hsome _ _ (by simp only; omega)
  · rw [expect_of_ne h]
    exact hnone _ (by simpa using hn)

/-! ## Function types -/

theorem carries_paramName : T.Carries n paramName paramName (Option.map T.token) := by
  intro c hn
  refine .bind (carries_check .identifier c hn) fun _ => ?_
  simp only [check_apply, id]
  apply CarriesAt.ite
  · intro hk
    refine .bind (carriesAt_peekKind (.inl (by simpa using hk))) fun hr => ?_
    have hn' := Nat.lt_of_le_of_lt hr.left_le hn
    apply CarriesAt.ite
    · refine fun _ => .bind (carries_advance _ hn') fun hr => ?_
      refine .bind (carries_advance _ (Nat.lt_of_le_of_lt hr.left_le hn')) fun _ => ?_
      exact .pure rfl
    · exact fun _ => .pure rfl
  · exact fun _ => .pure rfl

variable {type type' : Parser TypeExpr}

section

variable (ht : T.Carries n type type' (TypeExpr.map T.token T.offset))

include ht

theorem Carries.param : T.Carries n (param type) (param type') (Param.map T.token T.offset) := by
  refine .bind carries_current fun start => .bind carries_paramName fun name => .bind ht fun t =>
    .bind carries_consumedTo fun stop => .pure ?_
  simp [Param.map, Span.map, T.start_token, T.offset_mono.map_max]

theorem Carries.furtherParam :
    T.Carries n (furtherParam type) (furtherParam type')
      (Round.map (Param.map T.token T.offset)) := by
  refine .bindSame (carries_check .rightParen) fun _ => .bindSame carries_isAtEnd fun _ =>
    .ite (.pure rfl) ?_
  refine .bind (.param ht) fun p => .bind (carries_eat .comma) fun comma => .pure ?_
  simp [Round.map]

theorem Carries.params :
    T.Carries n (params type) (params type') (List.map (Param.map T.token T.offset)) := by
  refine .bind (.collect (.furtherParam ht)) fun found => .bind (carries_eat .rightParen)
    fun close => ?_
  cases close with
  | some close => exact .pure rfl
  | none =>
    refine .bindSame (carries_unexpected _) fun _ => .bindSame (carries_synchronize _) fun _ => ?_
    exact .bind (carries_eat .rightParen) fun _ => .pure rfl

theorem Carries.result :
    T.Carries (n + 1) (result type) (result type') (TypeExpr.map T.token T.offset) := by
  refine .eatThen (by decide) (fun _ => ht) ?_
  exact .bindSame (carries_missing .arrow) fun _ => .bind carries_current fun t =>
    .pure (typeMissing_map t).symm

theorem Carries.function :
    T.Carries (n + 1) (function type) (function type') (FunctionType.map T.token T.offset) := by
  refine .bind carries_current fun start => .bind (carries_eat .async) fun async => ?_
  have hrest (found : List Param) : T.Carries (n + 1)
      (do
        let t ← Parser.result type
        return ⟨async.isSome, found, t, ⟨start.start, max (← consumedTo) t.span.stop⟩⟩)
      (do
        let t ← Parser.result type'
        return ⟨(async.map T.token).isSome, found.map (Param.map T.token T.offset), t,
          ⟨(T.token start).start, max (← consumedTo) t.span.stop⟩⟩)
      (FunctionType.map T.token T.offset) := by
    refine .bind (.result ht) fun t => .bind carries_consumedTo fun stop => .pure ?_
    simp [FunctionType.map, Span.map, T.start_token, T.offset_mono.map_max]
  refine .expectThen (by decide) (fun _ => ?_) ?_
  · exact .bind (.params ht) fun found => (hrest found).mono (Nat.le_succ n)
  · exact .bind (.pure rfl) hrest

end

/-! ## Bodies in braces -/

theorem carries_recoverMember : T.Carries n recoverMember recoverMember id :=
  .bindSame (carries_synchronize .memberStop) fun _ => .pure rfl

theorem carries_closeMember (found : Bool) :
    T.Carries n (closeMember found) (closeMember found) id := by
  have hclose : T.Carries n
      (do
        unless (← checkSet .memberStop) || (← isAtEnd) do
          unexpected [.comma, .terminator, .rightBrace]
          recoverMember)
      (do
        unless (← checkSet .memberStop) || (← isAtEnd) do
          unexpected [.comma, .terminator, .rightBrace]
          recoverMember) id :=
    .bindSame (carries_checkSet _) fun _ => .bindSame carries_isAtEnd fun _ =>
      .ite (.pure rfl) (.bindSame (carries_unexpected _) fun _ => carries_recoverMember)
  cases found with
  | true => exact hclose
  | false => exact .bindSame carries_recoverMember fun _ => hclose

theorem Carries.furtherMember {member : Parser (Option α)} {member' : Parser (Option β)}
    {F : α → β} (h : T.Carries n member member' (Option.map F)) :
    T.Carries n (furtherMember member) (furtherMember member') (Round.map F) := by
  refine .bindSame (carries_skipSet _) fun _ => .bind (carries_eat .rightBrace) fun close => ?_
  rw [Option.isSome_map]
  refine .ite (.pure rfl) (.bindSame carries_isAtEnd fun _ => .ite ?_ ?_)
  · exact .bindSame (carries_missing .rightBrace) fun _ => .pure rfl
  · refine .bind h fun item => ?_
    rw [Option.isSome_map]
    exact .bindSame (carries_closeMember _) fun _ => .pure rfl

theorem CarriesAt.braced {member : Parser (Option α)} {member' : Parser (Option β)} {F : α → β}
    (h : T.Carries n member member' (Option.map F)) (hn : T.valid c → c.advance.left < n) :
    T.CarriesAt c (braced member) (braced member')
      (Prod.map (List.map F) (Span.map T.offset)) := by
  intro hc
  refine CarriesAt.bind (carries_advance c (Nat.lt_succ_self _)) (fun _ => ?_) hc
  have hrest : T.Carries n
      (do
        let members ← Parser.collect (Parser.furtherMember member)
        return (members, ⟨c.current.start, ← consumedTo⟩))
      (do
        let members ← Parser.collect (Parser.furtherMember member')
        return (members, ⟨(T.token c.current).start, ← consumedTo⟩))
      (Prod.map (List.map F) (Span.map T.offset)) := by
    refine .bind (.collect (.furtherMember h)) fun members => .bind carries_consumedTo fun stop =>
      .pure ?_
    simp [Span.map, T.start_token]
  exact hrest _ (hn hc)

theorem carries_memberName : T.Carries n memberName memberName (Option.map T.token) := by
  refine .bind (carries_eat .identifier) fun name => ?_
  cases name with
  | none => exact .bindSame (carries_unexpected _) fun _ => .pure rfl
  | some name => exact .pure rfl

theorem carries_memberColon (next : KindSet) :
    T.Carries n (memberColon next) (memberColon next) id := by
  refine .bind (carries_eat .colon) fun colon => ?_
  rw [Option.isSome_map]
  refine .ite (.pure rfl) (.bindSame (carries_checkSet next) fun _ => .ite ?_ ?_)
  · exact .bindSame (carries_missing .colon) fun _ => .pure rfl
  · exact .bindSame (carries_unexpected _) fun _ => .pure rfl

/-- What stands behind an equals sign with its token replaced. -/
def mapAssigned (f : Token → Token) : Assigned → Assigned
  | .nothing => .nothing
  | .value t => .value (f t)
  | .malformed => .malformed

theorem carries_assigned (ks : List TokenKind) :
    T.Carries n (assigned ks) (assigned ks) (mapAssigned T.token) := by
  refine .bind (carries_eat .equal) fun equal => ?_
  cases equal with
  | none => exact .pure rfl
  | some equal =>
    refine .bindSame (carries_checkSet _) fun _ => .ite ?_ ?_
    · exact .bind carries_advance fun _ => .pure rfl
    · exact .bindSame (carries_unexpected _) fun _ => .pure rfl

section

variable (ht : T.Carries n type type' (TypeExpr.map T.token T.offset))

include ht

theorem Carries.method :
    T.Carries n (method type) (method type') (Option.map (Method.map T.token T.offset)) := by
  refine .bind carries_memberName fun name => ?_
  cases name with
  | none => exact .pure rfl
  | some name =>
    refine .bindSame (carries_memberColon _) fun _ => .ite (.pure rfl) ?_
    refine .bindSame (carries_checkSet _) fun _ => .ite ?_ ?_
    · refine .bind ((Carries.function ht).mono (Nat.le_succ n)) fun signature => .pure ?_
      obtain ⟨_, _, _, _⟩ := signature
      simp [Method.map, FunctionType.map, Span.map_merge T.offset_mono, span_token]
    · exact .bindSame (carries_unexpected _) fun _ => .pure rfl

theorem Carries.payload :
    T.Carries n (payload type) (payload type') (Option.map (TypeExpr.map T.token T.offset)) := by
  refine .bind (carries_eat .leftParen) fun paren => ?_
  cases paren with
  | none => exact .pure rfl
  | some paren =>
    refine .bind ht fun t => .bind (carries_eat .rightParen) fun close => ?_
    cases close with
    | some close => exact .pure rfl
    | none =>
      refine .bindSame (carries_unexpected _) fun _ => .bindSame (carries_synchronize _) fun _ => ?_
      exact .bind (carries_eat .rightParen) fun _ => .pure rfl

theorem Carries.variant :
    T.Carries n (variant type) (variant type') (Option.map (Variant.map T.token T.offset)) := by
  refine .bind carries_memberName fun tag => ?_
  cases tag with
  | none => exact .pure rfl
  | some tag =>
    refine .bind (.payload ht) fun content => .bind (carries_assigned _) fun value => ?_
    cases value with
    | malformed => exact .pure rfl
    | nothing =>
      refine .bind carries_consumedTo fun stop => .pure ?_
      simp [Span.map, T.start_token]
    | value t =>
      refine .bind carries_consumedTo fun stop => .pure ?_
      simp [Span.map, T.start_token]

theorem Carries.field :
    T.Carries n (field type) (field type') (Option.map (Field.map T.token T.offset)) := by
  refine .bind carries_memberName fun name => ?_
  cases name with
  | none => exact .pure rfl
  | some name =>
    refine .bindSame (carries_memberColon _) fun _ => .ite (.pure rfl) ?_
    refine .bind ht fun t => .bind (carries_assigned _) fun value => ?_
    cases value with
    | malformed => exact .pure rfl
    | nothing =>
      refine .bind carries_consumedTo fun stop => .pure ?_
      simp [Field.map, Span.map, T.start_token, T.offset_mono.map_max]
    | value t =>
      refine .bind carries_consumedTo fun stop => .pure ?_
      simp [Field.map, Span.map, T.start_token, T.offset_mono.map_max]

/-! ## Types -/

theorem Carries.genericArg :
    T.Carries n (genericArg type) (genericArg type')
      (Round.map (TypeExpr.map T.token T.offset)) :=
  .bind ht fun _ => .bindSame carries_commaAndMore fun _ => .pure rfl

theorem CarriesAt.genericArgs (hn : T.valid c → c.advance.left < n) :
    T.CarriesAt c (genericArgs type) (genericArgs type')
      (GenericArgs.map T.token T.offset) := by
  refine .bind (CarriesAt.bracketed (.inr rfl) (.genericArg ht) hn) fun _ => .pure ?_
  simp [GenericArgs.map]

end

theorem carries_ownership : T.Carries n ownership ownership id := by
  refine .bind (carries_eat .own) fun own => ?_
  rw [Option.isSome_map]
  refine .ite (.pure rfl) (.bind (carries_eat .borrow) fun borrow => ?_)
  rw [Option.isSome_map]
  exact .ite (.pure rfl) (.pure rfl)

section

variable (ht : T.Carries n type type' (TypeExpr.map T.token T.offset))

include ht

theorem Carries.reference :
    T.Carries (n + 1) (reference type) (reference type') (TypeRef.map T.token T.offset) := by
  refine .bind carries_current fun start => .bindSame carries_ownership fun held =>
    .bind carries_path fun name => ?_
  have hrest (args : Option GenericArgs) : T.Carries (n + 1)
      (do
        let optional := (← eat .question).isSome
        return (⟨held, name, args, optional,
          ⟨start.start, max (← consumedTo) name.span.stop⟩⟩ : TypeRef))
      (do
        let optional := (← eat .question).isSome
        return ⟨held, name.map T.token T.offset, args.map (GenericArgs.map T.token T.offset),
          optional, ⟨(T.token start).start,
            max (← consumedTo) (name.map T.token T.offset).span.stop⟩⟩)
      (TypeRef.map T.token T.offset) := by
    refine .bind (carries_eat .question) fun optional => .bind carries_consumedTo fun stop =>
      .pure ?_
    simp [Span.map, Path.map, T.start_token, T.offset_mono.map_max]
  intro c hn
  refine .bind (carries_check .leftBracket c hn) fun _ => ?_
  simp only [check_apply, id]
  apply CarriesAt.ite
  · intro hk hc
    have hne : c.current.kind ≠ .endOfInput := by simp_all
    have hlt := (T.closed hc).left_advance_lt hne
    have hargs := CarriesAt.genericArgs ht (c := c) (T := T) fun _ => by omega
    refine CarriesAt.bind (hargs.map (H := Option.map _) fun _ => rfl) (fun hr => ?_) hc
    exact hrest (some _) _ (Nat.lt_of_le_of_lt hr.left_le hn)
  · exact fun _ => .bind (.pure rfl) fun _ => hrest none c hn

/-- A layer asks for the types inside only behind a token that it has consumed. -/
theorem Carries.typeLayer :
    T.Carries (n + 1) (typeLayer type) (typeLayer type') (TypeExpr.map T.token T.offset) := by
  intro c hn hc
  have hlt (h : c.current.kind ≠ .endOfInput) (_ : T.valid c) : c.advance.left < n := by
    have := (T.closed hc).left_advance h
    omega
  refine CarriesAt.bind (carries_currentKind c hn) (fun _ => ?_) hc
  simp only [currentKind_apply, id]
  split
  · exact .bind (.braced (.method ht) (hlt (by simp_all))) fun _ => .pure (by simp [TypeExpr.map])
  · exact .bind (.braced (.variant ht) (hlt (by simp_all))) fun _ => .pure (by simp [TypeExpr.map])
  · exact .bind (.braced (.field ht) (hlt (by simp_all))) fun _ => .pure (by simp [TypeExpr.map])
  · exact .bind (.braced (.map ht fun _ => rfl) (hlt (by simp_all))) fun _ =>
      .pure (by simp [TypeExpr.map])
  · exact .bind (Carries.function ht c hn) fun _ => .pure (by simp [TypeExpr.map])
  · exact .bind (Carries.function ht c hn) fun _ => .pure (by simp [TypeExpr.map])
  · exact .bind (Carries.reference ht c hn) fun _ => .pure (by simp [TypeExpr.map])
  · exact .bind (Carries.reference ht c hn) fun _ => .pure (by simp [TypeExpr.map])
  · exact .bind (Carries.reference ht c hn) fun _ => .pure (by simp [TypeExpr.map])
  · refine Carries.bindSame (carries_unexpected _) (fun _ => .bind carries_current fun t => ?_) c hn
    exact .pure (typeMissing_map t).symm

end

end Translation

end DeclFront
