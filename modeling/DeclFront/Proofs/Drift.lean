import DeclFront.Proofs.Nesting

/-!
# The drift of the parser

Every parser of the grammar leads from the groups it begins in to the same groups, with some plain
ones left open inside. The lists in brackets and parentheses close a group, which need not be their
own; the body of a type ends at its own closing brace, since that is the only token which can close
a group of braces, and is never skipped inside one.
-/

namespace DeclFront

open DeclFront.Parser

variable {α β : Type} {c : Cursor} {n m l : Nat} {st : List TokenKind}

/-! ## Names and lists in brackets -/

theorem leads_furtherSegment : Leads n m [] [] furtherSegment := by
  intro c
  refine .look (check_apply _ _) (.look (check_apply _ _) (.ite (fun h => ?_) fun _ => .stay rfl))
  have hk : IsNeutral c.current.kind := by
    rcases (by simpa using h : c.current.kind = .dot ∨ c.current.kind = .colonColon) with h | h <;>
      rw [h] <;> decide
  refine .bind (.advance hk) fun _ => .bind (.eat (by decide)) fun segment => ?_
  cases segment with
  | some t => exact .pure _
  | none => exact .bind (.unexpected _) fun _ => .pure _

theorem leads_path : Leads n m [] [] path := by
  refine .bind (.eat (by decide)) fun first => ?_
  cases first with
  | some t => exact .bind (.collect leads_furtherSegment) fun _ => .pure _
  | none => exact .bind (.unexpected _) fun _ => .bind (.stay fun _ => rfl) fun _ => .pure _

theorem leads_commaAndMore : Leads n m [] [] commaAndMore := by
  refine .bind (.eat (by decide)) fun comma => ?_
  cases comma with
  | some t => exact .bind (.stay fun _ => rfl) fun _ => .pure _
  | none => exact .pure _

theorem leads_closeBracket : Leads n m [.leftBracket] [] closeBracket := by
  refine .eatCloseThen (by decide) (.inr rfl) (fun _ => .pure _) ?_
  exact .bind (.unexpected _) fun _ => .bind (.synchronize (by decide)) fun _ =>
    .bind (.eatClose (by decide) (.inr rfl)) fun _ => .pure _

theorem LeadsAt.bracketed {empty : DiagnosticCode} {round : Parser (Round α)}
    (h : Leads n m [] [] round) (hk : c.current.kind = .leftBracket) :
    LeadsAt n (m + 1) c [] [] (bracketed empty round) := by
  refine .openThen (by rw [hk]; decide) fun bracket => ?_
  rw [hk]
  have hrest (items : List α) : Leads n m [] []
      (do return (items, ⟨bracket.start, ← consumedTo⟩) : Parser (List α × Span)) :=
    .bind (.stay fun _ => rfl) fun _ => .pure _
  refine .eatCloseThen (by decide) (.inr rfl) (fun close => ?_) ?_
  · exact .bind (.report _) fun _ => hrest _
  · exact .bind (Leads.inside (.collect h)) fun items => .bind leads_closeBracket fun _ => hrest _

theorem leads_genericParam : Leads n m [] [] genericParam := by
  refine .bind (.eat (by decide)) fun param => ?_
  cases param with
  | some t => exact .bind leads_commaAndMore fun _ => .pure _
  | none => exact .bind (.unexpected _) fun _ => .pure _

theorem LeadsAt.genericParams (hk : c.current.kind = .leftBracket) :
    LeadsAt n (m + 1) c [] [] genericParams :=
  .bind (.bracketed leads_genericParam hk) fun _ => .pure _

/-! ## Function types -/

theorem leads_paramName : Leads n m [] [] paramName := by
  intro c
  refine .look (check_apply _ _) (.ite (fun hname => ?_) fun _ => .stay rfl)
  have hname : c.current.kind = .identifier := by simpa using hname
  intro st l hl h
  have hpeek : c.peek.2.Within n st l := h.of_tokens (Cursor.tokens_peek c)
  by_cases hcolon : c.peek.1.kind = .colon
  · have hadvance : LeadsAt n m c.peek.2 [] [] advance :=
      .advance (by rw [Cursor.current_peek, hname]; decide)
    have hadvance' : LeadsAt n m c.peek.2.advance [] [] advance :=
      .advance (by rw [Cursor.current_advance_peek, hcolon]; decide)
    simpa [hcolon] using hadvance' st l hl (hadvance st l hl hpeek)
  · simpa [hcolon] using hpeek

section

variable (htype : Leads n m [] [] type)

include htype

theorem leads_param : Leads n m [] [] (param type) :=
  .bind (.stay fun _ => rfl) fun _ => .bind leads_paramName fun _ => .bind htype fun _ =>
    .bind (.stay fun _ => rfl) fun _ => .pure _

theorem leads_furtherParam : Leads n m [] [] (furtherParam type) := by
  refine .bind (.stay fun _ => rfl) fun _ => .bind (.stay fun _ => rfl) fun _ => .ite (.pure _) ?_
  exact .bind (leads_param htype) fun _ => .bind (.eat (by decide)) fun _ => .pure _

theorem leads_params : Leads n m [.leftParen] [] (params type) := by
  refine .bind (Leads.inside (.collect (leads_furtherParam htype))) fun found => ?_
  refine .eatCloseThen (by decide) (.inl rfl) (fun _ => .pure _) ?_
  exact .bind (.unexpected _) fun _ => .bind (.synchronize (by decide)) fun _ =>
    .bind (.eatClose (by decide) (.inl rfl)) fun _ => .pure _

theorem leads_result : Leads n (m + 1) [] [] (result type) := by
  refine .eatThen (by decide) (fun _ => htype) ?_
  exact .bind (.missing _) fun _ => .bind (.stay fun _ => rfl) fun _ => .pure _

theorem leads_function : Leads n (m + 1) [] [] (function type) := by
  refine .bind (.stay fun _ => rfl) fun start => .bind (.eat (by decide)) fun isAsync => ?_
  have hrest {l : Nat} (hl : l ≤ m + 1) (found : List Param) : Leads n l [] []
      (do
        let t ← result type
        return (⟨isAsync.isSome, found, t, ⟨start.start, max (← consumedTo) t.span.stop⟩⟩ :
          FunctionType)) :=
    .bind ((leads_result htype).mono hl) fun _ => .bind (.stay fun _ => rfl) fun _ => .pure _
  refine .expectOpenThen (by decide) (fun _ => ?_) ?_
  · exact .bind (leads_params htype) (hrest (Nat.le_succ m))
  · exact .bind (.pure _) (hrest (Nat.le_refl _))

end

/-! ## Bodies in braces -/

variable {o : TokenKind}

/-- Separators stand directly inside braces. -/
theorem leads_separators : Leads n m [o] [o] (skipSet .separator) := by
  refine .loop (fun _ c => .look (checkSet_apply _ _) (.ite (fun hk => ?_) fun _ => .stay rfl)) ()
  refine .bind ?_ fun _ => .pure _
  have hk : c.current.kind = .comma ∨ c.current.kind = .terminator := by
    simpa [KindSet.separator, KindSet.ofList] using hk
  rcases hk with hk | hk
  · exact .advance (by rw [hk]; decide)
  · rintro st l - ⟨E, hE, hc, hle⟩
    refine ⟨E, hE, ?_, Nat.le_trans (Nat.le_of_lt
      (hc.closed.left_advance_lt hc.ne_endOfInput)) hle⟩
    cases E with
    | nil => exact (hc.advance_terminator hk).2
    | cons e E => exact (hc.advance_terminator hk).2

section

variable (ho : o.closing = .rightBrace)

include ho

theorem leads_recoverMember : Leads n m [o] [o] recoverMember :=
  .bind (.synchronize (by rw [ho]; decide)) fun _ => .pure _

theorem leads_closeMember (found : Bool) : Leads n m [o] [o] (closeMember found) := by
  have hclose : Leads n m [o] [o] (closeMember true) := by
    refine .bind (.stay fun _ => rfl) fun _ => .bind (.stay fun _ => rfl) fun _ => .ite (.pure _) ?_
    exact .bind (.unexpected _) fun _ => leads_recoverMember ho
  cases found with
  | true => exact hclose
  | false => exact .bind (leads_recoverMember ho) fun _ => hclose

/-- A round of a body leaves its braces with the closing one, and is the last one then. -/
theorem within_furtherMember {member : Parser (Option α)} (hmember : Leads n m [] [] member)
    (hl : l < m) (h : c.Within n (o :: st) l) :
    (furtherMember member c).1.again = true ∧ (furtherMember member c).2.Within n (o :: st) l ∨
      (furtherMember member c).1.again = false ∧ (furtherMember member c).2.Within n st l := by
  have hd := leads_separators c st l hl h
  simp only [furtherMember, bind_apply]
  generalize (skipSet .separator c).2 = d at hd
  by_cases hk : d.current.kind = .rightBrace
  · refine .inr ?_
    obtain ⟨E, hE, hd, hle⟩ := hd
    obtain ⟨e, st', hst, he, hadvance⟩ := hd.exists_advance_closer (by rw [hk]; decide)
    have hle := Nat.le_trans (Nat.le_of_lt (hd.closed.left_advance_lt hd.ne_endOfInput)) hle
    cases E with
    | cons k E =>
      obtain ⟨rfl, -⟩ := List.cons.inj hst
      exact absurd (he.trans hk) (hE k List.mem_cons_self).closing_ne
    | nil =>
      obtain ⟨-, rfl⟩ := List.cons.inj hst
      simpa [eat_of_eq hk] using ⟨rfl, [], by simp, hadvance, hle⟩
  · refine .inl ?_
    have hinside : Leads n m [o] [o] member := hmember.inside
    have hitem := leads_closeMember ho (member d).1.isSome _ st l hl (hinside d st l hl hd)
    simpa [eat_of_ne hk, hd.ne_endOfInput] using hitem

end

theorem LeadsAt.braced {member : Parser (Option α)} (hmember : Leads n m [] [] member)
    (hmoves : Moves member) (hopen : KindSet.opener.contains c.current.kind = true)
    (ho : c.current.kind.closing = .rightBrace) : LeadsAt n (m + 1) c [] [] (braced member) := by
  refine .openThen hopen fun brace => .bind (?_ : Leads n m _ [] _) fun _ =>
    .bind (.stay fun _ => rfl) fun _ => .pure _
  intro d st l hl h
  have hproductive : Productive (collectRound (furtherMember member)) :=
    productive_collectRound fun _ => left_furtherMember_lt hmoves
  refine hproductive.loop_induction (I := fun _ d => d.Within n (c.current.kind :: st) l)
    (P := fun _ _ r => r.2.Within n st l) (fun _ _ h => h.closed) ?_ ?_ h
  · intro found d t h hdone
    rcases within_furtherMember ho hmember hl h with ⟨hagain, -⟩ | ⟨-, hd⟩
    · exact absurd hagain (Bool.eq_false_iff.1 (collectRound_eq_done_iff.1 hdone).1)
    · exact hd
  · intro found d t h ht _
    rcases within_furtherMember ho hmember hl h with ⟨-, hd⟩ | ⟨hagain, -⟩
    · exact ⟨hd, fun _ h => h⟩
    · exact absurd (collectRound_eq_yield_iff.1 ht).1 (Bool.eq_false_iff.1 hagain)

/-! ## Members -/

theorem leads_memberName : Leads n m [] [] memberName := by
  refine .bind (.eat (by decide)) fun name => ?_
  cases name with
  | some t => exact .pure _
  | none => exact .bind (.unexpected _) fun _ => .pure _

theorem leads_memberColon (next : KindSet) : Leads n m [] [] (memberColon next) := by
  refine .bind (.eat (by decide)) fun colon => .ite (.pure _) ?_
  refine .bind (.stay fun _ => rfl) fun _ => .ite ?_ ?_
  · exact .bind (.missing _) fun _ => .pure _
  · exact .bind (.unexpected _) fun _ => .pure _

theorem leads_assigned {ks : List TokenKind} (hks : ∀ k ∈ ks, IsNeutral k) :
    Leads n m [] [] (assigned ks) := by
  refine .bind (.eat (by decide)) fun equal => ?_
  cases equal with
  | none => exact .pure _
  | some t =>
    intro c
    refine .look (checkSet_apply _ _) (.ite (fun hk => ?_) fun _ => ?_)
    · exact .bind (.advance (hks _ (by simpa [KindSet.ofList] using hk))) fun _ => .pure _
    · exact (Leads.unexpected ks).bind (fun _ => .pure _) c

section

variable (htype : Leads n m [] [] type)

include htype

theorem leads_method : Leads n (m + 1) [] [] (method type) := by
  refine .bind leads_memberName fun name => ?_
  cases name with
  | none => exact .pure _
  | some name =>
    refine .bind (leads_memberColon _) fun _ => .ite (.pure _) ?_
    refine .bind (.stay fun _ => rfl) fun _ => .ite ?_ ?_
    · exact .bind (leads_function htype) fun _ => .pure _
    · exact .bind (.unexpected _) fun _ => .pure _

theorem leads_payload : Leads n (m + 1) [] [] (payload type) := by
  refine .eatOpenThen (by decide) (fun _ => ?_) (.pure _)
  refine .bind htype.inside fun t => .eatCloseThen (by decide) (.inl rfl) (fun _ => .pure _) ?_
  exact .bind (.unexpected _) fun _ => .bind (.synchronize (by decide)) fun _ =>
    .bind (.eatClose (by decide) (.inl rfl)) fun _ => .pure _

theorem leads_variant : Leads n (m + 1) [] [] (variant type) := by
  refine .bind leads_memberName fun tag => ?_
  cases tag with
  | none => exact .pure _
  | some tag =>
    refine .bind (leads_payload htype) fun _ => .bind (leads_assigned (by decide)) fun value => ?_
    cases value with
    | malformed => exact .pure _
    | nothing | value => exact .bind (.stay fun _ => rfl) fun _ => .pure _

theorem leads_field : Leads n m [] [] (field type) := by
  refine .bind leads_memberName fun name => ?_
  cases name with
  | none => exact .pure _
  | some name =>
    refine .bind (leads_memberColon _) fun _ => .ite (.pure _) ?_
    refine .bind htype fun _ => .bind (leads_assigned (by decide)) fun value => ?_
    cases value with
    | malformed => exact .pure _
    | nothing | value => exact .bind (.stay fun _ => rfl) fun _ => .pure _

/-! ## Types -/

theorem leads_genericArg : Leads n m [] [] (genericArg type) :=
  .bind htype fun _ => .bind leads_commaAndMore fun _ => .pure _

theorem leads_reference : Leads n (m + 1) [] [] (reference type) := by
  have hheld : Leads n (m + 1) [] [] ownership :=
    .bind (.eat (by decide)) fun _ => .ite (.pure _) (.bind (.eat (by decide)) fun _ =>
      .ite (.pure _) (.pure _))
  refine .bind (.stay fun _ => rfl) fun start => .bind hheld fun held => .bind leads_path
    fun name => ?_
  have hrest (args : Option GenericArgs) : Leads n (m + 1) [] []
      (do
        let optional := (← Parser.eat .question).isSome
        return (⟨held, name, args, optional,
          ⟨start.start, max (← consumedTo) name.span.stop⟩⟩ : TypeRef)) :=
    .bind (.eat (by decide)) fun _ => .bind (.stay fun _ => rfl) fun _ => .pure _
  intro c
  refine .look (check_apply _ _) (.ite (fun hk => ?_) fun _ => hrest none c)
  have hargs : LeadsAt n (m + 1) c [] [] (genericArgs type) :=
    .bind (.bracketed (leads_genericArg htype) (by simpa using hk)) fun _ => .pure _
  exact .bind (p := some <$> genericArgs type) hargs hrest

theorem leads_typeLayer : Leads n (m + 1) [] [] (typeLayer type) := by
  intro c
  refine .look (currentKind_apply _) ?_
  have hbraced {α : Type} {member : Parser (Option α)} {k : TokenKind} (hk : c.current.kind = k)
      (hopen : KindSet.opener.contains k = true) (ho : k.closing = .rightBrace)
      (hmember : Leads n m [] [] member) (hmoves : Moves member) {f : List α × Span → TypeExpr} :
      LeadsAt n (m + 1) c [] [] (do return f (← braced member)) :=
    .bind (.braced hmember hmoves (hk ▸ hopen) (hk ▸ ho)) fun _ => .pure _
  have hmissing : Leads n (m + 1) [] []
      (do
        unexpected [.identifier, .leftParen, .caretBrace, .pipeBrace]
        return TypeExpr.missing (← current)) :=
    .bind (.unexpected _) fun _ => .bind (.stay fun _ => rfl) fun _ => .pure _
  split
  · exact hbraced ‹_› (by decide) rfl ((leads_method htype).mono (Nat.le_succ m)) moves_method
  · exact hbraced ‹_› (by decide) rfl ((leads_variant htype).mono (Nat.le_succ m)) moves_variant
  · exact hbraced ‹_› (by decide) rfl (leads_field htype) moves_field
  · exact hbraced ‹_› (by decide) rfl (.map htype) moves_element
  · exact (leads_function htype).bind (fun _ => .pure _) c
  · exact (leads_function htype).bind (fun _ => .pure _) c
  · exact (leads_reference htype).bind (fun _ => .pure _) c
  · exact (leads_reference htype).bind (fun _ => .pure _) c
  · exact (leads_reference htype).bind (fun _ => .pure _) c
  · exact hmissing c

end

/-- **A type leaves plain groups open at most.** -/
theorem leads_type : Leads n m [] [] type := by
  induction m with
  | zero => exact fun _ _ l hl => absurd hl (Nat.not_lt_zero l)
  | succ m ih =>
    intro c st l hl h
    rw [← typeLayer_type h.closed]
    exact leads_typeLayer ih c st l hl h

/-! ## Declarations -/

theorem leads_definedType (isGeneric : Bool) : Leads n m [] [] (definedType isGeneric) := by
  have htype : Leads n m [] [] (do return some (← type)) := .bind leads_type fun _ => .pure _
  refine .bind (.eat (by decide)) fun _ => .ite htype (.bind (.stay fun _ => rfl) fun _ => ?_)
  refine .ite ?_ (.bind (.stay fun _ => rfl) fun _ => .ite ?_ (.pure _))
  · exact .bind (.stay fun _ => rfl) fun _ => .bind (.report _) fun _ => htype
  · exact .bind (.missing _) fun _ => htype

theorem leadsAt_declarationHead (hk : c.current.kind = .identifier) :
    LeadsAt n (m + 1) c [] [] declarationHead := by
  have hrest (name : Token) (generics : Option GenericParams) :
      Leads n (m + 1) [] [] (declarationOf name generics) := by
    refine .bind (leads_definedType _) fun t => ?_
    cases t with
    | some t => exact .bind (.stay fun _ => rfl) fun _ => .pure _
    | none => exact .bind (.stay fun _ => rfl) fun _ => .bind (.unexpected _) fun _ => .pure _
  refine .bind (.advance (by rw [hk]; decide)) fun name d => ?_
  refine .look (check_apply _ _) (.ite (fun hk => ?_) fun _ => hrest name none d)
  exact .bind (p := some <$> genericParams) (LeadsAt.genericParams (by simpa using hk)) (hrest name)

/-- A group in braces that is skipped is left at its own closing brace. -/
theorem leadsAt_skipGroup (hk : KindSet.bodyStart.contains c.current.kind = true) :
    LeadsAt n m c [] [] skipGroup := by
  rintro st l - ⟨E, hE, hc, hle⟩
  have hopen : KindSet.opener.contains c.current.kind = true := KindSet.opener_of_bodyStart hk
  have hcloser (d : Cursor) (hfalse : (checkSet .closer d).1 = false) :
      ∀ k ∈ (c.current.kind :: (E ++ st)).head?, d.current.kind ≠ k.closing := by
    rintro k hk heq
    obtain rfl : c.current.kind = k := by simpa using hk
    rw [checkSet_apply, heq, closer_closing] at hfalse
    simp at hfalse
  obtain ⟨E', hsuffix, hd, e, hstop, heq⟩ := nested_skipUntil (E := []) (fun c _ => .refl c)
    (fun _ => rfl) (fun _ _ hB => absurd hB (List.cons_ne_nil _ _)) hcloser
    (hc.advance_opener hopen)
  obtain rfl := List.suffix_nil.1 hsuffix
  obtain ⟨o, st', hst, -, hadvance⟩ := hd.exists_advance_closer (by rw [heq]; exact hstop)
  obtain ⟨-, rfl⟩ := List.cons.inj hst
  have hmoves : Moves skipGroup := moves_of_carries fun _ => Translation.carries_skipGroup
  exact ⟨E, hE, hadvance, Nat.le_trans (hmoves.left_le hc.closed) hle⟩

/-- Skipping the rest of a declaration stops at a terminator outside all groups. -/
theorem within_skipUntil_atDeclarationStop (h : c.Within n [] l) :
    (skipUntil atDeclarationStop c).2.Within n [] l := by
  obtain ⟨E, hE, hc, hle⟩ := h
  have hterminator (d : Cursor) (hfalse : (atDeclarationStop d).1 = false) :
      d.current.kind ≠ .terminator := by
    intro hk
    simp [atDeclarationStop, hk] at hfalse
  obtain ⟨E', hsuffix, hd, -⟩ := nested_skipUntil (B := []) moves_atDeclarationStop
    tokens_atDeclarationStop (fun d hfalse _ => hterminator d hfalse)
    (fun _ _ _ ho => by simp at ho) hc
  exact ⟨E', fun k hk => hE k (hsuffix.subset hk), hd,
    Nat.le_trans (moves_atDeclarationStop.skipUntil.left_le hc.closed) hle⟩

end DeclFront
