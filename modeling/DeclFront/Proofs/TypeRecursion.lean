import DeclFront.Proofs.Transport

/-!
# The recursion of types

The parser of types is the layer of a type whose inside is the parser of types again. Its definition
guards the recursion: inside, fewer tokens must be left, or a placeholder is taken. The guard never
comes into play. A layer asks for the types inside only from cursors with fewer tokens left
(`Parser.typeLayer_eq_type`), and therefore `typeLayer type` is `type` itself.

With that the parser of types carries every translation (`Translation.carries_type`), by induction
on the number of tokens left.
-/

namespace DeclFront

open DeclFront.Parser

/-- The translation that changes nothing. -/
def Translation.identity : Translation where
  token := id
  offset := id
  cursor := id
  valid := Cursor.Closed
  lost := fun _ => False
  kind_token := fun _ => rfl
  start_token := fun _ => rfl
  stop_token := fun _ => rfl
  missing_token := fun _ => rfl
  offset_mono := monotone_id
  valid_step := Cursor.Step.closed
  lost_step := fun _ => id
  lost_report := fun _ => id
  closed := id
  closed_cursor := fun h _ => h
  current_cursor := fun _ _ => rfl
  consumedTo_cursor := fun _ _ => rfl
  left_cursor := fun _ _ _ => Iff.rfl
  peek_cursor := fun _ _ _ => rfl
  advance_cursor := fun _ _ => rfl
  report_cursor := fun _ _ _ _ => rfl
  skipEmpty_cursor := fun _ _ _ => rfl

namespace Parser

variable {c : Cursor}

/-- A parser that agrees with another wherever fewer than `n` tokens are left is the translation of
it that changes nothing. -/
theorem carries_of_agree {n : Nat} {p q : Parser TypeExpr}
    (hreaches : ∀ d : Cursor, d.Closed → d.left < n → d.Reaches (p d).2)
    (hagree : ∀ d : Cursor, d.Closed → d.left < n → q d = p d) :
    Translation.identity.Carries n p q (TypeExpr.map id id) := by
  refine fun d hd hc => ⟨hreaches d hc hd, fun _ => ?_⟩
  show q d = _
  rw [hagree d hc hd, TypeExpr.map_id]
  rfl

/-- The layers of two parsers that agree wherever fewer tokens are left do the same. -/
theorem typeLayer_of_agree {p q : Parser TypeExpr} (hc : c.Closed)
    (hreaches : ∀ d : Cursor, d.Closed → d.left < c.left → d.Reaches (p d).2)
    (hagree : ∀ d : Cursor, d.Closed → d.left < c.left → q d = p d) :
    c.Reaches (typeLayer p c).2 ∧ typeLayer q c = typeLayer p c := by
  obtain ⟨hr, hrun⟩ := Translation.Carries.typeLayer (carries_of_agree hreaches hagree) c
    (Nat.lt_succ_self _) hc
  have hrun := hrun not_false
  rw [show Translation.identity.cursor c = c from rfl] at hrun
  exact ⟨hr, hrun.trans (Prod.ext (TypeExpr.map_id _) rfl)⟩

theorem type_unfold (hc : c.Closed) : c.Reaches (type c).2 ∧ typeLayer type c = type c := by
  induction hn : c.left using Nat.strongRecOn generalizing c with
  | ind n ih =>
    subst hn
    have hguard (d : Cursor) (hd : d.left < c.left) :
        (if d.left < c.left then type d else (.missing d.current, d)) = type d := if_pos hd
    rw [type]
    refine typeLayer_of_agree hc (fun d hdc hd => ?_) fun d _ hd => (hguard d hd).symm
    rw [hguard d hd]
    exact (ih _ hd hdc rfl).1

theorem reaches_type (hc : c.Closed) : c.Reaches (type c).2 := (type_unfold hc).1

/-- The parser of types is the layer around itself. -/
theorem typeLayer_type (hc : c.Closed) : typeLayer type c = type c := (type_unfold hc).2

/-- **The types inside are asked for with fewer tokens left.** A layer around any parser that agrees
with `type` where fewer tokens are left is `type`. -/
theorem typeLayer_eq_type (hc : c.Closed) {inner : Parser TypeExpr}
    (h : ∀ d : Cursor, d.Closed → d.left < c.left → inner d = type d) :
    typeLayer inner c = type c :=
  (typeLayer_of_agree hc (fun _ hd _ => reaches_type hd) h).2.trans (typeLayer_type hc)

end Parser

namespace Translation

variable {T : Translation} {n : Nat}

theorem carries_type : T.Carries n type type (TypeExpr.map T.token T.offset) := by
  induction n with
  | zero => exact fun c hn => absurd hn (Nat.not_lt_zero _)
  | succ n ih =>
    intro c hn hc
    obtain ⟨hr, hrun⟩ := Carries.typeLayer ih c hn hc
    rw [typeLayer_type (T.closed hc)] at hr hrun
    refine ⟨hr, fun hl => ?_⟩
    rw [← hrun hl, typeLayer_type (T.closed_cursor hc (T.not_lost_of_reaches hr hl))]

/-! ## Modules -/

theorem carries_closeHeader : T.Carries n closeHeader closeHeader id := by
  refine .bind (carries_expect .rightBracket) fun close => ?_
  rw [Option.isSome_map]
  exact .ite (.bind (carries_expect .rightBracket) fun _ => .pure rfl) (.pure rfl)

theorem carriesAt_report {c : Cursor} {code : DiagnosticCode} (hcode : code.concern = .syntactic)
    (hne : code ≠ .unexpectedToken) {t : Token} (ht : c.current = t) :
    T.CarriesAt c (report (.aboutToken code .parsing t))
      (report (.aboutToken code .parsing (T.token t))) id := by
  subst ht
  intro hc
  have hr : c.Reaches (c.report (Cursor.complaint code .empty c.current)) :=
    (Cursor.Step.complain hcode fun h => absurd h hne).reaches
  exact ⟨hr, fun hl => Prod.ext rfl
    (T.report_cursor code .empty hc (T.not_lost_of_reaches hr hl))⟩

theorem carries_header :
    T.Carries n header header (ModuleHeader.map T.token T.offset) := by
  intro c hn
  have hopen (t : Token) : T.Carries n
      (do
        let _ ← advance
        let _ ← advance
        let name ← path
        closeHeader
        return (⟨name, ⟨t.start, ← consumedTo⟩, false⟩ : ModuleHeader))
      (do
        let _ ← advance
        let _ ← advance
        let name ← path
        closeHeader
        return ⟨name, ⟨(T.token t).start, ← consumedTo⟩, false⟩)
      (ModuleHeader.map T.token T.offset) := by
    refine .bind carries_advance fun _ => .bind carries_advance fun _ => .bind carries_path
      fun name => .bindSame carries_closeHeader fun _ => .bind carries_consumedTo fun stop =>
      .pure ?_
    simp [ModuleHeader.map, Span.map, T.start_token]
  have hmissing {d : Cursor} {t : Token} (ht : d.current = t) : T.CarriesAt d
      (do
        report (.aboutToken .missingHeader .parsing t)
        return (⟨.missing t, .point t.start, true⟩ : ModuleHeader))
      (do
        report (.aboutToken .missingHeader .parsing (T.token t))
        return ⟨.missing (T.token t), .point (T.token t).start, true⟩)
      (ModuleHeader.map T.token T.offset) := by
    refine .bind (carriesAt_report rfl (by decide) ht) fun _ => .pure ?_
    simp [ModuleHeader.map, missing_map, Span.map, Span.point, T.start_token]
  refine .bind (carries_current c hn) fun _ => .bind (carries_check .leftBracket c hn) fun _ => ?_
  simp only [check_apply, current_apply, id]
  apply CarriesAt.ite
  · intro hk
    refine .bind (carriesAt_peekKind (.inr (by simpa using hk))) fun hr => ?_
    refine .bind (F := id) (.pure rfl) fun _ => ?_
    apply CarriesAt.ite
    · exact fun _ => hopen _ _ (Nat.lt_of_le_of_lt hr.left_le hn)
    · exact fun _ => hmissing (Cursor.current_peek c)
  · exact fun _ => .bind (F := id) (.pure rfl) fun _ => hmissing rfl

theorem carries_closeDeclaration :
    T.Carries n closeDeclaration closeDeclaration id := by
  intro c hn
  have hrecover : T.Carries n
      (do
        unexpected [.terminator]
        recoverDeclaration)
      (do
        unexpected [.terminator]
        recoverDeclaration) id :=
    .bindSame (carries_unexpected _) fun _ => carries_recoverDeclaration
  refine .bind (carries_currentKind c hn) fun _ => ?_
  simp only [currentKind_apply, id]
  split
  · exact .bind (carries_advance c hn) fun _ => .pure rfl
  · exact .pure rfl
  · rename_i hk
    refine .bind (carriesAt_namesDeclaration hk) fun hr => ?_
    have hn' := Nat.lt_of_le_of_lt hr.left_le hn
    apply CarriesAt.ite
    · exact fun _ => carries_missing .terminator _ hn'
    · exact fun _ => hrecover _ hn'
  · exact hrecover c hn

theorem carries_definedType (isGeneric : Bool) :
    T.Carries n (definedType isGeneric) (definedType isGeneric)
      (Option.map (TypeExpr.map T.token T.offset)) := by
  have htype : T.Carries n (do return some (← type)) (do return some (← type))
      (Option.map (TypeExpr.map T.token T.offset)) := .bind carries_type fun _ => .pure rfl
  refine .bind (carries_eat .colonEqual) fun define => ?_
  rw [Option.isSome_map]
  refine .ite htype (.bindSame (carries_checkSet _) fun _ => .ite ?_ ?_)
  · intro c hn
    refine .bind (carries_current c hn) fun _ => .bind (carriesAt_report rfl (by decide) rfl)
      fun hr => ?_
    exact htype _ (Nat.lt_of_le_of_lt hr.left_le hn)
  · refine .bindSame (carries_checkSet _) fun _ => .ite ?_ (.pure rfl)
    exact .bindSame (carries_missing .colonEqual) fun _ => htype

theorem carries_declarationOf (name : Token) (generics : Option GenericParams) :
    T.Carries n (declarationOf name generics)
      (declarationOf (T.token name) (generics.map (GenericParams.map T.token T.offset)))
      (Prod.map (Declaration.map T.token T.offset) id) := by
  rw [declarationOf, declarationOf, Option.isSome_map]
  refine .bind (carries_definedType _) fun t => ?_
  cases t with
  | some t =>
    refine .bind carries_consumedTo fun stop => .pure ?_
    simp [Declaration.map, Span.map, T.start_token, T.offset_mono.map_max]
  | none =>
    refine .bind carries_current fun place => .bindSame (carries_unexpected _) fun _ => .pure ?_
    simp only [Prod.map, Declaration.map, typeMissing_map, span_token,
      Span.map_merge T.offset_mono]
    simp [Span.map, Span.point, T.start_token]

theorem carries_declarationHead :
    T.Carries n declarationHead declarationHead
      (Prod.map (Declaration.map T.token T.offset) id) := by
  refine .bind carries_advance fun name => .bindSame (carries_check .leftBracket) fun _ => ?_
  refine .ite ?_ ?_
  · refine .bind (.map (H := Option.map _) carries_genericParams fun _ => rfl) fun generics => ?_
    exact carries_declarationOf name generics
  · exact .bind (F := Option.map _) (.pure rfl) fun generics => carries_declarationOf name generics

theorem carries_declaration :
    T.Carries n declaration declaration (Declaration.map T.token T.offset) := by
  refine .bind carries_declarationHead fun (d, isComplete) => ?_
  refine .ite (.bindSame carries_closeDeclaration fun _ => .pure rfl) ?_
  exact .bindSame carries_recoverDeclaration fun _ => .pure rfl

theorem carries_furtherDeclaration :
    T.Carries n furtherDeclaration furtherDeclaration
      (Round.map (Declaration.map T.token T.offset)) := by
  have hrest (item : Option Declaration) : T.Carries n
      (do
        skipTerminators
        return (⟨item, true⟩ : Round Declaration))
      (do
        skipTerminators
        return ⟨item.map (Declaration.map T.token T.offset), true⟩)
      (Round.map (Declaration.map T.token T.offset)) :=
    .bindSame carries_skipTerminators fun _ => .pure rfl
  refine .bindSame carries_isAtEnd fun _ => .ite (.pure rfl) ?_
  refine .bindSame (carries_check .identifier) fun _ => .bindSame (carries_checkSet _) fun _ => ?_
  refine .ite ?_ (.ite ?_ ?_)
  · exact .bind (.map (H := Option.map _) carries_declaration fun _ => rfl) hrest
  · exact .bindSame (carries_unexpected _) fun _ => .bindSame carries_skipGroup fun _ =>
      .bind (F := Option.map _) (.pure rfl) hrest
  · exact .bindSame (carries_unexpected _) fun _ => .bindSame carries_recoverDeclaration fun _ =>
      .bind (F := Option.map _) (.pure rfl) hrest

/-- **The parser of modules carries every translation.** -/
theorem carries_module :
    T.Carries n module module
      (Prod.map (ModuleHeader.map T.token T.offset)
        (List.map (Declaration.map T.token T.offset))) :=
  .bindSame carries_skipTerminators fun _ => .bind carries_header fun _ =>
    .bindSame carries_skipTerminators fun _ => .bind (.collect carries_furtherDeclaration) fun _ =>
      .pure rfl

end Translation

namespace Parser

/-- Parsing a module is a sequence of moves. -/
theorem reaches_module {c : Cursor} (hc : c.Closed) : c.Reaches (module c).2 :=
  (Translation.carries_module (T := .identity) c (Nat.lt_succ_self _) hc).1

end Parser

end DeclFront
