import DeclFront.Proofs.Constituents
import DeclFront.Proofs.Grammar

/-!
# What the constituents are derived from

In a module that is in the grammar, each constituent is derived from consecutive tokens, which are
some of those that the constituent around it is derived from (`IsConstituent.exists_infix`). It
spans them from the first one to the last one (`IsConstituent.span_eq`).

A declaration is one of the text between two runs of terminators, and it ends with a token that may
end a type.
-/

namespace DeclFront

namespace Grammar

variable {α : Type} {item : Phrase α} {ts : List Token} {as : List α}

/-! ## Lists -/

theorem CommaList.exists_infix (h : CommaList item ts as) :
    ∀ a ∈ as, ∃ us, us <:+: ts ∧ item us a := by
  induction h with
  | one h =>
    intro a ha
    obtain rfl := List.mem_singleton.1 ha
    exact ⟨_, List.infix_rfl, h⟩
  | trailing h =>
    intro a ha
    obtain rfl := List.mem_singleton.1 ha
    exact ⟨_, (List.prefix_append _ _).isInfix, h⟩
  | @cons ts rest _ _ comma h _ _ ih =>
    intro a ha
    rcases List.mem_cons.1 ha with rfl | ha
    · exact ⟨_, (List.prefix_append _ _).isInfix, h⟩
    · obtain ⟨us, hus, hitem⟩ := ih a ha
      have hrest : rest <:+ ts ++ comma :: rest :=
        (List.suffix_cons _ _).trans (List.suffix_append _ _)
      exact ⟨us, hus.trans hrest.isInfix, hitem⟩

/-- What stands between the first token and the last one. -/
theorem infix_enclosed (t u : Token) (ts : List Token) : ts <:+: t :: ts ++ [u] := ⟨[t], [u], rfl⟩

theorem Bracketed.exists_infix (h : Bracketed item ts as) :
    ∀ a ∈ as, ∃ us, us <:+: ts ∧ item us a := by
  cases h with
  | mk _ h =>
    intro a ha
    obtain ⟨us, hus, hitem⟩ := h.exists_infix a ha
    exact ⟨us, hus.trans (infix_enclosed _ _ _), hitem⟩

theorem Members.exists_infix (h : Members item ts as) :
    ∀ a ∈ as, ∃ us, us <:+: ts ∧ item us a := by
  induction h with
  | nil => simp
  | last _ h =>
    intro a ha
    obtain rfl := List.mem_singleton.1 ha
    exact ⟨_, (List.suffix_append _ _).isInfix, h⟩
  | @cons seps ts rest _ _ sep _ h _ _ ih =>
    intro a ha
    rcases List.mem_cons.1 ha with rfl | ha
    · exact ⟨ts, ⟨seps, sep :: rest, rfl⟩, h⟩
    · obtain ⟨us, hus, hitem⟩ := ih a ha
      exact ⟨us, hus.trans ⟨seps ++ ts ++ [sep], [], by simp⟩, hitem⟩

theorem Braced.exists_infix {k : TokenKind} (h : Braced k item ts as) :
    ∀ a ∈ as, ∃ us, us <:+: ts ∧ item us a := by
  cases h with
  | mk _ h =>
    intro a ha
    obtain ⟨us, hus, hitem⟩ := h.exists_infix a ha
    exact ⟨us, hus.trans (infix_enclosed _ _ _), hitem⟩

theorem Optional.of_mem_toList {o : Option α} (h : Optional item ts o) :
    ∀ a ∈ o.toList, item ts a := by
  cases h with
  | absent => exact fun a ha => absurd ha List.not_mem_nil
  | present h =>
    intro a ha
    obtain rfl := List.mem_singleton.1 ha
    exact h

/-! ## Phrases with types inside -/

section

variable {type : Phrase TypeExpr}

theorem IsParams.exists_infix {params : List Param} (h : IsParams type ts params) :
    ∀ p ∈ params, ∃ us, us <:+: ts ∧ IsParam type us p := by
  cases h with
  | none => simp
  | some h => exact h.exists_infix

theorem IsReference.exists_infix_path {ref : TypeRef} (h : IsReference type ts ref) :
    ∃ us, us <:+: ts ∧ IsPath us ref.path := by
  cases h with
  | @mk ts us vs ws _ _ _ _ _ hname _ _ => exact ⟨us, ⟨ts, vs ++ ws, by simp⟩, hname⟩

theorem IsReference.exists_infix_args {ref : TypeRef} (h : IsReference type ts ref) :
    ∀ a ∈ ref.args.toList, ∃ us, us <:+: ts ∧ IsGenericArgs type us a := by
  cases h with
  | @mk ts us vs ws _ _ _ _ _ _ hargs _ =>
    exact fun a ha => ⟨vs, ⟨ts ++ us, ws, rfl⟩, hargs.of_mem_toList a ha⟩

theorem IsFunction.exists_infix_params {f : FunctionType} (h : IsFunction type ts f) :
    ∀ p ∈ f.params, ∃ us, us <:+: ts ∧ IsParam type us p := by
  cases h with
  | @mk ts us vs paren close arrow _ _ _ _ _ hparams _ _ _ =>
    intro p hp
    obtain ⟨ws, hws, h⟩ := hparams.exists_infix p hp
    exact ⟨ws, hws.trans ⟨ts ++ [paren], close :: arrow :: vs, by simp⟩, h⟩

theorem IsFunction.exists_infix_result {f : FunctionType} (h : IsFunction type ts f) :
    ∃ us, us <:+: ts ∧ type us f.result := by
  cases h with
  | @mk ts us vs paren close arrow _ _ _ _ _ _ _ _ hresult =>
    exact ⟨vs, ⟨ts ++ paren :: us ++ [close, arrow], [], by simp⟩, hresult⟩

theorem IsVariant.exists_infix {v : Variant} (h : IsVariant type ts v) :
    ∀ t ∈ v.payload.toList, ∃ us, us <:+: ts ∧ type us t := by
  cases h with
  | @mk tag ts us _ _ _ hpayload _ =>
    intro t ht
    cases hpayload.of_mem_toList t ht with
    | mk _ h _ => exact ⟨_, (infix_enclosed _ _ _).trans ⟨[tag], us, rfl⟩, h⟩

end

theorem IsDeclaration.exists_infix_generics {d : Declaration} (h : IsDeclaration ts d) :
    ∀ g ∈ d.generics.toList, ∃ us, us <:+: ts ∧ IsGenericParams us g := by
  cases h with
  | @mk name define ts us _ _ _ hgenerics _ _ =>
    exact fun g hg => ⟨ts, ⟨[name], define :: us, rfl⟩, hgenerics.of_mem_toList g hg⟩

theorem IsDeclaration.exists_infix_type {d : Declaration} (h : IsDeclaration ts d) :
    ∃ us, us <:+: ts ∧ IsType us d.type := by
  cases h with
  | @mk name define ts us _ _ _ _ _ h => exact ⟨us, ⟨name :: ts ++ [define], [], by simp⟩, h⟩

/-! ## Constituents -/

/-- The constituent is derived from the tokens. -/
def IsConstituent (ts : List Token) : Constituent → Prop
  | .header h => IsHeader ts h
  | .path p => IsPath ts p
  | .generics g => IsGenericParams ts g
  | .args a => IsGenericArgs IsType ts a
  | .node (.declaration d) => IsDeclaration ts d
  | .node (.type t) => IsType ts t
  | .node (.method m) => IsMethod IsType ts m
  | .node (.variant v) => IsVariant IsType ts v
  | .node (.field f) => IsRecordField IsType ts f
  | .node (.param p) => IsParam IsType ts p

namespace IsConstituent

variable {x y : Constituent}

theorem span_eq (h : IsConstituent ts x) : x.span = .ofTokens ts := by
  match x with
  | .node (.type t) => exact IsType.span_eq h
  | .header _ | .path _ | .generics _ | .args _ => cases h; rfl
  | .node (.declaration _) | .node (.method _) | .node (.variant _) | .node (.field _)
  | .node (.param _) => cases h; rfl

theorem ne_nil (h : IsConstituent ts x) : ts ≠ [] := by
  match x with
  | .node (.type t) => exact IsType.ne_nil h
  | .path _ => exact IsPath.ne_nil h
  | .args _ => cases h with | mk h => cases h; simp
  | .generics _ => cases h with | mk h => cases h; simp
  | .node (.param _) => cases h with | mk _ h => simp [h.ne_nil]
  | .header _ => cases h; simp
  | .node (.declaration _) | .node (.method _) | .node (.variant _) | .node (.field _) =>
    cases h; simp

/-- The constituents right below are derived from some of the tokens. -/
theorem exists_infix (h : IsConstituent ts x) :
    ∀ y ∈ x.children, ∃ us, us <:+: ts ∧ IsConstituent us y := by
  intro y hy
  match x with
  | .path _ | .generics _ => exact absurd hy List.not_mem_nil
  | .header _ =>
    cases h with
    | @mk open₁ open₂ close₁ close₂ ts _ _ _ h _ _ =>
      obtain rfl := List.mem_singleton.1 hy
      exact ⟨ts, ⟨[open₁, open₂], [close₁, close₂], rfl⟩, h⟩
  | .args a =>
    obtain ⟨t, ht, rfl⟩ := List.mem_map.1 hy
    cases h with
    | mk h => exact h.exists_infix t ht
  | .node (.declaration _) =>
    rcases List.mem_append.1 hy with hy | hy
    · obtain ⟨g, hg, rfl⟩ := List.mem_map.1 hy
      exact IsDeclaration.exists_infix_generics h g hg
    · obtain rfl := List.mem_singleton.1 hy
      exact IsDeclaration.exists_infix_type h
  | .node (.type (.reference _)) =>
    cases h with
    | reference h =>
      rcases List.mem_cons.1 hy with rfl | hy
      · exact h.exists_infix_path
      · obtain ⟨a, ha, rfl⟩ := List.mem_map.1 hy
        exact h.exists_infix_args a ha
  | .node (.type (.protocol _ _)) =>
    obtain ⟨m, hm, rfl⟩ := List.mem_map.1 hy
    cases h with
    | protocol h => exact h.exists_infix m hm
  | .node (.type (.union _ _)) =>
    obtain ⟨v, hv, rfl⟩ := List.mem_map.1 hy
    cases h with
    | union h => exact h.exists_infix v hv
  | .node (.type (.record _ _)) =>
    obtain ⟨f, hf, rfl⟩ := List.mem_map.1 hy
    cases h with
    | record h => exact h.exists_infix f hf
  | .node (.type (.tuple _ _)) =>
    obtain ⟨t, ht, rfl⟩ := List.mem_map.1 hy
    cases h with
    | tuple h => exact h.exists_infix t ht
  | .node (.type (.function _)) =>
    cases h with
    | function h =>
      rcases List.mem_append.1 hy with hy | hy
      · obtain ⟨p, hp, rfl⟩ := List.mem_map.1 hy
        exact h.exists_infix_params p hp
      · obtain rfl := List.mem_singleton.1 hy
        exact h.exists_infix_result
  | .node (.method _) =>
    obtain rfl := List.mem_singleton.1 hy
    cases h with
    | @mk name colon ts _ _ _ h => exact ⟨ts, ⟨[name, colon], [], by simp⟩, .function h⟩
  | .node (.variant _) =>
    obtain ⟨t, ht, rfl⟩ := List.mem_map.1 hy
    exact IsVariant.exists_infix h t ht
  | .node (.field _) =>
    obtain rfl := List.mem_singleton.1 hy
    cases h with
    | @mk name colon ts us _ _ _ _ h _ => exact ⟨ts, ⟨[name, colon], us, rfl⟩, h⟩
  | .node (.param _) =>
    obtain rfl := List.mem_singleton.1 hy
    cases h with
    | mk _ h => exact ⟨_, (List.suffix_append _ _).isInfix, h⟩

/-- All constituents inside are derived from some of the tokens. -/
theorem exists_infix_of_contains (h : IsConstituent ts x) (hy : x.Contains y) :
    ∃ us, us <:+: ts ∧ IsConstituent us y := by
  induction hy with
  | refl => exact ⟨ts, List.infix_rfl, h⟩
  | tail _ hy ih =>
    obtain ⟨us, hus, hx⟩ := ih
    obtain ⟨vs, hvs, hy⟩ := hx.exists_infix _ hy
    exact ⟨vs, hvs.trans hus, hy⟩

end IsConstituent

/-! ## Declarations -/

theorem IsDeclaration.span_eq {d : Declaration} (h : IsDeclaration ts d) :
    d.span = .ofTokens ts := by
  cases h
  rfl

/-- A declaration begins with its name. -/
theorem IsDeclaration.head?_eq {d : Declaration} (h : IsDeclaration ts d) :
    ts.head? = some d.name := by
  cases h
  rfl

theorem Declarations.exists_append {ds : List Declaration} (h : Declarations ts ds) :
    ∀ d ∈ ds, ∃ before us behind, ts = before ++ us ++ behind ∧ IsDeclaration us d ∧
      ∀ t ∈ behind.head?, t.kind = .terminator := by
  induction h with
  | nil => simp
  | @last ts _ h =>
    intro d hd
    obtain rfl := List.mem_singleton.1 hd
    exact ⟨[], ts, [], by simp, h, by simp⟩
  | @cons ts run rest _ _ h hrun hne _ ih =>
    intro d hd
    rcases List.mem_cons.1 hd with rfl | hd
    · refine ⟨[], ts, run ++ rest, by simp, h, fun t ht => ?_⟩
      rw [List.head?_append_of_ne_nil _ hne] at ht
      exact hrun t (List.mem_of_mem_head? ht)
    · obtain ⟨before, us, behind, rfl, hd⟩ := ih d hd
      exact ⟨ts ++ run ++ before, us, behind, by simp, hd⟩

/-- Behind each declaration of a module there stands a terminator or the end of input. -/
theorem IsModule.exists_append {r : ModuleHeader × List Declaration} (h : IsModule ts r) :
    ∀ d ∈ r.2, ∃ before us mark behind, ts = before ++ us ++ mark :: behind ∧ IsDeclaration us d ∧
      (mark.kind = .terminator ∨ mark.kind = .endOfInput) := by
  cases h with
  | @mk front head run ds last _ _ _ _ _ hds hlast =>
    intro d hd
    obtain ⟨before, us, behind, rfl, hd, hbehind⟩ := hds.exists_append d hd
    cases behind with
    | nil => exact ⟨front ++ head ++ run ++ before, us, last, [], by simp, hd, .inr hlast⟩
    | cons mark behind =>
      exact ⟨front ++ head ++ run ++ before, us, mark, behind ++ [last], by simp, hd,
        .inl (hbehind mark rfl)⟩

/-- Each constituent of a module is derived from consecutive tokens. -/
theorem IsModule.exists_infix {m : Module} (h : IsModule ts (m.header, m.members))
    {x : Constituent} (hx : m.Has x) : ∃ us, us <:+: ts ∧ IsConstituent us x := by
  rcases hx with hx | ⟨d, hd, hx⟩
  · generalize hr : (m.header, m.members) = r at h
    cases h with
    | @mk before us run vs last _ _ _ hheader _ _ _ =>
      obtain ⟨rfl, -⟩ := Prod.mk.inj hr
      obtain ⟨ws, hws, hx⟩ := IsConstituent.exists_infix_of_contains (x := .header _) hheader hx
      exact ⟨ws, hws.trans ⟨before, run ++ vs ++ [last], by simp⟩, hx⟩
  · obtain ⟨before, us, mark, behind, hts, hd, -⟩ := h.exists_append d hd
    obtain ⟨ws, hws, hx⟩ :=
      IsConstituent.exists_infix_of_contains (x := .node (.declaration d)) hd hx
    exact ⟨ws, hws.trans ⟨before, mark :: behind, hts.symm⟩, hx⟩

/-! ## What types end with -/

/-- The kinds of the tokens that a type may end with. -/
def typeEnds : List TokenKind := [.identifier, .rightBracket, .question, .rightBrace]

/-- The last token is one that may end a type. -/
def EndsType (ts : List Token) : Prop := ∃ us u, ts = us ++ [u] ∧ u.kind ∈ typeEnds

theorem EndsType.append (h : EndsType ts) (us : List Token) : EndsType (us ++ ts) := by
  obtain ⟨vs, u, rfl, hu⟩ := h
  exact ⟨us ++ vs, u, by simp, hu⟩

theorem IsPath.endsType {name : Path} (h : IsPath ts name) : EndsType ts := by
  have hsegments {ts segments : List Token} (h : Segments ts segments) :
      ∀ t : Token, t.kind = .identifier → EndsType (t :: ts) := by
    induction h with
    | nil => exact fun t ht => ⟨[], t, rfl, by simp [typeEnds, ht]⟩
    | @cons sep t ts _ _ ht _ ih => exact fun u _ => (ih t ht).append [u, sep]
  cases h with
  | mk ht hrest => exact hsegments hrest _ ht

theorem IsReference.endsType {type : Phrase TypeExpr} {ref : TypeRef}
    (h : IsReference type ts ref) : EndsType ts := by
  cases h with
  | @mk ts us vs ws _ _ _ _ _ hname hargs hoptional =>
    cases hoptional with
    | present h => exact EndsType.append ⟨[], _, rfl, by simp [typeEnds, h]⟩ _
    | absent =>
      rw [List.append_nil]
      cases hargs with
      | absent =>
        rw [List.append_nil]
        exact hname.endsType.append ts
      | present h => cases h with
        | mk h => cases h with
          | @mk bracket close vs _ _ _ hclose =>
            exact EndsType.append ⟨bracket :: vs, close, rfl, by simp [typeEnds, hclose]⟩ _

theorem Braced.endsType {k : TokenKind} (h : Braced k item ts as) : EndsType ts := by
  cases h with
  | @mk brace close ts _ _ _ hclose => exact ⟨brace :: ts, close, rfl, by simp [typeEnds, hclose]⟩

theorem IsType.endsType {t : TypeExpr} (h : IsType ts t) : EndsType ts := by
  induction hn : ts.length using Nat.strongRecOn generalizing ts t with
  | ind n ih =>
    cases h with
    | reference h => exact h.endsType
    | protocol h => exact h.endsType
    | union h => exact h.endsType
    | record h => exact h.endsType
    | tuple h => exact h.endsType
    | function h => cases h with
      | @mk ts us vs paren close arrow _ _ _ _ _ _ _ _ hresult =>
        have hlt : vs.length < n := by
          rw [← hn]
          simp only [List.length_append, List.length_cons]
          omega
        have := (ih _ hlt hresult rfl).append (ts ++ paren :: us ++ [close, arrow])
        simpa using this

theorem IsDeclaration.endsType {d : Declaration} (h : IsDeclaration ts d) : EndsType ts := by
  cases h with
  | @mk name define ts us _ _ _ _ _ h =>
    have := h.endsType.append (name :: ts ++ [define])
    simpa using this

end Grammar

end DeclFront
