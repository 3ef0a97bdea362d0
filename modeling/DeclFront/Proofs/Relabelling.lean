import DeclFront.Proofs.Grammar
import DeclFront.Proofs.TreeMap
import Mathlib.Data.List.Forall2

/-!
# Derivations look at kinds alone

Tokens of the same kinds have the same derivations. Where each token of one list **stands for** a
token of another one (`StandsFor`), a derivation of the latter is carried over to the former, and
the trees differ by the tokens and offsets only (`Carried`). No phrase has the end of input or an
invalid token inside.
-/

namespace DeclFront

open DeclFront.Grammar

/-- The token `u` is of the kind of `t`, which `f` and `g` give back from it. -/
structure StandsFor (f : Token → Token) (g : Nat → Nat) (t u : Token) : Prop where
  kind_eq : u.kind = t.kind
  token_eq : f u = t
  start_eq : g u.start = t.start
  stop_eq : g u.stop = t.stop

/-- The tokens `us` stand for the tokens `ts`, one by one. -/
abbrev StandFor (f : Token → Token) (g : Nat → Nat) : List Token → List Token → Prop :=
  List.Forall₂ (StandsFor f g)

section

variable {f : Token → Token} {g : Nat → Nat} {t : Token} {ts ts' us : List Token}

theorem StandFor.exists_append (h : StandFor f g (ts ++ ts') us) :
    ∃ us₁ us₂, StandFor f g ts us₁ ∧ StandFor f g ts' us₂ ∧ us = us₁ ++ us₂ := by
  induction ts generalizing us with
  | nil => exact ⟨[], us, .nil, h, rfl⟩
  | cons t ts ih =>
    obtain ⟨u, us, hu, hus, rfl⟩ := List.forall₂_cons_left_iff.1 h
    obtain ⟨us₁, us₂, h₁, h₂, rfl⟩ := ih hus
    exact ⟨u :: us₁, us₂, .cons hu h₁, h₂, rfl⟩

theorem StandFor.exists_cons (h : StandFor f g (t :: ts) us) :
    ∃ u us', StandsFor f g t u ∧ StandFor f g ts us' ∧ us = u :: us' :=
  List.forall₂_cons_left_iff.1 h

theorem StandFor.exists_singleton (h : StandFor f g [t] us) :
    ∃ u, StandsFor f g t u ∧ us = [u] := by
  obtain ⟨u, us, hu, hus, rfl⟩ := h.exists_cons
  cases hus
  exact ⟨u, hu, rfl⟩

theorem StandFor.stop_eq (h : StandFor f g ts us) {n m : Nat} (hn : g n = m) :
    g (lastStop n us) = lastStop m ts := by
  induction h generalizing n m with
  | nil => exact hn
  | cons ht _ ih => exact ih ht.stop_eq

/-- The span of tokens that stand for others is mapped to the span of those. -/
theorem StandFor.span_eq (h : StandFor f g ts us) (hne : ts ≠ []) :
    (Span.ofTokens us).map g = .ofTokens ts := by
  cases h with
  | nil => exact absurd rfl hne
  | cons ht hts => exact congrArg₂ Span.mk ht.start_eq (StandFor.stop_eq hts ht.stop_eq)

end

/-- Neither the end of input nor an invalid token is among the tokens. -/
def Proper (ts : List Token) : Prop := ∀ t ∈ ts, t.kind ≠ .endOfInput ∧ t.kind ≠ .invalid

@[simp] theorem proper_nil : Proper [] := by simp [Proper]

@[simp] theorem proper_cons {t : Token} {ts : List Token} :
    Proper (t :: ts) ↔ (t.kind ≠ .endOfInput ∧ t.kind ≠ .invalid) ∧ Proper ts :=
  List.forall_mem_cons

@[simp] theorem proper_append {ts us : List Token} : Proper (ts ++ us) ↔ Proper ts ∧ Proper us :=
  List.forall_mem_append

variable {α : Type} (f : Token → Token) (g : Nat → Nat)

/-- The tokens `ts`, which mean `a`, are proper, and whatever stands for them means the same, up to
the map `F` of trees. -/
structure Carried (P : Phrase α) (F : α → α) (ts : List Token) (a : α) : Prop where
  proper : Proper ts
  exists_tree : ∀ us, StandFor f g ts us → ∃ b, P us b ∧ F b = a

/-- The phrases of fewer than `m` tokens are carried over. -/
def CarriedBelow (m : Nat) (P : Phrase α) (F : α → α) : Prop :=
  ∀ ts a, ts.length < m → P ts a → Carried f g P F ts a

variable {f g} {m : Nat} {item : Phrase α} {F : α → α}

/-! ## Lists -/

theorem carriedBelow_optional (hitem : CarriedBelow f g m item F) :
    CarriedBelow f g m (Optional item) (Option.map F) := by
  intro ts a hm h
  cases h with
  | absent =>
    refine ⟨proper_nil, fun us hus => ?_⟩
    cases hus
    exact ⟨none, .absent, rfl⟩
  | present h =>
    obtain ⟨hproper, hcarry⟩ := hitem _ _ hm h
    refine ⟨hproper, fun us hus => ?_⟩
    obtain ⟨b, hb, rfl⟩ := hcarry us hus
    exact ⟨some b, .present hb, rfl⟩

theorem carried_mark {k : TokenKind} {ts : List Token} {b : Bool} (h : IsMark k ts b)
    (hk : k ≠ .endOfInput ∧ k ≠ .invalid) : Carried f g (IsMark k) id ts b := by
  cases h with
  | absent =>
    refine ⟨proper_nil, fun us hus => ?_⟩
    cases hus
    exact ⟨false, .absent, rfl⟩
  | present ht =>
    refine ⟨by simpa [ht] using hk, fun us hus => ?_⟩
    obtain ⟨u, hu, rfl⟩ := hus.exists_singleton
    exact ⟨true, .present (hu.kind_eq.trans ht), rfl⟩

theorem carriedBelow_commaList (hitem : CarriedBelow f g m item F) :
    CarriedBelow f g m (CommaList item) (List.map F) := by
  intro ts as hm h
  induction h with
  | one h =>
    obtain ⟨hproper, hcarry⟩ := hitem _ _ hm h
    refine ⟨hproper, fun us hus => ?_⟩
    obtain ⟨b, hb, rfl⟩ := hcarry us hus
    exact ⟨[b], .one hb, rfl⟩
  | trailing h hcomma =>
    simp only [List.length_append, List.length_singleton] at hm
    obtain ⟨hproper, hcarry⟩ := hitem _ _ (by omega) h
    refine ⟨by simp [hproper, hcomma], fun us hus => ?_⟩
    obtain ⟨us₁, us₂, h₁, h₂, rfl⟩ := hus.exists_append
    obtain ⟨comma', hc, rfl⟩ := h₂.exists_singleton
    obtain ⟨b, hb, rfl⟩ := hcarry us₁ h₁
    exact ⟨[b], .trailing hb (hc.kind_eq.trans hcomma), rfl⟩
  | cons h hcomma _ ih =>
    simp only [List.length_append, List.length_cons] at hm
    obtain ⟨hproper, hcarry⟩ := hitem _ _ (by omega) h
    obtain ⟨hproper', hcarry'⟩ := ih (by omega)
    refine ⟨by simp [hproper, hproper', hcomma], fun us hus => ?_⟩
    obtain ⟨us₁, us₂, h₁, h₂, rfl⟩ := hus.exists_append
    obtain ⟨comma', us₃, hc, h₃, rfl⟩ := h₂.exists_cons
    obtain ⟨b, hb, rfl⟩ := hcarry us₁ h₁
    obtain ⟨bs, hbs, rfl⟩ := hcarry' us₃ h₃
    exact ⟨b :: bs, .cons hb (hc.kind_eq.trans hcomma) hbs, rfl⟩

/-- What stands for tokens with others around them. -/
theorem StandFor.exists_enclosed {t t' : Token} {ts us : List Token}
    (h : StandFor f g (t :: ts ++ [t']) us) :
    ∃ u us' u', u.kind = t.kind ∧ StandFor f g ts us' ∧ u'.kind = t'.kind ∧
      us = u :: us' ++ [u'] := by
  obtain ⟨us₁, us₂, h₁, h₂, rfl⟩ := h.exists_append
  obtain ⟨u, us', hu, hus, rfl⟩ := h₁.exists_cons
  obtain ⟨u', hu', rfl⟩ := h₂.exists_singleton
  exact ⟨u, us', u', hu.kind_eq, hus, hu'.kind_eq, rfl⟩

theorem carriedBelow_bracketed (hitem : CarriedBelow f g m item F) :
    CarriedBelow f g (m + 1) (Bracketed item) (List.map F) := by
  intro ts as hm h
  cases h with
  | mk hbracket h hclose =>
    simp only [List.length_append, List.length_cons] at hm
    obtain ⟨hproper, hcarry⟩ := carriedBelow_commaList hitem _ _ (by omega) h
    refine ⟨by simp [hproper, hbracket, hclose], fun us hus => ?_⟩
    obtain ⟨bracket', us', close', hopen, h', hc, rfl⟩ := hus.exists_enclosed
    obtain ⟨bs, hbs, rfl⟩ := hcarry us' h'
    exact ⟨bs, .mk (hopen.trans hbracket) hbs (hc.trans hclose), rfl⟩

theorem proper_of_separators {seps : List Token} (h : ∀ t ∈ seps, IsSeparator t) : Proper seps := by
  intro t ht
  rcases h t ht with hk | hk <;> simp [hk]

/-- What stands for tokens of some kinds is of those kinds. -/
theorem StandFor.forall_kind {P : TokenKind → Prop} {ts us : List Token} (h : StandFor f g ts us)
    (hts : ∀ t ∈ ts, P t.kind) : ∀ u ∈ us, P u.kind := by
  induction h with
  | nil => simp
  | cons ht _ ih =>
    rw [List.forall_mem_cons] at hts ⊢
    exact ⟨ht.kind_eq ▸ hts.1, ih hts.2⟩

theorem StandFor.separators {seps us : List Token} (h : StandFor f g seps us)
    (hseps : ∀ t ∈ seps, IsSeparator t) : ∀ u ∈ us, IsSeparator u :=
  h.forall_kind (P := fun k => k = .comma ∨ k = .terminator) hseps

theorem carriedBelow_members (hitem : CarriedBelow f g m item F) :
    CarriedBelow f g m (Members item) (List.map F) := by
  intro ts as hm h
  induction h with
  | nil hseps =>
    exact ⟨proper_of_separators hseps, fun us hus => ⟨[], .nil (hus.separators hseps), rfl⟩⟩
  | last hseps h =>
    simp only [List.length_append] at hm
    obtain ⟨hproper, hcarry⟩ := hitem _ _ (by omega) h
    refine ⟨by simp [hproper, proper_of_separators hseps], fun us hus => ?_⟩
    obtain ⟨us₁, us₂, h₁, h₂, rfl⟩ := hus.exists_append
    obtain ⟨b, hb, rfl⟩ := hcarry us₂ h₂
    exact ⟨[b], .last (h₁.separators hseps) hb, rfl⟩
  | cons hseps h hsep _ ih =>
    simp only [List.length_append, List.length_cons] at hm
    obtain ⟨hproper, hcarry⟩ := hitem _ _ (by omega) h
    obtain ⟨hproper', hcarry'⟩ := ih (by omega)
    have hproper'' := proper_of_separators (List.forall_mem_singleton.2 hsep)
    simp only [proper_cons] at hproper''
    refine ⟨by simp [hproper, hproper', hproper'', proper_of_separators hseps], fun us hus => ?_⟩
    obtain ⟨us₁, us₂, h₁, h₂, rfl⟩ := hus.exists_append
    obtain ⟨us₃, us₄, h₃, h₄, rfl⟩ := h₁.exists_append
    obtain ⟨sep', us₅, hsep', h₅, rfl⟩ := h₂.exists_cons
    obtain ⟨b, hb, rfl⟩ := hcarry us₄ h₄
    obtain ⟨bs, hbs, rfl⟩ := hcarry' us₅ h₅
    refine ⟨b :: bs, .cons (h₃.separators hseps) hb ?_ hbs, rfl⟩
    rwa [IsSeparator, hsep'.kind_eq]

theorem carriedBelow_braced {k : TokenKind} (hitem : CarriedBelow f g m item F)
    (hk : k ≠ .endOfInput ∧ k ≠ .invalid) :
    CarriedBelow f g (m + 1) (Braced k item) (List.map F) := by
  intro ts as hm h
  cases h with
  | mk hbrace h hclose =>
    simp only [List.length_append, List.length_cons] at hm
    obtain ⟨hproper, hcarry⟩ := carriedBelow_members hitem _ _ (by omega) h
    refine ⟨by simpa [hproper, hbrace, hclose] using hk, fun us hus => ?_⟩
    obtain ⟨brace', us', close', hopen, h', hc, rfl⟩ := hus.exists_enclosed
    obtain ⟨bs, hbs, rfl⟩ := hcarry us' h'
    exact ⟨bs, .mk (hopen.trans hbrace) hbs (hc.trans hclose), rfl⟩

/-! ## Names -/

theorem carried_identifier {ts : List Token} {t : Token} (h : IsIdentifier ts t) :
    Carried f g IsIdentifier f ts t := by
  cases h with
  | mk ht =>
    refine ⟨by simp [ht], fun us hus => ?_⟩
    obtain ⟨u, hu, rfl⟩ := hus.exists_singleton
    exact ⟨u, .mk (hu.kind_eq.trans ht), hu.token_eq⟩

theorem carried_segments {ts segments : List Token} (h : Segments ts segments) :
    Carried f g Segments (List.map f) ts segments := by
  induction h with
  | nil =>
    refine ⟨proper_nil, fun us hus => ?_⟩
    cases hus
    exact ⟨[], .nil, rfl⟩
  | cons hsep ht _ ih =>
    refine ⟨?_, fun us hus => ?_⟩
    · rcases hsep with hsep | hsep <;> simp [hsep, ht, ih.proper]
    · obtain ⟨sep', us₁, hs, h₁, rfl⟩ := hus.exists_cons
      obtain ⟨u, us₂, hu, h₂, rfl⟩ := h₁.exists_cons
      obtain ⟨bs, hbs, rfl⟩ := ih.exists_tree us₂ h₂
      refine ⟨u :: bs, .cons ?_ (hu.kind_eq.trans ht) hbs, ?_⟩
      · rwa [hs.kind_eq]
      · rw [List.map_cons, hu.token_eq]

theorem carried_path {ts : List Token} {name : Path} (h : IsPath ts name) :
    Carried f g IsPath (Path.map f g) ts name := by
  cases h with
  | mk ht hrest =>
    obtain ⟨hproper, hcarry⟩ := carried_segments (f := f) (g := g) hrest
    refine ⟨by simp [ht, hproper], fun us hus => ?_⟩
    have hspan := hus.span_eq (by simp)
    obtain ⟨u, us', hu, h', rfl⟩ := hus.exists_cons
    obtain ⟨bs, hbs, rfl⟩ := hcarry us' h'
    refine ⟨_, .mk (hu.kind_eq.trans ht) hbs, ?_⟩
    rw [Path.map, hspan, List.map_cons, hu.token_eq]

/-! ## Types -/

section

variable {type : Phrase TypeExpr}

theorem carried_ownership {ts : List Token} {held : Ownership} (h : IsOwnership ts held) :
    Carried f g IsOwnership id ts held := by
  cases h with
  | unspecified =>
    refine ⟨proper_nil, fun us hus => ?_⟩
    cases hus
    exact ⟨_, .unspecified, rfl⟩
  | own ht =>
    refine ⟨by simp [ht], fun us hus => ?_⟩
    obtain ⟨u, hu, rfl⟩ := hus.exists_singleton
    exact ⟨_, .own (hu.kind_eq.trans ht), rfl⟩
  | borrow ht =>
    refine ⟨by simp [ht], fun us hus => ?_⟩
    obtain ⟨u, hu, rfl⟩ := hus.exists_singleton
    exact ⟨_, .borrow (hu.kind_eq.trans ht), rfl⟩

theorem carriedBelow_genericArgs (htype : CarriedBelow f g m type (TypeExpr.map f g)) :
    CarriedBelow f g (m + 1) (IsGenericArgs type) (GenericArgs.map f g) := by
  intro ts args hm h
  cases h with
  | mk h =>
    obtain ⟨hproper, hcarry⟩ := carriedBelow_bracketed htype _ _ hm h
    refine ⟨hproper, fun us hus => ?_⟩
    have hspan := hus.span_eq (by cases h; simp)
    obtain ⟨bs, hbs, rfl⟩ := hcarry us hus
    refine ⟨_, .mk hbs, ?_⟩
    simp [GenericArgs.map, hspan]

theorem carriedBelow_reference (htype : CarriedBelow f g m type (TypeExpr.map f g)) :
    CarriedBelow f g (m + 1) (IsReference type) (TypeRef.map f g) := by
  intro ts ref hm h
  have hne := h.ne_nil
  cases h with
  | mk hheld hname hargs hoptional =>
    simp only [List.length_append] at hm
    obtain ⟨hproper₁, hcarry₁⟩ := carried_ownership (f := f) (g := g) hheld
    obtain ⟨hproper₂, hcarry₂⟩ := carried_path (f := f) (g := g) hname
    obtain ⟨hproper₃, hcarry₃⟩ :=
      carriedBelow_optional (carriedBelow_genericArgs htype) _ _ (by omega) hargs
    obtain ⟨hproper₄, hcarry₄⟩ := carried_mark (f := f) (g := g) hoptional (by decide)
    refine ⟨by simp [hproper₁, hproper₂, hproper₃, hproper₄], fun us hus => ?_⟩
    have hspan := hus.span_eq hne
    obtain ⟨before₃, us₄, hbefore₃, h₄, rfl⟩ := hus.exists_append
    obtain ⟨before₂, us₃, hbefore₂, h₃, rfl⟩ := hbefore₃.exists_append
    obtain ⟨us₁, us₂, h₁, h₂, rfl⟩ := hbefore₂.exists_append
    obtain ⟨_, hheld', rfl⟩ := hcarry₁ us₁ h₁
    obtain ⟨_, hname', rfl⟩ := hcarry₂ us₂ h₂
    obtain ⟨_, hargs', rfl⟩ := hcarry₃ us₃ h₃
    obtain ⟨_, hoptional', rfl⟩ := hcarry₄ us₄ h₄
    refine ⟨_, .mk hheld' hname' hargs' hoptional', ?_⟩
    rw [TypeRef.map_mk, hspan]
    rfl

theorem carried_paramName {ts : List Token} {name : Option Token} (h : IsParamName ts name) :
    Carried f g IsParamName (Option.map f) ts name := by
  cases h with
  | absent =>
    refine ⟨proper_nil, fun us hus => ?_⟩
    cases hus
    exact ⟨none, .absent, rfl⟩
  | present hname hcolon =>
    refine ⟨by simp [hname, hcolon], fun us hus => ?_⟩
    obtain ⟨u, us', hu, h', rfl⟩ := hus.exists_cons
    obtain ⟨v, hv, rfl⟩ := StandFor.exists_singleton h'
    refine ⟨some u, .present (hu.kind_eq.trans hname) (hv.kind_eq.trans hcolon), ?_⟩
    rw [Option.map_some, hu.token_eq]

theorem carriedBelow_param (hne : ∀ ts t, type ts t → ts ≠ [])
    (htype : CarriedBelow f g m type (TypeExpr.map f g)) :
    CarriedBelow f g m (IsParam type) (Param.map f g) := by
  intro ts param hm h
  cases h with
  | mk hname h =>
    simp only [List.length_append] at hm
    obtain ⟨hproper, hcarry⟩ := carried_paramName (f := f) (g := g) hname
    obtain ⟨hproper', hcarry'⟩ := htype _ _ (by omega) h
    refine ⟨by simp [hproper, hproper'], fun us hus => ?_⟩
    have hspan := hus.span_eq (by simp [hne _ _ h])
    obtain ⟨us₁, us₂, h₁, h₂, rfl⟩ := hus.exists_append
    obtain ⟨_, hname', rfl⟩ := hcarry us₁ h₁
    obtain ⟨_, h', rfl⟩ := hcarry' us₂ h₂
    refine ⟨_, .mk hname' h', ?_⟩
    simp [Param.map, hspan]

theorem carriedBelow_params (hne : ∀ ts t, type ts t → ts ≠ [])
    (htype : CarriedBelow f g m type (TypeExpr.map f g)) :
    CarriedBelow f g m (IsParams type) (List.map (Param.map f g)) := by
  intro ts params hm h
  cases h with
  | none =>
    refine ⟨proper_nil, fun us hus => ?_⟩
    cases hus
    exact ⟨[], .none, rfl⟩
  | some h =>
    obtain ⟨hproper, hcarry⟩ :=
      carriedBelow_commaList (carriedBelow_param hne htype) _ _ hm h
    refine ⟨hproper, fun us hus => ?_⟩
    obtain ⟨bs, hbs, rfl⟩ := hcarry us hus
    exact ⟨bs, .some hbs, rfl⟩

theorem carriedBelow_function (hne : ∀ ts t, type ts t → ts ≠ [])
    (htype : CarriedBelow f g m type (TypeExpr.map f g)) :
    CarriedBelow f g (m + 1) (IsFunction type) (FunctionType.map f g) := by
  intro ts x hm h
  have hnil := h.ne_nil
  cases h with
  | mk hasync hparen hparams hclose harrow hresult =>
    simp only [List.length_append, List.length_cons] at hm
    obtain ⟨hproper₁, hcarry₁⟩ := carried_mark (f := f) (g := g) hasync (by decide)
    obtain ⟨hproper₂, hcarry₂⟩ := carriedBelow_params hne htype _ _ (by omega) hparams
    obtain ⟨hproper₃, hcarry₃⟩ := htype _ _ (by omega) hresult
    refine ⟨by simp [hproper₁, hproper₂, hproper₃, hparen, hclose, harrow], fun us hus => ?_⟩
    have hspan := hus.span_eq hnil
    obtain ⟨front, back, hfront, hback, rfl⟩ := hus.exists_append
    obtain ⟨us₁, list, h₁, hlist, rfl⟩ := hfront.exists_append
    obtain ⟨paren', us₂, hp, h₂, rfl⟩ := hlist.exists_cons
    obtain ⟨close', returns, hc, hreturns, rfl⟩ := hback.exists_cons
    obtain ⟨arrow', us₃, ha, h₃, rfl⟩ := hreturns.exists_cons
    obtain ⟨_, hasync', rfl⟩ := hcarry₁ us₁ h₁
    obtain ⟨_, hparams', rfl⟩ := hcarry₂ us₂ h₂
    obtain ⟨_, hresult', rfl⟩ := hcarry₃ us₃ h₃
    refine ⟨_, .mk hasync' (hp.kind_eq.trans hparen) hparams' (hc.kind_eq.trans hclose)
      (ha.kind_eq.trans harrow) hresult', ?_⟩
    simp only [FunctionType.map, hspan, id]

/-! ## Members -/

theorem carriedBelow_method (hne : ∀ ts t, type ts t → ts ≠ [])
    (htype : CarriedBelow f g m type (TypeExpr.map f g)) :
    CarriedBelow f g m (IsMethod type) (Method.map f g) := by
  intro ts x hm h
  cases h with
  | mk hname hcolon h =>
    simp only [List.length_cons] at hm
    obtain ⟨hproper, hcarry⟩ := carriedBelow_function hne htype _ _ (by omega) h
    refine ⟨by simp [hproper, hname, hcolon], fun us hus => ?_⟩
    have hspan := hus.span_eq (by simp)
    obtain ⟨name', us₁, hn, h₁, rfl⟩ := hus.exists_cons
    obtain ⟨colon', us₂, hc, h₂, rfl⟩ := h₁.exists_cons
    obtain ⟨_, h', rfl⟩ := hcarry us₂ h₂
    refine ⟨_, .mk (hn.kind_eq.trans hname) (hc.kind_eq.trans hcolon) h', ?_⟩
    simp [Method.map, hspan, hn.token_eq]

theorem carriedBelow_payload (htype : CarriedBelow f g m type (TypeExpr.map f g)) :
    CarriedBelow f g m (IsPayload type) (TypeExpr.map f g) := by
  intro ts x hm h
  cases h with
  | mk hparen h hclose =>
    simp only [List.length_append, List.length_cons] at hm
    obtain ⟨hproper, hcarry⟩ := htype _ _ (by omega) h
    refine ⟨by simp [hproper, hparen, hclose], fun us hus => ?_⟩
    obtain ⟨paren', us', close', hp, h', hc, rfl⟩ := hus.exists_enclosed
    obtain ⟨x', hx, rfl⟩ := hcarry us' h'
    exact ⟨x', .mk (hp.trans hparen) hx (hc.trans hclose), rfl⟩

theorem carried_assigned {ks : List TokenKind} {ts : List Token} {value : Token}
    (h : IsAssigned ks ts value) (hks : ∀ k ∈ ks, k ≠ .endOfInput ∧ k ≠ .invalid) :
    Carried f g (IsAssigned ks) f ts value := by
  cases h with
  | mk hequal hvalue =>
    refine ⟨by simpa [hequal] using hks _ hvalue, fun us hus => ?_⟩
    obtain ⟨equal', us', he, h', rfl⟩ := hus.exists_cons
    obtain ⟨value', hv, rfl⟩ := StandFor.exists_singleton h'
    exact ⟨value', .mk (he.kind_eq.trans hequal) (hv.kind_eq ▸ hvalue), hv.token_eq⟩

theorem carriedBelow_variant (htype : CarriedBelow f g m type (TypeExpr.map f g)) :
    CarriedBelow f g m (IsVariant type) (Variant.map f g) := by
  intro ts x hm h
  have hassigned (n : Nat) : CarriedBelow f g n (IsAssigned [.integer]) f :=
    fun _ _ _ h => carried_assigned h (by decide)
  cases h with
  | mk htag hpayload hdiscriminant =>
    simp only [List.length_append, List.length_cons] at hm
    obtain ⟨hproper, hcarry⟩ :=
      carriedBelow_optional (carriedBelow_payload htype) _ _ (by omega) hpayload
    obtain ⟨hproper', hcarry'⟩ :=
      carriedBelow_optional (hassigned _) _ _ (Nat.lt_succ_self _) hdiscriminant
    refine ⟨by simp [hproper, hproper', htag], fun us hus => ?_⟩
    have hspan := hus.span_eq (by simp)
    obtain ⟨front, us₂, hfront, h₂, rfl⟩ := hus.exists_append
    obtain ⟨tag', us₁, ht, h₁, rfl⟩ := hfront.exists_cons
    obtain ⟨_, hpayload', rfl⟩ := hcarry us₁ h₁
    obtain ⟨_, hdiscriminant', rfl⟩ := hcarry' us₂ h₂
    refine ⟨_, .mk (ht.kind_eq.trans htag) hpayload' hdiscriminant', ?_⟩
    rw [Variant.map_mk, hspan, ht.token_eq]

theorem carriedBelow_field (htype : CarriedBelow f g m type (TypeExpr.map f g)) :
    CarriedBelow f g m (IsRecordField type) (Field.map f g) := by
  intro ts x hm h
  have hassigned (n : Nat) : CarriedBelow f g n (IsAssigned literals) f :=
    fun _ _ _ h => carried_assigned h (by decide)
  cases h with
  | mk hname hcolon h hdefault =>
    simp only [List.length_append, List.length_cons] at hm
    obtain ⟨hproper, hcarry⟩ := htype _ _ (by omega) h
    obtain ⟨hproper', hcarry'⟩ :=
      carriedBelow_optional (hassigned _) _ _ (Nat.lt_succ_self _) hdefault
    refine ⟨by simp [hproper, hproper', hname, hcolon], fun us hus => ?_⟩
    have hspan := hus.span_eq (by simp)
    obtain ⟨front, us₂, hfront, h₂, rfl⟩ := hus.exists_append
    obtain ⟨name', rest, hn, hrest, rfl⟩ := hfront.exists_cons
    obtain ⟨colon', us₁, hc, h₁, rfl⟩ := hrest.exists_cons
    obtain ⟨_, h', rfl⟩ := hcarry us₁ h₁
    obtain ⟨_, hdefault', rfl⟩ := hcarry' us₂ h₂
    refine ⟨_, .mk (hn.kind_eq.trans hname) (hc.kind_eq.trans hcolon) h' hdefault', ?_⟩
    simp only [Field.map, hspan, hn.token_eq]

end

/-- Types that are longer by one token than those that are carried over. -/
theorem carriedBelow_type_succ (htype : CarriedBelow f g m IsType (TypeExpr.map f g)) :
    CarriedBelow f g (m + 1) IsType (TypeExpr.map f g) := by
  intro ts x hm h
  have hne : ts ≠ [] := h.ne_nil
  have hnonempty : ∀ ts t, IsType ts t → ts ≠ [] := fun _ _ h => h.ne_nil
  cases h with
  | reference h =>
    obtain ⟨hproper, hcarry⟩ := carriedBelow_reference htype _ _ hm h
    refine ⟨hproper, fun us hus => ?_⟩
    obtain ⟨_, h', rfl⟩ := hcarry us hus
    exact ⟨_, .reference h', by simp [TypeExpr.map]⟩
  | protocol h =>
    obtain ⟨hproper, hcarry⟩ :=
      carriedBelow_braced (carriedBelow_method hnonempty htype) (by decide) _ _ hm h
    refine ⟨hproper, fun us hus => ?_⟩
    obtain ⟨_, h', rfl⟩ := hcarry us hus
    exact ⟨_, .protocol h', by simp [TypeExpr.map, hus.span_eq hne]⟩
  | union h =>
    obtain ⟨hproper, hcarry⟩ :=
      carriedBelow_braced (carriedBelow_variant htype) (by decide) _ _ hm h
    refine ⟨hproper, fun us hus => ?_⟩
    obtain ⟨_, h', rfl⟩ := hcarry us hus
    exact ⟨_, .union h', by simp [TypeExpr.map, hus.span_eq hne]⟩
  | record h =>
    obtain ⟨hproper, hcarry⟩ := carriedBelow_braced (carriedBelow_field htype) (by decide) _ _ hm h
    refine ⟨hproper, fun us hus => ?_⟩
    obtain ⟨_, h', rfl⟩ := hcarry us hus
    exact ⟨_, .record h', by simp [TypeExpr.map, hus.span_eq hne]⟩
  | tuple h =>
    obtain ⟨hproper, hcarry⟩ := carriedBelow_braced htype (by decide) _ _ hm h
    refine ⟨hproper, fun us hus => ?_⟩
    obtain ⟨_, h', rfl⟩ := hcarry us hus
    exact ⟨_, .tuple h', by simp [TypeExpr.map, hus.span_eq hne]⟩
  | function h =>
    obtain ⟨hproper, hcarry⟩ := carriedBelow_function hnonempty htype _ _ hm h
    refine ⟨hproper, fun us hus => ?_⟩
    obtain ⟨_, h', rfl⟩ := hcarry us hus
    exact ⟨_, .function h', by simp [TypeExpr.map]⟩

theorem carriedBelow_type : ∀ m, CarriedBelow f g m IsType (TypeExpr.map f g)
  | 0 => fun _ _ hm => absurd hm (Nat.not_lt_zero _)
  | m + 1 => carriedBelow_type_succ (carriedBelow_type m)

/-! ## Modules -/

theorem carriedBelow_genericParams (m : Nat) :
    CarriedBelow f g m IsGenericParams (GenericParams.map f g) := by
  intro ts params hm h
  cases h with
  | mk h =>
    have hidentifier : CarriedBelow f g m IsIdentifier f := fun _ _ _ h => carried_identifier h
    obtain ⟨hproper, hcarry⟩ := carriedBelow_bracketed hidentifier _ _ (Nat.lt_succ_of_lt hm) h
    refine ⟨hproper, fun us hus => ?_⟩
    have hspan := hus.span_eq (by cases h; simp)
    obtain ⟨bs, hbs, rfl⟩ := hcarry us hus
    refine ⟨_, .mk hbs, ?_⟩
    rw [GenericParams.map, hspan]

theorem carried_declaration {ts : List Token} {d : Declaration} (h : IsDeclaration ts d) :
    Carried f g IsDeclaration (Declaration.map f g) ts d := by
  cases h with
  | mk hname hgenerics hdefine h =>
    obtain ⟨hproper, hcarry⟩ :=
      carriedBelow_optional (carriedBelow_genericParams (f := f) (g := g) _) _ _
        (Nat.lt_succ_self _) hgenerics
    obtain ⟨hproper', hcarry'⟩ := carriedBelow_type (f := f) (g := g) _ _ _ (Nat.lt_succ_self _) h
    refine ⟨by simp [hproper, hproper', hname, hdefine], fun us hus => ?_⟩
    have hspan := hus.span_eq (by simp)
    obtain ⟨front, back, hfront, hback, rfl⟩ := hus.exists_append
    obtain ⟨name', us₁, hn, h₁, rfl⟩ := hfront.exists_cons
    obtain ⟨define', us₂, hd, h₂, rfl⟩ := hback.exists_cons
    obtain ⟨_, hgenerics', rfl⟩ := hcarry us₁ h₁
    obtain ⟨_, h', rfl⟩ := hcarry' us₂ h₂
    refine ⟨_, .mk (hn.kind_eq.trans hname) hgenerics' (hd.kind_eq.trans hdefine) h', ?_⟩
    rw [Declaration.map, hspan, hn.token_eq]

theorem proper_of_terminators {ts : List Token} (h : ∀ t ∈ ts, t.kind = .terminator) :
    Proper ts := by
  intro t ht
  simp [h t ht]

theorem StandFor.terminators {ts us : List Token} (h : StandFor f g ts us)
    (hts : ∀ t ∈ ts, t.kind = .terminator) : ∀ u ∈ us, u.kind = .terminator :=
  h.forall_kind (P := (· = .terminator)) hts

theorem carried_declarations {ts : List Token} {ds : List Declaration} (h : Declarations ts ds) :
    Carried f g Declarations (List.map (Declaration.map f g)) ts ds := by
  induction h with
  | nil =>
    refine ⟨proper_nil, fun us hus => ?_⟩
    cases hus
    exact ⟨[], .nil, rfl⟩
  | last h =>
    obtain ⟨hproper, hcarry⟩ := carried_declaration (f := f) (g := g) h
    refine ⟨hproper, fun us hus => ?_⟩
    obtain ⟨d, hd, rfl⟩ := hcarry us hus
    exact ⟨[d], .last hd, rfl⟩
  | cons h hrun hne _ ih =>
    obtain ⟨hproper, hcarry⟩ := carried_declaration (f := f) (g := g) h
    refine ⟨by simp [hproper, ih.proper, proper_of_terminators hrun], fun us hus => ?_⟩
    obtain ⟨front, us₃, hfront, h₃, rfl⟩ := hus.exists_append
    obtain ⟨us₁, us₂, h₁, h₂, rfl⟩ := hfront.exists_append
    obtain ⟨d, hd, rfl⟩ := hcarry us₁ h₁
    obtain ⟨ds, hds, rfl⟩ := ih.exists_tree us₃ h₃
    refine ⟨d :: ds, .cons hd (StandFor.terminators h₂ hrun) ?_ hds, rfl⟩
    rintro rfl
    exact hne (List.forall₂_nil_right_iff.1 h₂)

theorem carried_header {ts : List Token} {header : ModuleHeader} (h : IsHeader ts header) :
    Carried f g IsHeader (ModuleHeader.map f g) ts header := by
  cases h with
  | mk hopen₁ hopen₂ h hclose₁ hclose₂ =>
    obtain ⟨hproper, hcarry⟩ := carried_path (f := f) (g := g) h
    refine ⟨by simp [hproper, hopen₁, hopen₂, hclose₁, hclose₂], fun us hus => ?_⟩
    have hspan := hus.span_eq (by simp)
    obtain ⟨front, back, hfront, hback, rfl⟩ := hus.exists_append
    obtain ⟨open₁', rest, ho₁, hrest, rfl⟩ := hfront.exists_cons
    obtain ⟨open₂', us', ho₂, h', rfl⟩ := hrest.exists_cons
    obtain ⟨close₁', last, hc₁, hlast, rfl⟩ := hback.exists_cons
    obtain ⟨close₂', hc₂, rfl⟩ := StandFor.exists_singleton hlast
    obtain ⟨_, hname, rfl⟩ := hcarry us' h'
    refine ⟨_, .mk (ho₁.kind_eq.trans hopen₁) (ho₂.kind_eq.trans hopen₂) hname
      (hc₁.kind_eq.trans hclose₁) (hc₂.kind_eq.trans hclose₂), ?_⟩
    rw [ModuleHeader.map, hspan]

/-- **A derivation of a module is carried over to whatever stands for its tokens.** -/
theorem carried_module {ts : List Token} {r : ModuleHeader × List Declaration} (h : IsModule ts r) :
    (∃ us last, ts = us ++ [last] ∧ Proper us ∧ last.kind = .endOfInput) ∧
      ∀ us, StandFor f g ts us → ∃ b, IsModule us b ∧
        (ModuleHeader.map f g b.1, b.2.map (Declaration.map f g)) = r := by
  cases h with
  | mk hbefore hheader hrun hds hlast =>
    obtain ⟨hproper, hcarry⟩ := carried_header (f := f) (g := g) hheader
    obtain ⟨hproper', hcarry'⟩ := carried_declarations (f := f) (g := g) hds
    refine ⟨⟨_, _, rfl, ?_, hlast⟩, fun us hus => ?_⟩
    · simp [hproper, hproper', proper_of_terminators hbefore, proper_of_terminators hrun]
    · obtain ⟨front, back, hfront, hback, rfl⟩ := hus.exists_append
      obtain ⟨middle, us₄, hmiddle, h₄, rfl⟩ := hfront.exists_append
      obtain ⟨start, us₃, hstart, h₃, rfl⟩ := hmiddle.exists_append
      obtain ⟨us₁, us₂, h₁, h₂, rfl⟩ := hstart.exists_append
      obtain ⟨last', hl, rfl⟩ := hback.exists_singleton
      obtain ⟨header, hheader', rfl⟩ := hcarry us₂ h₂
      obtain ⟨ds, hds', rfl⟩ := hcarry' us₄ h₄
      exact ⟨(header, ds), .mk (StandFor.terminators h₁ hbefore) hheader'
        (StandFor.terminators h₃ hrun) hds' (hl.kind_eq.trans hlast), rfl⟩

end DeclFront
