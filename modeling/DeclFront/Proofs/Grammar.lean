import DeclFront.Parser.KindSet
import DeclFront.Syntax.Tree

/-!
# The grammar

Which tokens make which phrase, and the tree of each. A phrase relates a list of tokens to what it
means; it looks at the kinds of the tokens alone, and says nothing of what stands around them. The
span of a tree reaches from the first of its tokens to the last.

Any run of terminators may stand between declarations. In a body any run of separators may stand
before, between and behind the members, with one at least between two members.

The phrases that have types inside are stated over any phrase for types; `IsType` closes the circle.
-/

namespace DeclFront

/-- Where the last of some tokens ends; `n` if there are none. -/
def lastStop (n : Nat) : List Token → Nat
  | [] => n
  | t :: ts => lastStop t.stop ts

/-- The span from the first of some tokens to the last. -/
def Span.ofTokens : List Token → Span
  | [] => .nowhere
  | t :: ts => ⟨t.start, lastStop t.stop ts⟩

/-- Tokens and what they mean. -/
abbrev Phrase (α : Type) := List Token → α → Prop

namespace Grammar

variable {α : Type}

/-! ## Lists -/

/-- `item?` -/
inductive Optional (item : Phrase α) : Phrase (Option α)
  | absent : Optional item [] none
  | present {ts : List Token} {a : α} (h : item ts a) : Optional item ts (some a)

/-- A token of kind `k`, or none. -/
inductive IsMark (k : TokenKind) : Phrase Bool
  | absent : IsMark k [] false
  | present {t : Token} (h : t.kind = k) : IsMark k [t] true

/-- `item ("," item)* ","?` -/
inductive CommaList (item : Phrase α) : Phrase (List α)
  | one {ts : List Token} {a : α} (h : item ts a) : CommaList item ts [a]
  | trailing {ts : List Token} {a : α} {comma : Token} (h : item ts a)
    (hcomma : comma.kind = .comma) : CommaList item (ts ++ [comma]) [a]
  | cons {ts rest : List Token} {a : α} {as : List α} {comma : Token} (h : item ts a)
    (hcomma : comma.kind = .comma) (hrest : CommaList item rest as) :
    CommaList item (ts ++ comma :: rest) (a :: as)

/-- `"[" item ("," item)* ","? "]"` -/
inductive Bracketed (item : Phrase α) : Phrase (List α)
  | mk {bracket close : Token} {ts : List Token} {as : List α}
    (hbracket : bracket.kind = .leftBracket) (h : CommaList item ts as)
    (hclose : close.kind = .rightBracket) : Bracketed item (bracket :: ts ++ [close]) as

/-- A separator of members. -/
def IsSeparator (t : Token) : Prop := t.kind = .comma ∨ t.kind = .terminator

/-- `sep* (member sep+)* member? sep*` -/
inductive Members (member : Phrase α) : Phrase (List α)
  | nil {seps : List Token} (hseps : ∀ t ∈ seps, IsSeparator t) : Members member seps []
  | last {seps ts : List Token} {a : α} (hseps : ∀ t ∈ seps, IsSeparator t) (h : member ts a) :
    Members member (seps ++ ts) [a]
  | cons {seps ts rest : List Token} {a : α} {as : List α} {sep : Token}
    (hseps : ∀ t ∈ seps, IsSeparator t) (h : member ts a) (hsep : IsSeparator sep)
    (hrest : Members member rest as) : Members member (seps ++ ts ++ sep :: rest) (a :: as)

/-- Members in braces of which the first is of kind `k`. -/
inductive Braced (k : TokenKind) (member : Phrase α) : Phrase (List α)
  | mk {brace close : Token} {ts : List Token} {as : List α} (hbrace : brace.kind = k)
    (h : Members member ts as) (hclose : close.kind = .rightBrace) :
    Braced k member (brace :: ts ++ [close]) as

/-! ## Names -/

/-- `IDENT` -/
inductive IsIdentifier : Phrase Token
  | mk {t : Token} (h : t.kind = .identifier) : IsIdentifier [t] t

/-- `(("." | "::") IDENT)*` -/
inductive Segments : Phrase (List Token)
  | nil : Segments [] []
  | cons {sep t : Token} {ts segments : List Token}
    (hsep : sep.kind = .dot ∨ sep.kind = .colonColon) (ht : t.kind = .identifier)
    (hrest : Segments ts segments) : Segments (sep :: t :: ts) (t :: segments)

/-- `IDENT (("." | "::") IDENT)*` -/
inductive IsPath : Phrase Path
  | mk {t : Token} {ts segments : List Token} (ht : t.kind = .identifier)
    (hrest : Segments ts segments) : IsPath (t :: ts) ⟨t :: segments, .ofTokens (t :: ts)⟩

/-! ## Types -/

section

variable (type : Phrase TypeExpr)

/-- `("own" | "borrow")?` -/
inductive IsOwnership : Phrase Ownership
  | unspecified : IsOwnership [] .unspecified
  | own {t : Token} (h : t.kind = .own) : IsOwnership [t] .own
  | borrow {t : Token} (h : t.kind = .borrow) : IsOwnership [t] .borrow

/-- `"[" type ("," type)* ","? "]"` -/
inductive IsGenericArgs : Phrase GenericArgs
  | mk {ts : List Token} {args : List TypeExpr} (h : Bracketed type ts args) :
    IsGenericArgs ts ⟨args, .ofTokens ts⟩

/-- `("own" | "borrow")? path args? "?"?` -/
inductive IsReference : Phrase TypeRef
  | mk {ts us vs ws : List Token} {held : Ownership} {name : Path} {args : Option GenericArgs}
    {optional : Bool} (hheld : IsOwnership ts held) (hname : IsPath us name)
    (hargs : Optional (IsGenericArgs type) vs args) (hoptional : IsMark .question ws optional) :
    IsReference (ts ++ us ++ vs ++ ws)
      ⟨held, name, args, optional, .ofTokens (ts ++ us ++ vs ++ ws)⟩

/-- `(IDENT ":")?` -/
inductive IsParamName : Phrase (Option Token)
  | absent : IsParamName [] none
  | present {name colon : Token} (hname : name.kind = .identifier) (hcolon : colon.kind = .colon) :
    IsParamName [name, colon] (some name)

/-- `(IDENT ":")? type` -/
inductive IsParam : Phrase Param
  | mk {ts us : List Token} {name : Option Token} {t : TypeExpr} (hname : IsParamName ts name)
    (h : type us t) : IsParam (ts ++ us) ⟨name, t, .ofTokens (ts ++ us)⟩

/-- `(param ("," param)* ","?)?` -/
inductive IsParams : Phrase (List Param)
  | none : IsParams [] []
  | some {ts : List Token} {params : List Param} (h : CommaList (IsParam type) ts params) :
    IsParams ts params

/-- `"async"? "(" params ")" "->" type` -/
inductive IsFunction : Phrase FunctionType
  | mk {ts us vs : List Token} {paren close arrow : Token} {isAsync : Bool} {params : List Param}
    {result : TypeExpr} (hasync : IsMark .async ts isAsync) (hparen : paren.kind = .leftParen)
    (hparams : IsParams type us params) (hclose : close.kind = .rightParen)
    (harrow : arrow.kind = .arrow) (hresult : type vs result) :
    IsFunction (ts ++ paren :: us ++ close :: arrow :: vs)
      ⟨isAsync, params, result, .ofTokens (ts ++ paren :: us ++ close :: arrow :: vs)⟩

/-- `IDENT ":" function` -/
inductive IsMethod : Phrase Method
  | mk {name colon : Token} {ts : List Token} {signature : FunctionType}
    (hname : name.kind = .identifier) (hcolon : colon.kind = .colon)
    (h : IsFunction type ts signature) :
    IsMethod (name :: colon :: ts) ⟨name, signature, .ofTokens (name :: colon :: ts)⟩

/-- `"(" type ")"` -/
inductive IsPayload : Phrase TypeExpr
  | mk {paren close : Token} {ts : List Token} {t : TypeExpr} (hparen : paren.kind = .leftParen)
    (h : type ts t) (hclose : close.kind = .rightParen) : IsPayload (paren :: ts ++ [close]) t

/-- An equals sign and a token of one of the kinds `ks`. -/
inductive IsAssigned (ks : List TokenKind) : Phrase Token
  | mk {equal value : Token} (hequal : equal.kind = .equal) (hvalue : value.kind ∈ ks) :
    IsAssigned ks [equal, value] value

/-- `IDENT ("(" type ")")? ("=" INTEGER)?` -/
inductive IsVariant : Phrase Variant
  | mk {tag : Token} {ts us : List Token} {payload : Option TypeExpr} {discriminant : Option Token}
    (htag : tag.kind = .identifier) (hpayload : Optional (IsPayload type) ts payload)
    (hdiscriminant : Optional (IsAssigned [.integer]) us discriminant) :
    IsVariant (tag :: ts ++ us) ⟨tag, payload, discriminant, .ofTokens (tag :: ts ++ us)⟩

/-- The kinds of literals. -/
def literals : List TokenKind := [.integer, .decimal, .string, .rune]

/-- `IDENT ":" type ("=" literal)?` -/
inductive IsRecordField : Phrase Field
  | mk {name colon : Token} {ts us : List Token} {t : TypeExpr} {default : Option Token}
    (hname : name.kind = .identifier) (hcolon : colon.kind = .colon) (h : type ts t)
    (hdefault : Optional (IsAssigned literals) us default) :
    IsRecordField (name :: colon :: ts ++ us)
      ⟨name, t, default, .ofTokens (name :: colon :: ts ++ us)⟩

end

/-- `reference | protocol | union | record | tuple | function` -/
inductive IsType : Phrase TypeExpr
  | reference {ts : List Token} {ref : TypeRef} (h : IsReference IsType ts ref) :
    IsType ts (.reference ref)
  | protocol {ts : List Token} {methods : List Method}
    (h : Braced .caretBrace (IsMethod IsType) ts methods) :
    IsType ts (.protocol methods (.ofTokens ts))
  | union {ts : List Token} {variants : List Variant}
    (h : Braced .pipeBrace (IsVariant IsType) ts variants) :
    IsType ts (.union variants (.ofTokens ts))
  | record {ts : List Token} {fields : List Field}
    (h : Braced .percentBrace (IsRecordField IsType) ts fields) :
    IsType ts (.record fields (.ofTokens ts))
  | tuple {ts : List Token} {elements : List TypeExpr} (h : Braced .hashBrace IsType ts elements) :
    IsType ts (.tuple elements (.ofTokens ts))
  | function {ts : List Token} {type : FunctionType} (h : IsFunction IsType ts type) :
    IsType ts (.function type)

/-! ## Modules -/

/-- `"[" IDENT ("," IDENT)* ","? "]"` -/
inductive IsGenericParams : Phrase GenericParams
  | mk {ts params : List Token} (h : Bracketed IsIdentifier ts params) :
    IsGenericParams ts ⟨params, .ofTokens ts⟩

/-- `IDENT params? ":=" type` -/
inductive IsDeclaration : Phrase Declaration
  | mk {name define : Token} {ts us : List Token} {generics : Option GenericParams} {t : TypeExpr}
    (hname : name.kind = .identifier) (hgenerics : Optional IsGenericParams ts generics)
    (hdefine : define.kind = .colonEqual) (h : IsType us t) :
    IsDeclaration (name :: ts ++ define :: us)
      ⟨name, generics, t, .ofTokens (name :: ts ++ define :: us)⟩

/-- `(declaration TERMINATOR+)* declaration?` -/
inductive Declarations : Phrase (List Declaration)
  | nil : Declarations [] []
  | last {ts : List Token} {d : Declaration} (h : IsDeclaration ts d) : Declarations ts [d]
  | cons {ts run rest : List Token} {d : Declaration} {ds : List Declaration}
    (h : IsDeclaration ts d) (hrun : ∀ t ∈ run, t.kind = .terminator) (hne : run ≠ [])
    (hrest : Declarations rest ds) : Declarations (ts ++ run ++ rest) (d :: ds)

/-- `"[" "[" path "]" "]"` -/
inductive IsHeader : Phrase ModuleHeader
  | mk {open₁ open₂ close₁ close₂ : Token} {ts : List Token} {name : Path}
    (hopen₁ : open₁.kind = .leftBracket) (hopen₂ : open₂.kind = .leftBracket)
    (h : IsPath ts name) (hclose₁ : close₁.kind = .rightBracket)
    (hclose₂ : close₂.kind = .rightBracket) :
    IsHeader (open₁ :: open₂ :: ts ++ [close₁, close₂])
      ⟨name, .ofTokens (open₁ :: open₂ :: ts ++ [close₁, close₂]), false⟩

/-- `TERMINATOR* header TERMINATOR* declarations EOI` -/
inductive IsModule : Phrase (ModuleHeader × List Declaration)
  | mk {before ts run us : List Token} {last : Token} {header : ModuleHeader}
    {ds : List Declaration} (hbefore : ∀ t ∈ before, t.kind = .terminator)
    (hheader : IsHeader ts header) (hrun : ∀ t ∈ run, t.kind = .terminator)
    (hds : Declarations us ds) (hlast : last.kind = .endOfInput) :
    IsModule (before ++ ts ++ run ++ us ++ [last]) (header, ds)

/-! ## Phrases begin with a token, and trees span them -/

section

variable {type : Phrase TypeExpr} {ts : List Token}

theorem IsPath.begins {name : Path} (h : IsPath ts name) :
    ∃ t us, ts = t :: us ∧ t.kind = .identifier := by
  cases h with
  | mk ht => exact ⟨_, _, rfl, ht⟩

theorem IsReference.begins {ref : TypeRef} (h : IsReference type ts ref) :
    ∃ t us, ts = t :: us ∧ (t.kind = .own ∨ t.kind = .borrow ∨ t.kind = .identifier) := by
  cases h with
  | mk hheld hname => cases hheld with
    | unspecified =>
      obtain ⟨u, us, rfl, hu⟩ := hname.begins
      exact ⟨_, _, rfl, .inr (.inr hu)⟩
    | own h => exact ⟨_, _, rfl, .inl h⟩
    | borrow h => exact ⟨_, _, rfl, .inr (.inl h)⟩

theorem IsFunction.begins {t : FunctionType} (h : IsFunction type ts t) :
    ∃ t us, ts = t :: us ∧ (t.kind = .async ∨ t.kind = .leftParen) := by
  cases h with
  | mk hasync hparen => cases hasync with
    | absent => exact ⟨_, _, rfl, .inr hparen⟩
    | present h => exact ⟨_, _, rfl, .inl h⟩

theorem Braced.begins {k : TokenKind} {member : Phrase α} {as : List α}
    (h : Braced k member ts as) : ∃ t us, ts = t :: us ∧ t.kind = k := by
  cases h with
  | mk hbrace => exact ⟨_, _, rfl, hbrace⟩

/-- A type begins with one of the tokens that may begin one. -/
theorem IsType.begins {t : TypeExpr} (h : IsType ts t) :
    ∃ u us, ts = u :: us ∧ KindSet.typeStart.contains u.kind = true := by
  cases h with
  | reference h =>
    obtain ⟨u, us, rfl, hu⟩ := h.begins
    refine ⟨u, us, rfl, ?_⟩
    rcases hu with hu | hu | hu <;> rw [hu] <;> rfl
  | protocol h | union h | record h | tuple h =>
    obtain ⟨u, us, rfl, hu⟩ := h.begins
    exact ⟨u, us, rfl, hu ▸ rfl⟩
  | function h =>
    obtain ⟨u, us, rfl, hu⟩ := h.begins
    refine ⟨u, us, rfl, ?_⟩
    rcases hu with hu | hu <;> rw [hu] <;> rfl

theorem IsPath.ne_nil {name : Path} (h : IsPath ts name) : ts ≠ [] := by
  obtain ⟨t, us, rfl, -⟩ := h.begins
  exact List.cons_ne_nil t us

theorem IsReference.ne_nil {ref : TypeRef} (h : IsReference type ts ref) : ts ≠ [] := by
  obtain ⟨t, us, rfl, -⟩ := h.begins
  exact List.cons_ne_nil t us

theorem IsFunction.ne_nil {t : FunctionType} (h : IsFunction type ts t) : ts ≠ [] := by
  obtain ⟨t, us, rfl, -⟩ := h.begins
  exact List.cons_ne_nil t us

theorem IsType.ne_nil {t : TypeExpr} (h : IsType ts t) : ts ≠ [] := by
  obtain ⟨u, us, rfl, -⟩ := h.begins
  exact List.cons_ne_nil u us

theorem IsPath.span_eq {name : Path} (h : IsPath ts name) : name.span = .ofTokens ts := by
  cases h
  rfl

theorem IsFunction.span_eq {t : FunctionType} (h : IsFunction type ts t) :
    t.span = .ofTokens ts := by
  cases h
  rfl

theorem IsType.span_eq {t : TypeExpr} (h : IsType ts t) : t.span = .ofTokens ts := by
  cases h with
  | reference h =>
    cases h
    rfl
  | protocol | union | record | tuple => rfl
  | function h => exact h.span_eq

end

end Grammar

end DeclFront
