import DeclFront.Proofs.Drawing
import DeclFront.Proofs.Tiling

/-!
# The tokens of a tree

**Theorem (`Module.tokens_ofSource`).** The tokens of the tree of a text, listed in the order of the
grammar, are significant tokens of the text in strictly increasing order, and between them
placeholders, each of no length and where some significant token is. Names are identifiers,
discriminants integers, and defaults literals. This holds of malformed texts too.

The list is drawn from the tokens of the text by the parser that builds the tree, as `Draws` says of
each parser of the grammar. For this, the tokens of a node are those it has itself and those of the
nodes below it in the order in which its parser reads them (`Node.tokens_declaration` and so on),
and what holds of all nodes below a node holds of it and of the nodes right below it
(`Node.everywhere_iff`). Types are parsed under a guard against parsers that consume nothing; where
it holds, the induction is on what is left of the text, and where it does not, a missing type is
drawn.

A placeholder stands at the token that is current when it is made, and recovery only goes on from
there. So what is stored behind it is not in front of it, be it that same token.
-/

namespace DeclFront

open DeclFront.Parser

namespace Node

/-! ## What holds of all nodes -/

/-- `P` holds of the node and of all nodes below it. -/
def Everywhere (P : Node → Prop) (n : Node) : Prop := ∀ x ∈ n.outline 0, P x.2

/-- Depths do not matter to what holds of all nodes. -/
theorem forall_outline {P : Node → Prop} (n : Node) (depth depth' : Nat)
    (h : ∀ x ∈ n.outline depth, P x.2) : ∀ x ∈ n.outline depth', P x.2 := by
  induction hn : sizeOf n using Nat.strongRecOn generalizing n depth depth' with
  | ind size ih =>
    subst hn
    rw [outline_eq] at h ⊢
    obtain ⟨hn, hchildren⟩ := List.forall_mem_cons.1 h
    refine List.forall_mem_cons.2 ⟨hn, fun x hx => ?_⟩
    obtain ⟨m, hm, hx⟩ := List.mem_flatMap.1 hx
    exact ih _ (sizeOf_lt_of_mem_children hm) m (depth + 1) (depth' + 1)
      (fun y hy => hchildren y (List.mem_flatMap.2 ⟨m, hm, hy⟩)) rfl x hx

theorem everywhere_iff {P : Node → Prop} {n : Node} :
    n.Everywhere P ↔ P n ∧ ∀ m ∈ n.children, m.Everywhere P := by
  rw [Everywhere, outline_eq, List.forall_mem_cons]
  refine and_congr_right fun _ => ⟨fun h m hm => ?_, fun h x hx => ?_⟩
  · exact forall_outline m 1 0 fun x hx => h x (List.mem_flatMap.2 ⟨m, hm, hx⟩)
  · obtain ⟨m, hm, hx⟩ := List.mem_flatMap.1 hx
    exact forall_outline m 0 1 (h m hm) x hx

end Node

/-! ## Names and literals -/

/-- A path of identifiers, or one missing token in its place. -/
def Path.IsName (p : Path) : Prop :=
  p.segments ≠ [] ∧ (∀ t ∈ p.segments, t.kind = .identifier) ∨
    ∃ t, t.kind = .missing ∧ p.segments = [t]

/-- Names are identifiers, discriminants integers, and defaults literals. -/
def Node.IsLabelled : Node → Prop
  | .declaration d =>
    d.name.kind = .identifier ∧ ∀ g ∈ d.generics, ∀ t ∈ g.params, t.kind = .identifier
  | .type (.reference ref) => ref.path.IsName
  | .type _ => True
  | .method m => m.name.kind = .identifier
  | .variant v => v.tag.kind = .identifier ∧ ∀ t ∈ v.discriminant, t.kind = .integer
  | .field f =>
    f.name.kind = .identifier ∧
      ∀ t ∈ f.default, t.kind ∈ [TokenKind.integer, .decimal, .string, .rune]
  | .param p => ∀ t ∈ p.name, t.kind = .identifier

namespace Node

variable {P : Node → Prop}

/-! ## The tokens of each node -/

theorem tokens_declaration (d : Declaration) : (declaration d).tokens =
    d.name :: (d.generics.toList.flatMap (·.params) ++ (type d.type).tokens) := by
  rw [tokens_eq]
  cases h : d.generics <;> simp [parts, partTokens, h, List.flatMap_map]

theorem tokens_reference (r : TypeRef) : (type (.reference r)).tokens =
    r.path.segments ++ r.args.toList.flatMap fun a => a.args.flatMap fun t => (type t).tokens := by
  rw [tokens_eq]
  cases h : r.args <;> simp [parts, partTokens, h, List.flatMap_map]

theorem tokens_protocol (ms : List Method) (s : Span) : (type (.protocol ms s)).tokens =
    ms.flatMap fun m => (method m).tokens := by
  rw [tokens_eq]
  simp [parts, partTokens, List.flatMap_map]

theorem tokens_union (vs : List Variant) (s : Span) : (type (.union vs s)).tokens =
    vs.flatMap fun v => (variant v).tokens := by
  rw [tokens_eq]
  simp [parts, partTokens, List.flatMap_map]

theorem tokens_record (fs : List Field) (s : Span) : (type (.record fs s)).tokens =
    fs.flatMap fun x => (field x).tokens := by
  rw [tokens_eq]
  simp [parts, partTokens, List.flatMap_map]

theorem tokens_tuple (ts : List TypeExpr) (s : Span) : (type (.tuple ts s)).tokens =
    ts.flatMap fun t => (type t).tokens := by
  rw [tokens_eq]
  simp [parts, partTokens, List.flatMap_map]

theorem tokens_function (x : FunctionType) : (type (.function x)).tokens =
    x.params.flatMap (fun p => (param p).tokens) ++ (type x.result).tokens := by
  rw [tokens_eq]
  simp [parts, partTokens, List.flatMap_map]

theorem tokens_method (m : Method) :
    (method m).tokens = m.name :: (type (.function m.signature)).tokens := by
  rw [tokens_eq]
  simp [parts, partTokens]

theorem tokens_variant (v : Variant) : (variant v).tokens =
    v.tag :: (v.payload.toList.flatMap (fun t => (type t).tokens) ++ v.discriminant.toList) := by
  rw [tokens_eq]
  cases h : v.payload <;> cases h' : v.discriminant <;> simp [parts, partTokens, h, h']

theorem tokens_field (x : Field) :
    (field x).tokens = x.name :: ((type x.type).tokens ++ x.default.toList) := by
  rw [tokens_eq]
  cases h : x.default <;> simp [parts, partTokens, h]

theorem tokens_param (p : Param) : (param p).tokens = p.name.toList ++ (type p.type).tokens := by
  rw [tokens_eq]
  cases h : p.name <;> simp [parts, partTokens, h]

/-! ## What holds of the nodes below each node -/

theorem everywhere_declaration {d : Declaration} : (declaration d).Everywhere P ↔
    P (declaration d) ∧ (type d.type).Everywhere P := by
  rw [everywhere_iff]
  cases h : d.generics <;> simp [mem_children, parts, h]

theorem everywhere_reference {r : TypeRef} : (type (.reference r)).Everywhere P ↔
    P (type (.reference r)) ∧ ∀ a ∈ r.args, ∀ t ∈ a.args, (type t).Everywhere P := by
  rw [everywhere_iff]
  cases h : r.args <;> simp [mem_children, parts, h]

theorem everywhere_protocol {ms : List Method} {s : Span} : (type (.protocol ms s)).Everywhere P ↔
    P (type (.protocol ms s)) ∧ ∀ m ∈ ms, (method m).Everywhere P := by
  rw [everywhere_iff]
  simp [mem_children, parts]

theorem everywhere_union {vs : List Variant} {s : Span} : (type (.union vs s)).Everywhere P ↔
    P (type (.union vs s)) ∧ ∀ v ∈ vs, (variant v).Everywhere P := by
  rw [everywhere_iff]
  simp [mem_children, parts]

theorem everywhere_record {fs : List Field} {s : Span} : (type (.record fs s)).Everywhere P ↔
    P (type (.record fs s)) ∧ ∀ x ∈ fs, (field x).Everywhere P := by
  rw [everywhere_iff]
  simp [mem_children, parts]

theorem everywhere_tuple {ts : List TypeExpr} {s : Span} : (type (.tuple ts s)).Everywhere P ↔
    P (type (.tuple ts s)) ∧ ∀ t ∈ ts, (type t).Everywhere P := by
  rw [everywhere_iff]
  simp [mem_children, parts]

theorem everywhere_function {x : FunctionType} : (type (.function x)).Everywhere P ↔
    P (type (.function x)) ∧ (∀ p ∈ x.params, (param p).Everywhere P) ∧
      (type x.result).Everywhere P := by
  rw [everywhere_iff]
  simp [mem_children, parts, or_imp, forall_and]

theorem everywhere_method {m : Method} : (method m).Everywhere P ↔
    P (method m) ∧ (type (.function m.signature)).Everywhere P := by
  rw [everywhere_iff]
  simp [mem_children, parts]

theorem everywhere_variant {v : Variant} : (variant v).Everywhere P ↔
    P (variant v) ∧ ∀ t ∈ v.payload.toList, (type t).Everywhere P := by
  rw [everywhere_iff]
  cases h : v.payload <;> simp [mem_children, parts, h]

theorem everywhere_field {x : Field} : (field x).Everywhere P ↔
    P (field x) ∧ (type x.type).Everywhere P := by
  rw [everywhere_iff]
  cases h : x.default <;> simp [mem_children, parts, h]

theorem everywhere_param {p : Param} : (param p).Everywhere P ↔
    P (param p) ∧ (type p.type).Everywhere P := by
  rw [everywhere_iff]
  cases h : p.name <;> simp [mem_children, parts, h]

end Node

/-! ## Names and generic parameters -/

variable {α : Type} {c : Cursor} {before : List Token}

theorem draws_furtherSegment : Draws [] furtherSegment (fun r => r.item.toList.flatMap ([·]))
    fun r => ∀ t ∈ r.item.toList, t.kind = .identifier := by
  refine .pass (skips_check _) fun _ => .pass (skips_check _) fun _ => .ite ?_ ?_
  · refine .pass skips_advance fun _ => .bind (draws_eat (by decide)) fun segment h => ?_
    cases segment with
    | some t => exact .pure (by simp [Round.more]) (by simpa [Round.more] using h)
    | none => exact .pass (skips_unexpected _) fun _ => .stop
  · exact .stop

theorem isName_missing (t : Token) : (Path.missing t).IsName := .inr ⟨t.missing, rfl, rfl⟩

theorem draws_path : Draws [] path (·.segments) Path.IsName := by
  refine .bind (draws_eat (by decide)) fun first h => ?_
  cases first with
  | some t =>
    refine .bind (.collect draws_furtherSegment) fun segments hsegments => .pure ?_ ?_
    · simp [Path.ofSegments]
    · refine .inl ⟨by simp [Path.ofSegments], List.forall_mem_cons.2 ⟨h t rfl, hsegments⟩⟩
  | none =>
    refine .pass (skips_unexpected _) fun _ => .bind draws_place fun t _ => .pure ?_ ?_
    · simp [Path.missing, Path.ofSegments]
    · exact isName_missing t

theorem draws_genericParam : Draws [] genericParam (fun r => r.item.toList.flatMap ([·]))
    fun r => ∀ t ∈ r.item.toList, t.kind = .identifier := by
  refine .bind (draws_eat (by decide)) fun param h => ?_
  cases param with
  | some t =>
    exact .pass (.of_carries fun _ => Translation.carries_commaAndMore) fun _ =>
      .pure (by simp) (by simpa using h)
  | none => exact .pass (skips_unexpected _) fun _ => .stop

theorem Draws.bracketed {f : α → List Token} {Q : α → Prop} {round : Parser (Round α)}
    (empty : DiagnosticCode)
    (h : Draws [] round (fun r => r.item.toList.flatMap f) fun r => ∀ a ∈ r.item.toList, Q a) :
    Draws [] (bracketed empty round) (fun r => r.1.flatMap f) fun r => ∀ a ∈ r.1, Q a := by
  refine .pass skips_advance fun bracket => .pass (skips_eat _) fun close => ?_
  cases close with
  | some close =>
    exact .pass (skips_report _) fun _ => .pureThen (.pass skips_consumedTo fun _ =>
      .pure (by simp) fun _ h => absurd h List.not_mem_nil)
  | none =>
    refine .bind (.collect h) fun items hitems =>
      .pass (.of_carries fun _ => Translation.carries_closeBracket) fun _ => ?_
    exact .pureThen (.pass skips_consumedTo fun _ => .pure (by simp) hitems)

theorem draws_genericParams : Draws [] genericParams (·.params)
    fun g => ∀ t ∈ g.params, t.kind = .identifier :=
  .bind (.bracketed _ draws_genericParam) fun r hr => .pure (by simp) hr

/-! ## Types -/

/-- The parser draws the tokens of the node that its result is, and all nodes below are labelled. -/
def DrawsNode (mk : α → Node) (p : Parser α) : Prop :=
  Draws [] p (fun a => (mk a).tokens) fun a => (mk a).Everywhere Node.IsLabelled

/-- The parser draws the tokens of the nodes `items` of its result, and all nodes below are
labelled. -/
def DrawsNodes {β : Type} (mk : β → Node) (items : α → List β) (p : Parser α) : Prop :=
  Draws [] p (fun a => (items a).flatMap fun b => (mk b).tokens)
    fun a => ∀ b ∈ items a, (mk b).Everywhere Node.IsLabelled

theorem DrawsNodes.collect {mk : α → Node} {round : Parser (Round α)}
    (h : DrawsNodes mk (·.item.toList) round) : DrawsNodes mk id (collect round) :=
  Draws.collect h

theorem tokens_missing (t : Token) : (Node.type (.missing t)).tokens = [t.missing] := by
  simp [TypeExpr.missing, Node.tokens_reference, TypeRef.missing, Path.missing, Path.ofSegments]

theorem everywhere_missing (t : Token) : (Node.type (.missing t)).Everywhere Node.IsLabelled :=
  Node.everywhere_reference.2 ⟨isName_missing t, by simp [TypeRef.missing]⟩

theorem draws_typeMissing : DrawsNode .type (do return .missing (← current)) :=
  .bind draws_place fun t _ => .pure (by simp [tokens_missing]) (everywhere_missing t)

theorem draws_paramName :
    Draws [] paramName Option.toList fun o => ∀ t ∈ o, t.kind = .identifier := by
  intro c
  refine .pass (skips_check _) ?_
  simp only [check_apply]
  refine .ite (fun hk => ?_) fun _ => .pure (by simp) (by simp)
  have hk : c.current.kind = .identifier := by simpa using hk
  refine .pass skips_peekKind (.ite (fun _ => ?_) fun _ => .pure (by simp) (by simp))
  have hcurrent : (peekKind c).2.current = c.current := Cursor.current_peek c
  refine .advance (by rw [hcurrent, hk]; decide) ?_
  exact .pass skips_advance (.pure (by simp) (by simp [hk]))

variable {type : Parser TypeExpr}

section

variable (ht : DrawsNode .type type)

include ht

theorem draws_param : DrawsNode .param (param type) := by
  refine .pass skips_current fun _ => .bind draws_paramName fun name hname =>
    .bind ht fun t htype => .pass skips_consumedTo fun _ => .pure ?_ ?_
  · simp [Node.tokens_param]
  · exact Node.everywhere_param.2 ⟨hname, htype⟩

theorem draws_furtherParam : DrawsNodes .param (·.item.toList) (furtherParam type) := by
  refine .pass (skips_check _) fun _ => .pass skips_isAtEnd fun _ => .ite ?_ ?_
  · exact .stop
  · refine .bind (draws_param ht) fun p hp => .pass (skips_eat _) fun _ => .pure ?_ ?_
    · simp
    · simpa using hp

theorem draws_params : DrawsNodes .param id (params type) := by
  refine .bind (DrawsNodes.collect (draws_furtherParam ht)) fun found hfound =>
    .pass (skips_eat _) fun close => .ite ?_ (.pure (by simp) hfound)
  refine .pass (skips_unexpected _) fun _ => .pass (skips_synchronize _) fun _ =>
    .pass (skips_eat _) fun _ => .pure (by simp) hfound

theorem draws_result : DrawsNode .type (result type) := by
  refine .pass (skips_eat _) fun arrow => ?_
  cases arrow with
  | some arrow => exact ht
  | none => exact .pass (skips_missing _) fun _ => draws_typeMissing

theorem draws_function : DrawsNode (fun x => .type (.function x)) (function type) := by
  refine .pass skips_current fun start => .pass (skips_eat _) fun async =>
    .pass (.of_carries fun _ => Translation.carries_expect _) fun paren => ?_
  have hrest (found : List Param)
      (hfound : ∀ p ∈ found, (Node.param p).Everywhere Node.IsLabelled) :
      Draws (found.flatMap fun p => (Node.param p).tokens)
        (do
          let t ← Parser.result type
          return (⟨async.isSome, found, t, ⟨start.start, max (← consumedTo) t.span.stop⟩⟩ :
            FunctionType))
        (fun x => (Node.type (.function x)).tokens)
        fun x => (Node.type (.function x)).Everywhere Node.IsLabelled := by
    refine .bind (draws_result ht) fun t htype => .pass skips_consumedTo fun _ => .pure ?_ ?_
    · simp [Node.tokens_function]
    · exact Node.everywhere_function.2 ⟨trivial, hfound, htype⟩
  cases paren with
  | some paren => exact .bind (draws_params ht) hrest
  | none => exact .pureThen (hrest [] fun _ h => absurd h List.not_mem_nil)

end

/-! ## Bodies in braces -/

theorem draws_memberName :
    Draws [] memberName Option.toList fun o => ∀ t ∈ o, t.kind = .identifier := by
  refine .bind (draws_eat (by decide)) fun name h => ?_
  cases name with
  | none => exact .pass (skips_unexpected _) fun _ => .pure (by simp) h
  | some name => exact .pure (by simp) h

theorem skips_memberColon (next : KindSet) : Skips (memberColon next) :=
  .of_carries fun _ => Translation.carries_memberColon next

/-- The token behind an equals sign, if it was taken. -/
@[simp] def Parser.Assigned.value? : Assigned → Option Token
  | .value t => some t
  | _ => none

theorem draws_assigned {ks : List TokenKind} (hks : .endOfInput ∉ ks) :
    Draws [] (assigned ks) (fun a => a.value?.toList) fun a => ∀ t ∈ a.value?, t.kind ∈ ks := by
  refine .pass (skips_eat _) fun equal => ?_
  cases equal with
  | none => exact .pure (by simp) (by simp)
  | some equal =>
    intro c
    refine .pass (skips_checkSet _) ?_
    simp only [checkSet_apply]
    refine .ite (fun hk => ?_) fun _ => ?_
    · have hk : c.current.kind ∈ ks := by simpa [KindSet.ofList] using hk
      exact .advance (fun hend => hks (hend ▸ hk)) (.pure (by simp) (by simpa using hk))
    · exact .pass (skips_unexpected _) (.pure (by simp) (by simp))

theorem Draws.furtherMember {mk : α → Node} {member : Parser (Option α)}
    (h : DrawsNodes mk Option.toList member) :
    DrawsNodes mk (·.item.toList) (furtherMember member) := by
  refine .pass (skips_skipSet _) fun _ => .pass (skips_eat _) fun close => .ite ?_ ?_
  · exact .stop
  refine .pass skips_isAtEnd fun _ => .ite ?_ ?_
  · exact .pass (skips_missing _) fun _ => .stop
  · refine .bind h fun item hitem => ?_
    exact .pass (.of_carries fun _ => Translation.carries_closeMember _) fun _ =>
      .pure (by simp) hitem

theorem Draws.braced {mk : α → Node} {member : Parser (Option α)}
    (h : DrawsNodes mk Option.toList member) : DrawsNodes mk Prod.fst (braced member) := by
  refine .pass skips_advance fun start => .bind (DrawsNodes.collect (.furtherMember h))
    fun members hmembers => .pass skips_consumedTo fun _ => .pure (by simp) hmembers

section

variable (ht : DrawsNode .type type)

include ht

theorem draws_method : DrawsNodes .method Option.toList (method type) := by
  refine .bind draws_memberName fun name hname => ?_
  cases name with
  | none => exact .pure (by simp) (by simp)
  | some name =>
    refine .pass (skips_memberColon _) fun colon => .ite (.pure (by simp) (by simp)) ?_
    refine .pass (skips_checkSet _) fun starts => .ite ?_ ?_
    · refine .bind (draws_function ht) fun signature hsignature => .pure ?_ ?_
      · simp [Node.tokens_method]
      · simpa using Node.everywhere_method.2 ⟨hname name rfl, hsignature⟩
    · exact .pass (skips_unexpected _) fun _ => .pure (by simp) (by simp)

theorem draws_payload : DrawsNodes .type Option.toList (payload type) := by
  refine .pass (skips_eat _) fun paren => ?_
  cases paren with
  | none => exact .pure (by simp) (by simp)
  | some paren =>
    refine .bind ht fun t htype => .pass (skips_eat _) fun close => .ite ?_ ?_
    · exact .pass (skips_unexpected _) fun _ => .pass (skips_synchronize _) fun _ =>
        .pass (skips_eat _) fun _ => .pure (by simp) (by simpa using htype)
    · exact .pure (by simp) (by simpa using htype)

theorem draws_variant : DrawsNodes .variant Option.toList (variant type) := by
  refine .bind draws_memberName fun tag htag => ?_
  cases tag with
  | none => exact .pure (by simp) (by simp)
  | some tag =>
    refine .bind (draws_payload ht) fun content hcontent =>
      .bind (draws_assigned (by decide)) fun discriminant hdiscriminant => ?_
    cases discriminant with
    | malformed => exact .pure (by simp) (by simp)
    | nothing =>
      refine .pass skips_consumedTo fun _ => .pure ?_ ?_
      · simp [Node.tokens_variant]
      · simpa using Node.everywhere_variant.2 ⟨⟨htag tag rfl, by simp⟩, hcontent⟩
    | value t =>
      refine .pass skips_consumedTo fun _ => .pure ?_ ?_
      · simp [Node.tokens_variant]
      · have hvalue : t.kind = .integer := by simpa using hdiscriminant t rfl
        simpa using Node.everywhere_variant.2 ⟨⟨htag tag rfl, by simpa using hvalue⟩, hcontent⟩

theorem draws_field : DrawsNodes .field Option.toList (field type) := by
  refine .bind draws_memberName fun name hname => ?_
  cases name with
  | none => exact .pure (by simp) (by simp)
  | some name =>
    refine .pass (skips_memberColon _) fun colon => .ite (.pure (by simp) (by simp)) ?_
    refine .bind ht fun t htype => .bind (draws_assigned (by decide)) fun default hdefault => ?_
    cases default with
    | malformed => exact .pure (by simp) (by simp)
    | nothing =>
      refine .pass skips_consumedTo fun _ => .pure ?_ ?_
      · simp [Node.tokens_field]
      · simpa using Node.everywhere_field.2 ⟨⟨hname name rfl, by simp⟩, htype⟩
    | value v =>
      refine .pass skips_consumedTo fun _ => .pure ?_ ?_
      · simp [Node.tokens_field]
      · simpa using Node.everywhere_field.2 ⟨⟨hname name rfl, hdefault⟩, htype⟩

/-! ## References -/

theorem draws_genericArg : DrawsNodes .type (·.item.toList) (genericArg type) := by
  refine .bind ht fun arg harg =>
    .pass (.of_carries fun _ => Translation.carries_commaAndMore) fun _ => .pure ?_ ?_
  · simp
  · simpa using harg

theorem draws_genericArgs : DrawsNodes .type (·.args) (genericArgs type) := by
  exact .bind (.bracketed _ (draws_genericArg ht)) fun r hr => .pure (by simp) hr

theorem draws_reference : DrawsNode (fun r => .type (.reference r)) (reference type) := by
  refine .pass skips_current fun start => .pass (.of_carries fun _ => Translation.carries_ownership)
    fun held => .bind draws_path fun name hname => .pass (skips_check _) fun hasArgs => ?_
  have hrest (args : Option GenericArgs)
      (hargs : ∀ a ∈ args, ∀ t ∈ a.args, (Node.type t).Everywhere Node.IsLabelled) :
      Draws (name.segments ++
          args.toList.flatMap fun a => a.args.flatMap fun t => (Node.type t).tokens)
        (do
          let optional := (← eat .question).isSome
          return (⟨held, name, args, optional,
            ⟨start.start, max (← consumedTo) name.span.stop⟩⟩ : TypeRef))
        (fun r => (Node.type (.reference r)).tokens)
        fun r => (Node.type (.reference r)).Everywhere Node.IsLabelled := by
    refine .pass (skips_eat _) fun optional => .pass skips_consumedTo fun _ => .pure ?_ ?_
    · simp [Node.tokens_reference]
    · exact Node.everywhere_reference.2 ⟨hname, hargs⟩
  refine .ite ?_ ?_
  · have hargs : Draws [] (some <$> genericArgs type)
        (fun args => args.toList.flatMap fun a => a.args.flatMap fun t => (Node.type t).tokens)
        fun args => ∀ a ∈ args, ∀ t ∈ a.args, (Node.type t).Everywhere Node.IsLabelled :=
      .map (by simpa [DrawsNodes] using draws_genericArgs ht)
    exact .bind hargs hrest
  · exact .pureThen (by simpa using hrest none (by simp))

theorem draws_typeLayer : DrawsNode .type (typeLayer type) := by
  refine .pass skips_currentKind fun k => ?_
  split
  · refine .bind (.braced (draws_method ht)) fun r hr => .pure ?_ ?_
    · simp [Node.tokens_protocol]
    · exact Node.everywhere_protocol.2 ⟨trivial, hr⟩
  · refine .bind (.braced (draws_variant ht)) fun r hr => .pure ?_ ?_
    · simp [Node.tokens_union]
    · exact Node.everywhere_union.2 ⟨trivial, hr⟩
  · refine .bind (.braced (draws_field ht)) fun r hr => .pure ?_ ?_
    · simp [Node.tokens_record]
    · exact Node.everywhere_record.2 ⟨trivial, hr⟩
  · have helement : DrawsNodes .type Option.toList (some <$> type) :=
      .map (by simpa [DrawsNode] using ht)
    refine .bind (.braced helement) fun r hr => .pure ?_ ?_
    · simp [Node.tokens_tuple]
    · exact Node.everywhere_tuple.2 ⟨trivial, hr⟩
  · exact .bind (draws_function ht) fun x hx => .pure (by simp) hx
  · exact .bind (draws_function ht) fun x hx => .pure (by simp) hx
  · exact .bind (draws_reference ht) fun x hx => .pure (by simp) hx
  · exact .bind (draws_reference ht) fun x hx => .pure (by simp) hx
  · exact .bind (draws_reference ht) fun x hx => .pure (by simp) hx
  · exact .pass (skips_unexpected _) fun _ => draws_typeMissing

end

/-- Where the guard of the recursion stops it, the type that is missing is drawn in its place. -/
theorem draws_type : DrawsNode .type Parser.type := by
  intro c
  induction hn : c.left using Nat.strongRecOn generalizing c with
  | ind n ih =>
    subst hn
    intro hc
    rw [Parser.type]
    refine draws_typeLayer (fun d => ?_) c hc
    by_cases hlt : d.left < c.left
    · have := ih _ hlt d rfl
      simpa [DrawsAt, hlt] using this
    · have := draws_typeMissing d
      simpa [DrawsAt, hlt] using this

/-! ## Modules -/

theorem skips_recoverDeclaration : Skips recoverDeclaration := .of_moves moves_recoverDeclaration

theorem draws_header : Draws [] header (·.path.segments) (·.path.IsName) := by
  have hopen (t : Token) : Draws []
      (do
        let _ ← advance
        let _ ← advance
        let name ← path
        closeHeader
        return (⟨name, ⟨t.start, ← consumedTo⟩, false⟩ : ModuleHeader))
      (·.path.segments) (·.path.IsName) :=
    .pass skips_advance fun _ => .pass skips_advance fun _ => .bind draws_path fun name hname =>
      .pass (.of_carries fun _ => Translation.carries_closeHeader) fun _ =>
      .pass skips_consumedTo fun _ => .pure (by simp) hname
  have hmissing {d : Cursor} {t : Token} (ht : d.current = t) : DrawsAt d []
      (do
        report (.aboutToken .missingHeader .parsing t)
        return (⟨.missing t, .point t.start, true⟩ : ModuleHeader))
      (·.path.segments) (·.path.IsName) := by
    subst ht
    intro hd
    refine ⟨by simpa [Cursor.Closed] using hd, isName_missing _, [d.current.missing], ?_, ?_⟩
    · simp [Path.missing, Path.ofSegments]
    · show Drawn d.tokens [d.current.missing] (d.report _).tokens
      rw [Cursor.tokens_report]
      exact .place .nil
  intro c
  refine .pass skips_current (.pass (skips_check _) ?_)
  simp only [check_apply, current_apply]
  refine .ite (fun _ => ?_) fun _ => .pass (skips_pure _) (hmissing rfl)
  refine .pass skips_peekKind (.pass (skips_pure _) (.ite (fun _ => hopen _ _) fun _ => ?_))
  exact hmissing (Cursor.current_peek c)

theorem draws_definedType (isGeneric : Bool) :
    DrawsNodes .type Option.toList (definedType isGeneric) := by
  have htype : DrawsNodes .type Option.toList (do return some (← Parser.type)) :=
    .bind draws_type fun t ht => .pure (by simp) (by simpa using ht)
  have hbody : DrawsNodes .type Option.toList
      (do
        report (.aboutToken .unexpectedGenericBody .parsing (← current))
        return some (← Parser.type)) :=
    .pass skips_current fun _ => .pass (skips_report _) fun _ => htype
  have hrest : DrawsNodes .type Option.toList
      (do
        if ← checkSet .typeStart then
          missing .colonEqual
          return some (← Parser.type)
        else return none) :=
    .pass (skips_checkSet _) fun _ => .ite (.pass (skips_missing _) fun _ => htype)
      (.pure (by simp) (by simp))
  exact .pass (skips_eat _) fun define => .ite htype
    (.pass (skips_checkSet _) fun _ => .ite hbody hrest)

theorem draws_declarationOf {name : Token} (generics : Option GenericParams)
    (hname : name.kind = .identifier)
    (hgenerics : ∀ g ∈ generics, ∀ t ∈ g.params, t.kind = .identifier) :
    Draws (name :: generics.toList.flatMap (·.params)) (declarationOf name generics)
      (fun r => (Node.declaration r.1).tokens)
      fun r => (Node.declaration r.1).Everywhere Node.IsLabelled := by
  refine .bind (draws_definedType _) fun t ht => ?_
  cases t with
  | some t =>
    refine .pass skips_consumedTo fun _ => .pure ?_ ?_
    · simp [Node.tokens_declaration]
    · exact Node.everywhere_declaration.2 ⟨⟨hname, hgenerics⟩, ht t (by simp)⟩
  | none =>
    refine .bind draws_place fun place _ => .pass (skips_unexpected _) fun _ => .pure ?_ ?_
    · simp [Node.tokens_declaration, tokens_missing]
    · exact Node.everywhere_declaration.2 ⟨⟨hname, hgenerics⟩, everywhere_missing place⟩

/-- The name of a declaration is the current token. -/
theorem draws_declarationHead (hk : c.current.kind = .identifier) :
    DrawsAt c [] declarationHead (fun r => (Node.declaration r.1).tokens)
      fun r => (Node.declaration r.1).Everywhere Node.IsLabelled := by
  refine .advance (by rw [hk]; decide) (.pass (skips_check _) (.ite (fun _ => ?_) fun _ => ?_))
  · have hgenerics : Draws [] (some <$> genericParams) (fun g => g.toList.flatMap (·.params))
        fun g => ∀ x ∈ g, ∀ t ∈ x.params, t.kind = .identifier :=
      .map (by simpa using draws_genericParams)
    exact .bind (hgenerics _) fun generics h => draws_declarationOf generics hk h _
  · exact draws_declarationOf none hk (by simp) _

theorem draws_declaration (hk : c.current.kind = .identifier) :
    DrawsAt c [] declaration (fun d => (Node.declaration d).tokens)
      fun d => (Node.declaration d).Everywhere Node.IsLabelled := by
  refine .bind (draws_declarationHead hk) fun (d, isComplete) hd => .ite (fun _ => ?_) fun _ => ?_
  · exact .pass (.of_carries fun _ => Translation.carries_closeDeclaration) (.pure (by simp) hd)
  · exact .pass skips_recoverDeclaration (.pure (by simp) hd)

theorem draws_furtherDeclaration : DrawsNodes .declaration (·.item.toList) furtherDeclaration := by
  have hrest (item : Option Declaration)
      (h : ∀ d ∈ item.toList, (Node.declaration d).Everywhere Node.IsLabelled) :
      Draws (item.toList.flatMap fun d => (Node.declaration d).tokens)
        (do
          skipTerminators
          return (⟨item, true⟩ : Round Declaration))
        (fun r => r.item.toList.flatMap fun d => (Node.declaration d).tokens)
        fun r => ∀ d ∈ r.item.toList, (Node.declaration d).Everywhere Node.IsLabelled :=
    .pass (skips_skipSet _) fun _ => .pure (by simp) h
  have hnone := hrest none (by simp)
  have hgroup : Skips skipGroup := .of_carries fun _ => Translation.carries_skipGroup
  intro c
  refine .pass skips_isAtEnd (.ite (fun _ => Draws.stop _) ?_)
  refine fun _ => .pass (skips_check _) (.pass (skips_checkSet _) ?_)
  simp only [check_apply, isAtEnd_apply]
  refine .ite (fun hk => ?_) fun _ => .ite (fun _ => ?_) fun _ => ?_
  · have hk : c.current.kind = .identifier := by simpa using hk
    have hitem : DrawsAt c [] (some <$> declaration)
        (fun item => item.toList.flatMap fun d => (Node.declaration d).tokens)
        fun item => ∀ d ∈ item.toList, (Node.declaration d).Everywhere Node.IsLabelled :=
      .map (by simpa using draws_declaration hk)
    exact .bind hitem fun item h => hrest item h _
  · exact .pass (skips_unexpected _) (.pass hgroup (.pass (skips_pure none) (hnone _)))
  · exact .pass (skips_unexpected _)
      (.pass skips_recoverDeclaration (.pass (skips_pure none) (hnone _)))

theorem draws_module : Draws [] Parser.module
    (fun r => r.1.path.segments ++ r.2.flatMap fun d => (Node.declaration d).tokens)
    fun r => r.1.path.IsName ∧ ∀ d ∈ r.2, (Node.declaration d).Everywhere Node.IsLabelled := by
  refine .pass (skips_skipSet _) fun _ => .bind draws_header fun head hhead =>
    .pass (skips_skipSet _) fun _ =>
    .bind (DrawsNodes.collect draws_furtherDeclaration) fun ds hds => .pure ?_ ?_
  · simp
  · exact ⟨hhead, hds⟩

/-- No token that is read from a text is a placeholder. -/
theorem Cursor.isMissing_of_mem_tokens {cs : List Char} {t : Token}
    (h : t ∈ (ofChars cs).tokens) : t.isMissing = false := by
  rw [tokens_ofChars] at h
  rcases List.mem_append.1 h with h | h
  · have hk := Segment.isSynthetic_of_mem_tokens (List.mem_of_mem_filter h)
    rw [← Bool.not_eq_true, TokenKind.isSynthetic_iff] at hk
    simpa [Token.isMissing] using hk
  · rw [List.mem_singleton.1 h]
    rfl

namespace Module

/-- The tokens stored in the tree of a module, in the order of the grammar. -/
def tokens (m : Module) : List Token :=
  m.header.path.segments ++ m.members.flatMap fun d => (Node.declaration d).tokens

/-- **The tokens of a tree come from its text, once and in order.** Those that are no placeholders
are significant tokens of the text, with strictly increasing offsets; a placeholder has no length
and stands where some significant token does; and no token of the list is in front of one that
precedes it. The tree has identifiers, integers and literals where the grammar asks for them. -/
theorem tokens_ofSource (s : Source) (limit : Nat) (policy : TriviaPolicy) :
    let m := ofSource s limit policy
    let ts := (lexSignificant s 0).tokens
    (m.tokens.filter (!·.isMissing)).Pairwise (fun t u => t.start < u.start) ∧
    (∀ t ∈ m.tokens, t.isMissing = false → t ∈ ts) ∧
    (∀ t ∈ m.tokens, t.isMissing = true → t.length = 0 ∧ ∃ u ∈ ts, t.position = u.position) ∧
    m.tokens.Pairwise (fun t u => t.start ≤ u.start) ∧
    m.header.path.IsName ∧ ∀ n ∈ m.outline, n.2.IsLabelled := by
  intro m ts
  have hts : ts = (Cursor.ofChars s.chars).tokens := by
    rw [Cursor.tokens_ofChars]
    exact tokens_lexSignificant s 0
  have hstarts : ts.Pairwise fun t u => t.start < u.start :=
    hts ▸ (Cursor.spaced_ofChars s.chars).pairwise
  obtain ⟨-, ⟨hpath, hmembers⟩, hdrawn⟩ := (draws_module _).drawn (Cursor.closed_ofChars s.chars)
  rw [← hts] at hdrawn
  have hdrawn : Drawn ts m.tokens _ := hdrawn
  refine ⟨?_, ?_, ?_, ?_, hpath, ?_⟩
  · exact hstarts.sublist hdrawn.sublist_tokens
  · intro t ht hmissing
    refine hdrawn.sublist_tokens.subset (List.mem_filter.2 ⟨ht, by simp [hmissing]⟩)
  · intro t ht hmissing
    rcases hdrawn.mem t ht with ht | ⟨u, hu, rfl⟩
    · have := Cursor.isMissing_of_mem_tokens (hts ▸ ht)
      simp [this] at hmissing
    · exact ⟨rfl, u, hu, rfl⟩
  · exact hdrawn.pairwise (hstarts.imp Nat.le_of_lt)
  · intro n hn
    obtain ⟨d, hd, hn⟩ := List.mem_flatMap.1 hn
    exact hmembers d hd n hn

end Module

end DeclFront
