import DeclFront.Syntax.Tree

/-!
# The nodes of a tree

The node types of a syntax tree under one type, so that a property of all of them can be said once.

**Parts.** What a node is made of, tokens and further nodes, in the order of the grammar. Everything
that walks a tree walks the parts: `children` are the nodes among them, `outline` lists all nodes
below a node with their depths, each before its children, and `tokens` lists all tokens in the order
of the text.
-/

namespace DeclFront

/-- A node of a syntax tree. -/
inductive Node where
  | declaration (d : Declaration)
  | type (t : TypeExpr)
  | method (m : Method)
  | variant (v : Variant)
  | field (f : Field)
  | param (p : Param)

/-- Something that a node is made of. -/
inductive Part where
  | token (t : Token)
  | node (n : Node)

/-- The node, if the part is one. -/
def Part.node? : Part → Option Node
  | .token _ => none
  | .node n => some n

namespace Node

def span : Node → Span
  | .declaration d => d.span
  | .type t => t.span
  | .method m => m.span
  | .variant v => v.span
  | .field f => f.span
  | .param p => p.span

/-- What a node is made of, in the order of the grammar. -/
def parts : Node → List Part
  | .declaration d =>
    .token d.name :: (d.generics.elim [] (·.params.map .token)) ++ [.node (.type d.type)]
  | .type (.reference ref) =>
    ref.path.segments.map .token ++ ref.args.elim [] (·.args.map fun t => .node (.type t))
  | .type (.protocol methods _) => methods.map fun m => .node (.method m)
  | .type (.union variants _) => variants.map fun v => .node (.variant v)
  | .type (.record fields _) => fields.map fun f => .node (.field f)
  | .type (.tuple elements _) => elements.map fun t => .node (.type t)
  | .type (.function signature) =>
    signature.params.map (fun p => .node (.param p)) ++ [.node (.type signature.result)]
  | .method m => [.token m.name, .node (.type (.function m.signature))]
  | .variant v =>
    .token v.tag :: (v.payload.toList.map fun t => .node (.type t))
      ++ v.discriminant.toList.map .token
  | .field f => [.token f.name, .node (.type f.type)] ++ f.default.toList.map .token
  | .param p => p.name.toList.map .token ++ [.node (.type p.type)]

/-- The nodes directly below a node. -/
def children (n : Node) : List Node := n.parts.filterMap Part.node?

/-- A node that is part of another is smaller. -/
theorem sizeOf_lt_of_part {m n : Node} (h : .node m ∈ n.parts) : sizeOf m < sizeOf n := by
  cases n with
  | declaration d =>
    obtain ⟨_, generics, _, _⟩ := d
    cases generics <;> simp_all [parts] <;> omega
  | type t =>
    cases t with
    | reference ref =>
      obtain ⟨_, _, args, _, _⟩ := ref
      cases args with
      | none => simp [parts] at h
      | some args =>
        cases args
        simp only [parts, Option.elim_some, List.mem_append, List.mem_map, reduceCtorEq,
          and_false, exists_false, Part.node.injEq, false_or] at h
        obtain ⟨t, ht, rfl⟩ := h
        have := List.sizeOf_lt_of_mem ht
        simp; omega
    | function signature =>
      cases signature
      simp only [parts, List.mem_append, List.mem_map, Part.node.injEq, List.mem_singleton] at h
      rcases h with ⟨t, ht, rfl⟩ | rfl
      · have := List.sizeOf_lt_of_mem ht
        simp; omega
      · simp; omega
    | _ =>
      simp only [parts, List.mem_map, Part.node.injEq] at h
      obtain ⟨t, ht, rfl⟩ := h
      have := List.sizeOf_lt_of_mem ht
      simp; omega
  | method m =>
    obtain ⟨⟨_, _, _⟩, _, _⟩ := m
    simp_all [parts]
    omega
  | variant v =>
    obtain ⟨_, payload, _, _⟩ := v
    cases payload <;> simp_all [parts]
    omega
  | field f =>
    cases f
    simp_all [parts]
    omega
  | param p =>
    cases p
    simp_all [parts]
    omega

theorem mem_children {m n : Node} : m ∈ n.children ↔ Part.node m ∈ n.parts := by
  simp only [children, List.mem_filterMap]
  constructor
  · rintro ⟨p, hp, h⟩
    cases p <;> simp_all [Part.node?]
  · exact fun h => ⟨_, h, rfl⟩

theorem sizeOf_lt_of_mem_children {m n : Node} (h : m ∈ n.children) : sizeOf m < sizeOf n :=
  sizeOf_lt_of_part (mem_children.1 h)

/-! ## Walks -/

/-- The node at a depth and all nodes below it with theirs, each before its children, and `rest`
behind them. -/
def outlineOnto (depth : Nat) (n : Node) (rest : List (Nat × Node)) : List (Nat × Node) :=
  (depth, n) :: n.children.attach.foldr (fun ⟨m, _⟩ rest => m.outlineOnto (depth + 1) rest) rest
termination_by sizeOf n
decreasing_by exact sizeOf_lt_of_mem_children ‹_›

/-- The node at a depth and all nodes below it with theirs, each before its children. -/
def outline (depth : Nat) (n : Node) : List (Nat × Node) := n.outlineOnto depth []

/-- All tokens of a node and of the nodes below it, in the order of the grammar, and `rest` behind
them. -/
def tokensOnto (n : Node) (rest : List Token) : List Token :=
  n.parts.attach.foldr (fun
    | ⟨.token t, _⟩, rest => t :: rest
    | ⟨.node m, _⟩, rest => m.tokensOnto rest) rest
termination_by sizeOf n
decreasing_by exact sizeOf_lt_of_part ‹_›

/-- All tokens of a node and of the nodes below it, in the order of the grammar. -/
def tokens (n : Node) : List Token := n.tokensOnto []

theorem outlineOnto_eq (depth : Nat) (n : Node) (rest : List (Nat × Node)) :
    n.outlineOnto depth rest =
      (depth, n) :: n.children.foldr (fun m rest => m.outlineOnto (depth + 1) rest) rest := by
  rw [outlineOnto, List.foldr_attach]

/-- What is put behind an outline stays behind it. -/
theorem outlineOnto_append (depth : Nat) (n : Node) (rest : List (Nat × Node)) :
    n.outlineOnto depth rest = n.outline depth ++ rest := by
  induction h : sizeOf n using Nat.strongRecOn generalizing depth n rest with
  | ind size ih =>
    subst h
    have below (ms : List Node) (hms : ∀ m ∈ ms, sizeOf m < sizeOf n) (rest) :
        ms.foldr (fun m rest => m.outlineOnto (depth + 1) rest) rest
          = ms.flatMap (outline (depth + 1)) ++ rest := by
      induction ms with
      | nil => rfl
      | cons m ms ihs =>
        rw [List.foldr_cons, ihs fun k hk => hms k (List.mem_cons_of_mem m hk),
          ih _ (hms m List.mem_cons_self) _ _ _ rfl, List.flatMap_cons, List.append_assoc]
    have hc : ∀ m ∈ n.children, sizeOf m < sizeOf n := fun _ => sizeOf_lt_of_mem_children
    rw [outline, outlineOnto_eq, outlineOnto_eq, below _ hc, below _ hc]
    simp

/-- A node stands before the outlines of its children. -/
theorem outline_eq (depth : Nat) (n : Node) :
    n.outline depth = (depth, n) :: n.children.flatMap (outline (depth + 1)) := by
  have (ms : List Node) :
      ms.foldr (fun m rest => m.outlineOnto (depth + 1) rest) []
        = ms.flatMap (outline (depth + 1)) := by
    induction ms with
    | nil => rfl
    | cons m ms ih => rw [List.foldr_cons, ih, outlineOnto_append, List.flatMap_cons]
  rw [outline, outlineOnto_eq, this]

/-- The tokens of a part and of the nodes below it, in the order of the grammar. -/
def partTokens : Part → List Token
  | .token t => [t]
  | .node n => n.tokens

theorem tokensOnto_eq (n : Node) (rest : List Token) :
    n.tokensOnto rest = n.parts.foldr (fun p rest =>
      match p with
      | .token t => t :: rest
      | .node m => m.tokensOnto rest) rest := by
  rw [tokensOnto]
  conv => rhs; rw [← List.foldr_attach]
  congr 1
  funext ⟨p, _⟩ rest
  cases p <;> rfl

/-- What is put behind the tokens of a node stays behind them. -/
theorem tokensOnto_append (n : Node) (rest : List Token) :
    n.tokensOnto rest = n.tokens ++ rest := by
  induction h : sizeOf n using Nat.strongRecOn generalizing n rest with
  | ind size ih =>
    subst h
    have below (ps : List Part) (hps : ∀ m, .node m ∈ ps → sizeOf m < sizeOf n) (rest) :
        ps.foldr (fun p rest =>
          match p with
          | .token t => t :: rest
          | .node m => m.tokensOnto rest) rest = ps.flatMap partTokens ++ rest := by
      induction ps with
      | nil => rfl
      | cons p ps ihs =>
        rw [List.foldr_cons, ihs fun k hk => hps k (List.mem_cons_of_mem p hk), List.flatMap_cons,
          List.append_assoc]
        cases p with
        | token t => rfl
        | node m => exact ih _ (hps m List.mem_cons_self) _ _ rfl
    have hp : ∀ m, .node m ∈ n.parts → sizeOf m < sizeOf n := fun _ => sizeOf_lt_of_part
    rw [tokens, tokensOnto_eq, tokensOnto_eq, below _ hp, below _ hp]
    simp

/-- The tokens of a node are those of its parts, in turn. -/
theorem tokens_eq (n : Node) : n.tokens = n.parts.flatMap partTokens := by
  have (ps : List Part) :
      ps.foldr (fun p rest =>
        match p with
        | .token t => t :: rest
        | .node m => m.tokensOnto rest) [] = ps.flatMap partTokens := by
    induction ps with
    | nil => rfl
    | cons p ps ih =>
      rw [List.foldr_cons, ih, List.flatMap_cons]
      cases p with
      | token t => rfl
      | node m => exact tokensOnto_append m _
  rw [tokens, tokensOnto_eq, this]

end Node

end DeclFront
