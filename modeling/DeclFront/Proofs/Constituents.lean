import DeclFront.Module
import DeclFront.Proofs.TreeTokens

/-!
# The constituents of a module

Everything in a module that has a span of its own, under one type: the header, paths, lists of
generic parameters and of generic arguments, and the nodes below the declarations. A constituent
**stores** some tokens itself, and further constituents stand right below it; its tokens are those
that it or something below it stores (`Constituent.mem_tokens`).
-/

namespace DeclFront

/-- Something in a module that has a span. -/
inductive Constituent where
  | header (h : ModuleHeader)
  | path (p : Path)
  | generics (g : GenericParams)
  | args (a : GenericArgs)
  | node (n : Node)

namespace Constituent

def span : Constituent → Span
  | .header h => h.span
  | .path p => p.span
  | .generics g => g.span
  | .args a => a.span
  | .node n => n.span

/-- The tokens that a constituent keeps itself. -/
def stored : Constituent → List Token
  | .path p => p.segments
  | .generics g => g.params
  | .node (.declaration d) => [d.name]
  | .node (.method m) => [m.name]
  | .node (.variant v) => v.tag :: v.discriminant.toList
  | .node (.field f) => f.name :: f.default.toList
  | .node (.param p) => p.name.toList
  | .header _ | .args _ | .node (.type _) => []

/-- The constituents right below a constituent. -/
def children : Constituent → List Constituent
  | .header h => [.path h.path]
  | .path _ | .generics _ => []
  | .args a => a.args.map fun t => .node (.type t)
  | .node (.declaration d) => d.generics.toList.map .generics ++ [.node (.type d.type)]
  | .node (.type (.reference r)) => .path r.path :: r.args.toList.map .args
  | .node (.type (.protocol ms _)) => ms.map fun m => .node (.method m)
  | .node (.type (.union vs _)) => vs.map fun v => .node (.variant v)
  | .node (.type (.record fs _)) => fs.map fun f => .node (.field f)
  | .node (.type (.tuple ts _)) => ts.map fun t => .node (.type t)
  | .node (.type (.function f)) =>
    f.params.map (fun p => .node (.param p)) ++ [.node (.type f.result)]
  | .node (.method m) => [.node (.type (.function m.signature))]
  | .node (.variant v) => v.payload.toList.map fun t => .node (.type t)
  | .node (.field f) => [.node (.type f.type)]
  | .node (.param p) => [.node (.type p.type)]

/-- All tokens of a constituent and of those below it, in the order of the grammar. -/
def tokens : Constituent → List Token
  | .header h => h.path.segments
  | .path p => p.segments
  | .generics g => g.params
  | .args a => a.args.flatMap fun t => (Node.type t).tokens
  | .node n => n.tokens

/-- A token of a constituent is stored by it or is a token of one right below it. -/
theorem mem_tokens {t : Token} {x : Constituent} :
    t ∈ x.tokens ↔ t ∈ x.stored ∨ ∃ y ∈ x.children, t ∈ y.tokens := by
  match x with
  | .header _ | .path _ | .generics _ | .args _ => simp [tokens, stored, children]
  | .node (.declaration d) =>
    simp [tokens, stored, children, Node.tokens_declaration, or_and_right, exists_or]
  | .node (.type (.reference r)) => simp [tokens, stored, children, Node.tokens_reference]
  | .node (.type (.protocol ms s)) => simp [tokens, stored, children, Node.tokens_protocol]
  | .node (.type (.union vs s)) => simp [tokens, stored, children, Node.tokens_union]
  | .node (.type (.record fs s)) => simp [tokens, stored, children, Node.tokens_record]
  | .node (.type (.tuple ts s)) => simp [tokens, stored, children, Node.tokens_tuple]
  | .node (.type (.function f)) =>
    simp [tokens, stored, children, Node.tokens_function, or_and_right, exists_or]
  | .node (.method m) => simp [tokens, stored, children, Node.tokens_method]
  | .node (.variant v) =>
    simp [tokens, stored, children, Node.tokens_variant, or_comm, or_assoc]
  | .node (.field f) =>
    simp [tokens, stored, children, Node.tokens_field, or_comm, or_assoc]
  | .node (.param p) => simp [tokens, stored, children, Node.tokens_param]

/-! ## What holds of all constituents -/

/-- `y` is `x` or stands below it. -/
def Contains (x y : Constituent) : Prop := Relation.ReflTransGen (fun x y => y ∈ x.children) x y

/-- `P` holds of the constituent and of all those below it. -/
def Everywhere (P : Constituent → Prop) (x : Constituent) : Prop := ∀ y, x.Contains y → P y

theorem everywhere_iff {P : Constituent → Prop} {x : Constituent} :
    x.Everywhere P ↔ P x ∧ ∀ y ∈ x.children, y.Everywhere P := by
  refine ⟨fun h => ⟨h x .refl, fun y hy z hz => h z (.head hy hz)⟩, fun ⟨hx, hbelow⟩ z hz => ?_⟩
  rcases hz.cases_head with rfl | ⟨y, hy, hz⟩
  · exact hx
  · exact hbelow y hy z hz

end Constituent

/-- The constituents of a module. -/
def Module.Has (m : Module) (x : Constituent) : Prop :=
  (Constituent.header m.header).Contains x ∨
    ∃ d ∈ m.members, (Constituent.node (.declaration d)).Contains x

/-- The tokens of the header and of all declarations, in the order of the grammar. -/
theorem Module.mem_tokens {m : Module} {t : Token} : t ∈ m.tokens ↔
    t ∈ (Constituent.header m.header).tokens ∨
      ∃ d ∈ m.members, t ∈ (Constituent.node (.declaration d)).tokens := by
  simp [Module.tokens, Constituent.tokens]

end DeclFront
