import DeclFront.Parser.Module
import Mathlib.Order.MinMax

/-!
# Replacing the tokens of a tree

`map f g` replaces every token of a syntax tree by `f` and every offset of a span by `g`, and leaves
the shape of the tree alone. Two parses of texts that differ only in the places of their tokens have
trees of which one is the `map` of the other.
-/

namespace DeclFront

/-- A path reaches from its first segment to its last. -/
theorem Path.spanOf_cons (segment : Token) (segments : List Token) :
    Path.spanOf (segment :: segments) = segment.span.merge (segments.getLastD segment).span := by
  simp [Path.spanOf, List.getLast?_cons]

variable (f : Token → Token) (g : Nat → Nat)

def Span.map (s : Span) : Span := ⟨g s.start, g s.stop⟩

theorem Span.map_merge {g : Nat → Nat} (hg : Monotone g) (s t : Span) :
    (s.merge t).map g = (s.map g).merge (t.map g) := by
  simp [Span.map, Span.merge, hg.map_min, hg.map_max]

def Path.map (p : Path) : Path := ⟨p.segments.map f, p.span.map g⟩

def ModuleHeader.map (h : ModuleHeader) : ModuleHeader :=
  ⟨h.path.map f g, h.span.map g, h.isMissing⟩

def GenericParams.map (p : GenericParams) : GenericParams := ⟨p.params.map f, p.span.map g⟩

mutual

def TypeExpr.map : TypeExpr → TypeExpr
  | .reference ref => .reference (ref.map)
  | .protocol methods span => .protocol (methods.map fun m => m.map) (span.map g)
  | .union variants span => .union (variants.map fun v => v.map) (span.map g)
  | .record fields span => .record (fields.map fun x => x.map) (span.map g)
  | .tuple elements span => .tuple (elements.map fun t => t.map) (span.map g)
  | .function type => .function type.map
termination_by t => sizeOf t

def TypeRef.map : TypeRef → TypeRef
  | ⟨ownership, path, none, optional, span⟩ =>
    ⟨ownership, path.map f g, none, optional, span.map g⟩
  | ⟨ownership, path, some args, optional, span⟩ =>
    ⟨ownership, path.map f g, some args.map, optional, span.map g⟩
termination_by r => sizeOf r

def GenericArgs.map : GenericArgs → GenericArgs
  | ⟨args, span⟩ => ⟨args.map fun t => t.map, span.map g⟩
termination_by a => sizeOf a

def FunctionType.map : FunctionType → FunctionType
  | ⟨isAsync, params, result, span⟩ =>
    ⟨isAsync, params.map fun p => p.map, result.map, span.map g⟩
termination_by t => sizeOf t

def Param.map : Param → Param
  | ⟨name, type, span⟩ => ⟨name.map f, type.map, span.map g⟩
termination_by p => sizeOf p

def Method.map : Method → Method
  | ⟨name, signature, span⟩ => ⟨f name, signature.map, span.map g⟩
termination_by m => sizeOf m

def Variant.map : Variant → Variant
  | ⟨tag, none, discriminant, span⟩ => ⟨f tag, none, discriminant.map f, span.map g⟩
  | ⟨tag, some t, discriminant, span⟩ => ⟨f tag, some t.map, discriminant.map f, span.map g⟩
termination_by v => sizeOf v

def Field.map : Field → Field
  | ⟨name, type, default, span⟩ => ⟨f name, type.map, default.map f, span.map g⟩
termination_by x => sizeOf x

end

def Declaration.map (d : Declaration) : Declaration :=
  ⟨f d.name, d.generics.map (GenericParams.map f g), d.type.map f g, d.span.map g⟩

@[simp] theorem TypeRef.map_mk (ownership : Ownership) (path : Path) (args : Option GenericArgs)
    (optional : Bool) (span : Span) :
    TypeRef.map f g ⟨ownership, path, args, optional, span⟩ =
      ⟨ownership, path.map f g, args.map (GenericArgs.map f g), optional, span.map g⟩ := by
  cases args <;> simp [TypeRef.map]

@[simp] theorem Variant.map_mk (tag : Token) (payload : Option TypeExpr)
    (discriminant : Option Token) (span : Span) :
    Variant.map f g ⟨tag, payload, discriminant, span⟩ =
      ⟨f tag, payload.map (TypeExpr.map f g), discriminant.map f, span.map g⟩ := by
  cases payload <;> simp [Variant.map]

@[simp] theorem TypeExpr.span_map (t : TypeExpr) : (t.map f g).span = t.span.map g := by
  cases t with
  | reference ref => cases ref; simp [TypeExpr.map, TypeExpr.span]
  | function type => cases type; simp [TypeExpr.map, TypeExpr.span, FunctionType.map]
  | _ => simp [TypeExpr.map, TypeExpr.span]

/-! ## Replacing nothing -/

theorem List.map_eq_self {α : Type} {F : α → α} {as : List α} (h : ∀ a ∈ as, F a = a) :
    as.map F = as :=
  (List.map_congr_left h).trans as.map_id

@[simp] theorem Span.map_id (s : Span) : s.map id = s := rfl

@[simp] theorem Path.map_id (p : Path) : p.map id id = p := by
  simp [Path.map]

@[simp] theorem GenericParams.map_id (p : GenericParams) : p.map id id = p := by
  simp [GenericParams.map]

@[simp] theorem ModuleHeader.map_id (h : ModuleHeader) : h.map id id = h := by
  simp [ModuleHeader.map]

mutual

theorem TypeExpr.map_id : (t : TypeExpr) → t.map id id = t
  | .reference ref => by simp [TypeExpr.map, TypeRef.map_id ref]
  | .protocol methods span => by
    simp [TypeExpr.map, List.map_eq_self fun m (_ : m ∈ methods) => Method.map_id m]
  | .union variants span => by
    simp [TypeExpr.map, List.map_eq_self fun v (_ : v ∈ variants) => Variant.map_id v]
  | .record fields span => by
    simp [TypeExpr.map, List.map_eq_self fun x (_ : x ∈ fields) => Field.map_id x]
  | .tuple elements span => by
    simp [TypeExpr.map, List.map_eq_self fun t (_ : t ∈ elements) => TypeExpr.map_id t]
  | .function type => by simp [TypeExpr.map, FunctionType.map_id type]
termination_by t => sizeOf t

theorem TypeRef.map_id : (r : TypeRef) → r.map id id = r
  | ⟨_, _, none, _, _⟩ => by simp
  | ⟨_, _, some args, _, _⟩ => by simp [GenericArgs.map_id args]
termination_by r => sizeOf r

theorem GenericArgs.map_id : (a : GenericArgs) → a.map id id = a
  | ⟨args, _⟩ => by
    simp [GenericArgs.map, List.map_eq_self fun t (_ : t ∈ args) => TypeExpr.map_id t]
termination_by a => sizeOf a

theorem FunctionType.map_id : (t : FunctionType) → t.map id id = t
  | ⟨_, params, result, _⟩ => by
    simp [FunctionType.map, List.map_eq_self fun p (_ : p ∈ params) => Param.map_id p,
      TypeExpr.map_id result]
termination_by t => sizeOf t

theorem Param.map_id : (p : Param) → p.map id id = p
  | ⟨_, type, _⟩ => by simp [Param.map, TypeExpr.map_id type]
termination_by p => sizeOf p

theorem Method.map_id : (m : Method) → m.map id id = m
  | ⟨_, signature, _⟩ => by simp [Method.map, FunctionType.map_id signature]
termination_by m => sizeOf m

theorem Variant.map_id : (v : Variant) → v.map id id = v
  | ⟨_, none, _, _⟩ => by simp
  | ⟨_, some t, _, _⟩ => by simp [TypeExpr.map_id t]
termination_by v => sizeOf v

theorem Field.map_id : (x : Field) → x.map id id = x
  | ⟨_, type, _, _⟩ => by simp [Field.map, TypeExpr.map_id type]
termination_by x => sizeOf x

end

theorem Declaration.map_id (d : Declaration) : d.map id id = d := by
  have h : GenericParams.map id id = id := funext GenericParams.map_id
  simp [Declaration.map, TypeExpr.map_id, h]

/-! ## Replacing twice -/

theorem List.map_map_eq {α β γ : Type} {F : α → β} {G : β → γ} {H : α → γ} {as : List α}
    (h : ∀ a ∈ as, G (F a) = H a) : (as.map F).map G = as.map H := by
  rw [List.map_map]
  exact List.map_congr_left h

section

variable (e : Token → Token) (k : Nat → Nat)

@[simp] theorem Span.map_map (s : Span) : (s.map g).map k = s.map (k ∘ g) := rfl

@[simp] theorem Path.map_map (p : Path) : (p.map f g).map e k = p.map (e ∘ f) (k ∘ g) := by
  simp [Path.map]

@[simp] theorem GenericParams.map_map (p : GenericParams) :
    (p.map f g).map e k = p.map (e ∘ f) (k ∘ g) := by
  simp [GenericParams.map]

mutual

theorem TypeExpr.map_map : (t : TypeExpr) → (t.map f g).map e k = t.map (e ∘ f) (k ∘ g)
  | .reference ref => by simp only [TypeExpr.map, TypeRef.map_map ref]
  | .protocol methods span => by
    simp only [TypeExpr.map, Span.map_map,
      List.map_map_eq fun m (_ : m ∈ methods) => Method.map_map m]
  | .union variants span => by
    simp only [TypeExpr.map, Span.map_map,
      List.map_map_eq fun v (_ : v ∈ variants) => Variant.map_map v]
  | .record fields span => by
    simp only [TypeExpr.map, Span.map_map,
      List.map_map_eq fun x (_ : x ∈ fields) => Field.map_map x]
  | .tuple elements span => by
    simp only [TypeExpr.map, Span.map_map,
      List.map_map_eq fun t (_ : t ∈ elements) => TypeExpr.map_map t]
  | .function type => by simp only [TypeExpr.map, FunctionType.map_map type]
termination_by t => sizeOf t

theorem TypeRef.map_map : (r : TypeRef) → (r.map f g).map e k = r.map (e ∘ f) (k ∘ g)
  | ⟨_, _, none, _, _⟩ => by simp
  | ⟨_, _, some args, _, _⟩ => by simp [GenericArgs.map_map args]
termination_by r => sizeOf r

theorem GenericArgs.map_map : (a : GenericArgs) → (a.map f g).map e k = a.map (e ∘ f) (k ∘ g)
  | ⟨args, _⟩ => by
    simp only [GenericArgs.map, Span.map_map,
      List.map_map_eq fun t (_ : t ∈ args) => TypeExpr.map_map t]
termination_by a => sizeOf a

theorem FunctionType.map_map : (t : FunctionType) → (t.map f g).map e k = t.map (e ∘ f) (k ∘ g)
  | ⟨_, params, result, _⟩ => by
    simp only [FunctionType.map, Span.map_map, TypeExpr.map_map result,
      List.map_map_eq fun p (_ : p ∈ params) => Param.map_map p]
termination_by t => sizeOf t

theorem Param.map_map : (p : Param) → (p.map f g).map e k = p.map (e ∘ f) (k ∘ g)
  | ⟨_, type, _⟩ => by simp [Param.map, TypeExpr.map_map type]
termination_by p => sizeOf p

theorem Method.map_map : (m : Method) → (m.map f g).map e k = m.map (e ∘ f) (k ∘ g)
  | ⟨_, signature, _⟩ => by simp [Method.map, FunctionType.map_map signature]
termination_by m => sizeOf m

theorem Variant.map_map : (v : Variant) → (v.map f g).map e k = v.map (e ∘ f) (k ∘ g)
  | ⟨_, none, _, _⟩ => by simp
  | ⟨_, some t, _, _⟩ => by simp [TypeExpr.map_map t]
termination_by v => sizeOf v

theorem Field.map_map : (x : Field) → (x.map f g).map e k = x.map (e ∘ f) (k ∘ g)
  | ⟨_, type, _, _⟩ => by simp [Field.map, TypeExpr.map_map type]
termination_by x => sizeOf x

end

theorem Declaration.map_map (d : Declaration) :
    (d.map f g).map e k = d.map (e ∘ f) (k ∘ g) := by
  simp [Declaration.map, TypeExpr.map_map, Function.comp_def]

end

end DeclFront
