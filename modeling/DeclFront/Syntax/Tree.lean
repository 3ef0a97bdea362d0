import DeclFront.Token

/-!
# Syntax trees

A module is a header and a list of declarations, each of which gives a name to a type. A type is
one of six **shapes**; types contain members, and members contain types.

Every node has the span it covers and keeps the tokens that carry information: names, literals and
the segments of paths. Where the text lacks a token, a `missing` token stands in its place, so that
a tree exists for every text.
-/

namespace DeclFront

/-! ## Names -/

/-- A name of one or more segments. -/
structure Path where
  segments : List Token
  span : Span
deriving DecidableEq

namespace Path

/-- The span of a path reaches from its first segment to its last. -/
def spanOf (segments : List Token) : Span :=
  match segments.head?, segments.getLast? with
  | some first, some last => first.span.merge last.span
  | _, _ => .nowhere

def ofSegments (segments : List Token) : Path := ⟨segments, spanOf segments⟩

/-- The path that the text lacks before `t`. -/
def missing (t : Token) : Path := ofSegments [t.missing]

def isMissing (p : Path) : Bool := p.segments.any Token.isMissing

end Path

/-- The name of a module, between double brackets. -/
structure ModuleHeader where
  path : Path
  span : Span
  /-- The text has no header, and `path` stands in its place. -/
  isMissing : Bool
deriving DecidableEq

/-- The parameters of a generic declaration. -/
structure GenericParams where
  params : List Token
  span : Span
deriving DecidableEq

/-! ## Types -/

/-- How a reference holds what it refers to. -/
inductive Ownership where
  | unspecified | own | borrow
deriving DecidableEq

/-- What a type is made as. -/
inductive Shape where
  | reference | protocol | union | record | tuple | function
deriving DecidableEq

def Shape.name : Shape → String
  | .reference => "alias"
  | .protocol => "protocol"
  | .union => "union"
  | .record => "record"
  | .tuple => "tuple"
  | .function => "function"

mutual

/-- A type. -/
inductive TypeExpr where
  /-- Another name for the type referred to. -/
  | reference (ref : TypeRef)
  | protocol (methods : List Method) (span : Span)
  | union (variants : List Variant) (span : Span)
  | record (fields : List Field) (span : Span)
  | tuple (elements : List TypeExpr) (span : Span)
  | function (type : FunctionType)

/-- A type by its name: `own a.b[T]?`. -/
structure TypeRef where
  ownership : Ownership
  path : Path
  args : Option GenericArgs
  optional : Bool
  span : Span

/-- The arguments of a generic type: `[T, List[U]]`. -/
structure GenericArgs where
  args : List TypeExpr
  span : Span

/-- `async (x: T, U) -> V` -/
structure FunctionType where
  isAsync : Bool
  params : List Param
  result : TypeExpr
  span : Span

/-- A parameter of a function, with or without a name. -/
structure Param where
  name : Option Token
  type : TypeExpr
  span : Span

/-- A member of a protocol: `name: (T) -> U`. -/
structure Method where
  name : Token
  signature : FunctionType
  span : Span

/-- A member of a union: `Tag(T) = 3`. -/
structure Variant where
  tag : Token
  payload : Option TypeExpr
  /-- The integer behind the equals sign. -/
  discriminant : Option Token
  span : Span

/-- A member of a record: `name: T = 0`. -/
structure Field where
  name : Token
  type : TypeExpr
  /-- The literal behind the equals sign. -/
  default : Option Token
  span : Span

end

/-- The reference that the text lacks before `t`. -/
def TypeRef.missing (t : Token) : TypeRef :=
  ⟨.unspecified, .missing t, none, false, (Path.missing t).span⟩

namespace TypeExpr

/-- The type that the text lacks before `t`. -/
def missing (t : Token) : TypeExpr := .reference (.missing t)

def isMissing : TypeExpr → Bool
  | .reference ref => ref.path.isMissing
  | _ => false

def shape : TypeExpr → Shape
  | .reference _ => .reference
  | .protocol .. => .protocol
  | .union .. => .union
  | .record .. => .record
  | .tuple .. => .tuple
  | .function _ => .function

def span : TypeExpr → Span
  | .reference ref => ref.span
  | .protocol _ span | .union _ span | .record _ span | .tuple _ span => span
  | .function type => type.span

end TypeExpr

/-! ## Declarations -/

/-- `Name[T] := type` -/
structure Declaration where
  name : Token
  generics : Option GenericParams
  type : TypeExpr
  span : Span

namespace Declaration

def shape (d : Declaration) : Shape := d.type.shape

def isGeneric (d : Declaration) : Bool := d.generics.isSome

end Declaration

end DeclFront
