import DeclFront.Proofs.Containment
import DeclFront.Proofs.Enclosure

/-!
# Members stay in their braces

**Theorem (`Module.stays_in_braces`).** In a text whose brackets match, the name of a declaration
stands in no braces, and a member of a body begins directly inside the braces of that body, but for
parentheses and square brackets that the parser gave up behind an error.

The parsers of the grammar are taken one by one. Each leads from amid some groups to a place amid
the same ones, and the bodies that it makes are **housed** (`Constituent.Housed`): they begin with
their opening brace, and their members amid it. A parser that opens a group begins right inside it
and ends amid those around it, behind a closer or behind a complaint (`PlacesAt.inGroup`). The
rounds of a body stay amid its braces until one consumes the closing brace, which is the last
(`amid_furtherMember`). What is inside a type has fewer tokens left; so all of it is given for types
with fewer (`ht`).

Groups are given up indeed: a list in brackets ends where its line does, and the next declaration
begins inside of it (`Module.not_outside_brackets`).
-/

namespace DeclFront

open DeclFront.Parser

variable {α β : Type} {ts st us : List Token} {o : Token} {n m : Nat} {c d e : Cursor}
  {x y : Constituent}

/-! ## Housed bodies -/

namespace Constituent

/-- The kind of the token that opens a body in braces. -/
def brace? : Constituent → Option TokenKind
  | .node (.type (.protocol ..)) => some .caretBrace
  | .node (.type (.union ..)) => some .pipeBrace
  | .node (.type (.record ..)) => some .percentBrace
  | .node (.type (.tuple ..)) => some .hashBrace
  | _ => none

/-- A body begins with the token that opens its braces, and each member with a token amid them. -/
def Housed (ts : List Token) (c : Cursor) (x : Constituent) : Prop :=
  ∀ k ∈ x.brace?, ∃ o st, o.kind = k ∧ o.start = x.span.start ∧
    ∀ y ∈ x.children, ∃ t, t.start = y.span.start ∧ c.Harbours ts (o :: st) t

/-- All bodies in the constituent are housed. -/
def AllHoused (ts : List Token) (c : Cursor) (x : Constituent) : Prop := x.Everywhere (Housed ts c)

theorem AllHoused.mono (h : x.AllHoused ts c) (hr : c.Reaches d) : x.AllHoused ts d := by
  intro y hy k hk
  obtain ⟨o, st, ho, hstart, hmembers⟩ := h y hy k hk
  refine ⟨o, st, ho, hstart, fun z hz => ?_⟩
  obtain ⟨t, ht, hharbours⟩ := hmembers z hz
  exact ⟨t, ht, hharbours.mono hr⟩

/-- A constituent that is no body in braces. -/
theorem allHoused_of_children (hx : x.brace? = none) (h : ∀ y ∈ x.children, y.AllHoused ts c) :
    x.AllHoused ts c := by
  refine everywhere_iff.2 ⟨?_, h⟩
  intro k hk
  rw [hx] at hk
  exact absurd hk (Option.not_mem_none k)

end Constituent

/-- The constituent begins with a token amid the groups `st`, and all bodies in it are housed. -/
structure Lodged (ts st : List Token) (c : Cursor) (x : Constituent) : Prop where
  begins : ∃ t, t.start = x.span.start ∧ c.Harbours ts st t
  housed : x.AllHoused ts c

theorem Lodged.mono (h : Lodged ts st c x) (hr : c.Reaches d) : Lodged ts st d x := by
  obtain ⟨⟨t, ht, hharbours⟩, hhoused⟩ := h
  exact ⟨⟨t, ht, hharbours.mono hr⟩, hhoused.mono hr⟩

namespace Constituent

/-- A body in braces whose members begin amid them. -/
theorem allHoused_of_members {k : TokenKind} (hx : x.brace? = some k) (ho : o.kind = k)
    (hstart : o.start = x.span.start) (h : ∀ y ∈ x.children, Lodged ts (o :: st) c y) :
    x.AllHoused ts c := by
  refine everywhere_iff.2 ⟨?_, fun y hy => (h y hy).housed⟩
  intro j hj
  obtain rfl : k = j := Option.some.inj (hx.symm.trans hj)
  exact ⟨o, st, ho, hstart, fun y hy => (h y hy).begins⟩

theorem allHoused_path (p : Path) : (path p).AllHoused ts c :=
  allHoused_of_children rfl fun _ hy => absurd hy List.not_mem_nil

theorem allHoused_generics (g : GenericParams) : (generics g).AllHoused ts c :=
  allHoused_of_children rfl fun _ hy => absurd hy List.not_mem_nil

/-- The type that is lacking at a token. -/
theorem allHoused_typeMissing (t : Token) : (node (.type (.missing t))).AllHoused ts c := by
  refine allHoused_of_children rfl fun y hy => ?_
  obtain rfl : y = .path (.missing t) := by
    simpa [children, TypeExpr.missing, TypeRef.missing] using hy
  exact allHoused_path _

end Constituent

/-- The constituent begins at `n`, and all bodies in it are housed. -/
structure Settled (ts : List Token) (n : Nat) (c : Cursor) (x : Constituent) : Prop where
  begins : x.span.start = n
  housed : x.AllHoused ts c

/-! ## Names and lists in brackets -/

theorem keeps_furtherSegment : Keeps ts furtherSegment := by
  intro c st hc
  refine .look (check_apply _ _) (.look (check_apply _ _) (.ite (fun h => ?_) fun _ => ?_))
  · have hk : c.current.kind.isBracket = false := by
      have hk : c.current.kind = .dot ∨ c.current.kind = .colonColon := by simpa using h
      rcases hk with hk | hk <;> rw [hk] <;> rfl
    refine .advance (Keeps.bind (.eat rfl) (fun segment => ?_) _ st (hc.advance hk))
    cases segment with
    | some t => exact .pure _
    | none => exact .bind (.unexpected _) fun _ => .pure _
  · exact .pure fun _ => hc

theorem keeps_path : Keeps ts path := by
  refine .bind (.eat rfl) fun first => ?_
  cases first with
  | some t => exact .bind (.collect keeps_furtherSegment) fun _ => .pure _
  | none => exact .bind (.unexpected _) fun _ => .bind (.look fun _ => rfl) fun _ => .pure _

theorem keeps_commaAndMore : Keeps ts commaAndMore := by
  refine .bind (.eat rfl) fun comma => ?_
  cases comma with
  | some t => exact .bind (.look fun _ => rfl) fun _ => .pure _
  | none => exact .pure _

theorem amid_closeBracket (hc : c.Amid ts (o :: st)) (ho : o.kind = .leftBracket) :
    PlacesAt ts c closeBracket fun d _ => d.Amid ts st :=
  .closeThen hc (.inr ho) (by rw [ho]; rfl) rfl rfl fun _ _ hd => .pure fun _ => hd

/-- A list in brackets, with what holds of its items. -/
theorem amid_bracketed {Q : Cursor → α → Prop} {empty : DiagnosticCode}
    {round : Parser (Round α)} (hempty : Cursor.IsEmptyList empty) (hc : c.Amid ts st)
    (hk : c.current.kind = .leftBracket)
    (hstable : ∀ d e a, d.Along ts → d.Reaches e → Q d a → Q e a)
    (hround : ∀ d st, c.advance.Reaches d → d.Amid ts st → PlacesAt ts d round fun e r =>
      e.Amid ts st ∧ ∀ a ∈ r.item, Q e a) :
    PlacesAt ts c (bracketed empty round) fun d r => d.Amid ts st ∧ ∀ a ∈ r.1, Q d a := by
  have hopen : KindSet.opener.contains c.current.kind = true := by rw [hk]; rfl
  intro halong
  by_cases hclose : c.advance.current.kind = .rightBracket
  · have hs : c.Step (c.skipEmpty empty) := .skipEmpty hempty hclose
    rw [bracketed_of_empty hclose]
    exact ⟨hs.reaches, hc.skipEmpty hempty hopen hclose, fun a ha => absurd ha List.not_mem_nil⟩
  · rw [bracketed_of_ne hclose]
    have hrest : PlacesAt ts c.advance
        (do
          let items ← collect round
          closeBracket
          return (items, ⟨c.current.start, ← consumedTo⟩))
        (fun d (r : List α × Span) => d.Amid ts st ∧ ∀ a ∈ r.1, Q d a) := by
      refine .inGroup hc hopen fun us hin => ?_
      refine .bind (.collectKeeping hstable (.of_inside hin) fun d hr hd => hround d _ hr hd)
        fun items d _ hd ⟨hamid, hitems⟩ => ?_
      refine .bind (amid_closeBracket hamid hk) fun _ e hr' _ he => ?_
      refine .look (consumedTo_apply _) (.pure fun _ => ⟨he, fun a ha => ?_⟩)
      exact hstable d e a hd hr' (hitems a ha)
    obtain ⟨hr, h⟩ := hrest halong.advance
    exact ⟨Cursor.Step.advance.reaches.trans hr, h⟩

theorem keeps_genericParam : Keeps ts genericParam := by
  refine .bind (.eat rfl) fun param => ?_
  cases param with
  | some t => exact .bind keeps_commaAndMore fun _ => .pure _
  | none => exact .bind (.unexpected _) fun _ => .pure _

theorem amid_genericParams (hc : c.Amid ts st) (hk : c.current.kind = .leftBracket) :
    PlacesAt ts c genericParams fun d _ => d.Amid ts st := by
  refine .bind (amid_bracketed (Q := fun _ _ => True) (.inl rfl) hc hk (fun _ _ _ _ _ h => h)
    fun d st _ hd => ?_) fun _ _ _ _ ⟨hd, _⟩ => .pure fun _ => hd
  exact (keeps_genericParam d st hd).mono fun _ _ _ _ he => ⟨he, fun _ _ => trivial⟩

/-! ## Types inside -/

/-- A parser that settles a node, from wherever fewer than `n` tokens are left. -/
def SettlesNode (ts : List Token) (n : Nat) (mk : α → Node) (p : Parser α) : Prop :=
  ∀ c st, c.left < n → c.Amid ts st → PlacesAt ts c p fun d a =>
    d.Amid ts st ∧ Settled ts c.current.start d (.node (mk a))

/-- A parser that settles a node, if it finds one. -/
def SettlesNode? (ts : List Token) (n : Nat) (mk : α → Node) (p : Parser (Option α)) : Prop :=
  ∀ c st, c.left < n → c.Amid ts st → PlacesAt ts c p fun d o =>
    d.Amid ts st ∧ ∀ a ∈ o, Settled ts c.current.start d (.node (mk a))

theorem keeps_paramName : Keeps ts paramName := by
  intro c st hc
  refine .look (check_apply _ _) (.ite (fun hk => ?_) fun _ => .pure fun _ => hc)
  have hk : c.current.kind = .identifier := by simpa using hk
  have hpeek : c.peek.2.Amid ts st := hc.peek (.inl hk)
  refine .peekKind (.inl hk) (.ite (fun hcolon => ?_) fun _ => .pure fun _ => hpeek)
  have hcolon : c.peek.1.kind = .colon := by simpa using hcolon
  have hname : c.peek.2.advance.Amid ts st := hpeek.advance (by rw [Cursor.current_peek, hk]; rfl)
  refine .advance (.advance (.pure fun _ => hname.advance ?_))
  rw [Cursor.current_advance_peek, hcolon]
  rfl

section

variable (ht : SettlesNode ts n .type type)

include ht

theorem settlesNode_param : SettlesNode ts n .param (param type) := by
  intro c st hn hc
  refine .look (current_apply _) (.bind (keeps_paramName c st hc) fun name d hr _ hd => ?_)
  refine .bind (ht d st (Nat.lt_of_le_of_lt hr.left_le hn) hd) fun t e _ _ ⟨he, htype⟩ => ?_
  refine .look (consumedTo_apply _) (.pure fun _ => ⟨he, rfl, ?_⟩)
  refine Constituent.allHoused_of_children rfl fun y hy => ?_
  obtain rfl := List.mem_singleton.1 hy
  exact htype.housed

theorem amid_params (hn : c.left < n) (hc : c.Amid ts (o :: st)) (ho : o.kind = .leftParen) :
    PlacesAt ts c (params type) fun d ps => d.Amid ts st ∧
      ∀ p ∈ ps, (Constituent.node (.param p)).AllHoused ts d := by
  refine .bind (.collectKeeping (Q := fun d p => (Constituent.node (.param p)).AllHoused ts d)
    (fun _ _ _ _ hr h => h.mono hr) hc fun d hr hd => ?_) fun found d _ _ h => ?_
  · refine .look (check_apply _ _) (.look (isAtEnd_apply _) (.ite (fun _ => ?_) fun _ => ?_))
    · exact .pure fun _ => ⟨hd, by simp [Round.stop]⟩
    refine .bind (settlesNode_param ht d _ (Nat.lt_of_le_of_lt hr.left_le hn) hd)
      fun p e _ _ h => ?_
    obtain ⟨he, hp⟩ := h
    refine .bind (Keeps.eat rfl e _ he) fun _ f hr' _ hf => .pure fun _ => ⟨hf, fun q hq => ?_⟩
    obtain rfl := Option.some.inj hq
    exact hp.housed.mono hr'
  · obtain ⟨hd, hfound⟩ := h
    exact .closeThen hd (.inl ho) (by rw [ho]; rfl) rfl rfl fun e hr he =>
      .pure fun _ => ⟨he, fun p hp => (hfound p hp).mono hr⟩

theorem amid_result (hn : c.left < n) (hc : c.Amid ts st) : PlacesAt ts c (result type) fun d t =>
    d.Amid ts st ∧ (Constituent.node (.type t)).AllHoused ts d := by
  refine .eatThen (fun hk => ?_) fun _ => ?_
  · have hs : c.Reaches c.advance := Cursor.Step.advance.reaches
    refine (ht _ st (Nat.lt_of_le_of_lt hs.left_le hn) (hc.advance (by rw [hk]; rfl))).mono ?_
    exact fun d t _ _ ⟨hd, htype⟩ => ⟨hd, htype.housed⟩
  · exact .bind (.missingAmid hc _) fun _ d _ _ ⟨hd, _⟩ =>
      .look (current_apply _) (.pure fun _ => ⟨hd, Constituent.allHoused_typeMissing _⟩)

/-- Before its parameters or its result, a function consumes the token with which it begins. -/
theorem settles_function (hk : KindSet.functionStart.contains c.current.kind = true)
    (hn : c.left < n + 1) (hc : c.Amid ts st) : PlacesAt ts c (function type) fun d x =>
      d.Amid ts st ∧ Settled ts c.current.start d (.node (.type (.function x))) := by
  refine .look (current_apply _) ?_
  have hresult (async : Option Token) (found : List Param) (d : Cursor) (hn : d.left < n)
      (hd : d.Amid ts st) (hfound : ∀ p ∈ found, (Constituent.node (.param p)).AllHoused ts d) :
      PlacesAt ts d
        (do
          let t ← Parser.result type
          return (⟨async.isSome, found, t, ⟨c.current.start, max (← consumedTo) t.span.stop⟩⟩ :
            FunctionType))
        fun d x => d.Amid ts st ∧ Settled ts c.current.start d (.node (.type (.function x))) := by
    refine .bind (amid_result ht hn hd) fun t e hr _ h => ?_
    obtain ⟨he, htype⟩ := h
    refine .look (consumedTo_apply _) (.pure fun _ => ⟨he, rfl, ?_⟩)
    refine Constituent.allHoused_of_children rfl fun y hy => ?_
    rcases List.mem_append.1 hy with hy | hy
    · obtain ⟨p, hp, rfl⟩ := List.mem_map.1 hy
      exact (hfound p hp).mono hr
    · obtain rfl := List.mem_singleton.1 hy
      exact htype
  have hasync : PlacesAt ts c (eat .async) fun d _ => d.Amid ts st ∧
      (d.left < n ∨ d.current.kind = .leftParen ∧ d.left < n + 1) :=
    (Keeps.eat rfl c st hc).and (left_async hk hn)
  refine .bind hasync fun async d _ _ h => ?_
  obtain ⟨hd, hleft⟩ := h
  refine .expectThen (fun hparen => ?_) fun hne => ?_
  · have hlt := hd.along.closed.left_advance_lt (by simp [hparen])
    refine .bind (.inGroup hd (by rw [hparen]; rfl) fun us hin =>
      amid_params ht (by omega) (.of_inside hin) hparen) fun found e hr _ h => ?_
    have hle := hr.left_le
    exact hresult async found e (by omega) h.1 h.2
  · have hn := hleft.resolve_right fun h => hne h.1
    refine .bind (.missingAmid hd _) fun _ e hr _ h => .pureThen ?_
    exact hresult async [] e (Nat.lt_of_le_of_lt hr.left_le hn) h.1 (by simp)

/-! ## Bodies in braces -/

omit ht in
theorem keeps_memberColon (next : KindSet) : Keeps ts (memberColon next) := by
  refine .bind (.eat rfl) fun colon => .ite (.pure _) ?_
  refine .bind (.look fun _ => rfl) fun _ => .ite ?_ ?_
  · exact .bind (.missing _) fun _ => .pure _
  · exact .bind (.unexpected _) fun _ => .pure _

omit ht in
theorem keeps_assigned {ks : List TokenKind} (hks : ∀ k ∈ ks, k.isBracket = false) :
    Keeps ts (assigned ks) := by
  refine .bind (.eat rfl) fun equal => ?_
  cases equal with
  | none => exact .pure _
  | some t =>
    intro c st hc
    refine .look (checkSet_apply _ _) (.ite (fun hk => ?_) fun _ => ?_)
    · exact .advance (.pure fun _ => hc.advance (hks _ (by simpa [KindSet.ofList] using hk)))
    · exact (Keeps.unexpected ks).bind (fun _ => .pure _) c st hc

omit ht in
/-- The name of a member is the token with which the member begins. -/
theorem amid_memberName (hc : c.Amid ts st) : PlacesAt ts c memberName fun d o =>
    d.Amid ts st ∧ ∀ t ∈ o, t = c.current := by
  refine .eatThen (fun hk => ?_) fun _ => ?_
  · exact .pure fun _ => ⟨hc.advance (by rw [hk]; rfl), fun t h => (Option.some.inj h).symm⟩
  · exact .bind (.unexpectedAmid hc _) fun _ d _ _ ⟨hd, _⟩ => .pure fun _ => ⟨hd, by simp⟩

theorem settlesNode_method : SettlesNode? ts n .method (method type) := by
  intro c st hn hc
  refine .bind (amid_memberName hc) fun name d hr _ ⟨hd, hname⟩ => ?_
  cases name with
  | none => exact .pure fun _ => ⟨hd, by simp⟩
  | some name =>
    obtain rfl := hname name rfl
    refine .bind (keeps_memberColon _ d st hd) fun go e hr' _ he => ?_
    refine .ite (fun _ => .pure fun _ => ⟨he, by simp⟩) fun _ => ?_
    have hr := hr.trans hr'
    refine .look (checkSet_apply _ _) (.ite (fun hk => ?_) fun _ => ?_)
    · -- the span is merged from both, and the name stands in front
      have hle := hr.left_le
      refine .bind (settles_function ht hk (by omega) he) fun signature f _ _ ⟨hf, hsignature⟩ => ?_
      refine .pure fun _ => ⟨hf, fun m hm => ?_⟩
      obtain rfl := Option.some.inj hm
      have hbegins : c.current.start ≤ signature.span.start :=
        Nat.le_trans (hr.start_le hc.along) (Nat.le_of_eq hsignature.begins.symm)
      refine ⟨Nat.min_eq_left hbegins, Constituent.allHoused_of_children rfl fun y hy => ?_⟩
      obtain rfl := List.mem_singleton.1 hy
      exact hsignature.housed
    · exact .bind (.unexpectedAmid he _) fun _ f _ _ ⟨hf, _⟩ => .pure fun _ => ⟨hf, by simp⟩

theorem amid_payload (hn : c.left < n) (hc : c.Amid ts st) : PlacesAt ts c (payload type) fun d o =>
    d.Amid ts st ∧ ∀ t ∈ o, (Constituent.node (.type t)).AllHoused ts d := by
  refine .eatThen (fun hk => ?_) fun _ => .pure fun _ => ⟨hc, by simp⟩
  have hs : c.Reaches c.advance := Cursor.Step.advance.reaches
  refine .inGroup hc (by rw [hk]; rfl) fun us hin => ?_
  refine .bind (ht c.advance _ (Nat.lt_of_le_of_lt hs.left_le hn) (.of_inside hin))
    fun t d _ _ ⟨hd, htype⟩ => ?_
  refine .closeThen hd (.inl hk) (by rw [hk]; rfl) rfl rfl fun e hr he =>
    .pure fun _ => ⟨he, fun u hu => ?_⟩
  obtain rfl := Option.some.inj hu
  exact htype.housed.mono hr

theorem settlesNode_variant : SettlesNode? ts n .variant (variant type) := by
  intro c st hn hc
  refine .bind (amid_memberName hc) fun tag d hr _ ⟨hd, htag⟩ => ?_
  cases tag with
  | none => exact .pure fun _ => ⟨hd, by simp⟩
  | some tag =>
    obtain rfl := htag tag rfl
    refine .bind (amid_payload ht (Nat.lt_of_le_of_lt hr.left_le hn) hd)
      fun content e _ _ ⟨he, hcontent⟩ => ?_
    refine .bind (keeps_assigned (by decide) e st he) fun value f hr' _ hf => ?_
    have hend : ∀ v ∈ (some ⟨c.current, content, value.value?,
        ⟨c.current.start, f.consumedTo⟩⟩ : Option Variant),
        Settled ts c.current.start f (.node (.variant v)) := by
      intro v hv
      obtain rfl := Option.some.inj hv
      refine ⟨rfl, Constituent.allHoused_of_children rfl fun y hy => ?_⟩
      obtain ⟨t, ht, rfl⟩ := List.mem_map.1 hy
      exact (hcontent t (by simpa using ht)).mono hr'
    cases value with
    | malformed => exact .pure fun _ => ⟨hf, by simp⟩
    | nothing => exact .look (consumedTo_apply _) (.pure fun _ => ⟨hf, hend⟩)
    | value v => exact .look (consumedTo_apply _) (.pure fun _ => ⟨hf, hend⟩)

theorem settlesNode_field : SettlesNode? ts n .field (field type) := by
  intro c st hn hc
  refine .bind (amid_memberName hc) fun name d hr _ ⟨hd, hname⟩ => ?_
  cases name with
  | none => exact .pure fun _ => ⟨hd, by simp⟩
  | some name =>
    obtain rfl := hname name rfl
    refine .bind (keeps_memberColon _ d st hd) fun go e hr' _ he => ?_
    refine .ite (fun _ => .pure fun _ => ⟨he, by simp⟩) fun _ => ?_
    refine .bind (ht e st (Nat.lt_of_le_of_lt (hr.trans hr').left_le hn) he)
      fun t f _ _ ⟨hf, htype⟩ => ?_
    refine .bind (keeps_assigned (by decide) f st hf) fun value g hr'' _ hg => ?_
    have hend : ∀ x ∈ (some ⟨c.current, t, value.value?,
        ⟨c.current.start, max g.consumedTo t.span.stop⟩⟩ : Option Field),
        Settled ts c.current.start g (.node (.field x)) := by
      intro x hx
      obtain rfl := Option.some.inj hx
      refine ⟨rfl, Constituent.allHoused_of_children rfl fun y hy => ?_⟩
      obtain rfl := List.mem_singleton.1 hy
      exact htype.housed.mono hr''
    cases value with
    | malformed => exact .pure fun _ => ⟨hg, by simp⟩
    | nothing => exact .look (consumedTo_apply _) (.pure fun _ => ⟨hg, hend⟩)
    | value v => exact .look (consumedTo_apply _) (.pure fun _ => ⟨hg, hend⟩)

end

section

variable (ho : o.kind.closing = .rightBrace)

include ho

theorem amid_closeMember (found : Bool) (hc : c.Amid ts (o :: st)) :
    PlacesAt ts c (closeMember found) fun d _ => d.Amid ts (o :: st) := by
  have hrecover {c : Cursor} (hc : c.Amid ts (o :: st)) :
      PlacesAt ts c recoverMember fun d _ => d.Amid ts (o :: st) :=
    .bind (.synchronize (by rw [ho]; rfl) hc) fun _ _ _ _ hd => .pure fun _ => hd
  have hclose {c : Cursor} (hc : c.Amid ts (o :: st)) :
      PlacesAt ts c (closeMember true) fun d _ => d.Amid ts (o :: st) := by
    refine .look (checkSet_apply _ _) (.look (isAtEnd_apply _) (.ite (fun _ => .pure fun _ => hc)
      fun _ => ?_))
    exact .bind (.unexpectedAmid hc _) fun _ d _ _ ⟨hd, _⟩ => hrecover hd
  cases found with
  | true => exact hclose hc
  | false => exact .bind (hrecover hc) fun _ d _ _ hd => hclose hd

/-- A round of a body leaves its braces with the closing one, and is the last one then. -/
theorem amid_furtherMember {mk : α → Node} {member : Parser (Option α)}
    (hmember : SettlesNode? ts n mk member) (hn : c.left < n) (hc : c.Amid ts (o :: st)) :
    PlacesAt ts c (furtherMember member) fun d r =>
      (if r.again then d.Amid ts (o :: st) else d.Amid ts st) ∧
        ∀ a ∈ r.item, Lodged ts (o :: st) d (.node (mk a)) := by
  have hseparator : ∀ k, KindSet.separator.contains k = true → k.isBracket = false := by
    intro k
    cases k <;> decide
  refine .bind (Keeps.skipSet hseparator c _ hc) fun _ d hr _ hd => ?_
  refine .eatThen (fun hk => .pure fun _ => ⟨hd.closeBrace hk, by simp [Round.stop]⟩) fun _ => ?_
  refine .look (isAtEnd_apply _) (.ite (fun hend => absurd (by simpa using hend) hd.ne_endOfInput)
    fun _ => ?_)
  refine .bind (hmember d _ (Nat.lt_of_le_of_lt hr.left_le hn) hd) fun item e hr₁ _ h => ?_
  obtain ⟨he, hitem⟩ := h
  refine .bind (amid_closeMember ho _ he) fun _ f hr₂ _ hf => .pure fun _ => ⟨hf, fun a ha => ?_⟩
  have hsettled := hitem a ha
  have hharbours : f.Harbours ts (o :: st) d.current := hd.harbours.mono (hr₁.trans hr₂)
  exact ⟨⟨d.current, hsettled.begins.symm, hharbours⟩, hsettled.housed.mono hr₂⟩

end

/-- A body closes the group that it opens, and its members are lodged there. -/
theorem lodges_braced {mk : α → Node} {member : Parser (Option α)}
    (hmember : SettlesNode? ts n mk member) (hmoves : Moves member)
    (hopen : KindSet.opener.contains c.current.kind = true)
    (ho : c.current.kind.closing = .rightBrace) (hn : c.left < n + 1) (hc : c.Amid ts st) :
    PlacesAt ts c (braced member) fun d r =>
      d.Amid ts st ∧ r.2.start = c.current.start ∧
        ∃ us, ∀ a ∈ r.1, Lodged ts (c.current :: us) d (.node (mk a)) := by
  have hlt := hc.along.closed.left_advance_lt (KindSet.ne_of_contains hopen rfl)
  refine .advance (.inGroup hc hopen fun us hin => ?_)
  refine .bind (.collectUntil (I := Cursor.Amid ts (c.current :: us)) (J := Cursor.Amid ts us)
    (Q := fun d a => Lodged ts (c.current :: us) d (.node (mk a))) (fun _ _ _ _ hr h => h.mono hr)
    (.of_inside hin) fun d hr hd => ?_) fun items d _ _ ⟨hd, hitems⟩ => ?_
  · intro halong
    obtain ⟨hr', hd, hitem⟩ :=
      amid_furtherMember ho hmember (Nat.lt_of_le_of_lt hr.left_le (by omega)) hd halong
    refine ⟨hr', ?_, hitem⟩
    -- a round that is not the last has consumed a token, so the body never stops amid its braces
    by_cases hagain : (furtherMember member d).1.again = true
    · rw [if_pos hagain] at hd ⊢
      exact ⟨hd, .inl (left_furtherMember_lt hmoves halong.closed hagain)⟩
    · rw [if_neg hagain] at hd ⊢
      exact hd
  · exact .look (consumedTo_apply _) (.pure fun _ => ⟨hd, rfl, us, hitems⟩)

/-- The type that a body makes stands around its members. -/
theorem settles_body {mk : α → Node} {member : Parser (Option α)} {k : TokenKind}
    {F : List α → Span → TypeExpr} (hmember : SettlesNode? ts n mk member) (hmoves : Moves member)
    (hspan : ∀ as s, (F as s).span = s)
    (hbrace : ∀ as s, (Constituent.node (.type (F as s))).brace? = some k)
    (hchildren : ∀ as s, (Constituent.node (.type (F as s))).children =
      as.map fun a => .node (mk a))
    (hk : c.current.kind = k) (hopen : KindSet.opener.contains k = true)
    (ho : k.closing = .rightBrace) (hn : c.left < n + 1) (hc : c.Amid ts st) :
    PlacesAt ts c
      (do
        let (as, span) ← braced member
        return F as span)
      fun d t => d.Amid ts st ∧ Settled ts c.current.start d (.node (.type t)) := by
  refine .bind (lodges_braced hmember hmoves (hk ▸ hopen) (hk ▸ ho) hn hc)
    fun r d _ _ ⟨hd, hr, us, hitems⟩ => .pure fun _ => ?_
  have hstart : (F r.1 r.2).span.start = c.current.start := by rw [hspan, hr]
  have hmembers : ∀ y ∈ (Constituent.node (.type (F r.1 r.2))).children,
      Lodged ts (c.current :: us) d y := by
    intro y hy
    rw [hchildren] at hy
    obtain ⟨a, ha, rfl⟩ := List.mem_map.1 hy
    exact hitems a ha
  exact ⟨hd, hstart, Constituent.allHoused_of_members (hbrace _ _) hk hstart.symm hmembers⟩

/-! ## References -/

section

variable (ht : SettlesNode ts n .type type)

include ht

theorem amid_genericArgs (hk : c.current.kind = .leftBracket) (hn : c.left < n + 1)
    (hc : c.Amid ts st) : PlacesAt ts c (genericArgs type) fun d a =>
      d.Amid ts st ∧ (Constituent.args a).AllHoused ts d := by
  refine .bind (amid_bracketed (Q := fun d t => (Constituent.node (.type t)).AllHoused ts d)
    (.inr rfl) hc hk (fun _ _ _ _ hr h => h.mono hr) fun d us hr hd => ?_)
    fun r d _ _ ⟨hd, hitems⟩ => .pure fun _ => ⟨hd, ?_⟩
  · have hlt := hc.along.closed.left_advance_lt (by simp [hk])
    refine .bind (ht d us (Nat.lt_of_le_of_lt hr.left_le (by omega)) hd)
      fun t e _ _ ⟨he, htype⟩ => ?_
    refine .bind (keeps_commaAndMore e us he) fun _ f hr' _ hf =>
      .pure fun _ => ⟨hf, fun u hu => ?_⟩
    obtain rfl := Option.some.inj hu
    exact htype.housed.mono hr'
  · refine Constituent.allHoused_of_children rfl fun y hy => ?_
    obtain ⟨t, ht, rfl⟩ := List.mem_map.1 hy
    exact hitems t ht

theorem settles_reference (hn : c.left < n + 1) (hc : c.Amid ts st) :
    PlacesAt ts c (reference type) fun d r =>
      d.Amid ts st ∧ Settled ts c.current.start d (.node (.type (.reference r))) := by
  have hownership : Keeps ts ownership :=
    .bind (.eat rfl) fun _ => .ite (.pure _) (.bind (.eat rfl) fun _ => .ite (.pure _) (.pure _))
  refine .look (current_apply _) (.bind (hownership c st hc) fun held d hr _ hd => ?_)
  refine .bind (keeps_path d st hd) fun name e hr' _ he => ?_
  have hrest (args : Option GenericArgs) (f : Cursor) (hf : f.Amid ts st)
      (hargs : ∀ a ∈ args, (Constituent.args a).AllHoused ts f) :
      PlacesAt ts f
        (do
          let optional := (← eat .question).isSome
          return (⟨held, name, args, optional,
            ⟨c.current.start, max (← consumedTo) name.span.stop⟩⟩ : TypeRef))
        fun g r => g.Amid ts st ∧ Settled ts c.current.start g (.node (.type (.reference r))) := by
    refine .bind (Keeps.eat rfl f st hf) fun _ g hr _ hg => ?_
    refine .look (consumedTo_apply _) (.pure fun _ => ⟨hg, rfl, ?_⟩)
    refine Constituent.allHoused_of_children rfl fun y hy => ?_
    rcases List.mem_cons.1 hy with rfl | hy
    · exact Constituent.allHoused_path name
    · obtain ⟨a, ha, rfl⟩ := List.mem_map.1 hy
      exact (hargs a (by simpa using ha)).mono hr
  refine .look (check_apply _ _) (.ite (fun hk => ?_) fun _ => hrest none e he (by simp))
  have hle := (hr.trans hr').left_le
  exact .bind (.foundKeeping (amid_genericArgs ht (by simpa using hk) (by omega) he))
    fun args f _ _ ⟨hf, hargs⟩ => hrest args f hf hargs

/-! ## Types -/

theorem settles_typeLayer (hn : c.left < n + 1) (hc : c.Amid ts st) :
    PlacesAt ts c (typeLayer type) fun d t =>
      d.Amid ts st ∧ Settled ts c.current.start d (.node (.type t)) := by
  have hfunction (hk : KindSet.functionStart.contains c.current.kind = true) :
      PlacesAt ts c (do return TypeExpr.function (← function type))
        fun d t => d.Amid ts st ∧ Settled ts c.current.start d (.node (.type t)) :=
    .bind (settles_function ht hk hn hc) fun _ _ _ _ h => .pure fun _ => h
  have hreference : PlacesAt ts c (do return TypeExpr.reference (← reference type))
      fun d t => d.Amid ts st ∧ Settled ts c.current.start d (.node (.type t)) :=
    .bind (settles_reference ht hn hc) fun _ _ _ _ h => .pure fun _ => h
  refine .look (currentKind_apply _) ?_
  split
  · exact settles_body (F := .protocol) (settlesNode_method ht) moves_method (fun _ _ => rfl)
      (fun _ _ => rfl) (fun _ _ => rfl) ‹_› rfl rfl hn hc
  · exact settles_body (F := .union) (settlesNode_variant ht) moves_variant (fun _ _ => rfl)
      (fun _ _ => rfl) (fun _ _ => rfl) ‹_› rfl rfl hn hc
  · exact settles_body (F := .record) (settlesNode_field ht) moves_field (fun _ _ => rfl)
      (fun _ _ => rfl) (fun _ _ => rfl) ‹_› rfl rfl hn hc
  · have helement : SettlesNode? ts n .type (some <$> type) :=
      fun d us hd hamid => .foundKeeping (ht d us hd hamid)
    exact settles_body (F := .tuple) helement moves_element (fun _ _ => rfl)
      (fun _ _ => rfl) (fun _ _ => rfl) ‹_› rfl rfl hn hc
  · exact hfunction (by simp [*]; rfl)
  · exact hfunction (by simp [*]; rfl)
  · exact hreference
  · exact hreference
  · exact hreference
  · refine .bind ((PlacesAt.unexpectedAmid hc _).and (.unexpected _)) fun _ d _ _ h => ?_
    obtain ⟨⟨hd, _⟩, hcurrent, _⟩ := h
    refine .look (current_apply _) (.pure fun _ => ⟨hd, ?_, Constituent.allHoused_typeMissing _⟩)
    exact (congrArg Span.start (span_typeMissing d.current)).trans (congrArg Token.start hcurrent)

end

theorem settles_type (hc : c.Amid ts st) : PlacesAt ts c type fun d t =>
    d.Amid ts st ∧ Settled ts c.current.start d (.node (.type t)) := by
  have hall : ∀ n, SettlesNode ts n .type type := by
    intro n
    induction n with
    | zero => exact fun c _ hn => absurd hn (Nat.not_lt_zero _)
    | succ n ih =>
      exact fun c st hn hc => .congr (typeLayer_type hc.along.closed).symm
        (settles_typeLayer ih hn hc)
  exact hall _ c st (Nat.lt_succ_self _) hc

/-! ## The header -/

/-- The brackets of a header that are missing are given up. -/
theorem amid_closeHeader {o₁ o₂ : Token} (h₁ : IsPlain o₁.kind) (h₂ : IsPlain o₂.kind)
    (hc : c.Amid ts (o₂ :: o₁ :: st)) : PlacesAt ts c closeHeader fun d _ => d.Amid ts st := by
  refine .expectThen (fun hk => ?_) fun _ => ?_
  · have hd : c.advance.Amid ts (o₁ :: st) := hc.closePlain h₂ (by rw [hk]; rfl)
    refine .expectThen (fun hk => .pure fun _ => hd.closePlain h₁ (by rw [hk]; rfl)) fun _ => ?_
    exact .bind (.missingAmid hd _) fun _ e _ _ ⟨he, hanswer⟩ => .pure fun _ =>
      he.giveUp h₁ he.stop_le (Nat.le_refl _) hanswer
  · refine .bind (.missingAmid hc _) fun _ d _ _ ⟨hd, hanswer⟩ => .pure fun _ => ?_
    have hd' : d.Amid ts (o₁ :: st) := hd.giveUp h₂ hd.stop_le (Nat.le_refl _) hanswer
    exact hd'.giveUp h₁ hd'.stop_le (Nat.le_refl _) hanswer

theorem keeps_header : Keeps ts header := by
  intro c st hc
  have hmissing {d : Cursor} (hd : d.Amid ts st) (hcurrent : d.current = c.current) :
      PlacesAt ts d
        (do
          report (.aboutToken .missingHeader .parsing c.current)
          return (⟨.missing c.current, .point c.current.start, true⟩ : ModuleHeader))
        fun e _ => e.Amid ts st := by
    rw [← hcurrent]
    exact .bind (.reportAmid hd .missingHeader .empty rfl (by decide))
      fun _ _ _ _ he => .pure fun _ => he
  refine .look (current_apply _) (.look (check_apply _ _) (.ite (fun hk => ?_)
    fun _ => hmissing hc rfl))
  have hk : c.current.kind = .leftBracket := by simpa using hk
  have hpeek : c.peek.2.Amid ts st := hc.peek (.inr hk)
  refine .peekKind (.inr hk) (.ite (fun hnext => ?_) fun _ => hmissing hpeek c.current_peek)
  have hnext : c.peek.2.advance.current.kind = .leftBracket := by
    rw [Cursor.current_advance_peek]
    simpa using hnext
  have hbracket : c.peek.2.current.kind = .leftBracket := by rw [Cursor.current_peek, hk]
  refine .advance (.group hpeek (by rw [hbracket]; rfl) fun us hin => ?_)
  have hinner : c.peek.2.advance.advance.Inside ts _ := hin.opens (by rw [hnext]; rfl)
  refine .advance (.bind (keeps_path _ _ (.of_inside hinner)) fun name d _ _ hd => ?_)
  refine .bind (amid_closeHeader (.inr hbracket) (.inr hnext) hd) fun _ e _ _ he => ?_
  exact .look (consumedTo_apply _) (.pure fun _ => he)

/-! ## Declarations -/

theorem amid_definedType (isGeneric : Bool) (hc : c.Amid ts st) :
    PlacesAt ts c (definedType isGeneric) fun d o =>
      d.Amid ts st ∧ ∀ t ∈ o, (Constituent.node (.type t)).AllHoused ts d := by
  have htype {d : Cursor} (hd : d.Amid ts st) : PlacesAt ts d (do return some (← type)) fun e o =>
      e.Amid ts st ∧ ∀ t ∈ o, (Constituent.node (.type t)).AllHoused ts e :=
    .bind (settles_type hd) fun t e _ _ ⟨he, htype⟩ => .pure fun _ =>
      ⟨he, fun u hu => Option.some.inj hu ▸ htype.housed⟩
  refine .eatThen (fun hk => htype (hc.advance (by rw [hk]; rfl))) fun _ => ?_
  refine .look (checkSet_apply _ _) (.ite (fun _ => ?_) fun _ => ?_)
  · refine .look (current_apply _) (.bind ?_ fun _ d _ _ hd => htype hd)
    exact .reportAmid hc .unexpectedGenericBody .empty rfl (by decide)
  · refine .look (checkSet_apply _ _) (.ite (fun _ => ?_) fun _ => .pure fun _ => ⟨hc, by simp⟩)
    exact .bind (.missingAmid hc _) fun _ d _ _ ⟨hd, _⟩ => htype hd

/-- The name of the declaration is in no braces, and all bodies in it are housed. -/
structure Outermost (ts : List Token) (c : Cursor) (x : Declaration) : Prop where
  name : c.Harbours ts [] x.name
  housed : (Constituent.node (.declaration x)).AllHoused ts c

theorem Outermost.mono {x : Declaration} (h : Outermost ts c x) (hr : c.Reaches d) :
    Outermost ts d x :=
  ⟨h.name.mono hr, h.housed.mono hr⟩

theorem amid_declarationOf (name : Token) (generics : Option GenericParams) (hc : c.Amid ts st) :
    PlacesAt ts c (declarationOf name generics) fun d r =>
      d.Amid ts st ∧ r.1.name = name ∧ (Constituent.node (.declaration r.1)).AllHoused ts d := by
  have hhoused (t : TypeExpr) (span : Span) (d : Cursor)
      (h : (Constituent.node (.type t)).AllHoused ts d) :
      (Constituent.node (.declaration ⟨name, generics, t, span⟩)).AllHoused ts d := by
    refine Constituent.allHoused_of_children rfl fun y hy => ?_
    rcases List.mem_append.1 hy with hy | hy
    · obtain ⟨g, -, rfl⟩ := List.mem_map.1 hy
      exact Constituent.allHoused_generics g
    · obtain rfl := List.mem_singleton.1 hy
      exact h
  refine .bind (amid_definedType _ hc) fun o d _ _ ⟨hd, htype⟩ => ?_
  cases o with
  | some t =>
    exact .look (consumedTo_apply _) (.pure fun _ => ⟨hd, rfl, hhoused _ _ _ (htype t rfl)⟩)
  | none =>
    refine .look (current_apply _) (.bind (.unexpectedAmid hd _) fun _ e _ _ ⟨he, _⟩ => ?_)
    exact .pure fun _ => ⟨he, rfl, hhoused _ _ _ (Constituent.allHoused_typeMissing _)⟩

theorem amid_declarationHead (hk : c.current.kind = .identifier) (hc : c.Amid ts st) :
    PlacesAt ts c declarationHead fun d r =>
      d.Amid ts st ∧ r.1.name = c.current ∧
        (Constituent.node (.declaration r.1)).AllHoused ts d := by
  have hname : c.advance.Amid ts st := hc.advance (by rw [hk]; rfl)
  refine .advance (.look (check_apply _ _) (.ite (fun hbracket => ?_)
    fun _ => amid_declarationOf _ none hname))
  have hgenerics : PlacesAt ts c.advance (some <$> genericParams) fun d _ => d.Amid ts st :=
    .map (amid_genericParams hname (by simpa using hbracket))
  exact .bind hgenerics fun generics d _ _ hd => amid_declarationOf _ generics hd

/-! ## Recovery between declarations -/

/-- What is skipped outside of all braces leads into none. -/
theorem amid_recoverDeclaration (hc : c.Amid ts []) :
    PlacesAt ts c recoverDeclaration fun d _ => d.Amid ts [] := by
  have hskip : PlacesAt ts c (skipUntil atDeclarationStop) fun d _ => d.Amid ts [] := by
    intro halong
    have hr := moves_atDeclarationStop.skipUntil c halong.closed
    refine ⟨hr, ?_⟩
    exact hc.skipUntil moves_atDeclarationStop tokens_atDeclarationStop
      (fun _ _ o ho => absurd ho (Option.not_mem_none o)) hr
  exact .bind hskip fun _ d _ _ hd => .bind (Keeps.eat rfl d [] hd) fun _ e _ _ he =>
    .pure fun _ => he

/-- A group that is skipped is left at its own closer. -/
theorem amid_skipGroup (hk : KindSet.bodyStart.contains c.current.kind = true)
    (hc : c.Amid ts st) : PlacesAt ts c skipGroup fun d _ => d.Amid ts st := by
  refine .advance (.group hc (KindSet.opener_of_bodyStart hk) fun us hin => ?_)
  have hskip : PlacesAt ts c.advance (synchronize .closer) fun d _ =>
      d.Inside ts (c.current :: us) ∧ KindSet.closer.contains d.current.kind = true := by
    intro halong
    have hlooks : Moves (checkSet .closer) := fun c _ => .refl c
    obtain ⟨vs, hvs, hd, hend⟩ := hin.skipUntil [] hlooks (fun _ => rfl)
      fun d hfalse o ho heq => by
        obtain rfl : c.current = o := by simpa using ho
        rw [checkSet_apply, heq, closer_closing] at hfalse
        exact Bool.noConfusion hfalse
    obtain rfl := List.suffix_nil.1 hvs
    refine ⟨moves_synchronize _ _ halong.closed, hd, ?_⟩
    rcases hend with hend | ⟨e, hstop, heq⟩
    · exact absurd (hd.eq_nil_of_end hend) (List.cons_ne_nil _ _)
    · exact congrArg Cursor.current heq ▸ hstop
  refine .bind hskip fun _ d _ _ h => .advance (.pure fun _ => ?_)
  obtain ⟨hd, hcloser⟩ := h
  obtain ⟨o, vs, hvs, -, hd⟩ := hd.closes hcloser
  obtain ⟨-, rfl⟩ := List.cons.inj hvs
  exact .of_inside hd

theorem amid_closeDeclaration (hc : c.Amid ts []) :
    PlacesAt ts c closeDeclaration fun d _ => d.Amid ts [] := by
  have hrecover {d : Cursor} (hd : d.Amid ts []) :
      PlacesAt ts d
        (do
          unexpected [.terminator]
          recoverDeclaration)
        fun e _ => e.Amid ts [] :=
    .bind (.unexpectedAmid hd _) fun _ e _ _ ⟨he, _⟩ => amid_recoverDeclaration he
  refine .look (currentKind_apply _) ?_
  split
  · next hk => exact .advance (.pure fun _ => hc.advance (by rw [hk]; rfl))
  · exact .pure fun _ => hc
  · next hk =>
    have hnames : PlacesAt ts c namesDeclaration fun d _ => d.Amid ts [] :=
      .peekKind (.inl hk) (.pure fun _ => hc.peek (.inl hk))
    refine .bind hnames fun _ d _ _ hd => .ite (fun _ => ?_) fun _ => hrecover hd
    exact (PlacesAt.missingAmid hd _).mono fun _ _ _ _ he => he.1
  · exact hrecover hc

/-! ## Modules -/

theorem outermost_declaration (hk : c.current.kind = .identifier) (hc : c.Amid ts []) :
    PlacesAt ts c declaration fun d x => d.Amid ts [] ∧ Outermost ts d x := by
  refine .bind (amid_declarationHead hk hc) fun (x, isComplete) d hr _ ⟨hd, hname, hhoused⟩ => ?_
  have houtermost : Outermost ts d x := ⟨hname ▸ hc.harbours.mono hr, hhoused⟩
  refine .ite (fun _ => ?_) fun _ => ?_
  · exact .bind (amid_closeDeclaration hd) fun _ e hr' _ he =>
      .pure fun _ => ⟨he, houtermost.mono hr'⟩
  · exact .bind (amid_recoverDeclaration hd) fun _ e hr' _ he =>
      .pure fun _ => ⟨he, houtermost.mono hr'⟩

theorem keeps_skipTerminators : Keeps ts skipTerminators :=
  .skipSet fun k => by cases k <;> decide

theorem outermost_furtherDeclaration (hc : c.Amid ts []) :
    PlacesAt ts c furtherDeclaration fun d r =>
      d.Amid ts [] ∧ ∀ x ∈ r.item, Outermost ts d x := by
  have hrest (item : Option Declaration) (d : Cursor) (hd : d.Amid ts [])
      (h : ∀ x ∈ item, Outermost ts d x) :
      PlacesAt ts d
        (do
          skipTerminators
          return (⟨item, true⟩ : Round Declaration))
        fun e r => e.Amid ts [] ∧ ∀ x ∈ r.item, Outermost ts e x :=
    .bind (keeps_skipTerminators d [] hd) fun _ e hr _ he => .pure fun _ =>
      ⟨he, fun x hx => (h x hx).mono hr⟩
  refine .look (isAtEnd_apply _) (.ite (fun _ => .pure fun _ => ⟨hc, by simp [Round.stop]⟩)
    fun _ => ?_)
  refine .look (check_apply _ _) (.look (checkSet_apply _ _) (.ite (fun hk => ?_) fun _ =>
    .ite (fun hk => ?_) fun _ => ?_))
  · exact .bind (.foundKeeping (outermost_declaration (by simpa using hk) hc))
      fun item d _ _ h => hrest item d h.1 h.2
  · refine .bind ((PlacesAt.unexpectedAmid hc _).and (.unexpected _)) fun _ d _ _ h => ?_
    obtain ⟨⟨hd, -⟩, hcurrent, -⟩ := h
    exact .bind (amid_skipGroup (by rw [hcurrent]; exact hk) hd)
      fun _ e _ _ he => hrest none e he (by simp)
  · refine .bind (.unexpectedAmid hc _) fun _ d _ _ h => ?_
    exact .bind (amid_recoverDeclaration h.1) fun _ e _ _ he => hrest none e he (by simp)

/-- The declarations of a module are in no braces. -/
theorem outermost_module (hc : c.Amid ts []) : PlacesAt ts c Parser.module fun d r =>
    ∀ x ∈ r.2, Outermost ts d x := by
  refine .bind (keeps_skipTerminators c [] hc) fun _ d _ _ hd => ?_
  refine .bind (keeps_header d [] hd) fun head e _ _ he => ?_
  refine .bind (keeps_skipTerminators e [] he) fun _ f _ _ hf => ?_
  refine .bind (.collectKeeping (Q := fun d x => Outermost ts d x)
    (fun _ _ _ _ hr h => h.mono hr) hf fun g _ hg => outermost_furtherDeclaration hg)
    fun xs g _ _ ⟨_, hxs⟩ => .pure fun _ => hxs

/-! ## Texts -/

/-- In the group that `e` opens, in parentheses or square brackets, one of the errors `ds` says that
a token is unexpected or missing, that the header is missing or that a character is invalid. It is
not behind `t`. -/
def GivenUp (ds : List Diagnostic) (t e : Token) : Prop :=
  IsPlain e.kind ∧ ∃ d ∈ ds, e.stop ≤ d.offset ∧ d.offset ≤ t.start ∧ d.isError ∧
    d.code ∈ [.unexpectedToken, .missingToken, .missingHeader, .invalidCharacter]

/-- Among the tokens `ts`, the token `t` stands in the groups `st` and, inside of these, only in
groups that were given up. -/
def StandsAmid (ts : List Token) (ds : List Diagnostic) (st : List Token) (t : Token) : Prop :=
  ∃ us, StandsIn ts (us ++ st) t ∧ ∀ e ∈ us, GivenUp ds t e

namespace Module

theorem standsAmid_of_harbours {s : Source} {t : Token} (policy : TriviaPolicy)
    (h : (lastCursor s.chars).Harbours ts st t) :
    StandsAmid ts (ofSource s 0 policy).diagnostics st t := by
  obtain ⟨us, hstands, hus⟩ := h
  refine ⟨us, hstands, fun e he => ?_⟩
  obtain ⟨hplain, n, hstop, hle, hanswer⟩ := hus e he
  obtain ⟨d, hd, rfl, herror, hcode⟩ := exists_raised_of_answers hanswer
  exact ⟨hplain, d, mem_diagnostics_of_mem_raised policy hd, hstop, hle, herror, hcode⟩

/-- Where parsing a text stops, its declarations were in no braces and its bodies are housed. -/
theorem outermost_lastCursor {s : Source} (h : Matched (lexSignificant s 0).tokens) (limit : Nat)
    (policy : TriviaPolicy) : ∀ d ∈ (ofSource s limit policy).members,
      Outermost (lexSignificant s 0).tokens (lastCursor s.chars) d := by
  have htokens : (Cursor.ofChars s.chars).tokens = (lexSignificant s 0).tokens := by
    rw [Cursor.tokens_ofChars, tokens_lexSignificant s 0]
  rw [← htokens] at h ⊢
  exact (outermost_module (Cursor.amid_ofChars h) (Cursor.along_ofChars s.chars)).2

theorem housed_of_has {s : Source} {limit : Nat} {policy : TriviaPolicy} {x : Constituent}
    (h : Matched (lexSignificant s 0).tokens) (hx : (ofSource s limit policy).Has x) :
    x.Housed (lexSignificant s 0).tokens (lastCursor s.chars) := by
  rcases hx with hx | ⟨d, hd, hx⟩
  · have hheader : (Constituent.header (ofSource s limit policy).header).AllHoused
        (lexSignificant s 0).tokens (lastCursor s.chars) :=
      Constituent.allHoused_of_children rfl fun y hy => by
        obtain rfl := List.mem_singleton.1 hy
        exact Constituent.allHoused_path _
    exact hheader x hx
  · exact (outermost_lastCursor h limit policy d hd).housed x hx

/-- **Recovery stays in its braces.** In a text whose brackets match, the name of a declaration
stands in no braces, and the innermost braces around the beginning of a member are those of its
body. There may be parentheses or square brackets around it further in, but only if an error inside
of them is reported in front of it or at it. -/
theorem stays_in_braces (s : Source) (limit : Nat) (policy : TriviaPolicy)
    (h : Matched (lexSignificant s 0).tokens) :
    (∀ d ∈ (ofSource s limit policy).members, StandsAmid (lexSignificant s 0).tokens
      (ofSource s 0 policy).diagnostics [] d.name) ∧
    ∀ x k, (ofSource s limit policy).Has x → x.brace? = some k →
      ∃ o st, o.kind = k ∧ o.start = x.span.start ∧
        ∀ y ∈ x.children, ∃ t, t.start = y.span.start ∧ StandsAmid (lexSignificant s 0).tokens
          (ofSource s 0 policy).diagnostics (o :: st) t := by
  refine ⟨fun d hd => ?_, fun x k hx hk => ?_⟩
  · exact standsAmid_of_harbours policy (outermost_lastCursor h limit policy d hd).name
  · obtain ⟨o, st, ho, hstart, hmembers⟩ := housed_of_has h hx k hk
    refine ⟨o, st, ho, hstart, fun y hy => ?_⟩
    obtain ⟨t, ht, hharbours⟩ := hmembers y hy
    exact ⟨t, ht, standsAmid_of_harbours policy hharbours⟩

/-- Two lists of parameters that break off at the end of a line. A declaration begins inside of one,
and a field of a record inside of the other. -/
theorem stays_in_braces_open_list :
    let s : Source := ⟨"[[m]]\nA[x\nB := C]\n", none⟩
    let s' : Source := ⟨"[[m]]\nA := %\x7b f: (a, b\n c: D) -> E \x7d\n", none⟩
    (Matched (lexSignificant s 0).tokens ∧
      ∀ d ∈ (ofSource s 0 .discard).members, StandsAmid (lexSignificant s 0).tokens
        (ofSource s 0 .discard).diagnostics [] d.name) ∧
    Matched (lexSignificant s' 0).tokens ∧
      ∃ x, (ofSource s' 0 .discard).Has x ∧ x.brace? = some .percentBrace ∧
        x.children.map (·.span.start) = [14, 24] ∧
        ∃ o st, o.kind = .percentBrace ∧ o.start = x.span.start ∧
          ∀ y ∈ x.children, ∃ t, t.start = y.span.start ∧
            StandsAmid (lexSignificant s' 0).tokens (ofSource s' 0 .discard).diagnostics
              (o :: st) t := by
  intro s s'
  have h : Matched (lexSignificant s 0).tokens := by decide +kernel
  have h' : Matched (lexSignificant s' 0).tokens := by decide +kernel
  obtain ⟨d, hd, hbrace, hstarts⟩ : ∃ d ∈ (ofSource s' 0 .discard).members,
      (Constituent.node (.type d.type)).brace? = some .percentBrace ∧
      (Constituent.node (.type d.type)).children.map (·.span.start) = [14, 24] := by
    decide +kernel
  have hhas : (ofSource s' 0 .discard).Has (.node (.type d.type)) :=
    .inr ⟨d, hd, .single (List.mem_append_right _ (List.mem_singleton_self _))⟩
  exact ⟨⟨h, (stays_in_braces s 0 .discard h).1⟩, h', _, hhas, hbrace, hstarts,
    (stays_in_braces s' 0 .discard h').2 _ _ hhas hbrace⟩

/-- A declaration behind a list of parameters that is given up stands in its brackets. -/
theorem not_outside_brackets :
    let s : Source := ⟨"[[m]]\nA[x\nB := C]\n", none⟩
    Matched (lexSignificant s 0).tokens ∧
      ¬ ∀ d ∈ (ofSource s 0 .discard).members, StandsIn (lexSignificant s 0).tokens [] d.name := by
  intro s
  decide +kernel

end Module

end DeclFront
