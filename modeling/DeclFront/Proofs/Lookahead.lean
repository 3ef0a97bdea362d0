import DeclFront.Proofs.Sifting

/-!
# Looking ahead loses nothing and repeats nothing

The cursor of the parser holds all readings of a text from the start on. Here is a cursor that reads
a token when it is asked for one, into a sink, and keeps at most one token that was looked at
(`PullCursor`). The two go in step under all operations (`PullCursor.InStep`): they give the same
answers, and what was read so far has been reported and held.

The reading cursor also tells what it consumed and where each report came from, so that the tokens
of the text are those that were consumed, the current one and those behind it, and the complaints of
the lexer among the reports are a first part of all of its complaints.

**Theorem (`PullCursor.looks_ahead`).** That is so over every text, after every sequence of
operations, whichever tokens were looked at. At the end of input all complaints of the lexer have
been reported, in order, and all trivia has been passed.
-/

namespace DeclFront

open DeclFront.Parser

/-! ## What can be asked of a cursor -/

/-- An operation of a cursor. -/
inductive Operation where
  | peek
  | advance
  | check (k : TokenKind)
  | eat (k : TokenKind)
  | expect (k : TokenKind)
  | skipTerminators
  | skipSet (s : KindSet)
  | report (d : Diagnostic)
  | unexpected (expected : List TokenKind)
  | missing (k : TokenKind)

/-- What an operation answers. -/
inductive Reply where
  | token (t : Token)
  | found (t : Option Token)
  | holds (b : Bool)
  | done

/-- Performs an operation. -/
def Parser.perform : Operation → Parser Reply
  | .peek => return .token (← Parser.peek)
  | .advance => return .token (← Parser.advance)
  | .check k => return .holds (← Parser.check k)
  | .eat k => return .found (← Parser.eat k)
  | .expect k => return .found (← Parser.expect k)
  | .skipTerminators => do
    Parser.skipTerminators
    return .done
  | .skipSet s => do
    Parser.skipSet s
    return .done
  | .report d => do
    Parser.report d
    return .done
  | .unexpected expected => do
    Parser.unexpected expected
    return .done
  | .missing k => do
    Parser.missing k
    return .done

/-! ## A cursor that reads as it goes -/

/-- Who raised a complaint. -/
inductive Origin where
  | lexer | parser
deriving DecidableEq

/-- A complaint that was reported. -/
structure Report where
  origin : Origin
  diagnostic : Diagnostic

/-- A place in the tokens of a text that are read on demand. -/
structure PullCursor where
  stage : Significant Reader
  sink : Sink
  current : Token
  /-- The token behind the current one, once it was looked at. -/
  peeked : Option Token
  consumedTo : Nat
  complainedAt : Option Nat
  /-- The tokens consumed so far. Like the reports, they are kept only to be told. -/
  consumed : List Token
  /-- All that was reported to the sink, in order. -/
  reports : List Report

namespace PullCursor

/-- Before the first token. -/
def ofReader (reader : Reader) (sink : Sink) (policy : TriviaPolicy) : PullCursor :=
  let (r, stage) := (Significant.ofSource reader policy).read
  { stage
    sink := sink.reportAll r.complaints
    current := r.answer.value
    peeked := none
    consumedTo := 0
    complainedAt := none
    consumed := []
    reports := r.complaints.map (⟨.lexer, ·⟩) }

/-- Reads a token; what is complained about on the way is reported. -/
def read (p : PullCursor) : Token × PullCursor :=
  let (r, stage) := p.stage.read
  (r.answer.value,
    { p with
      stage
      sink := p.sink.reportAll r.complaints
      reports := p.reports ++ r.complaints.map (⟨.lexer, ·⟩) })

/-- Looks at the token behind the current one, and keeps it. -/
def peek (p : PullCursor) : Token × PullCursor :=
  match p.peeked with
  | some t => (t, p)
  | none =>
    let (t, p) := p.read
    (t, { p with peeked := some t })

/-- Consumes the current token; at the end, stays. -/
def advance (p : PullCursor) : PullCursor :=
  if p.current.kind = .endOfInput then p
  else
    let p := { p with consumedTo := p.current.stop, consumed := p.consumed ++ [p.current] }
    match p.peeked with
    | some t => { p with current := t, peeked := none }
    | none =>
      let (t, p) := p.read
      { p with current := t }

/-- Reports a complaint to the sink. -/
def tell (p : PullCursor) (d : Diagnostic) : PullCursor :=
  { p with sink := p.sink.report d, reports := p.reports ++ [⟨.parser, d⟩] }

/-- Raises a complaint, unless it is about a token and one about the same token was just raised. -/
def report (p : PullCursor) (d : Diagnostic) : PullCursor :=
  if d.code.isTokenComplaint then
    if p.complainedAt = some d.offset then p else { p.tell d with complainedAt := some d.offset }
  else p.tell d

/-- Consumes the current token if it is of kind `k`. -/
def eat (p : PullCursor) (k : TokenKind) : Option Token × PullCursor :=
  if p.current.kind = k then (some p.current, p.advance) else (none, p)

/-- Complains that the current token is none of those that may stand here. -/
def unexpected (p : PullCursor) (expected : List TokenKind) : PullCursor :=
  if p.current.kind = .invalid then p
  else p.report (Cursor.complaint .unexpectedToken (.ofList expected) p.current)

/-- Complains that a token of kind `k` is missing before the current one. -/
def missing (p : PullCursor) (k : TokenKind) : PullCursor :=
  p.report (Cursor.complaint .missingToken (.singleton k) p.current)

/-- Consumes a token of kind `k`, or complains that it is missing. -/
def expect (p : PullCursor) (k : TokenKind) : Option Token × PullCursor :=
  match p.eat k with
  | (some t, p) => (some t, p)
  | (none, p) => (none, p.missing k)

/-- A bound on the number of tokens to come. -/
def left (p : PullCursor) : Nat :=
  TokenSource.remaining p.stage + if p.peeked.isSome then 1 else 0

/-- Consumes tokens as long as their kinds are in `s`, and stays at the end. -/
def skipSet (p : PullCursor) (s : KindSet) : PullCursor :=
  if s.contains p.current.kind then
    if p.advance.left < p.left then p.advance.skipSet s else p.advance
  else p
termination_by p.left

/-- Performs an operation. -/
def serve (p : PullCursor) : Operation → Reply × PullCursor
  | .peek => (.token p.peek.1, p.peek.2)
  | .advance => (.token p.current, p.advance)
  | .check k => (.holds (p.current.kind == k), p)
  | .eat k => (.found (p.eat k).1, (p.eat k).2)
  | .expect k => (.found (p.expect k).1, (p.expect k).2)
  | .skipTerminators => (.done, p.skipSet (.ofList [.terminator]))
  | .skipSet s => (.done, p.skipSet s)
  | .report d => (.done, p.report d)
  | .unexpected expected => (.done, p.unexpected expected)
  | .missing k => (.done, p.missing k)

/-- Performs operations in turn. -/
def run (p : PullCursor) : List Operation → List Reply × PullCursor
  | [] => ([], p)
  | op :: ops =>
    let (reply, p) := p.serve op
    let (replies, p) := p.run ops
    (reply :: replies, p)

/-- What the lexer reported. -/
def lexed (p : PullCursor) : List Diagnostic :=
  (p.reports.filter (·.origin = .lexer)).map (·.diagnostic)

/-! ## What is still to be read -/

/-- Without trivia, the reader gives the readings `rs`, and behind them it is at its end. -/
inductive Yields (stop : Position) : Reader → List Reading → Prop
  | finished : Yields stop ⟨[], stop, true⟩ []
  | reading {s s' : Reader} {r : Reading} {rs : List Reading} {t : Token}
    (hread : Significant.pass [] [] s = (r, s')) (ht : r.answer = .token t)
    (hrest : Yields stop s' rs) : Yields stop s (r :: rs)

/-- At the end of the text nothing is passed over. -/
theorem pass_nil (stop : Position) (finished : Bool) :
    Significant.pass [] [] (Reader.mk [] stop finished) =
      (⟨if finished then .exhausted ⟨.endOfInput, stop, 0⟩ else .token ⟨.endOfInput, stop, 0⟩,
        [], []⟩, ⟨[], stop, true⟩) := by
  have hkept (t : Token)
      (ht : (TokenSource.read (Reader.mk [] stop finished)).1.answer = .token t) :
      t.kind.isTrivia = false := by
    cases finished with
    | true => exact Answer.noConfusion ht
    | false =>
      cases ht
      rfl
  rw [Significant.pass_of_kept hkept]
  rfl

theorem yields_of_take {stop : Position} {s : Reader} {rs : List Reading}
    (htoken : ∀ r ∈ rs, ∃ t, r.answer = .token t)
    (htake : TokenSource.take (Significant.ofSource s) rs.length = rs)
    (hdrop : TokenSource.drop (Significant.ofSource s) rs.length =
      Significant.ofSource ⟨[], stop, true⟩) : Yields stop s rs := by
  induction rs generalizing s with
  | nil =>
    obtain rfl : s = ⟨[], stop, true⟩ := congrArg Significant.inner hdrop
    exact .finished
  | cons r rs ih =>
    obtain ⟨hr, hrs⟩ := List.cons.inj htake
    obtain ⟨⟨t, ht⟩, htoken⟩ := List.forall_mem_cons.1 htoken
    exact .reading (Prod.ext hr rfl) ht (ih htoken hrs hdrop)

/-- The reader of a text gives the readings of its segments. -/
theorem yields_gather (stop : Position) (ss : List Segment) :
    Yields stop ⟨ss, stop, false⟩ (gather TokenKind.isTrivia stop ss) := by
  obtain ⟨htake, hdrop⟩ := (Significant.follows stop).take_eq ss
  refine yields_of_take (fun r hr => ?_) htake (hdrop.trans ?_)
  · have hanswer := List.mem_map_of_mem (f := (·.answer)) hr
    rw [map_answer_gather] at hanswer
    rcases List.mem_append.1 hanswer with hanswer | hanswer
    · obtain ⟨t, -, ht⟩ := List.mem_map.1 hanswer
      exact ⟨t, ht.symm⟩
    · exact ⟨_, List.mem_singleton.1 hanswer⟩
  · rw [Significant.read_ofSource, pass_nil]

/-- What is ahead of the cursor: the readings `rs`, the first of which is kept if it was looked
at. -/
def Ahead (stop : Position) (p : PullCursor) (rs : List Reading) : Prop :=
  match p.peeked with
  | none => Yields stop p.stage.inner rs
  | some t => Yields stop p.stage.inner rs.tail ∧
      match rs with
      | [] => t = ⟨.endOfInput, stop, 0⟩
      | r :: _ => r = ⟨.token t, [], []⟩

/-! ## In step -/

/-- The two cursors stand at the same place in the text `cs`. What was read on the way is reported
to the sink, which was `sink` at first, and held if the policy is to collect it. -/
structure InStep (cs : List Char) (sink : Sink) (policy : TriviaPolicy) (p : PullCursor)
    (c : Cursor) : Prop where
  current : p.current = c.current
  consumedTo : p.consumedTo = c.consumedTo
  complainedAt : p.complainedAt = c.complainedAt
  ahead : p.Ahead (Position.origin.after cs) c.ahead
  sink_eq : p.sink = sink.reportAll c.raised.reverse
  policy_eq : p.stage.policy = policy
  held : p.stage.held = c.trivia policy
  /-- What was consumed, the current token and what is ahead are the tokens of the text. -/
  tokens : p.consumed ++ c.tokens = (Cursor.ofChars cs).tokens
  last : p.consumedTo = (p.consumed.getLast?.map Token.stop).getD 0
  reports : p.reports.map (·.diagnostic) = c.raised.reverse
  lexed : p.lexed ++ c.ahead.flatMap (·.complaints) = Segment.complaints cs
  noticed : c.noticed = (Segment.tokens cs).filter (·.kind.isTrivia)

variable {cs : List Char} {sink : Sink} {policy : TriviaPolicy} {p : PullCursor} {c : Cursor}

namespace InStep

theorem closed (h : InStep cs sink policy p c) : c.Closed := by
  have hclosed := Cursor.closed_ofChars cs
  rw [Cursor.Closed, ← h.tokens] at hclosed
  exact ((terminated_append_iff (List.cons_ne_nil _ _)).1 hclosed).2

/-- The cursors come to the end of input of the text. -/
theorem current_of_end (h : InStep cs sink policy p c) (hahead : c.ahead = []) :
    c.current = endOfInput cs := by
  have hlast := congrArg List.getLast? h.tokens
  rw [Cursor.tokens_ofChars, List.getLast?_concat, Cursor.tokens, hahead, List.map_nil,
    List.getLast?_concat] at hlast
  exact Option.some.inj hlast

end InStep

/-! ### Looking ahead -/

/-- Behind the reading `r`, whose token is kept. -/
def keep (p : PullCursor) (r : Reading) (s : Reader) : PullCursor :=
  { p with
    stage := ⟨s, p.stage.policy, p.stage.held ++ p.stage.policy.hold r.passed⟩
    sink := p.sink.reportAll r.complaints
    peeked := some r.answer.value
    reports := p.reports ++ r.complaints.map (⟨.lexer, ·⟩) }

theorem peek_of_some {t : Token} (h : p.peeked = some t) : p.peek = (t, p) := by
  simp [peek, h]

theorem peek_of_none {r : Reading} {s : Reader} (hp : p.peeked = none)
    (h : Significant.pass [] [] p.stage.inner = (r, s)) :
    p.peek = (r.answer.value, p.keep r s) := by
  rw [peek, hp]
  simp only [read, Significant.read_eq h]
  rfl

theorem lexed_keep (p : PullCursor) (r : Reading) (s : Reader) :
    (p.keep r s).lexed = p.lexed ++ r.complaints := by
  simp [lexed, keep, List.filter_map, Function.comp_def]

end PullCursor

namespace Cursor

theorem trivia_of_passed {c d : Cursor} {ts : List Token} (h : d.passed = ts.reverse ++ c.passed)
    (policy : TriviaPolicy) : d.trivia policy = c.trivia policy ++ policy.hold ts := by
  cases policy <;> simp [trivia, TriviaPolicy.hold, h]

/-- To consume a token it makes no difference whether the one behind it was looked at. -/
theorem advance_peek (c : Cursor) : c.peek.2.advance = c.advance := by
  cases hr : c.ahead with
  | nil => rw [peek_of_ahead_nil hr]
  | cons r rs =>
    have hahead : c.peek.2.ahead = quiet r :: rs := by rw [peek_of_ahead hr]
    rw [advance_of_ahead hahead, advance_of_ahead hr, peek_of_ahead hr]
    rfl

/-- A token that was looked at is looked at again. -/
theorem peek_of_quiet {c : Cursor} {t : Token} {rs : List Reading}
    (h : c.ahead = ⟨.token t, [], []⟩ :: rs) : c.peek = (t, c) := by
  rw [peek_of_ahead h]
  obtain ⟨current, ahead, left, left_eq, raised, passed, consumedTo, complainedAt⟩ := c
  obtain rfl : ahead = _ := h
  rfl

end Cursor

namespace PullCursor

variable {cs : List Char} {sink : Sink} {policy : TriviaPolicy} {p : PullCursor} {c : Cursor}

/-- Where the other cursor looks ahead, a reading is made. -/
theorem InStep.keep {r : Reading} {s : Reader} (h : InStep cs sink policy p c)
    (hraised : c.peek.2.raised = r.complaints.reverse ++ c.raised)
    (hpassed : c.peek.2.passed = r.passed.reverse ++ c.passed)
    (hcomplaints : r.complaints ++ c.peek.2.ahead.flatMap (·.complaints) =
      c.ahead.flatMap (·.complaints))
    (hahead : (p.keep r s).Ahead (Position.origin.after cs) c.peek.2.ahead) :
    InStep cs sink policy (p.keep r s) c.peek.2 where
  current := by rw [Cursor.current_peek, ← h.current]; rfl
  consumedTo := by rw [Cursor.consumedTo_peek, ← h.consumedTo]; rfl
  complainedAt := by rw [Cursor.complainedAt_peek, ← h.complainedAt]; rfl
  ahead := hahead
  sink_eq := by
    show p.sink.reportAll r.complaints = _
    rw [hraised, h.sink_eq]
    simp [Sink.reportAll]
  policy_eq := h.policy_eq
  held := by
    show p.stage.held ++ p.stage.policy.hold r.passed = _
    rw [Cursor.trivia_of_passed hpassed, h.held, h.policy_eq]
  tokens := by
    rw [Cursor.tokens_peek, ← h.tokens]
    rfl
  last := h.last
  reports := by
    show (p.reports ++ r.complaints.map _).map _ = _
    rw [hraised, List.map_append, h.reports]
    simp [Function.comp_def]
  lexed := by
    rw [lexed_keep, List.append_assoc, hcomplaints, h.lexed]
  noticed := by rw [Cursor.noticed_peek, h.noticed]

/-- A token in the slot is shown again. -/
theorem InStep.peek_of_some {t : Token} (h : InStep cs sink policy p c) (hp : p.peeked = some t) :
    p.peek.1 = c.peek.1 ∧ InStep cs sink policy p.peek.2 c.peek.2 := by
  have hahead := h.ahead
  rw [Ahead, hp] at hahead
  rw [PullCursor.peek_of_some hp]
  cases hc : c.ahead with
  | nil =>
    rw [hc] at hahead
    rw [Cursor.peek_of_ahead_nil hc]
    exact ⟨hahead.2.trans (h.current_of_end hc).symm, h⟩
  | cons r rs =>
    rw [hc] at hahead
    obtain ⟨-, rfl⟩ := hahead
    rw [Cursor.peek_of_quiet hc]
    exact ⟨rfl, h⟩

/-- With nothing in the slot a reading is made. -/
theorem InStep.peek_of_none (h : InStep cs sink policy p c) (hp : p.peeked = none) :
    p.peek.1 = c.peek.1 ∧ InStep cs sink policy p.peek.2 c.peek.2 := by
  have hahead := h.ahead
  rw [Ahead, hp] at hahead
  generalize hs : p.stage.inner = s at hahead
  generalize hrs : c.ahead = rs at hahead
  cases hahead with
  | finished =>
    -- the reader shows the end of input once more, and the other cursor its current token
    have hc := Cursor.peek_of_ahead_nil hrs
    have hread : Significant.pass [] [] p.stage.inner =
        (⟨.exhausted (endOfInput cs), [], []⟩, ⟨[], Position.origin.after cs, true⟩) := by
      rw [hs]
      exact pass_nil _ true
    rw [PullCursor.peek_of_none hp hread]
    refine ⟨by rw [hc]; exact (h.current_of_end hrs).symm, h.keep ?_ ?_ ?_ ?_⟩
    · rw [hc]; rfl
    · rw [hc]; rfl
    · rw [hc]; rfl
    · rw [hc, hrs]
      exact ⟨.finished, rfl⟩
  | @reading _ s' r rs t hread ht hrest =>
    have hc := Cursor.peek_of_ahead hrs
    rw [PullCursor.peek_of_none hp (hs ▸ hread)]
    refine ⟨by rw [hc], h.keep ?_ ?_ ?_ ?_⟩
    · rw [hc]
    · rw [hc]
    · have hahead : c.peek.2.ahead = Cursor.quiet r :: rs := by rw [hc]
      rw [hahead, hrs]
      rfl
    · rw [hc]
      refine ⟨hrest, ?_⟩
      show Cursor.quiet r = _
      simp [Cursor.quiet, ht, Answer.value]

/-- Looking ahead is answered alike, and leads to the same place. -/
theorem InStep.peek (h : InStep cs sink policy p c) :
    p.peek.1 = c.peek.1 ∧ InStep cs sink policy p.peek.2 c.peek.2 := by
  cases hp : p.peeked with
  | some t => exact h.peek_of_some hp
  | none => exact h.peek_of_none hp

/-! ### Consuming -/

theorem advance_of_end (h : p.current.kind = .endOfInput) : p.advance = p := by
  rw [advance, if_pos h]

/-- The current token is consumed, and the one behind it, which was looked at, is current. -/
theorem advance_of_some {t : Token} (hk : p.current.kind ≠ .endOfInput) (hp : p.peeked = some t) :
    p.advance =
      { p with
        current := t
        peeked := none
        consumedTo := p.current.stop
        consumed := p.consumed ++ [p.current] } := by
  simp [advance, hk, hp]

theorem peeked_peek (p : PullCursor) : p.peek.2.peeked = some p.peek.1 := by
  cases hp : p.peeked with
  | some t => rw [peek_of_some hp, hp]
  | none => simp [peek, hp]

theorem advance_peek (hk : p.current.kind ≠ .endOfInput) : p.peek.2.advance = p.advance := by
  cases hp : p.peeked with
  | some t => rw [peek_of_some hp]
  | none => simp [advance, peek, hp, hk, read]

theorem InStep.advance_of_some {t : Token} (h : InStep cs sink policy p c)
    (hk : p.current.kind ≠ .endOfInput) (hp : p.peeked = some t) :
    InStep cs sink policy p.advance c.advance := by
  have hahead := h.ahead
  rw [Ahead, hp] at hahead
  obtain ⟨r, rs, hrs⟩ := List.exists_cons_of_ne_nil
    (mt h.closed.ahead_eq_nil_iff.1 (h.current ▸ hk))
  rw [hrs] at hahead
  obtain ⟨hyields, rfl⟩ := hahead
  have hadvance := Cursor.advance_of_ahead hrs
  have htokens := Cursor.tokens_advance_of_ne_nil (c := c) (hrs ▸ List.cons_ne_nil _ _)
  have hraised : c.advance.raised = c.raised := by rw [hadvance]; rfl
  have hpassed : c.advance.passed = c.passed := by rw [hadvance]; rfl
  rw [PullCursor.advance_of_some hk hp]
  exact
    { current := by rw [hadvance]; rfl
      consumedTo := by rw [hadvance, ← h.current]
      complainedAt := by rw [Cursor.complainedAt_advance, ← h.complainedAt]
      ahead := by rw [hadvance]; exact hyields
      sink_eq := by rw [hraised, ← h.sink_eq]
      policy_eq := h.policy_eq
      held := by rw [h.held]; cases policy <;> simp [Cursor.trivia, hpassed]
      tokens := by
        rw [← h.tokens, htokens, h.current]
        simp
      last := by simp
      reports := by rw [hraised, ← h.reports]
      lexed := by
        rw [← h.lexed, hadvance, hrs]
        rfl
      noticed := by rw [Cursor.noticed_advance, h.noticed] }

/-- Consuming a token leads to the same place. -/
theorem InStep.advance (h : InStep cs sink policy p c) :
    InStep cs sink policy p.advance c.advance := by
  by_cases hk : p.current.kind = .endOfInput
  · rw [advance_of_end hk, h.closed.advance_of_end (h.current ▸ hk)]
    exact h
  -- looking ahead first makes no difference, and leaves the next token in the slot
  have hpeek := h.peek.2
  have hk' : p.peek.2.current.kind ≠ .endOfInput := by
    rwa [hpeek.current, Cursor.current_peek, ← h.current]
  rw [← advance_peek hk, ← Cursor.advance_peek]
  exact hpeek.advance_of_some hk' (peeked_peek p)

/-! ### Complaining -/

theorem lexed_tell (p : PullCursor) (d : Diagnostic) : (p.tell d).lexed = p.lexed := by
  show ((p.reports ++ [Report.mk .parser d]).filter _).map _ = _
  simp [lexed]

/-- Both report a complaint. -/
theorem InStep.tell (h : InStep cs sink policy p c) (d : Diagnostic) (place : Option Nat) :
    InStep cs sink policy { p.tell d with complainedAt := place }
      { c with raised := d :: c.raised, complainedAt := place } :=
  { h with
    complainedAt := rfl
    sink_eq := by
      show p.sink.report d = _
      rw [h.sink_eq]
      simp [Sink.reportAll]
    reports := by
      show (p.reports ++ [Report.mk .parser d]).map _ = _
      rw [List.map_append, h.reports]
      simp
    lexed := (congrArg (· ++ _) (lexed_tell p d)).trans h.lexed }

theorem InStep.report (h : InStep cs sink policy p c) (d : Diagnostic) :
    InStep cs sink policy (p.report d) (c.report d) := by
  rw [PullCursor.report, Cursor.report, h.complainedAt]
  split
  · split
    · exact h
    · exact h.tell d (some d.offset)
  · have hp : { p.tell d with complainedAt := c.complainedAt } = p.tell d := by
      rw [← h.complainedAt]
      rfl
    rw [← hp]
    exact h.tell d c.complainedAt

/-! ### Every operation -/

variable {k : TokenKind}

theorem InStep.eat (h : InStep cs sink policy p c) (k : TokenKind) :
    (p.eat k).1 = (Parser.eat k c).1 ∧ InStep cs sink policy (p.eat k).2 (Parser.eat k c).2 := by
  rw [PullCursor.eat, h.current]
  by_cases hk : c.current.kind = k
  · rw [if_pos hk, eat_of_eq hk]
    exact ⟨rfl, h.advance⟩
  · rw [if_neg hk, eat_of_ne hk]
    exact ⟨rfl, h⟩

theorem InStep.unexpected (h : InStep cs sink policy p c) (expected : List TokenKind) :
    InStep cs sink policy (p.unexpected expected) (Parser.unexpected expected c).2 := by
  rw [PullCursor.unexpected, h.current]
  by_cases hk : c.current.kind = .invalid
  · rw [if_pos hk, unexpected_of_invalid hk]
    exact h
  · rw [if_neg hk, unexpected_of_valid hk]
    exact h.report _

theorem InStep.missing (h : InStep cs sink policy p c) (k : TokenKind) :
    InStep cs sink policy (p.missing k) (Parser.missing k c).2 := by
  rw [PullCursor.missing, h.current, missing_apply]
  exact h.report _

theorem InStep.expect (h : InStep cs sink policy p c) (k : TokenKind) :
    (p.expect k).1 = (Parser.expect k c).1 ∧
      InStep cs sink policy (p.expect k).2 (Parser.expect k c).2 := by
  have hmissing := h.missing k
  rw [PullCursor.expect, PullCursor.eat, h.current]
  by_cases hk : c.current.kind = k
  · rw [if_pos hk, expect_of_eq hk]
    exact ⟨rfl, h.advance⟩
  · rw [if_neg hk, expect_of_ne hk]
    exact ⟨rfl, hmissing⟩

/-- Reading a token leaves fewer to come. -/
theorem InStep.left_advance_lt (h : InStep cs sink policy p c) (hk : p.current.kind ≠ .endOfInput) :
    p.advance.left < p.left := by
  cases hp : p.peeked with
  | some t =>
    rw [PullCursor.advance_of_some hk hp]
    simp [left, hp]
  | none =>
    have hahead := h.ahead
    rw [Ahead, hp] at hahead
    generalize hs : p.stage.inner = s at hahead
    generalize hrs : c.ahead = rs at hahead
    cases hahead with
    | finished => exact absurd (h.closed.ahead_eq_nil_iff.1 hrs) (h.current ▸ hk)
    | @reading _ s' r rs t hread ht hrest =>
      have hlt : TokenSource.remaining s' < TokenSource.remaining s := by
        have hlt := Significant.remaining_pass_lt [] [] s t (by rw [hread]; exact ht)
        rwa [hread] at hlt
      have hkeep : (p.keep r s').advance = _ := PullCursor.advance_of_some hk rfl
      rw [← PullCursor.advance_peek hk, PullCursor.peek_of_none hp (hs ▸ hread), hkeep]
      show TokenSource.remaining s' + 0 < TokenSource.remaining p.stage.inner + _
      simpa [hp, hs] using hlt

theorem InStep.skipSet (h : InStep cs sink policy p c) (s : KindSet) :
    InStep cs sink policy (p.skipSet s) (Parser.skipSet s c).2 := by
  induction hn : c.left using Nat.strongRecOn generalizing p c with
  | ind n ih =>
    rw [PullCursor.skipSet, skipSet_apply, h.current]
    split
    · by_cases hk : c.current.kind = .endOfInput
      · rw [advance_of_end (h.current ▸ hk), h.closed.advance_of_end hk, if_neg (Nat.lt_irrefl _),
          if_neg (Nat.lt_irrefl _)]
        exact h
      · have hlt := h.closed.left_advance_lt hk
        rw [if_pos (h.left_advance_lt (h.current ▸ hk)), if_pos hlt]
        exact ih _ (hn ▸ hlt) h.advance rfl
    · exact h

/-- **Every operation is answered alike.** -/
theorem InStep.serve (h : InStep cs sink policy p c) (op : Operation) :
    (p.serve op).1 = (perform op c).1 ∧ InStep cs sink policy (p.serve op).2 (perform op c).2 := by
  cases op with
  | peek => exact ⟨congrArg Reply.token h.peek.1, h.peek.2⟩
  | advance => exact ⟨congrArg Reply.token h.current, h.advance⟩
  | check k => exact ⟨by rw [PullCursor.serve, h.current]; rfl, h⟩
  | eat k => exact ⟨congrArg Reply.found (h.eat k).1, (h.eat k).2⟩
  | expect k => exact ⟨congrArg Reply.found (h.expect k).1, (h.expect k).2⟩
  | skipTerminators => exact ⟨rfl, h.skipSet _⟩
  | skipSet s => exact ⟨rfl, h.skipSet s⟩
  | report d => exact ⟨rfl, h.report d⟩
  | unexpected expected => exact ⟨rfl, h.unexpected expected⟩
  | missing k => exact ⟨rfl, h.missing k⟩

/-- All operations are. -/
theorem InStep.run (h : InStep cs sink policy p c) (ops : List Operation) :
    (p.run ops).1 = (ops.mapM perform c).1 ∧
      InStep cs sink policy (p.run ops).2 (ops.mapM perform c).2 := by
  induction ops generalizing p c with
  | nil => exact ⟨rfl, h⟩
  | cons op ops ih =>
    obtain ⟨hreply, hserve⟩ := h.serve op
    obtain ⟨hreplies, hrun⟩ := ih hserve
    rw [List.mapM_cons]
    exact ⟨congrArg₂ List.cons hreply hreplies, hrun⟩

theorem ofReader_eq {reader : Reader} {r : Reading} {s : Reader}
    (h : Significant.pass [] [] reader = (r, s)) (sink : Sink) (policy : TriviaPolicy) :
    ofReader reader sink policy =
      { stage := ⟨s, policy, policy.hold r.passed⟩
        sink := sink.reportAll r.complaints
        current := r.answer.value
        peeked := none
        consumedTo := 0
        complainedAt := none
        consumed := []
        reports := r.complaints.map (⟨.lexer, ·⟩) } := by
  have hread := Significant.read_eq (x := Significant.ofSource reader policy) h
  rw [ofReader, hread]
  rfl

/-- Before the first token. -/
theorem inStep_ofReader (cs : List Char) (sink : Sink) (policy : TriviaPolicy) :
    InStep cs sink policy (ofReader (Reader.ofChars cs) sink policy) (Cursor.ofChars cs) := by
  have hyields : Yields (Position.origin.after cs) (Reader.ofChars cs)
      (Segment.readings TokenKind.isTrivia cs) := yields_gather _ _
  have hstart := Cursor.ofReadings_eq cs
  have hfindings := Cursor.findings_ofChars cs
  generalize hreader : Reader.ofChars cs = reader at hyields
  generalize hrs : Segment.readings TokenKind.isTrivia cs = rs at hyields hstart
  cases hyields with
  | finished => exact absurd hrs (gather_ne_nil _ _ _)
  | @reading _ s' r rs t hread ht hrest =>
    rw [ofReader_eq hread]
    have hraised : (Cursor.ofChars cs).raised.reverse = r.complaints := by
      rw [hstart]
      exact List.reverse_reverse _
    have hpassed : (Cursor.ofChars cs).passed.reverse = r.passed := by
      rw [hstart]
      exact List.reverse_reverse _
    exact
      { current := by rw [hstart]; rfl
        consumedTo := by rw [hstart]; rfl
        complainedAt := by rw [hstart]; rfl
        ahead := by rw [hstart]; exact hrest
        sink_eq := by rw [hraised]
        policy_eq := rfl
        held := by cases policy <;> simp [Cursor.trivia, TriviaPolicy.hold, hpassed]
        tokens := rfl
        last := rfl
        reports := by rw [hraised]; simp [Function.comp_def]
        lexed := by
          rw [← hfindings, Cursor.findings, hraised]
          simp [lexed, List.filter_map, Function.comp_def]
        noticed := Cursor.noticed_ofChars cs }

/-! ### What a cursor in use has come to -/

namespace InStep

/-- The token behind the current one, which at the end is the current one again. -/
theorem peek_eq_headD (h : InStep cs sink policy p c) :
    p.peek.1 = (c.ahead.map (·.answer.value)).headD p.current := by
  rw [h.peek.1, h.current]
  cases hr : c.ahead with
  | nil => rw [Cursor.peek_of_ahead_nil hr]; rfl
  | cons r rs => rw [Cursor.peek_of_ahead hr]; rfl

theorem kind_ne_of_consumed (h : InStep cs sink policy p c) :
    ∀ t ∈ p.consumed, t.kind ≠ .endOfInput := by
  have hclosed : Terminated (Cursor.ofChars cs).tokens := Cursor.closed_ofChars cs
  rw [← h.tokens] at hclosed
  exact hclosed.kind_ne (List.cons_ne_nil _ _)

theorem ahead_eq_nil (h : InStep cs sink policy p c) (hk : p.current.kind = .endOfInput) :
    c.ahead = [] :=
  h.closed.ahead_eq_nil_iff.2 (h.current ▸ hk)

/-- At the end all complaints of the lexer have been reported. -/
theorem lexed_of_end (h : InStep cs sink policy p c) (hk : p.current.kind = .endOfInput) :
    p.lexed = Segment.complaints cs := by
  have hlexed := h.lexed
  rwa [h.ahead_eq_nil hk, List.flatMap_nil, List.append_nil] at hlexed

/-- At the end all trivia has been passed. -/
theorem trivia_of_end (h : InStep cs sink policy p c) (hk : p.current.kind = .endOfInput) :
    c.trivia .collect = (Segment.tokens cs).filter (·.kind.isTrivia) := by
  have hnoticed := h.noticed
  rwa [Cursor.noticed, h.ahead_eq_nil hk, List.flatMap_nil, List.append_nil] at hnoticed

end InStep

/-- **Looking ahead loses nothing and repeats nothing.** Over every text, under every limit, and
after every sequence of operations, the cursor that reads on demand and the one of the parser have
given the same answers and stand at the same place; so the diagnostics and the trivia are the same
that both hand back in the end.

The tokens without trivia are those that were consumed, the current one and those behind it. The end
of input is not among those that were consumed. Looking ahead shows the first token behind, or the
current one again if it is the last one; consuming it then changes nothing.

All that was reported went into the sink in order. What the lexer reported of it is a first part of
its complaints, and what was held is a first part of the trivia of the text; at the end of input,
both are all of it. -/
theorem looks_ahead (s : Source) (limit : Nat) (policy : TriviaPolicy) (ops : List Operation) :
    let p := (ofReader (Reader.ofSource s) (Sink.ofUserLimit limit) policy).run ops
    let c := ops.mapM perform (Cursor.ofChars s.chars)
    (p.1 = c.1 ∧ p.2.current = c.2.current ∧ p.2.peek.1 = c.2.peek.1 ∧
      p.2.consumedTo = c.2.consumedTo ∧ p.2.sink.sorted = c.2.diagnostics limit ∧
      p.2.stage.held = c.2.trivia policy) ∧
    (∃ behind, (lexSignificant s limit).tokens = p.2.consumed ++ p.2.current :: behind ∧
      (∀ t ∈ p.2.consumed, t.kind ≠ .endOfInput) ∧ p.2.peek.1 = behind.headD p.2.current) ∧
    p.2.consumedTo = (p.2.consumed.getLast?.map Token.stop).getD 0 ∧
    (p.2.current.kind = .endOfInput →
      p.2.serve .advance = (.token (endOfInput s.chars), p.2) ∧
      perform .advance c.2 = (.token (endOfInput s.chars), c.2)) ∧
    p.2.sink = (Sink.ofUserLimit limit).reportAll (p.2.reports.map (·.diagnostic)) ∧
    (limit = 0 → p.2.sink.toList = p.2.reports.map (·.diagnostic)) ∧
    p.2.lexed <+: (lexRaw s 0).diagnostics ∧
    p.2.stage.held <+: (lexRaw s limit).tokens.filter (·.kind.isTrivia) ∧
    (p.2.current.kind = .endOfInput → p.2.lexed = (lexRaw s 0).diagnostics ∧
      (policy = .collect →
        p.2.stage.held = (lexRaw s limit).tokens.filter (·.kind.isTrivia))) := by
  intro p c
  obtain ⟨hreplies, h⟩ :
      p.1 = c.1 ∧ InStep s.chars (Sink.ofUserLimit limit) policy p.2 c.2 :=
    (inStep_ofReader s.chars (Sink.ofUserLimit limit) policy).run ops
  have htrivia : (lexRaw s limit).tokens.filter (·.kind.isTrivia) =
      (Segment.tokens s.chars).filter (·.kind.isTrivia) := by
    rw [tokens_lexRaw, List.filter_append]
    exact List.append_nil _
  have hsink : p.2.sink = (Sink.ofUserLimit limit).reportAll (p.2.reports.map (·.diagnostic)) := by
    rw [h.sink_eq, h.reports]
  rw [htrivia, Module.diagnostics_lexRaw_zero]
  refine ⟨⟨hreplies, h.current, h.peek.1, h.consumedTo, by rw [h.sink_eq]; rfl, h.held⟩, ?_, h.last,
    ?_, hsink, ?_, ?_, ?_, fun hk => ⟨h.lexed_of_end hk, ?_⟩⟩
  · refine ⟨_, ?_, h.kind_ne_of_consumed, h.peek_eq_headD⟩
    rw [tokens_lexSignificant, ← Cursor.tokens_ofChars, ← h.tokens, h.current]
    rfl
  · intro hk
    have hend := h.current_of_end (h.ahead_eq_nil hk)
    refine ⟨?_, ?_⟩
    · rw [PullCursor.serve, PullCursor.advance_of_end hk, h.current, hend]
    · show (Reply.token c.2.current, c.2.advance) = _
      rw [h.closed.advance_of_end (h.current ▸ hk), hend]
  · rintro rfl
    rw [hsink]
    exact Sink.toList_reportAll_unlimited _ rfl _
  · exact ⟨_, h.lexed⟩
  · rw [h.held, ← h.noticed]
    cases policy with
    | discard => exact List.nil_prefix
    | collect => exact List.prefix_append _ _
  · rintro rfl
    rw [h.held, h.trivia_of_end hk]

end PullCursor

end DeclFront
