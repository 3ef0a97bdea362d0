import DeclFront.Proofs.LineBarrier
import DeclFront.Proofs.Passage
import DeclFront.Proofs.TypeRecursion

/-!
# Moving a text down

What stands behind a line feed is read as if it stood behind another one: its segments, its tokens
and the complaints about them move by as many bytes and lines as the line feeds are apart, and the
columns stay. Parsing carries the move along (`Translation.shift`), whatever was raised before the
text that is moved.
-/

namespace DeclFront

variable (k l : Nat)

/-- The place `k` bytes and `l` lines further on. -/
def Position.shift (p : Position) : Position := ⟨p.offset + k, p.line + l, p.column⟩

def Token.shift (t : Token) : Token := { t with position := t.position.shift k l }

def Segment.shift (s : Segment) : Segment := { s with position := s.position.shift k l }

def Diagnostic.shift (d : Diagnostic) : Diagnostic := { d with position := d.position.shift k l }

def Answer.shift : Answer → Answer
  | .token t => .token (t.shift k l)
  | .exhausted t => .exhausted (t.shift k l)

def Reading.shift (r : Reading) : Reading :=
  ⟨r.answer.shift k l, r.complaints.map (Diagnostic.shift k l), r.passed.map (Token.shift k l)⟩

def Declaration.shift (d : Declaration) : Declaration := d.map (Token.shift k l) (· + k)

variable {k l : Nat}

/-! ## Segments and readings -/

theorem Position.advance_shift (p : Position) (c : Char) :
    (p.shift k l).advance c = (p.advance c).shift k l := by
  unfold advance
  split <;> simp [shift, Nat.add_right_comm]

theorem Position.after_shift (p : Position) (cs : List Char) :
    (p.shift k l).after cs = (p.after cs).shift k l := by
  induction cs generalizing p with
  | nil => rfl
  | cons c cs ih => rw [after_cons, advance_shift, ih, after_cons]

/-- The segments of a text do not depend on where the text begins, apart from their places. -/
theorem Segment.ofText_shift (p : Position) (cs : List Char) :
    ofText (p.shift k l) cs = (ofText p cs).map (shift k l) := by
  refine ofText_induction
    (P := fun p cs ss => ofText (p.shift k l) cs = ss.map (shift k l)) ?_ ?_ p cs
  · simp
  · intro p c cs ih
    have hstop : (first (p.shift k l) c cs).stop = (first p c cs).stop.shift k l :=
      Position.after_shift p _
    rw [ofText_cons, hstop, ih]
    rfl

theorem Segment.token?_shift (s : Segment) :
    (s.shift k l).token? = s.token?.map (Token.shift k l) := by
  cases h : s.kind <;> simp [token?, shift, h, Token.shift, length]

theorem Segment.diagnostic?_shift (s : Segment) :
    (s.shift k l).diagnostic? = s.diagnostic?.map (Diagnostic.shift k l) := by
  cases h : s.complaint <;> simp [diagnostic?, shift, h, Diagnostic.shift, length, Diagnostic.about]

theorem gather_shift (skips : TokenKind → Bool) (stop : Position) (ss : List Segment) :
    gather skips (stop.shift k l) (ss.map (Segment.shift k l)) =
      (gather skips stop ss).map (Reading.shift k l) := by
  have hshift : Reading.shift k l = .map (Token.shift k l) (Diagnostic.shift k l) := by
    funext r
    obtain ⟨answer, complaints, passed⟩ := r
    cases answer <;> rfl
  rw [hshift]
  exact gather_map (fun _ => rfl) rfl (fun s _ => s.token?_shift) fun s _ => s.diagnostic?_shift

/-! ## Behind a line feed -/

/-- The bytes of a line and the line feed behind it. -/
def lineBytes (g : List Char) : Nat := byteLength g + 1

/-- The lines of a text and the line feed behind it. -/
def lineCount (g : List Char) : Nat := g.count '\n' + 1

theorem Position.line_after (p : Position) (cs : List Char) :
    (p.after cs).line = p.line + cs.count '\n' := by
  induction cs generalizing p with
  | nil => rfl
  | cons c cs ih =>
    rw [after_cons, ih, advance]
    by_cases hc : c = '\n'
    · simp [hc, Nat.add_assoc, Nat.add_comm 1]
    · simp [hc]

/-- Behind a line feed stands the place of the beginning of a line, further down. -/
theorem Position.advance_after_newline {p : Position} (hp : p.column = 1) (g : List Char) :
    (p.after g).advance '\n' = p.shift (lineBytes g) (lineCount g) := by
  have hoffset := offset_after p g
  have hline := line_after p g
  simp only [advance, if_pos, shift, hoffset, hline, hp]
  rfl

/-! ## Cursors -/

@[simp] theorem Token.start_shift (t : Token) : (t.shift k l).start = t.start + k := rfl

@[simp] theorem Token.stop_shift (t : Token) : (t.shift k l).stop = t.stop + k :=
  Nat.add_right_comm _ _ _

@[simp] theorem Answer.value_shift (a : Answer) : (a.shift k l).value = a.value.shift k l := by
  cases a <;> rfl

@[simp] theorem Diagnostic.offset_shift (d : Diagnostic) : (d.shift k l).offset = d.offset + k :=
  rfl

namespace Cursor

variable (k l) in
/-- The cursor in a text that is moved down, behind what was noticed at the cursor `b`. -/
def shift (b c : Cursor) : Cursor where
  current := c.current.shift k l
  ahead := c.ahead.map (Reading.shift k l)
  left := c.left
  left_eq := by rw [c.left_eq, List.length_map]
  raised := c.raised.map (Diagnostic.shift k l) ++ b.raised
  passed := c.passed.map (Token.shift k l) ++ b.passed
  consumedTo := c.consumedTo + k
  complainedAt := (c.complainedAt.map (· + k)).or b.complainedAt

variable {b c d : Cursor} {n : Nat}

theorem tokens_shift (b c : Cursor) :
    (shift k l b c).tokens = c.tokens.map (Token.shift k l) := by
  simp [tokens, shift, Reading.shift, Function.comp_def]

theorem terminated_map {f : Token → Token} (hf : ∀ t, (f t).kind = t.kind) {ts : List Token}
    (h : Terminated ts) : Terminated (ts.map f) := by
  induction h with
  | last h => exact .last ((hf _).trans h)
  | cons h _ ih => exact .cons (by rwa [hf]) ih

theorem advance_shift (b c : Cursor) : (shift k l b c).advance = shift k l b c.advance := by
  cases h : c.ahead with
  | nil => rw [advance_of_ahead_nil h, advance_of_ahead_nil (by simp [shift, h])]
  | cons r rs =>
    have hshift : (shift k l b c).ahead = r.shift k l :: rs.map (Reading.shift k l) := by
      simp [shift, h]
    rw [advance_of_ahead h, advance_of_ahead hshift]
    simp [shift, Reading.shift]

theorem peek_shift (b c : Cursor) :
    (shift k l b c).peek = (c.peek.1.shift k l, shift k l b c.peek.2) := by
  cases h : c.ahead with
  | nil => rw [peek_of_ahead_nil h, peek_of_ahead_nil (by simp [shift, h])]; rfl
  | cons r rs =>
    have hshift : (shift k l b c).ahead = r.shift k l :: rs.map (Reading.shift k l) := by
      simp [shift, h]
    rw [peek_of_ahead h, peek_of_ahead hshift]
    simp [shift, Reading.shift, quiet]

/-- A complaint about what is moved down is not muted by what was complained about before. -/
theorem report_shift (hb : ∀ x, b.complainedAt = some x → x < n + k) {x : Diagnostic}
    (hx : n ≤ x.offset) : (shift k l b c).report (x.shift k l) = shift k l b (c.report x) := by
  have hat : (shift k l b c).complainedAt = some (x.shift k l).offset ↔
      c.complainedAt = some x.offset := by
    cases hc : c.complainedAt with
    | none =>
      have hne : b.complainedAt ≠ some (x.offset + k) := fun h => by
        have := hb _ h
        omega
      simpa [shift, hc] using hne
    | some y => simp [shift, hc]
  have hcode : (x.shift k l).code = x.code := rfl
  unfold report
  rw [hcode]
  split
  · by_cases h : c.complainedAt = some x.offset
    · rw [if_pos h, if_pos (hat.2 h)]
    · rw [if_neg h, if_neg (mt hat.1 h)]
      simp [shift]
  · simp [shift]

theorem skipEmpty_shift (hb : ∀ x, b.complainedAt = some x → x < n + k) {code : DiagnosticCode}
    (hc : n ≤ c.current.start) :
    (shift k l b c).skipEmpty code = shift k l b (c.skipEmpty code) := by
  have hcomplaint : emptyComplaint code (c.current.shift k l) (c.advance.current.shift k l) =
      (emptyComplaint code c.current c.advance.current).shift k l := by
    rw [emptyComplaint, Token.stop_shift, Token.start_shift, Nat.add_sub_add_right]
    rfl
  rw [skipEmpty, advance_shift, advance_shift]
  exact (congrArg _ hcomplaint).trans (report_shift hb hc)

theorem Step.tokens_suffix (h : Step c d) (hc : c.Closed) : d.tokens <:+ c.tokens := by
  obtain ⟨ts, hpass⟩ := h.reaches.passes hc
  exact hpass.tokens ▸ List.suffix_append ts d.tokens

end Cursor

/-- Moving down the text behind the place `n`, where the cursor `b` stands before the moved text. -/
def Translation.shift (k l n : Nat) (b : Cursor)
    (hb : ∀ x, b.complainedAt = some x → x < n + k) : Translation where
  token := Token.shift k l
  offset := (· + k)
  cursor := Cursor.shift k l b
  valid := fun c => c.Closed ∧ ∀ t ∈ c.tokens, n ≤ t.start
  lost := fun _ => False
  kind_token := fun _ => rfl
  start_token := Token.start_shift
  stop_token := Token.stop_shift
  missing_token := fun _ => rfl
  offset_mono := fun _ _ h => Nat.add_le_add_right h k
  valid_step := fun hs ⟨hc, hn⟩ =>
    ⟨hs.closed hc, fun t ht => hn t ((hs.tokens_suffix hc).subset ht)⟩
  lost_step := fun _ => id
  lost_report := fun _ => id
  closed := And.left
  closed_cursor := fun ⟨hc, _⟩ _ => by
    rw [Cursor.Closed, Cursor.tokens_shift]
    exact Cursor.terminated_map (f := Token.shift k l) (fun _ => rfl) hc
  current_cursor := fun _ _ => rfl
  consumedTo_cursor := fun _ _ => rfl
  left_cursor := fun _ _ _ => Iff.rfl
  peek_cursor := fun _ _ _ => Cursor.peek_shift b _
  advance_cursor := fun _ _ => Cursor.advance_shift b _
  report_cursor := fun code expected ⟨_, hn⟩ _ =>
    have hstart := hn _ List.mem_cons_self
    Cursor.report_shift hb (x := Cursor.complaint code expected _) hstart
  skipEmpty_cursor := fun _ ⟨_, hn⟩ _ => Cursor.skipEmpty_shift hb (hn _ List.mem_cons_self)

end DeclFront
