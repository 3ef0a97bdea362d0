import DeclFront.Proofs.Tiling
import DeclFront.Source.ByteCursor
import Mathlib.Logic.Function.Iterate

/-!
# The place of a byte cursor

A byte cursor keeps its place up as it moves, byte by byte in most moves, and for many bytes at once
where it skips to the end of a line or of plain string content. However it was moved, its place is
the one that is found by counting the bytes in front of it (`Position.recountBytes`), and what it
sees are the bytes of the padded text.

Every move is a number of single steps (`ByteCursor.exists_iterate_move`), and a single step keeps
the count (`Counted.advance`). A skip is such a number because it passes no line feed, and it ends
at the first place where it may (`LandsAt`).

**Theorem (`ByteCursor.recounts_bytes`).** This holds behind all moves, in any order, also where the
cursor went back to an earlier copy of itself.
-/

namespace DeclFront

/-! ## Places counted in bytes -/

/-- The place behind the bytes `bs` that a text begins with. Lines are told by the line feeds, and
columns by the bytes behind the last of these that begin a character. -/
def Position.recountBytes (bs : List UInt8) : Position :=
  ⟨bs.length, 1 + bs.count 10, 1 + (bs.reverse.takeWhile (· != 10)).countP (!isContinuation ·)⟩

/-- Keeping a place up over one byte is as good as counting again. -/
theorem Position.advanceByte_recountBytes (bs : List UInt8) (b : UInt8) :
    (recountBytes bs).advanceByte b = recountBytes (bs ++ [b]) := by
  unfold advanceByte
  by_cases hb : b = 10
  · simp [recountBytes, hb, Nat.add_assoc]
  · have hline : (bs ++ [b]).count 10 = bs.count 10 := by simp [hb]
    rw [if_neg hb]
    by_cases hc : isContinuation b = true
    · simp [recountBytes, hb, hc]
    · simp [recountBytes, hb, hc, Nat.add_assoc]

/-- The bytes of some characters. -/
def utf8 (cs : List Char) : List UInt8 := cs.flatMap String.utf8EncodeChar

@[simp] theorem utf8_nil : utf8 [] = [] := rfl

@[simp] theorem utf8_cons (c : Char) (cs : List Char) :
    utf8 (c :: cs) = String.utf8EncodeChar c ++ utf8 cs := rfl

theorem utf8_append (cs ds : List Char) : utf8 (cs ++ ds) = utf8 cs ++ utf8 ds :=
  List.flatMap_append

theorem length_utf8 (cs : List Char) : (utf8 cs).length = byteLength cs := by
  induction cs with
  | nil => rfl
  | cons c cs ih => simp [ih]

theorem Source.length_bytes (s : Source) : s.bytes.length = s.length := by
  rw [length_eq, ← length_utf8]
  rfl

/-- The bytes of the text and the zero bytes behind it. -/
def Source.padded (s : Source) : List UInt8 :=
  s.bytes ++ List.replicate (s.paddedLength - s.length) 0

/-- There are at least four zero bytes. -/
theorem Source.length_add_four_le (s : Source) : s.length + 4 ≤ s.paddedLength := by
  unfold paddedLength
  omega

namespace ByteCursor

variable {s : Source} {c : ByteCursor} {n : Nat}

/-! ## Cursors that have counted right -/

/-- The cursor stands in the text, behind some of its bytes, at the place that these tell. -/
structure Counted (s : Source) (c : ByteCursor) : Prop where
  source_eq : c.source = s
  exists_passed : ∃ passed, s.bytes = passed ++ c.rest ∧ c.position = .recountBytes passed

theorem counted_ofSource (s : Source) : (ofSource s).Counted s := ⟨rfl, [], rfl, rfl⟩

theorem Counted.advance (h : c.Counted s) : c.advance.Counted s := by
  obtain ⟨hsource, passed, hbytes, hposition⟩ := h
  unfold ByteCursor.advance
  split
  · exact ⟨hsource, passed, hbytes, hposition⟩
  · next b bs hrest =>
    refine ⟨hsource, passed ++ [b], ?_, ?_⟩
    · rw [hbytes, hrest, List.append_assoc, List.singleton_append]
    · show c.position.advanceByte b = _
      rw [hposition, Position.advanceByte_recountBytes]

theorem Counted.iterate (h : c.Counted s) (n : Nat) : (ByteCursor.advance^[n] c).Counted s := by
  induction n with
  | zero => exact h
  | succ n ih =>
    rw [Function.iterate_succ_apply']
    exact ih.advance

/-- The bytes in front of the cursor are told by its offset. -/
theorem Counted.exists_take (h : c.Counted s) : c.offset ≤ s.length ∧
    c.rest = s.bytes.drop c.offset ∧ c.position = .recountBytes (s.bytes.take c.offset) := by
  obtain ⟨-, passed, hbytes, hposition⟩ := h
  have hoffset : c.offset = passed.length := congrArg Position.offset hposition
  rw [hoffset, ← Source.length_bytes, hbytes, List.drop_left, List.take_left]
  exact ⟨by simp, rfl, hposition⟩

/-- What the cursor has ahead in the padded text. -/
theorem Counted.drop_padded (h : c.Counted s) : s.padded.drop c.offset =
    c.rest ++ List.replicate (s.paddedLength - s.length) 0 := by
  obtain ⟨hle, hrest, -⟩ := h.exists_take
  rw [Source.padded, List.drop_append_of_le_length (s.length_bytes ▸ hle), hrest]

/-- The cursor sees bytes of the padded text and none behind it. -/
theorem Counted.sees (h : c.Counted s) :
    s.padded[c.offset]? = some c.current ∧ s.padded[c.offset + 1]? = some c.peek ∧
      (s.padded.drop c.offset).length = c.aheadLength ∧
      (s.padded.drop c.offset).take 4 = c.window := by
  have hpadding := s.length_add_four_le
  obtain ⟨k, hk⟩ : ∃ k, s.paddedLength - s.length = 4 + k :=
    ⟨_, (Nat.add_sub_cancel' (by omega)).symm⟩
  have hahead := h.drop_padded
  have hzeros : List.replicate (4 + k) (0 : UInt8) = List.replicate 4 0 ++ List.replicate k 0 :=
    List.replicate_add ..
  rw [hk, hzeros, ← List.append_assoc] at hahead
  have hget (i : Nat) : s.padded[c.offset + i]? =
      (c.rest ++ List.replicate 4 0 ++ List.replicate k 0)[i]? := by
    rw [← hahead, List.getElem?_drop]
  refine ⟨?_, ?_, ?_, ?_⟩
  · rw [← Nat.add_zero c.offset, hget]
    cases hrest : c.rest <;> simp [current, hrest]
  · rw [hget]
    rcases hrest : c.rest with - | ⟨b, - | ⟨b', bs⟩⟩ <;> simp [peek, hrest]
  · obtain ⟨hle, -, -⟩ := h.exists_take
    rw [List.length_drop, Source.padded, List.length_append, List.length_replicate,
      Source.length_bytes, aheadLength, h.source_eq]
    omega
  · rw [hahead, List.take_append_of_le_length (by simp)]
    rfl

/-! ## Moves -/

/-- Whatever moves a cursor. -/
inductive Move where
  | advance
  | advanceN (n : Nat)
  | advanceChar
  | eatWhile (p : UInt8 → Bool)
  | skipLine
  | skipPlain

/-- The cursor behind a move. -/
def move (c : ByteCursor) : Move → ByteCursor
  | .advance => c.advance
  | .advanceN n => c.advanceN n
  | .advanceChar => c.advanceChar
  | .eatWhile p => c.eatWhile p
  | .skipLine => c.skipLine
  | .skipPlain => c.skipPlain

theorem advance_of_isAtEnd (h : c.isAtEnd = true) : c.advance = c := by
  unfold advance
  rw [List.isEmpty_iff.1 h]

theorem iterate_advance_of_isAtEnd (h : c.isAtEnd = true) (n : Nat) : advance^[n] c = c :=
  Function.iterate_fixed (advance_of_isAtEnd h) n

theorem advanceN_eq_iterate (c : ByteCursor) (n : Nat) : c.advanceN n = advance^[n] c := by
  induction n generalizing c with
  | zero => rfl
  | succ n ih =>
    rw [advanceN, Function.iterate_succ_apply]
    split
    · next h => rw [advance_of_isAtEnd h, iterate_advance_of_isAtEnd h]
    · exact ih c.advance

theorem rest_iterate_advance (c : ByteCursor) (n : Nat) : (advance^[n] c).rest = c.rest.drop n := by
  induction n generalizing c with
  | zero => rfl
  | succ n ih =>
    rw [Function.iterate_succ_apply, ih]
    unfold advance
    cases hrest : c.rest <;> simp [hrest]

/-- Counting the bytes of a skip at once is as good as passing them, as long as none is a line
feed. -/
theorem skip_eq_iterate (hn : n ≤ c.rest.length) (hfeed : 10 ∉ c.rest.take n) :
    c.skip n = advance^[n] c := by
  induction n generalizing c with
  | zero => simp [skip, offset]
  | succ n ih =>
    cases hrest : c.rest with
    | nil => simp [hrest] at hn
    | cons b bs =>
      rw [hrest, List.take_succ_cons, List.mem_cons, not_or] at hfeed
      have hb : b ≠ 10 := Ne.symm hfeed.1
      have hadvance : c.advance = { c with rest := bs, position := c.position.advanceByte b } := by
        unfold advance
        rw [hrest]
      have hle : n ≤ bs.length := by simpa [hrest] using hn
      rw [Function.iterate_succ_apply, ← ih (by rwa [hadvance]) (by rw [hadvance]; exact hfeed.2),
        hadvance]
      by_cases hc : isContinuation b = true
      · simp [skip, hrest, offset, Position.advanceByte, hb, hc, Nat.add_assoc, Nat.add_comm 1 n]
      · simp [skip, hrest, offset, Position.advanceByte, hb, hc, Nat.add_assoc, Nat.add_comm 1]

/-! ## Where a skip ends -/

/-- Before a line feed, before a carriage return with a line feed behind it, or at the end. -/
def AtLineEnd (bs : List UInt8) : Prop :=
  bs = [] ∨ bs.head? = some 10 ∨ (bs.head? = some 13 ∧ bs[1]? = some 10)

/-- Before a byte that ends plain string content, or at the end. -/
def AtDelimiter (bs : List UInt8) : Prop := bs = [] ∨ ∃ b ∈ bs.head?, isStringDelimiter b = true

/-- The cursor `d` is where repeated single steps from `c` first come to a place at which `P` holds,
and no line feed is passed on the way. -/
def LandsAt (P : List UInt8 → Prop) (c d : ByteCursor) : Prop :=
  ∃ n, d = advance^[n] c ∧ 10 ∉ c.rest.take n ∧ P d.rest ∧ ∀ i < n, ¬ P (advance^[i] c).rest

/-- A length that grows by one from each place to the one before, up to the places where `P` holds,
leads to the first of these. -/
theorem first_of_step {P : List UInt8 → Prop} {f : List UInt8 → Nat} (hnil : P [])
    (hstop : ∀ bs, P bs → f bs = 0) (hstep : ∀ b bs, ¬ P (b :: bs) → f (b :: bs) = f bs + 1)
    (bs : List UInt8) : f bs ≤ bs.length ∧ P (bs.drop (f bs)) ∧ ∀ i < f bs, ¬ P (bs.drop i) := by
  induction bs with
  | nil => simp [hstop [] hnil, hnil]
  | cons b bs ih =>
    by_cases hP : P (b :: bs)
    · simp [hstop _ hP, hP]
    · obtain ⟨hle, hlast, hbefore⟩ := ih
      rw [hstep b bs hP]
      refine ⟨Nat.succ_le_succ hle, hlast, fun i hi => ?_⟩
      cases i with
      | zero => exact hP
      | succ i => exact hbefore i (Nat.lt_of_succ_lt_succ hi)

/-- A skip that leads to the first place where `P` holds lands there, if it holds before every line
feed. -/
theorem landsAt_skip {P : List UInt8 → Prop} {f : List UInt8 → Nat} (hnil : P [])
    (hfeed : ∀ bs, P (10 :: bs)) (hstop : ∀ bs, P bs → f bs = 0)
    (hstep : ∀ b bs, ¬ P (b :: bs) → f (b :: bs) = f bs + 1) (c : ByteCursor) :
    LandsAt P c (c.skip (f c.rest)) := by
  obtain ⟨hle, hlast, hbefore⟩ := first_of_step hnil hstop hstep c.rest
  have hnone : 10 ∉ c.rest.take (f c.rest) := by
    intro hmem
    obtain ⟨i, hi, hget⟩ := List.getElem_of_mem hmem
    rw [List.length_take, Nat.min_eq_left hle] at hi
    rw [List.getElem_take] at hget
    apply hbefore i hi
    rw [List.drop_eq_getElem_cons (Nat.lt_of_lt_of_le hi hle), hget]
    exact hfeed _
  refine ⟨f c.rest, skip_eq_iterate hle hnone, hnone, hlast, fun i hi => ?_⟩
  rw [rest_iterate_advance]
  exact hbefore i hi

theorem lineLength_of_atLineEnd {bs : List UInt8} (h : AtLineEnd bs) : lineLength bs = 0 := by
  rcases h with rfl | h | ⟨h, h'⟩
  · rfl
  · obtain ⟨bs, rfl⟩ := List.head?_eq_some_iff.1 h
    simp [lineLength]
  · obtain ⟨bs, rfl⟩ := List.head?_eq_some_iff.1 h
    obtain ⟨bs, rfl⟩ : ∃ bs', bs = 10 :: bs' :=
      List.head?_eq_some_iff.1 (by simpa [List.head?_eq_getElem?] using h')
    simp [lineLength]

theorem lineLength_cons {b : UInt8} {bs : List UInt8} (h : ¬ AtLineEnd (b :: bs)) :
    lineLength (b :: bs) = lineLength bs + 1 := by
  have hb : b ≠ 10 := fun hb => h (.inr (.inl (by simp [hb])))
  have hline : (b :: bs).takeWhile (· != 10) = b :: bs.takeWhile (· != 10) := by simp [hb]
  unfold lineLength
  simp only [hline]
  cases hbs : bs.takeWhile (· != 10) with
  | nil =>
    -- The line feed, if there is one, stands next to `b`, which is then no carriage return.
    have hreturn : b = 13 → bs = [] := by
      rintro rfl
      cases bs with
      | nil => rfl
      | cons b' bs =>
        have hb' : b' = 10 := by simpa using hbs
        exact absurd (.inr (.inr (by simp [hb']))) h
    by_cases hb' : b = 13
    · simp [hb', hreturn hb']
    · simp [hb']
  | cons b' line => simp [List.getLast?_cons_cons]; split <;> simp_all

theorem landsAt_skipLine (c : ByteCursor) : LandsAt AtLineEnd c c.skipLine :=
  landsAt_skip (.inl rfl) (fun _ => .inr (.inl rfl)) (fun _ => lineLength_of_atLineEnd)
    (fun _ _ => lineLength_cons) c

theorem landsAt_skipPlain (c : ByteCursor) : LandsAt AtDelimiter c c.skipPlain := by
  refine landsAt_skip (f := fun bs => (bs.takeWhile (!isStringDelimiter ·)).length) (.inl rfl)
    (fun _ => .inr ⟨10, rfl, rfl⟩) ?_ ?_ c
  · rintro bs (rfl | ⟨b, hb, hdelimiter⟩)
    · rfl
    · obtain ⟨bs, rfl⟩ := List.head?_eq_some_iff.1 hb
      simp [hdelimiter]
  · intro b bs h
    have hb : isStringDelimiter b = false := by
      simpa using fun hb => h (.inr ⟨b, rfl, hb⟩)
    simp [hb]

/-- Every move is a number of single steps. -/
theorem exists_iterate_move (c : ByteCursor) (m : Move) : ∃ n, c.move m = advance^[n] c := by
  cases m with
  | advance => exact ⟨1, rfl⟩
  | advanceN n => exact ⟨n, advanceN_eq_iterate c n⟩
  | advanceChar => exact ⟨_, advanceN_eq_iterate c _⟩
  | eatWhile p => exact ⟨_, advanceN_eq_iterate c _⟩
  | skipLine =>
    obtain ⟨n, hn, -⟩ := landsAt_skipLine c
    exact ⟨n, hn⟩
  | skipPlain =>
    obtain ⟨n, hn, -⟩ := landsAt_skipPlain c
    exact ⟨n, hn⟩

theorem Counted.move (h : c.Counted s) (m : Move) : (c.move m).Counted s := by
  obtain ⟨n, hn⟩ := exists_iterate_move c m
  rw [hn]
  exact h.iterate n

/-! ## Walks -/

/-- What can be done with a cursor. -/
inductive Action where
  | move (m : Move)
  /-- Keeps a copy of the cursor. -/
  | keep
  /-- Goes back to a copy that was kept; the latest one has the number zero. -/
  | restore (k : Nat)

/-- A cursor and the copies kept of it, the latest first. -/
structure Walk where
  cursor : ByteCursor
  kept : List ByteCursor

namespace Walk

/-- At the beginning of a text. -/
def start (s : Source) : Walk := ⟨.ofSource s, []⟩

/-- The walk behind an action. Where there is no copy to go back to, the cursor stays. -/
def act (w : Walk) : Action → Walk
  | .move m => { w with cursor := w.cursor.move m }
  | .keep => { w with kept := w.cursor :: w.kept }
  | .restore k => { w with cursor := w.kept[k]?.getD w.cursor }

/-- The walk behind some actions. -/
def run (w : Walk) (actions : List Action) : Walk := actions.foldl act w

/-- The cursor and all copies have counted right. -/
def Counted (s : Source) (w : Walk) : Prop := ∀ c ∈ w.cursor :: w.kept, c.Counted s

theorem Counted.act {w : Walk} (h : w.Counted s) (a : Action) : (w.act a).Counted s := by
  obtain ⟨hcursor, hkept⟩ := List.forall_mem_cons.1 h
  cases a with
  | move m => exact List.forall_mem_cons.2 ⟨hcursor.move m, hkept⟩
  | keep => exact List.forall_mem_cons.2 ⟨hcursor, h⟩
  | restore k =>
    refine List.forall_mem_cons.2 ⟨?_, hkept⟩
    cases hk : w.kept[k]? with
    | none => simpa [Walk.act, hk] using hcursor
    | some d => simpa [Walk.act, hk] using hkept d (List.mem_of_getElem? hk)

theorem Counted.run {w : Walk} (h : w.Counted s) (actions : List Action) :
    (w.run actions).Counted s := by
  induction actions generalizing w with
  | nil => exact h
  | cons a actions ih => exact ih (h.act a)

end Walk

/-- **A byte cursor knows its place.** Behind all moves from the beginning of a text, and behind
every return to a copy made on the way, the cursor stands in the text and sees bytes of the padded
text only. Its line is told by the line feeds in front of it, and its column by the bytes behind the
last of these that begin a character. From there every move goes where a number of single steps
goes, and a skip goes to the first place where it may end, without passing a line feed. -/
theorem recounts_bytes (s : Source) (actions : List Action) :
    let c := ((Walk.start s).run actions).cursor
    c.offset ≤ s.length ∧ c.rest = s.bytes.drop c.offset ∧
    (s.padded[c.offset]? = some c.current ∧ s.padded[c.offset + 1]? = some c.peek ∧
      (s.padded.drop c.offset).length = c.aheadLength ∧
      (s.padded.drop c.offset).take 4 = c.window) ∧
    c.position.line = 1 + (s.bytes.take c.offset).count 10 ∧
    c.position.column = 1 + ((s.bytes.take c.offset).reverse.takeWhile (· != 10)).countP
      (!isContinuation ·) ∧
    (∀ m, ∃ n, c.move m = advance^[n] c) ∧
    LandsAt AtLineEnd c c.skipLine ∧ LandsAt AtDelimiter c c.skipPlain := by
  intro c
  have hstart : (Walk.start s).Counted s := by
    intro d hd
    rw [List.mem_singleton.1 hd]
    exact counted_ofSource s
  have hc : c.Counted s := hstart.run actions c List.mem_cons_self
  obtain ⟨hle, hrest, hposition⟩ := hc.exists_take
  refine ⟨hle, hrest, hc.sees, congrArg Position.line hposition, congrArg Position.column hposition,
    exists_iterate_move c, landsAt_skipLine c, landsAt_skipPlain c⟩

end ByteCursor

end DeclFront
