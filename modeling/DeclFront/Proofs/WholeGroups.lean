import DeclFront.Proofs.Enclosure
import Mathlib.Order.Bounds.Basic

/-!
# Groups are skipped whole

Skipping counts how deep it is in parentheses, brackets and braces, without telling them apart, and
a closer at depth zero leaves the depth at zero. That is the nesting of groups indeed where each
opener opens one (`Grouped`): the depth in front of a token is positive exactly if the token stands
in a group that was opened behind the place where the skipping began (`depth_pos_iff`). Closers that
close nothing may stand anywhere outside the groups.

**Theorem (`skips_whole_groups`).** So skipping stops before the first token outside all these
groups at which its condition holds, whatever the condition, be it that the token opens or closes a
group itself. A group that is skipped from its opener on is left behind its closer.

Brackets are not told apart where nothing closes a group: it then ends with the first closer outside
the groups in it, whatever that closer is (`not_at_end_behind_open_group`).
-/

namespace DeclFront

open DeclFront.Parser

variable {ts us rest : List Token} {t o : Token} {depth i j k n : Nat}

/-! ## The groups of some tokens -/

/-- Among the tokens `ts`, the one at `i` opens a group that the one at `j` closes: what is between
them is matched. -/
def GroupAt (ts : List Token) (i j : Nat) : Prop :=
  i < j ∧ ∃ o ∈ ts[i]?, ∃ t ∈ ts[j]?, KindSet.opener.contains o.kind = true ∧
    o.kind.closing = t.kind ∧ Matched ((ts.take j).drop (i + 1))

instance (ts : List Token) (i j : Nat) : Decidable (GroupAt ts i j) :=
  inferInstanceAs (Decidable (_ ∧ _))

/-- Each opener opens a group. -/
def Grouped (ts : List Token) : Prop :=
  ∀ i, ∀ o ∈ ts[i]?, KindSet.opener.contains o.kind = true → ∃ j, GroupAt ts i j

/-- The token at `k` stands in no group. A group reaches from behind its opener through its
closer. -/
def Outside (ts : List Token) (k : Nat) : Prop := ∀ i j, GroupAt ts i j → ¬ (i < k ∧ k ≤ j)

/-- A group with the tokens in it and behind it. -/
theorem groupAt_iff : GroupAt ts i j ↔ ∃ o us t rest, ts.drop i = o :: (us ++ t :: rest) ∧
    j = i + us.length + 1 ∧ KindSet.opener.contains o.kind = true ∧ o.kind.closing = t.kind ∧
    Matched us := by
  constructor
  · rintro ⟨hij, o, ho, t, ht, h⟩
    obtain ⟨hi, rfl⟩ := List.getElem?_eq_some_iff.1 ho
    obtain ⟨hj, rfl⟩ := List.getElem?_eq_some_iff.1 ht
    refine ⟨_, _, _, ts.drop (j + 1), ?_, ?_, h⟩
    · rw [← List.drop_eq_getElem_cons hj, List.drop_eq_getElem_cons hi, List.drop_take]
      have hdrop : ts.drop j = (ts.drop (i + 1)).drop (j - (i + 1)) := by
        rw [List.drop_drop, Nat.add_sub_cancel' hij]
      rw [hdrop, List.take_append_drop]
    · rw [List.length_drop, List.length_take]
      omega
  · rintro ⟨o, us, t, rest, hdrop, rfl, h⟩
    have hget (n : Nat) : ts[i + n]? = (o :: (us ++ t :: rest))[n]? := by
      rw [← hdrop, List.getElem?_drop]
    refine ⟨by omega, o, hget 0, t, (hget (us.length + 1)).trans (by simp), ?_⟩
    have hbetween : (ts.take (i + us.length + 1)).drop (i + 1) = us := by
      rw [List.drop_take, ← List.drop_drop, hdrop, List.drop_one, List.tail_cons]
      have hlength : i + us.length + 1 - (i + 1) = us.length := by omega
      rw [hlength, List.take_left]
    rwa [hbetween]

theorem GroupAt.lt_length (h : GroupAt ts i j) : j < ts.length := by
  obtain ⟨-, o, -, t, ht, -⟩ := h
  exact (List.getElem?_eq_some_iff.1 ht).1

instance (ts : List Token) : Decidable (Grouped ts) :=
  decidable_of_iff (∀ i < ts.length, ∀ o ∈ ts[i]?, KindSet.opener.contains o.kind = true →
      ∃ j < ts.length, GroupAt ts i j) <| by
    constructor
    · intro h i o ho hopen
      obtain ⟨j, -, hj⟩ := h i (List.getElem?_eq_some_iff.1 ho).1 o ho hopen
      exact ⟨j, hj⟩
    · intro h i _ o ho hopen
      obtain ⟨j, hj⟩ := h i o ho hopen
      exact ⟨j, hj.lt_length, hj⟩

instance (ts : List Token) (k : Nat) : Decidable (Outside ts k) :=
  decidable_of_iff (∀ i < k, ∀ j < ts.length, GroupAt ts i j → j < k) <| by
    constructor
    · intro h i j hgroup ⟨hi, hj⟩
      exact Nat.not_lt_of_le hj (h i hi j hgroup.lt_length hgroup)
    · intro h i hi j _ hgroup
      exact Nat.lt_of_not_le fun hj => h i j hgroup ⟨hi, hj⟩

theorem drop_length_add (us ts : List Token) (n : Nat) :
    (us ++ ts).drop (us.length + n) = ts.drop n := by
  rw [← List.drop_drop, List.drop_left]

theorem GroupAt.append_left (us : List Token) (h : GroupAt ts i j) :
    GroupAt (us ++ ts) (us.length + i) (us.length + j) := by
  obtain ⟨o, vs, t, rest, hdrop, rfl, hgroup⟩ := groupAt_iff.1 h
  refine groupAt_iff.2 ⟨o, vs, t, rest, ?_, by omega, hgroup⟩
  rw [drop_length_add, hdrop]

theorem Grouped.of_append (us : List Token) (h : Grouped (us ++ ts)) : Grouped ts := by
  intro i o ho hopen
  have ho' : (us ++ ts)[us.length + i]? = some o := by
    rwa [List.getElem?_append_right (Nat.le_add_right _ _), Nat.add_sub_cancel_left]
  obtain ⟨j, hj⟩ := h (us.length + i) o ho' hopen
  obtain ⟨o', vs, t, rest, hdrop, rfl, hgroup⟩ := groupAt_iff.1 hj
  rw [drop_length_add] at hdrop
  exact ⟨_, groupAt_iff.2 ⟨o', vs, t, rest, hdrop, rfl, hgroup⟩⟩

/-! ## Depth -/

/-- The depth behind the tokens `ts`. -/
def depthOver (depth : Nat) (ts : List Token) : Nat :=
  ts.foldl (fun depth t => depthAfter depth t.kind) depth

theorem depthOver_append (depth : Nat) (ts us : List Token) :
    depthOver depth (ts ++ us) = depthOver (depthOver depth ts) us :=
  List.foldl_append

theorem depthAfter_opener (h : KindSet.opener.contains t.kind = true) (depth : Nat) :
    depthAfter depth t.kind = depth + 1 := by
  rw [depthAfter, if_pos h]

theorem depthAfter_closer (h : KindSet.closer.contains t.kind = true) (depth : Nat) :
    depthAfter depth t.kind = depth - 1 := by
  rw [depthAfter, if_neg (KindSet.not_opener_of_closer h), if_pos h]

/-- At depth zero only an opener changes the depth. -/
theorem depthAfter_zero (h : ¬ KindSet.opener.contains t.kind = true) :
    depthAfter 0 t.kind = 0 := by
  rw [depthAfter, if_neg h, Nat.zero_sub, ite_self]

/-- Where brackets match, the depth counts the groups that are open. -/
theorem depthAfter_of_enclose {st st' : List Token} (h : enclose st t = some st') (depth : Nat) :
    depthAfter (depth + st.length) t.kind = depth + st'.length := by
  by_cases hopen : KindSet.opener.contains t.kind = true
  · rw [enclose_opener hopen] at h
    rw [depthAfter_opener hopen, ← Option.some.inj h]
    rfl
  by_cases hclose : KindSet.closer.contains t.kind = true
  · obtain ⟨o, rfl, -⟩ := enclose_closer hclose h
    rw [depthAfter_closer hclose]
    rfl
  · have hother : t.kind.isBracket = false :=
      Bool.or_eq_false_iff.2 ⟨Bool.eq_false_iff.2 hopen, Bool.eq_false_iff.2 hclose⟩
    rw [enclose_other hother] at h
    rw [depthAfter, if_neg hopen, if_neg hclose, Option.some.inj h]

theorem depthOver_of_enclosing {st : List Token} (h : enclosing ts = some st) (depth : Nat) :
    depthOver depth ts = depth + st.length := by
  induction ts using List.reverseRecOn generalizing st with
  | nil =>
    obtain rfl := Option.some.inj h
    rfl
  | append_singleton ts t ih =>
    rw [enclosing_concat] at h
    obtain ⟨st', hst', hst⟩ := Option.bind_eq_some_iff.1 h
    rw [depthOver_append, ih hst']
    exact depthAfter_of_enclose hst depth

theorem enclosing_take (h : Matched ts) (n : Nat) : ∃ st, enclosing (ts.take n) = some st := by
  rw [Matched, enclosing, ← List.take_append_drop n ts, List.foldlM_append] at h
  obtain ⟨st, hst, -⟩ := Option.bind_eq_some_iff.1 h
  exact ⟨st, hst⟩

/-- Behind a group the depth is what it was in front. -/
theorem depthOver_group (hopen : KindSet.opener.contains o.kind = true)
    (hclose : o.kind.closing = t.kind) (hus : Matched us) (depth : Nat) :
    depthOver depth (o :: us ++ [t]) = depth := by
  have hopened : depthOver depth [o] = depth + 1 := depthAfter_opener hopen depth
  rw [depthOver_append, ← List.singleton_append, depthOver_append, hopened,
    depthOver_of_enclosing hus]
  exact depthAfter_closer (hclose ▸ closer_closing _) _

/-- In a group the depth is positive. -/
theorem GroupAt.depth_pos (h : GroupAt ts i j) (hi : i < k) (hj : k ≤ j) :
    0 < depthOver 0 (ts.take k) := by
  obtain ⟨o, us, t, rest, hdrop, rfl, hopen, -, hus⟩ := groupAt_iff.1 h
  obtain ⟨n, rfl⟩ := Nat.exists_eq_add_of_lt hi
  have htake : ts.take (i + n + 1) = ts.take i ++ ([o] ++ us.take n) := by
    rw [Nat.add_assoc, List.take_add, hdrop, List.take_succ_cons,
      List.take_append_of_le_length (by omega), List.singleton_append]
  obtain ⟨st, hst⟩ := enclosing_take hus n
  have hopened (depth : Nat) : depthOver depth [o] = depth + 1 := depthAfter_opener hopen depth
  rw [htake, depthOver_append, depthOver_append, hopened, depthOver_of_enclosing hst]
  omega

/-- A token at a positive depth stands in a group. The groups and the other tokens are passed from
the left, and the depth is zero behind each of them. -/
theorem exists_group_of_depth_pos (h : Grouped ts) (hpos : 0 < depthOver 0 (ts.take k)) :
    ∃ i j, GroupAt ts i j ∧ i < k ∧ k ≤ j := by
  induction hn : ts.length using Nat.strongRecOn generalizing ts k with
  | ind n ih =>
    -- what holds behind a first part at depth zero holds of the whole
    have hbehind (us rest : List Token) (hts : ts = us ++ rest) (hus : us ≠ [])
        (hzero : depthOver 0 us = 0) (hk : us.length ≤ k) :
        ∃ i j, GroupAt ts i j ∧ i < k ∧ k ≤ j := by
      obtain ⟨m, rfl⟩ := Nat.exists_eq_add_of_le hk
      have hlength : rest.length < n := by
        rw [← hn, hts, List.length_append]
        exact Nat.lt_add_of_pos_left (List.length_pos_iff.2 hus)
      rw [hts, List.take_length_add_append, depthOver_append, hzero] at hpos
      obtain ⟨i, j, hgroup, hi, hj⟩ := ih _ hlength (Grouped.of_append us (hts ▸ h)) hpos rfl
      exact ⟨us.length + i, us.length + j, hts ▸ hgroup.append_left us, by omega, by omega⟩
    cases hts : ts with
    | nil => simp [hts, depthOver] at hpos
    | cons t rest =>
      rw [← hts]
      have hk : 0 < k := by
        refine Nat.pos_of_ne_zero ?_
        rintro rfl
        exact Nat.lt_irrefl 0 hpos
      by_cases hopen : KindSet.opener.contains t.kind = true
      · obtain ⟨j, hgroup⟩ := h 0 t (by rw [hts]; rfl) hopen
        by_cases hj : k ≤ j
        · exact ⟨0, j, hgroup, hk, hj⟩
        · obtain ⟨o, us, c, rest', hdrop, rfl, hopen, hclose, hus⟩ := groupAt_iff.1 hgroup
          refine hbehind (o :: us ++ [c]) rest' ?_ (by simp) (depthOver_group hopen hclose hus 0) ?_
          · rw [← List.drop_zero (l := ts), hdrop]
            simp
          · simp
            omega
      · exact hbehind [t] rest hts (List.cons_ne_nil t []) (depthAfter_zero hopen) hk

/-- **The depth tells the groups.** -/
theorem depth_pos_iff (h : Grouped ts) :
    0 < depthOver 0 (ts.take k) ↔ ∃ i j, GroupAt ts i j ∧ i < k ∧ k ≤ j :=
  ⟨exists_group_of_depth_pos h, fun ⟨_, _, hgroup, hi, hj⟩ => hgroup.depth_pos hi hj⟩

theorem depth_eq_zero_iff (h : Grouped ts) : depthOver 0 (ts.take k) = 0 ↔ Outside ts k := by
  have hpos := depth_pos_iff (k := k) h
  rw [Nat.pos_iff_ne_zero] at hpos
  rw [← not_iff_not]
  simpa [Outside] using hpos

/-! ## Where skipping stops -/

/-- From the depth `depth` in front of the tokens `ts` on, skipping stops before the token at `n`.
`P` tells of a token and the tokens behind it whether to stop. -/
def HaltsAt (P : Token → List Token → Prop) (depth : Nat) (ts : List Token) (n : Nat) : Prop :=
  ∃ t rest, ts.drop n = t :: rest ∧
    (t.kind = .endOfInput ∨ P t rest ∧ depthOver depth (ts.take n) = 0)

/-- The token at `k` is the end of input, or it is outside all groups and `P` holds at it. -/
def StopsAt (P : Token → List Token → Prop) (ts : List Token) (k : Nat) : Prop :=
  ∃ t rest, ts.drop k = t :: rest ∧ (t.kind = .endOfInput ∨ P t rest ∧ Outside ts k)

variable {P : Token → List Token → Prop}

theorem haltsAt_iff_stopsAt (h : Grouped ts) : HaltsAt P 0 ts k ↔ StopsAt P ts k := by
  simp only [HaltsAt, StopsAt, depth_eq_zero_iff h]

theorem haltsAt_zero_iff :
    HaltsAt P depth (t :: ts) 0 ↔ t.kind = .endOfInput ∨ P t ts ∧ depth = 0 := by
  constructor
  · rintro ⟨_, _, hdrop, h⟩
    obtain ⟨rfl, rfl⟩ := List.cons.inj hdrop
    exact h
  · exact fun h => ⟨t, ts, rfl, h⟩

theorem isLeast_haltsAt_succ (h : ¬ HaltsAt P depth (t :: ts) 0)
    (hn : IsLeast {n | HaltsAt P (depthAfter depth t.kind) ts n} n) :
    IsLeast {n | HaltsAt P depth (t :: ts) n} (n + 1) := by
  refine ⟨hn.1, fun m hm => ?_⟩
  cases m with
  | zero => exact absurd hm h
  | succ m => exact Nat.succ_le_succ (hn.2 hm)

section

variable {c : Cursor} {stop : Parser Bool}

/-- A parser that tells whether `P` holds at the current token, and consumes nothing. -/
structure Tells (P : Token → List Token → Prop) (stop : Parser Bool) : Prop where
  moves : Moves stop
  tokens : ∀ c, (stop c).2.tokens = c.tokens
  iff : ∀ c, (stop c).1 = true ↔ P c.current (c.ahead.map (·.answer.value))

/-- **One round of skipping.** It is the last one where skipping stops, and consumes the current
token otherwise. -/
theorem Tells.skipUntilRound_cases (h : Tells P stop) (hc : c.Closed) (depth skipped : Nat) :
    (HaltsAt P depth c.tokens 0 ∧ ∃ d, skipUntilRound stop (depth, skipped) c =
      (.done (depth, skipped), d) ∧ d.tokens = c.tokens) ∨
    (¬ HaltsAt P depth c.tokens 0 ∧ ∃ d, skipUntilRound stop (depth, skipped) c =
      (.yield (depthAfter depth c.current.kind, skipped + 1), d) ∧
        c.tokens = c.current :: d.tokens ∧ d.Closed) := by
  have hhalts : HaltsAt P depth c.tokens 0 ↔ c.current.kind = .endOfInput ∨
      P c.current (c.ahead.map (·.answer.value)) ∧ depth = 0 := haltsAt_zero_iff
  rw [hhalts]
  rcases DeclFront.skipUntilRound_cases stop depth skipped c with
    ⟨hk, hround⟩ | ⟨hdepth, hstop, hround⟩ | ⟨hk, hstop, d, hd, hround⟩
  · exact .inl ⟨.inl hk, c, hround, rfl⟩
  · exact .inl ⟨.inr ⟨(h.iff c).1 hstop, hdepth⟩, _, hround, h.tokens c⟩
  · have hlooked : d.Closed ∧ d.tokens = c.tokens := by
      rcases hd with rfl | rfl
      · exact ⟨hc, rfl⟩
      · exact ⟨h.moves.closed hc, h.tokens c⟩
    obtain ⟨hclosed, htokens⟩ := hlooked
    have hcurrent : d.current = c.current := (List.cons.inj htokens).1
    refine .inr ⟨?_, d.advance, hround, ?_, Cursor.closed_advance hclosed⟩
    · rintro (hend | ⟨hP, hdepth⟩)
      · exact hk hend
      · exact absurd ((h.iff c).2 hP) (Bool.eq_false_iff.1 (hstop hdepth))
    · rw [← htokens, ← hcurrent]
      exact hclosed.tokens_advance (hcurrent ▸ hk)

/-- The loop of skipping, from any depth on. -/
theorem loop_skipUntilRound (h : Tells P stop) (hc : c.Closed) (depth skipped : Nat) :
    ∃ n, (loop (skipUntilRound stop) (depth, skipped) c).1.2 = skipped + n ∧
      (loop (skipUntilRound stop) (depth, skipped) c).2.tokens = c.tokens.drop n ∧
      IsLeast {n | HaltsAt P depth c.tokens n} n := by
  induction hl : c.left using Nat.strongRecOn generalizing c depth skipped with
  | ind l ih =>
    rw [loop_apply]
    rcases h.skipUntilRound_cases hc depth skipped with
      ⟨hhalts, d, hround, hd⟩ | ⟨hhalts, d, hround, hd, hclosed⟩
    · rw [hround]
      exact ⟨0, rfl, hd, hhalts, fun _ _ => Nat.zero_le _⟩
    · have hlt : d.left < c.left := by
        have hlength := congrArg List.length hd
        simp only [List.length_cons, Cursor.length_tokens] at hlength
        omega
      rw [hround]
      simp only [if_pos hlt]
      obtain ⟨n, hn, htokens, hleast⟩ := ih d.left (hl ▸ hlt) hclosed _ (skipped + 1) rfl
      rw [hd] at hhalts ⊢
      exact ⟨n + 1, by rw [hn]; omega, htokens, isLeast_haltsAt_succ hhalts hleast⟩

/-- **Skipping.** It passes over the tokens in front of the first one at which it stops, and tells
how many these are. -/
theorem skipUntil_spec (h : Tells P stop) (hc : c.Closed) :
    IsLeast {n | HaltsAt P 0 c.tokens n} (skipUntil stop c).1 ∧
      (skipUntil stop c).2.tokens = c.tokens.drop (skipUntil stop c).1 := by
  obtain ⟨n, hn, htokens, hleast⟩ := loop_skipUntilRound h hc 0 0
  have hcount : (skipUntil stop c).1 = n := hn.trans (Nat.zero_add n)
  rw [hcount]
  exact ⟨hleast, htokens⟩

/-- The kind of the token is in `s`. -/
def OfKind (s : KindSet) (t : Token) (_ : List Token) : Prop := s.contains t.kind = true

theorem tells_checkSet (s : KindSet) : Tells (OfKind s) (checkSet s) where
  moves := fun c _ => .refl c
  tokens := fun _ => rfl
  iff := fun _ => Iff.rfl

/-- A terminator, the beginning of a body, or a name with `:=` or `[` behind it. -/
def EndsDeclaration (t : Token) (rest : List Token) : Prop :=
  t.kind = .terminator ∨ KindSet.bodyStart.contains t.kind = true ∨
    t.kind = .identifier ∧ ∃ u ∈ rest.head?, u.kind = .colonEqual ∨ u.kind = .leftBracket

theorem namesDeclaration_iff (hk : c.current.kind = .identifier) :
    (namesDeclaration c).1 = true ↔
      ∃ u ∈ (c.ahead.map (·.answer.value)).head?, u.kind = .colonEqual ∨ u.kind = .leftBracket := by
  simp only [namesDeclaration, bind_apply, peekKind_apply, pure_apply]
  cases hr : c.ahead with
  | nil => simp [Cursor.peek_of_ahead_nil hr, hk]
  | cons r rs => simp [Cursor.peek_of_ahead hr]

theorem tells_atDeclarationStop : Tells EndsDeclaration atDeclarationStop where
  moves := moves_atDeclarationStop
  tokens := tokens_atDeclarationStop
  iff := by
    intro c
    by_cases hk : c.current.kind = .identifier
    · have hbody : KindSet.bodyStart.contains .identifier = false := rfl
      simpa [atDeclarationStop, EndsDeclaration, hk, hbody] using namesDeclaration_iff hk
    by_cases hterminator : c.current.kind = .terminator
    · simp [atDeclarationStop, EndsDeclaration, hterminator]
    · simp [atDeclarationStop, EndsDeclaration, hk, hterminator]

/-- Skipping again from where it stopped skips nothing. -/
theorem skipUntil_again (h : Tells P stop) (hc : c.Closed) :
    let d := (skipUntil stop c).2
    (skipUntil stop d).1 = 0 ∧ (skipUntil stop d).2.tokens = d.tokens := by
  intro d
  obtain ⟨hleast, htokens⟩ := skipUntil_spec h hc
  obtain ⟨t, rest, hdrop, ht⟩ := hleast.1
  have hzero : HaltsAt P 0 d.tokens 0 := by
    refine ⟨t, rest, htokens.trans hdrop, ?_⟩
    exact ht.imp_right fun h => ⟨h.1, rfl⟩
  obtain ⟨hleast', htokens'⟩ := skipUntil_spec (c := d) h (h.moves.skipUntil.closed hc)
  have hcount : (skipUntil stop d).1 = 0 := Nat.le_zero.1 (hleast'.2 hzero)
  exact ⟨hcount, by rw [htokens', hcount, List.drop_zero]⟩

/-! ## Skipping a group -/

theorem skipGroup_apply (c : Cursor) :
    (skipGroup c).2 = (synchronize .closer c.advance).2.advance := (rfl)

/-- Consuming a token that is not the last one. -/
theorem tokens_advance_of_drop (hc : c.Closed) (ht : c.tokens = t :: rest)
    (hk : t.kind ≠ .endOfInput) : c.advance.tokens = rest := by
  obtain ⟨rfl, -⟩ := List.cons.inj ht
  rw [hc.tokens_advance hk] at ht
  exact (List.cons.inj ht).2

theorem kind_ne_of_opener (h : KindSet.opener.contains t.kind = true) : t.kind ≠ .endOfInput :=
  KindSet.ne_of_contains h rfl

theorem kind_ne_of_closer (h : KindSet.closer.contains t.kind = true) : t.kind ≠ .endOfInput :=
  KindSet.ne_of_contains h rfl

/-- Behind an opener, skipping a group leads behind the first closer at depth zero, or to the
end. -/
theorem skipGroup_spec (hc : c.Closed) (ht : c.tokens = o :: ts)
    (ho : KindSet.opener.contains o.kind = true) :
    ∃ n t rest, IsLeast {n | HaltsAt (OfKind .closer) 0 ts n} n ∧ ts.drop n = t :: rest ∧
      (KindSet.closer.contains t.kind = true ∧ (skipGroup c).2.tokens = rest ∨
        t.kind = .endOfInput ∧ (skipGroup c).2.current = t) := by
  have hts := tokens_advance_of_drop hc ht (kind_ne_of_opener ho)
  have hclosed := Cursor.closed_advance hc
  obtain ⟨hleast, htokens⟩ := skipUntil_spec (tells_checkSet .closer) hclosed
  rw [hts] at hleast htokens
  obtain ⟨t, rest, hdrop, hend⟩ := hleast.1
  have hd : (synchronize .closer c.advance).2.Closed := (moves_synchronize .closer).closed hclosed
  have hdtokens : (synchronize .closer c.advance).2.tokens = t :: rest := htokens.trans hdrop
  refine ⟨_, t, rest, hleast, hdrop, ?_⟩
  rw [skipGroup_apply]
  rcases hend with hend | ⟨hclose, -⟩
  · obtain ⟨hcurrent, -⟩ := List.cons.inj hdtokens
    have hstay := hd.advance_of_end (by rw [hcurrent, hend])
    exact .inr ⟨hend, by rw [hstay, hcurrent]⟩
  · exact .inl ⟨hclose, tokens_advance_of_drop hd hdtokens (kind_ne_of_closer hclose)⟩

/-- In a group no closer stands at depth zero, so skipping to a closer stops where the group
ends. -/
theorem isLeast_haltsAt_closer (hts : Terminated (us ++ t :: rest)) (hus : Matched us)
    (ht : KindSet.closer.contains t.kind = true) :
    IsLeast {n | HaltsAt (OfKind .closer) 0 (us ++ t :: rest) n} us.length := by
  constructor
  · refine ⟨t, rest, List.drop_left, .inr ⟨ht, ?_⟩⟩
    rw [List.take_left, depthOver_of_enclosing hus]
    rfl
  · rintro n ⟨u, vs, hdrop, hend⟩
    refine Nat.le_of_not_lt fun hn => ?_
    have hdrop' : us.drop n ++ t :: rest = u :: vs := by
      rw [← List.drop_append_of_le_length (Nat.le_of_lt hn), hdrop]
    rw [List.drop_eq_getElem_cons hn] at hdrop'
    obtain ⟨rfl, -⟩ := List.cons.inj hdrop'
    rcases hend with hend | ⟨hclose, hzero⟩
    · exact hts.kind_ne (List.cons_ne_nil _ _) _ (List.getElem_mem hn) hend
    · obtain ⟨st, hst⟩ := enclosing_take hus n
      obtain ⟨st', hst'⟩ := enclosing_take hus (n + 1)
      rw [List.take_append_of_le_length (Nat.le_of_lt hn), depthOver_of_enclosing hst,
        Nat.zero_add] at hzero
      obtain rfl := List.eq_nil_of_length_eq_zero hzero
      rw [List.take_succ_eq_append_getElem hn, enclosing_concat, hst] at hst'
      obtain ⟨o, ho, -⟩ := enclose_closer hclose hst'
      exact absurd ho (List.cons_ne_nil o st').symm

/-- A group is left behind its closer. -/
theorem tokens_skipGroup (hc : c.Closed) (h : GroupAt c.tokens 0 n) :
    (skipGroup c).2.tokens = c.tokens.drop (n + 1) := by
  obtain ⟨o, us, t, rest, htokens, rfl, hopen, hclose, hus⟩ := groupAt_iff.1 h
  rw [List.drop_zero] at htokens
  have ht : KindSet.closer.contains t.kind = true := hclose ▸ closer_closing _
  have hts : Terminated (us ++ t :: rest) := by
    rw [← tokens_advance_of_drop hc htokens (kind_ne_of_opener hopen)]
    exact Cursor.closed_advance hc
  obtain ⟨m, u, vs, hleast, hdrop, hend⟩ := skipGroup_spec hc htokens hopen
  obtain rfl := hleast.unique (isLeast_haltsAt_closer hts hus ht)
  rw [List.drop_left] at hdrop
  obtain ⟨rfl, rfl⟩ := List.cons.inj hdrop
  rcases hend with ⟨-, hrest⟩ | ⟨hend, -⟩
  · rw [hrest, htokens]
    simp
  · exact absurd hend (kind_ne_of_closer ht)

/-- The token at `k` closes no group that is opened among the tokens `ts`. -/
def StrayAt (ts : List Token) (k : Nat) : Prop :=
  ∃ t ∈ ts[k]?, KindSet.closer.contains t.kind = true ∧ Outside ts k

instance (ts : List Token) (k : Nat) : Decidable (StrayAt ts k) :=
  inferInstanceAs (Decidable (∃ t ∈ ts[k]?, _ ∧ _))

theorem StrayAt.lt_length (h : StrayAt ts k) : k < ts.length := by
  obtain ⟨t, ht, -⟩ := h
  exact (List.getElem?_eq_some_iff.1 ht).1

/-- Behind an opener, skipping a group leads behind the first closer that closes none of the groups
in it, or to the end. -/
theorem exists_skipGroup (hc : c.Closed) (hopen : KindSet.opener.contains c.current.kind = true)
    (h : Grouped (c.tokens.drop 1)) :
    (∃ n, IsLeast {k | StrayAt (c.tokens.drop 1) k} n ∧
      (skipGroup c).2.tokens = c.tokens.drop (n + 2)) ∨
    (∀ k, ¬ StrayAt (c.tokens.drop 1) k) ∧ (skipGroup c).2.current.kind = .endOfInput := by
  have hts := Cursor.closed_advance hc
  rw [Cursor.Closed, tokens_advance_of_drop hc rfl (kind_ne_of_opener hopen)] at hts
  obtain ⟨n, t, rest, hleast, hdrop, hend⟩ := skipGroup_spec hc rfl hopen
  generalize hus : c.ahead.map (·.answer.value) = us at *
  have hdrop' (m : Nat) : c.tokens.drop (m + 1) = us.drop m := by rw [← hus]; rfl
  rw [hdrop', List.drop_zero] at h ⊢
  have hlower {k : Nat} (hk : StrayAt us k) : n ≤ k := by
    obtain ⟨u, hu, hclose, houtside⟩ := hk
    obtain ⟨hlt, rfl⟩ := List.getElem?_eq_some_iff.1 hu
    exact hleast.2 ⟨_, _, List.drop_eq_getElem_cons hlt,
      .inr ⟨hclose, (depth_eq_zero_iff h).2 houtside⟩⟩
  have hn : us[n]? = some t := by
    rw [← Nat.add_zero n, ← List.getElem?_drop, hdrop]
    rfl
  rcases hend with ⟨hclose, htokens⟩ | ⟨hend, hcurrent⟩
  · obtain ⟨u, vs, hu, hstop⟩ := hleast.1
    obtain ⟨rfl, -⟩ := List.cons.inj (hdrop.symm.trans hu)
    obtain ⟨-, hzero⟩ := hstop.resolve_left (kind_ne_of_closer hclose)
    refine .inl ⟨n, ⟨⟨t, hn, hclose, (depth_eq_zero_iff h).1 hzero⟩, fun _ => hlower⟩, ?_⟩
    rw [htokens, hdrop', ← List.drop_drop, hdrop]
    rfl
  · refine .inr ⟨fun k hk => ?_, by rw [hcurrent, hend]⟩
    obtain rfl := Nat.le_antisymm (hlower hk) (hts.le_of_end hn hend hk.lt_length)
    obtain ⟨u, hu, hclose, -⟩ := hk
    obtain rfl := Option.some.inj (hn.symm.trans hu)
    exact kind_ne_of_closer hclose hend

/-- **Skipping passes over whole groups.** At any place in the tokens of a text, where each opener
from there on opens a group, skipping stops before the first token that is the end of input, or
outside all these groups and at which its condition holds; it consumes the tokens in front, tells
how many they are, and skips nothing more when it is repeated. This holds for every set of kinds,
and where a declaration may end.

A group that is skipped from its opener on is left behind its closer. If all openers behind its own
open groups, but nothing closes the group itself, it is left behind the first closer outside the
groups in it, whatever its kind; and at the end of input if there is none. -/
theorem skips_whole_groups (c : Cursor) (hc : c.Closed) :
    (Grouped c.tokens →
      (∀ s : KindSet, let d := (synchronize s c).2
        IsLeast {k | StopsAt (OfKind s) c.tokens k} (synchronize s c).1 ∧
        d.tokens = c.tokens.drop (synchronize s c).1 ∧
        (synchronize s d).1 = 0 ∧ (synchronize s d).2.tokens = d.tokens) ∧
      let d := (skipUntil atDeclarationStop c).2
      IsLeast {k | StopsAt EndsDeclaration c.tokens k} (skipUntil atDeclarationStop c).1 ∧
        d.tokens = c.tokens.drop (skipUntil atDeclarationStop c).1 ∧
        (skipUntil atDeclarationStop d).1 = 0 ∧
        (skipUntil atDeclarationStop d).2.tokens = d.tokens) ∧
    (∀ m, GroupAt c.tokens 0 m → (skipGroup c).2.tokens = c.tokens.drop (m + 1)) ∧
    (KindSet.opener.contains c.current.kind = true → Grouped (c.tokens.drop 1) →
      (∀ k, IsLeast {k | StrayAt (c.tokens.drop 1) k} k →
        (skipGroup c).2.tokens = c.tokens.drop (k + 2)) ∧
      ((∀ k, ¬ StrayAt (c.tokens.drop 1) k) → (skipGroup c).2.current.kind = .endOfInput)) := by
  have hskip {P : Token → List Token → Prop} {stop : Parser Bool} (h : Tells P stop)
      (hgrouped : Grouped c.tokens) :
      IsLeast {k | StopsAt P c.tokens k} (skipUntil stop c).1 := by
    have hleast := (skipUntil_spec h hc).1
    simpa only [haltsAt_iff_stopsAt hgrouped] using hleast
  refine ⟨fun hgrouped => ⟨fun s => ⟨hskip (tells_checkSet s) hgrouped,
    (skipUntil_spec (tells_checkSet s) hc).2, skipUntil_again (tells_checkSet s) hc⟩,
    hskip tells_atDeclarationStop hgrouped, (skipUntil_spec tells_atDeclarationStop hc).2,
    skipUntil_again tells_atDeclarationStop hc⟩, fun m hm => tokens_skipGroup hc hm,
    fun hopen hgrouped => ⟨fun k hk => ?_, fun hno => ?_⟩⟩
  · rcases exists_skipGroup hc hopen hgrouped with ⟨n, hn, htokens⟩ | ⟨hno, -⟩
    · rw [hk.unique hn, htokens]
    · exact absurd hk.1 (hno k)
  · rcases exists_skipGroup hc hopen hgrouped with ⟨n, hn, -⟩ | ⟨-, hend⟩
    · exact absurd hn.1 (hno n)
    · exact hend

end

/-- A comma and brackets in groups, a bracket that closes nothing, and a separator behind them. Then
a group that nothing closes: a bracket of another kind ends it, or it reaches up to the end. -/
theorem skips_whole_groups_with_stray_closer :
    let c := Cursor.ofChars "(a, [b]) ] c; d".toList
    let d := Cursor.ofChars "^\x7b (a) ] b".toList
    let e := Cursor.ofChars "^\x7b (a) b".toList
    (Grouped c.tokens ∧ (synchronize .separator c).1 = 9 ∧
      IsLeast {k | StopsAt (OfKind .separator) c.tokens k} 9 ∧
      (skipGroup c).2.tokens = c.tokens.drop 7) ∧
    (IsLeast {k | StrayAt (d.tokens.drop 1) k} 3 ∧ (skipGroup d).2.tokens = d.tokens.drop 5) ∧
    (∀ k, ¬ StrayAt (e.tokens.drop 1) k) ∧ (skipGroup e).2.current.kind = .endOfInput := by
  intro c d e
  have hc : c.Closed := Cursor.closed_ofChars _
  have hgrouped : Grouped c.tokens := by decide +kernel
  have hgroup : GroupAt c.tokens 0 6 := by decide +kernel
  have hcount : (synchronize .separator c).1 = 9 := by decide +kernel
  have h := skips_whole_groups c hc
  have hstray : IsLeast {k | StrayAt (d.tokens.drop 1) k} 3 := by
    have hfront : ∀ k < 3, ¬ StrayAt (d.tokens.drop 1) k := by decide +kernel
    have hbracket : StrayAt (d.tokens.drop 1) 3 := by decide +kernel
    exact ⟨hbracket, fun k hk => Nat.le_of_not_lt fun hlt => hfront k hlt hk⟩
  have hnone : ∀ k, ¬ StrayAt (e.tokens.drop 1) k := by
    have hall : ∀ k < (e.tokens.drop 1).length, ¬ StrayAt (e.tokens.drop 1) k := by decide +kernel
    exact fun k hk => hall k hk.lt_length hk
  have hopens : KindSet.opener.contains d.current.kind = true ∧
      KindSet.opener.contains e.current.kind = true := by decide +kernel
  have hinner : Grouped (d.tokens.drop 1) ∧ Grouped (e.tokens.drop 1) := by decide +kernel
  obtain ⟨hclosed, -⟩ := (skips_whole_groups d (Cursor.closed_ofChars _)).2.2 hopens.1 hinner.1
  obtain ⟨-, hend⟩ := (skips_whole_groups e (Cursor.closed_ofChars _)).2.2 hopens.2 hinner.2
  exact ⟨⟨hgrouped, hcount, hcount ▸ ((h.1 hgrouped).1 .separator).1, h.2.1 6 hgroup⟩,
    ⟨hstray, hclosed 3 hstray⟩, hnone, hend hnone⟩

/-- A group that nothing closes need not reach up to the end: another bracket may end it. -/
theorem not_at_end_behind_open_group :
    ¬ ∀ c : Cursor, c.Closed → KindSet.opener.contains c.current.kind = true →
      (∀ j, ¬ GroupAt c.tokens 0 j) → Grouped (c.tokens.drop 1) →
      (skipGroup c).2.current.kind = .endOfInput := by
  intro h
  let c := Cursor.ofChars "^\x7b ] A := B".toList
  have hopen : ∀ j < c.tokens.length, ¬ GroupAt c.tokens 0 j := by decide +kernel
  have hend : (skipGroup c).2.current.kind = .endOfInput :=
    h c (Cursor.closed_ofChars _) (by decide +kernel) (fun j hj => hopen j hj.lt_length hj)
      (by decide +kernel)
  have hname : (skipGroup c).2.current.kind = .identifier := by decide +kernel
  rw [hname] at hend
  exact TokenKind.noConfusion hend

end DeclFront
