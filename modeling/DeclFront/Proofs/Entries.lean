import DeclFront.Proofs.Consumption
import DeclFront.Proofs.Cut
import DeclFront.Proofs.Drift

/-!
# Declarations up to a terminator

A declaration takes the terminator behind it along, and the terminators behind that are skipped. An
**entry** is a declaration, or what stands in the place of one, without any terminator; between
entries terminators are skipped one by one. So the declarations of a module are found in small
steps, of which none crosses a terminator outside all groups, except the step over that terminator
alone.

**Theorem (`exists_declarations_cut`).** The steps up to such a terminator are the same whether the
text goes on behind it or ends there.
-/

namespace DeclFront

open DeclFront.Parser

namespace Parser

variable {c : Cursor} {n m l : Nat}

/-! ## Declarations without their terminators -/

/-- Skips the rest of a malformed declaration, without its terminator. -/
def skipDeclaration : Parser Unit := do
  let _ ← skipUntil atDeclarationStop

/-- The end of a declaration, without its terminator. -/
def stopDeclaration : Parser Unit := do
  match ← currentKind with
  | .terminator => pure ()
  | .endOfInput => pure ()
  | .identifier =>
    if ← namesDeclaration then missing .terminator
    else
      unexpected [.terminator]
      skipDeclaration
  | _ =>
    unexpected [.terminator]
    skipDeclaration

/-- A declaration without its terminator. Its name is the current token. -/
def namedEntry : Parser Declaration := do
  let (d, isComplete) ← declarationHead
  if isComplete then stopDeclaration else skipDeclaration
  return d

/-- A declaration, or what stands in the place of one, without the terminator behind it. -/
def entry : Parser (Option Declaration) := do
  if ← check .identifier then some <$> namedEntry
  else if ← checkSet .bodyStart then
    unexpected [.identifier]
    skipGroup
    return none
  else
    unexpected [.identifier]
    skipDeclaration
    return none

theorem entry_of_name (h : c.current.kind = .identifier) :
    entry c = (some (namedEntry c).1, (namedEntry c).2) := by
  simp [entry, h]

theorem entry_of_body (h : c.current.kind ≠ .identifier)
    (hbody : KindSet.bodyStart.contains c.current.kind = true) :
    entry c = (none, (skipGroup (unexpected [.identifier] c).2).2) := by
  simp [entry, h, hbody]

theorem entry_of_other (h : c.current.kind ≠ .identifier)
    (hbody : KindSet.bodyStart.contains c.current.kind = false) :
    entry c = (none, (skipDeclaration (unexpected [.identifier] c).2).2) := by
  simp [entry, h, hbody]

/-- The declarations of a module, and the terminators in front of them. -/
def declarations : Parser (List Declaration) := do
  skipTerminators
  collect furtherDeclaration

theorem skipTerminators_of_terminator (hc : c.Closed) (hk : c.current.kind = .terminator) :
    skipTerminators c = skipTerminators c.advance := by
  have hlt := hc.left_advance_lt (by rw [hk]; decide)
  rw [skipTerminators, skipSet_apply, if_pos (by rw [hk]; rfl), if_pos hlt]

theorem skipTerminators_of_ne (hk : c.current.kind ≠ .terminator) :
    skipTerminators c = ((), c) := by
  rw [skipTerminators, skipSet_apply, if_neg (by simpa [KindSet.ofList] using hk)]

/-- A terminator that is consumed before others makes no difference. -/
theorem eat_skipTerminators (hc : c.Closed) :
    skipTerminators (eat .terminator c).2 = skipTerminators c := by
  by_cases hk : c.current.kind = .terminator
  · rw [eat_of_eq hk, skipTerminators_of_terminator hc hk]
  · rw [eat_of_ne hk]

theorem recoverDeclaration_skipTerminators (hc : c.Closed) :
    skipTerminators (recoverDeclaration c).2 = skipTerminators (skipDeclaration c).2 := by
  exact eat_skipTerminators (moves_atDeclarationStop.skipUntil.closed hc)

theorem closeDeclaration_skipTerminators (hc : c.Closed) :
    skipTerminators (closeDeclaration c).2 = skipTerminators (stopDeclaration c).2 := by
  have hrecover {d : Cursor} (hd : d.Closed) :
      skipTerminators ((do
        unexpected [.terminator]
        recoverDeclaration) d : Unit × Cursor).2 =
      skipTerminators ((do
        unexpected [.terminator]
        skipDeclaration) d : Unit × Cursor).2 :=
    recoverDeclaration_skipTerminators ((moves_unexpected _).closed hd)
  have hnames : (namesDeclaration c).2.Closed := by
    rw [Cursor.Closed, tokens_namesDeclaration]
    exact hc
  simp only [closeDeclaration, stopDeclaration, bind_apply, currentKind_apply]
  cases hk : c.current.kind with
  | terminator => exact (skipTerminators_of_terminator hc hk).symm
  | endOfInput => rfl
  | identifier =>
    simp only [bind_apply]
    split
    · rfl
    · exact hrecover hnames
  | _ => exact hrecover hc

theorem declaration_skipTerminators (hc : c.Closed) :
    (declaration c).1 = (namedEntry c).1 ∧
      skipTerminators (declaration c).2 = skipTerminators (namedEntry c).2 := by
  have hhead : Moves declarationHead :=
    moves_of_carries fun _ => Translation.carries_declarationHead
  simp only [declaration, namedEntry, bind_apply]
  split
  · exact ⟨rfl, closeDeclaration_skipTerminators (hhead.closed hc)⟩
  · exact ⟨rfl, recoverDeclaration_skipTerminators (hhead.closed hc)⟩

/-- A round of the declarations of a module. -/
theorem furtherDeclaration_eq (hc : c.Closed) (hk : c.current.kind ≠ .endOfInput) :
    furtherDeclaration c = (⟨(entry c).1, true⟩, (skipTerminators (entry c).2).2) := by
  by_cases hname : c.current.kind = .identifier
  · obtain ⟨hitem, hskip⟩ := declaration_skipTerminators hc
    simp [furtherDeclaration, entry, hname, hitem, hskip]
  · have hskip := recoverDeclaration_skipTerminators ((moves_unexpected [.identifier]).closed hc)
    cases hbody : KindSet.bodyStart.contains c.current.kind <;>
      simp [furtherDeclaration, entry, hk, hname, hbody, hskip]

/-! ## One entry after the other -/

/-- What was found before a list does not concern what the list finds. -/
theorem loop_collectRound {α : Type} (round : Parser (Round α)) (found : List α) (c : Cursor) :
    loop (collectRound round) found c =
      ((loop (collectRound round) [] c).1 ++ found, (loop (collectRound round) [] c).2) := by
  induction hn : c.left using Nat.strongRecOn generalizing found c with
  | ind n ih =>
    subst hn
    have hround (found : List α) : collectRound round found c =
        (if (round c).1.again then .yield ((round c).1.item.toList ++ found)
          else .done ((round c).1.item.toList ++ found), (round c).2) := rfl
    rw [loop_apply, loop_apply _ [], hround, hround]
    by_cases hagain : (round c).1.again = true
    · simp only [hagain, if_true]
      by_cases hlt : (round c).2.left < c.left
      · simp only [hlt, if_true]
        rw [ih _ hlt _ _ rfl, ih _ hlt (_ ++ []) _ rfl]
        simp
      · simp [hlt]
    · simp [hagain]

theorem collect_of_more {α : Type} {round : Parser (Round α)} {item : Option α} {d : Cursor}
    (h : round c = (⟨item, true⟩, d)) (hlt : d.left < c.left) :
    collect round c = (item.toList ++ (collect round d).1, (collect round d).2) := by
  have hround : collectRound round [] c = (.yield (item.toList ++ []), d) := by
    simp [collectRound, h]
  have hloop :
      loop (collectRound round) [] c = loop (collectRound round) (item.toList ++ []) d := by
    rw [loop_apply, hround]
    exact if_pos hlt
  show ((loop (collectRound round) [] c).1.reverse, (loop (collectRound round) [] c).2) = _
  rw [hloop, loop_collectRound]
  simp [collect, reverse_toList]

theorem collect_of_stop {α : Type} {round : Parser (Round α)} (h : round c = (.stop, c)) :
    collect round c = ([], c) := by
  have hround : collectRound round [] c = (.done [], c) := by simp [collectRound, h, Round.stop]
  show ((loop (collectRound round) [] c).1.reverse, (loop (collectRound round) [] c).2) = _
  rw [loop_apply, hround]
  rfl

theorem declarations_of_terminator (hc : c.Closed) (hk : c.current.kind = .terminator) :
    declarations c = declarations c.advance := by
  simp only [declarations, bind_apply, skipTerminators_of_terminator hc hk]

theorem declarations_of_end (hk : c.current.kind = .endOfInput) : declarations c = ([], c) := by
  have hskip := skipTerminators_of_ne (c := c) (by simp [hk])
  simp only [declarations, bind_apply, hskip]
  exact collect_of_stop (furtherDeclaration_of_end hk)

theorem declarations_of_entry (hc : c.Closed) (hend : c.current.kind ≠ .endOfInput)
    (hk : c.current.kind ≠ .terminator) :
    declarations c = ((entry c).1.toList ++ (declarations (entry c).2).1,
      (declarations (entry c).2).2) := by
  have hfurther := furtherDeclaration_eq hc hend
  have hlt := left_furtherDeclaration_lt hc (by rw [hfurther])
  rw [hfurther] at hlt
  simp only [declarations, bind_apply, skipTerminators_of_ne hk]
  exact collect_of_more hfurther hlt

/-! ## What an entry does -/

theorem within_stopDeclaration (h : c.Within n [] l) : (stopDeclaration c).2.Within n [] l := by
  have hskip {d : Cursor} (hd : d.Within n [] l) : ((do
      unexpected [.terminator]
      skipDeclaration) d : Unit × Cursor).2.Within n [] l :=
    within_skipUntil_atDeclarationStop (hd.of_tokens (tokens_unexpected [.terminator] d))
  have hnames := h.of_tokens (tokens_namesDeclaration c)
  simp only [stopDeclaration, bind_apply, currentKind_apply]
  cases c.current.kind with
  | terminator => exact h
  | endOfInput => exact h
  | identifier =>
    simp only [bind_apply]
    split
    · exact hnames.of_tokens (Cursor.tokens_report _ _)
    · exact hskip hnames
  | _ => exact hskip h

theorem within_namedEntry (hk : c.current.kind = .identifier) (h : c.Within n [] l) :
    (namedEntry c).2.Within n [] l := by
  have hhead := leadsAt_declarationHead (m := l) hk [] l (Nat.lt_succ_self l) h
  simp only [namedEntry, bind_apply]
  split
  · exact within_stopDeclaration hhead
  · exact within_skipUntil_atDeclarationStop hhead

/-- An entry stops before the terminator outside all groups. -/
theorem within_entry (h : c.Within n [] l) : (entry c).2.Within n [] l := by
  have hunexpected := h.of_tokens (tokens_unexpected [.identifier] c)
  by_cases hname : c.current.kind = .identifier
  · rw [entry_of_name hname]
    exact within_namedEntry hname h
  cases hbody : KindSet.bodyStart.contains c.current.kind with
  | true =>
    rw [entry_of_body hname hbody]
    rw [← current_unexpected [.identifier] c] at hbody
    exact leadsAt_skipGroup (m := l + 1) hbody [] l (Nat.lt_succ_self l) hunexpected
  | false =>
    rw [entry_of_other hname hbody]
    exact within_skipUntil_atDeclarationStop hunexpected

end Parser

namespace Translation

variable {T : Translation} {n : Nat}

theorem carries_skipDeclaration : T.Carries n skipDeclaration skipDeclaration id :=
  .bindSame (.skipUntil carries_atDeclarationStop) fun _ => .pure rfl

theorem carries_stopDeclaration : T.Carries n stopDeclaration stopDeclaration id := by
  intro c hn
  have hskip : T.Carries n
      (do
        unexpected [.terminator]
        skipDeclaration)
      (do
        unexpected [.terminator]
        skipDeclaration) id :=
    .bindSame (carries_unexpected _) fun _ => carries_skipDeclaration
  refine .bind (carries_currentKind c hn) fun _ => ?_
  simp only [currentKind_apply, id]
  split
  · exact .pure rfl
  · exact .pure rfl
  · rename_i hk
    refine .bind (carriesAt_namesDeclaration hk) fun hr => ?_
    have hn' := Nat.lt_of_le_of_lt hr.left_le hn
    apply CarriesAt.ite
    · exact fun _ => carries_missing .terminator _ hn'
    · exact fun _ => hskip _ hn'
  · exact hskip c hn

/-- The parser of an entry carries every translation. -/
theorem carries_entry :
    T.Carries n entry entry (Option.map (Declaration.map T.token T.offset)) := by
  have hnamed : T.Carries n namedEntry namedEntry (Declaration.map T.token T.offset) := by
    refine .bind carries_declarationHead fun (d, isComplete) => ?_
    refine .ite (.bindSame carries_stopDeclaration fun _ => .pure rfl) ?_
    exact .bindSame carries_skipDeclaration fun _ => .pure rfl
  refine .bindSame (carries_check .identifier) fun _ => .ite (.map hnamed fun _ => rfl) ?_
  refine .bindSame (carries_checkSet _) fun _ => .ite ?_ ?_
  · exact .bindSame (carries_unexpected _) fun _ => .bindSame carries_skipGroup fun _ => .pure rfl
  · exact .bindSame (carries_unexpected _) fun _ => .bindSame carries_skipDeclaration fun _ =>
      .pure rfl

theorem carries_declarations :
    T.Carries n declarations declarations (List.map (Declaration.map T.token T.offset)) :=
  .bindSame carries_skipTerminators fun _ => .collect carries_furtherDeclaration

end Translation

namespace Parser

variable {c : Cursor} {n m l : Nat}

theorem left_skipDeclaration_lt (hc : c.Closed) (hend : c.current.kind ≠ .endOfInput)
    (hk : c.current.kind ≠ .terminator) (hname : c.current.kind ≠ .identifier)
    (hbody : KindSet.bodyStart.contains c.current.kind = false) :
    (skipDeclaration c).2.left < c.left := by
  refine left_skipUntil_lt moves_atDeclarationStop hc hend ?_
  simp only [atDeclarationStop, bind_apply, currentKind_apply]
  exact hbody

/-- An entry is not empty. -/
theorem left_entry_lt (hc : c.Closed) (hend : c.current.kind ≠ .endOfInput)
    (hk : c.current.kind ≠ .terminator) : (entry c).2.left < c.left := by
  have hstop : Moves stopDeclaration :=
    moves_of_carries fun _ => Translation.carries_stopDeclaration
  have hskip : Moves skipDeclaration :=
    moves_of_carries fun _ => Translation.carries_skipDeclaration
  have hhead : Moves declarationHead :=
    moves_of_carries fun _ => Translation.carries_declarationHead
  have hunexpected := moves_unexpected [.identifier] c hc
  have hcurrent := current_unexpected [.identifier] c
  by_cases hname : c.current.kind = .identifier
  · have hlt := left_declarationHead_lt hc hend
    rw [entry_of_name hname]
    simp only [namedEntry, bind_apply]
    split
    · exact Nat.lt_of_le_of_lt (hstop.left_le (hhead.closed hc)) hlt
    · exact Nat.lt_of_le_of_lt (hskip.left_le (hhead.closed hc)) hlt
  cases hbody : KindSet.bodyStart.contains c.current.kind with
  | true =>
    rw [← hcurrent] at hend
    rw [entry_of_body hname hbody]
    exact Nat.lt_of_lt_of_le (left_skipGroup_lt (hunexpected.closed hc) hend) hunexpected.left_le
  | false =>
    rw [entry_of_other hname hbody]
    rw [← hcurrent] at hend hk hname hbody
    exact Nat.lt_of_lt_of_le (left_skipDeclaration_lt (hunexpected.closed hc) hend hk hname hbody)
      hunexpected.left_le

end Parser

/-! ## Isolation -/

namespace Cursor

variable {c : Cursor} {zs : List Reading} {n l : Nat} {st : List TokenKind}

/-- A terminator that is not the last one outside all groups. -/
theorem Nested.advance_terminator_of_lt (h : c.Nested n st) (hk : c.current.kind = .terminator)
    (hlt : n < c.left) : c.advance.Nested n st := by
  obtain ⟨us, mark, vs, htokens, hvs, hmark, hgroups⟩ := h.balanced
  have hlength := congrArg List.length htokens
  simp only [length_tokens, List.length_append, List.length_cons] at hlength
  rw [h.closed.tokens_advance h.ne_endOfInput] at htokens
  cases us with
  | nil => simp at hlength; omega
  | cons u us =>
    obtain ⟨rfl, hrest⟩ := List.cons.inj htokens
    obtain ⟨st', hst', hus⟩ := Option.bind_eq_some_iff.1 hgroups
    rw [hk] at hst'
    obtain ⟨rfl, -⟩ := groupStep_other (by decide) (by decide) hst'
    exact ⟨closed_advance h.closed, us, mark, vs, hrest, hvs, hmark, hus⟩

theorem Ahead.of_left_eq (h : c.Ahead zs) (hleft : c.left = zs.length) :
    c.ahead = zs ∧ c.current.kind = .terminator := by
  obtain ⟨rs, hrs, hmark⟩ := h.exists_readings (Nat.le_of_eq hleft.symm)
  have hnil : rs = [] := by
    have := congrArg List.length hrs
    rw [List.length_append, ← c.left_eq, hleft] at this
    exact List.eq_nil_of_length_eq_zero (by omega)
  subst hnil
  exact ⟨hrs, hmark⟩

end Cursor

/-- **A text is parsed up to a terminator outside all groups as if it ended there.** What is found
on the way does not depend on the text behind the terminator, and parsing stands at the terminator
then, where it goes on with the declarations behind it. -/
theorem exists_declarations_cut {zs : List Reading} {last : Reading} {l : Nat} (hzs : zs ≠ [])
    (hlast : last.answer.value.kind = .endOfInput) (c : Cursor) (h : c.Within zs.length [] l)
    (ha : c.Ahead zs) :
    ∃ ds m, c.Reaches m ∧ m.Ahead zs ∧ m.left = zs.length ∧
      declarations c = (ds ++ (declarations m).1, (declarations m).2) ∧
      declarations (c.cut zs last) =
        (ds ++ (declarations (m.cut zs last)).1, (declarations (m.cut zs last)).2) := by
  induction hn : c.left using Nat.strongRecOn generalizing c with
  | ind n ih =>
    subst hn
    obtain ⟨E, hE, hnested, hle⟩ := id h
    have hc := h.closed
    rcases Nat.eq_or_lt_of_le hnested.le_left with heq | hlt
    · exact ⟨[], c, .refl c, ha, heq.symm, rfl, rfl⟩
    have hcut : (c.cut zs last).Closed := Cursor.closed_cut ha (Nat.le_of_lt hlt) hzs hlast
    by_cases hk : c.current.kind = .terminator
    · have hadvance := hc.left_advance h.ne_endOfInput
      have hleft : zs.length ≤ c.advance.left := by omega
      obtain ⟨ds, m, hr, hm, hmleft, hds, hdscut⟩ := ih c.advance.left (by omega) c.advance
        ⟨E, hE, hnested.advance_terminator_of_lt hk hlt, by omega⟩ (ha.advance hzs) rfl
      refine ⟨ds, m, Cursor.Step.advance.reaches.trans hr, hm, hmleft, ?_, ?_⟩
      · rw [declarations_of_terminator hc hk, hds]
      · rw [declarations_of_terminator hcut hk, Cursor.advance_cut ha hleft hzs, hdscut]
    · have hentry := within_entry h
      obtain ⟨E', hE', hnested', -⟩ := id hentry
      obtain ⟨hr, hrun⟩ := Translation.carries_entry (T := .cut zs last hzs hlast) c
        (Nat.lt_succ_self _) ha
      have hrun : entry (c.cut zs last) = ((entry c).1, (entry c).2.cut zs last) := by
        refine (hrun (Nat.not_lt.2 hnested'.le_left)).trans ?_
        have hid : Declaration.map id id = id := funext Declaration.map_id
        show (Option.map (Declaration.map id id) (entry c).1, _) = _
        rw [hid, Option.map_id]
        rfl
      obtain ⟨ds, m, hr', hm, hmleft, hds, hdscut⟩ := ih _ (left_entry_lt hc h.ne_endOfInput hk) _
        hentry (hr.keeps (Cursor.Ahead.step hzs) ha) rfl
      refine ⟨(entry c).1.toList ++ ds, m, hr.trans hr', hm, hmleft, ?_, ?_⟩
      · rw [declarations_of_entry hc h.ne_endOfInput hk, hds, List.append_assoc]
      · rw [declarations_of_entry hcut h.ne_endOfInput hk, hrun, hdscut, List.append_assoc]

end DeclFront
