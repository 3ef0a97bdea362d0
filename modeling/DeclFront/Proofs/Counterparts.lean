import DeclFront.Proofs.KindsOnly
import DeclFront.Proofs.Unambiguity

/-!
# The same declaration in other words

Tokens of the kinds of a declaration are a declaration, whatever they are spelled like and wherever
they stand, and the trees agree up to positions: once every token and every offset is replaced by
its rank among the tokens of the declaration (`IsDeclaration.exists_counterpart`).

Derivations cannot be moved directly, for where two tokens touch in one text and not in the other,
one offset stands for two. The parser gets there: it runs over the declaration, ranking carries this
over to the tokens that the kinds tell, and back to the other ones, and what is parsed without a
complaint is a declaration.
-/

namespace DeclFront

open DeclFront.Parser DeclFront.Grammar

variable {ts us : List Token} {last last' : Token} {d : Declaration}

/-! ## Ranks among the tokens of a declaration -/

/-- An end behind the tokens adds to no rank but those behind it. -/
theorem rank_eq_min (h : ∀ t ∈ ts, t.start ≤ last.start) (n : Nat) :
    rank ts n = min (rank (ts ++ [last]) n) ts.length := by
  have hrank : rank (ts ++ [last]) n = rank ts n + if last.start < n then 1 else 0 := by
    simp [rank, List.countP_append, List.countP_singleton]
  by_cases hlast : last.start < n
  · have hall : rank ts n = ts.length :=
      List.countP_eq_length.2 fun t ht => decide_eq_true (Nat.lt_of_le_of_lt (h t ht) hlast)
    rw [hrank, hall, if_pos hlast]
    exact (Nat.min_eq_right (Nat.le_succ _)).symm
  · rw [hrank, if_neg hlast, Nat.add_zero]
    exact (Nat.min_eq_left List.countP_le_length).symm

/-- The token in the first `m` places, one byte long each. -/
def Token.clamp (m : Nat) (t : Token) : Token :=
  ⟨t.kind, ⟨min t.start m, 1, 1⟩, min t.stop m - min t.start m⟩

/-- Ranks among some tokens are told by those among these tokens and an end behind them. -/
theorem Declaration.ranked_eq_map (h : ∀ t ∈ ts, t.start ≤ last.start) (d : Declaration) :
    d.ranked ts = (d.ranked (ts ++ [last])).map (.clamp ts.length) (min · ts.length) := by
  have hoffset : rank ts = (min · ts.length) ∘ rank (ts ++ [last]) := funext (rank_eq_min h)
  have htoken : Token.ranked ts = Token.clamp ts.length ∘ Token.ranked (ts ++ [last]) := by
    funext t
    rw [Function.comp_apply, Token.clamp, Token.stop_ranked]
    simp only [Token.ranked, Token.start, rank_eq_min h]
  rw [ranked, ranked, map_map, ← hoffset, ← htoken]

theorem Spaced.start_le_last (h : Spaced (ts ++ [last])) : ∀ t ∈ ts, t.start ≤ last.start :=
  fun t ht => Nat.le_of_lt (h.start_le.1 t ht)

/-- Tokens on the way through a spaced list, with an end where the next one begins. -/
theorem Spaced.excerpt {before behind : List Token} {next : Token}
    (h : Spaced (before ++ ts ++ next :: behind)) :
    Spaced (ts ++ [⟨.endOfInput, next.position, 0⟩]) := by
  have hkinds : ∀ t ∈ ts, t.kind ≠ .endOfInput := fun t ht =>
    h.terminated.kind_ne (List.cons_ne_nil _ _) t (List.mem_append_right _ ht)
  obtain ⟨hfront, -, hcross⟩ := List.pairwise_append.1 h.ordered
  have hordered := (List.pairwise_append.1 hfront).2.1
  refine ⟨?_, Cursor.terminated_append hkinds rfl, fun t ht => ?_⟩
  · refine List.pairwise_append.2 ⟨hordered, List.pairwise_singleton _ _, fun t ht u hu => ?_⟩
    rw [List.mem_singleton.1 hu]
    exact hcross t (List.mem_append_right _ ht) next List.mem_cons_self
  · rcases List.mem_append.1 ht with ht | ht
    · exact h.length_eq_zero_iff t (by simp [ht])
    · rw [List.mem_singleton.1 ht]
      exact iff_of_true rfl rfl

/-! ## From one spelling to the other -/

namespace Cursor

variable {c d : Cursor}

/-- Where the lexer has nothing to complain about, all complaints are those of the parser. -/
theorem Step.parsed_eq_raised (hs : Step c d) (hc : c.Sound ∧ c.parsed = c.raised) :
    d.Sound ∧ d.parsed = d.raised := by
  have hadvance {e : Cursor} (he : e.Sound ∧ e.parsed = e.raised) :
      e.advance.Sound ∧ e.advance.parsed = e.advance.raised :=
    ⟨he.1.sound_advance, by rw [parsed, he.1.raised_advance]; exact he.2⟩
  have hreport {e : Cursor} {x : Diagnostic} (hx : x.isParsing = true)
      (he : e.Sound ∧ e.parsed = e.raised) :
      (e.report x).Sound ∧ (e.report x).parsed = (e.report x).raised := by
    refine ⟨he.1.sound_report x, ?_⟩
    rcases raised_report e x with hr | ⟨-, hr⟩
    · rw [parsed, hr, List.filter_cons_of_pos hx]
      exact congrArg _ he.2
    · rw [parsed, hr]
      exact he.2
  cases hs with
  | peek => exact ⟨hc.1.sound_peek, by rw [parsed, hc.1.raised_peek]; exact hc.2⟩
  | advance => exact hadvance hc
  | complain => exact hreport rfl hc
  | skipEmpty => exact hreport rfl (hadvance (hadvance hc))

theorem Clean.raised_eq_nil (hc : c.Clean) (hr : c.Reaches d) (h : d.parsed = []) :
    d.raised = [] := by
  have hparsed : c.parsed = c.raised := by rw [parsed, hc.silent]; rfl
  rw [← (hr.keeps Step.parsed_eq_raised ⟨hc.sound, hparsed⟩).2, h]

/-- Before tokens about which nothing was noticed, only their kinds tell where the ranked cursor
stands. -/
theorem ranked_bare (h : Spaced ts) :
    (bare ts).ranked ts = bare (unitTokens 0 (ts.map (·.kind))) := by
  have hne : ts.map (fun t => (⟨.token t, [], []⟩ : Reading)) ≠ [] := by
    simpa using h.terminated.ne_nil
  rw [bare, ranked_ofReadings hne (by simp), ← h.map_ranked]
  simp [Function.comp_def, Answer.value]

theorem among_bare (h : Spaced ts) (hvalid : ∀ t ∈ ts, t.kind ≠ .invalid) :
    (bare ts).Clean ∧ (bare ts).tokens = ts ∧ (bare ts).Among ts := by
  obtain ⟨hclean, htokens⟩ : (bare ts).Clean ∧ (bare ts).tokens = ts :=
    clean_ofReadings h.terminated h.ordered hvalid
  refine ⟨hclean, htokens, h, htokens.symm ▸ List.suffix_refl ts, hclean.sound.closed,
    fun n hn => ?_, fun r hr x hx => ?_⟩
  · rw [hclean.sound.heard hclean.silent] at hn
    cases hn
  · rw [hclean.sound.quiet r hr] at hx
    cases hx

end Cursor

/-- Reading the first declaration of tokens that only the kinds tell. -/
theorem declarationHead_unitTokens (h : Spaced ts) (hvalid : ∀ t ∈ ts, t.kind ≠ .invalid) :
    declarationHead (.bare (unitTokens 0 (ts.map (·.kind)))) =
      (Prod.map (Declaration.ranked ts) id (declarationHead (.bare ts)).1,
        (declarationHead (.bare ts)).2.ranked ts) := by
  rw [← Cursor.ranked_bare h]
  exact (Translation.carries_declarationHead (T := .ranked _) _ (Nat.lt_succ_self _)
    (Cursor.among_bare h hvalid).2.2).2 not_false

/-- Tokens up to the end that are parsed without a complaint of the parser are a declaration. -/
theorem isDeclaration_of_parsed (h : Spaced (ts ++ [last]))
    (hvalid : ∀ t ∈ ts ++ [last], t.kind ≠ .invalid)
    (hident : (Cursor.bare (ts ++ [last])).current.kind = .identifier)
    (hparsed : (declarationHead (.bare (ts ++ [last]))).2.parsed = [])
    (hbehind : (declarationHead (.bare (ts ++ [last]))).2.tokens.length = 1) :
    IsDeclaration ts (declarationHead (.bare (ts ++ [last]))).1.1 := by
  obtain ⟨hclean, htokens, hamong⟩ := Cursor.among_bare h hvalid
  have hreaches := (Translation.carries_declarationHead (T := .ranked _) _ (Nat.lt_succ_self _)
    hamong).1
  obtain ⟨us, hpass, hderived, -⟩ := (yieldsAt_declarationHead hident hclean.sound).2
    (hclean.raised_eq_nil hreaches hparsed)
  have hsplit := htokens.symm.trans hpass.tokens
  obtain ⟨rfl, -⟩ := List.append_inj' hsplit hbehind.symm
  exact hderived

/-- **Tokens of the kinds of a declaration are a declaration**, and the trees agree up to
positions. -/
theorem Grammar.IsDeclaration.exists_counterpart (hts : Spaced (ts ++ [last]))
    (hus : Spaced (us ++ [last'])) (hlast : last.kind = .endOfInput)
    (hlast' : last'.kind = .endOfInput) (hkinds : us.map (·.kind) = ts.map (·.kind))
    (h : IsDeclaration ts d) : ∃ e, IsDeclaration us e ∧ e.ranked us = d.ranked ts := by
  have hproper : Proper ts := (carried_declaration (f := id) (g := id) h).proper
  have hall : (us ++ [last']).map (·.kind) = (ts ++ [last]).map (·.kind) := by
    simp [hkinds, hlast, hlast']
  have hvalid : ∀ t ∈ ts ++ [last], t.kind ≠ .invalid :=
    List.forall_mem_append.2 ⟨fun t ht => (hproper t ht).2, by simp [hlast]⟩
  have hvalid' : ∀ u ∈ us ++ [last'], u.kind ≠ .invalid := by
    intro u hu
    obtain ⟨t, ht, hkind⟩ := List.mem_map.1 (hall ▸ List.mem_map_of_mem hu)
    exact hkind ▸ hvalid t ht
  -- The parser runs over the declaration, and the other run has the same ranks.
  obtain ⟨hclean, htokens, -⟩ := Cursor.among_bare hts hvalid
  have hstop : Stops typeMore [last] := .cons (by simp [hlast, typeMore])
  obtain ⟨hrun, hsilent, hbehind, -⟩ := runs_declarationHead h hstop _ hclean.tidy htokens rfl
  have hsame := declarationHead_unitTokens hus hvalid'
  rw [hall, declarationHead_unitTokens hts hvalid, hrun] at hsame
  obtain ⟨htree, hcursor⟩ := Prod.mk.inj hsame
  -- So it complains about nothing, and stops at the end as well.
  have hparsed : (declarationHead (.bare (us ++ [last']))).2.parsed = [] := by
    refine List.map_eq_nil_iff.1 ((congrArg Cursor.raised hcursor).symm.trans ?_)
    refine List.map_eq_nil_iff.2 ?_
    rw [Cursor.parsed, (hsilent.clean hclean).silent]
    rfl
  have hbehind' : (declarationHead (.bare (us ++ [last']))).2.tokens.length = 1 := by
    have hlengths := congrArg (fun c => c.tokens.length) hcursor
    simpa only [Cursor.tokens_ranked, List.length_map, hbehind, List.length_singleton] using
      hlengths.symm
  have hident : (Cursor.bare (us ++ [last'])).current.kind = .identifier := by
    have hfirst := congrArg (List.map (·.kind)) (Cursor.among_bare hus hvalid').2.1
    rw [hall] at hfirst
    cases h with
    | mk hname => exact (List.cons.inj hfirst).1.trans hname
  refine ⟨_, isDeclaration_of_parsed hus hvalid' hident hparsed hbehind', ?_⟩
  have hlengths : us.length = ts.length := by simpa using congrArg List.length hkinds
  rw [Declaration.ranked_eq_map hus.start_le_last, Declaration.ranked_eq_map hts.start_le_last,
    ← (Prod.mk.inj htree).1, hlengths]

end DeclFront
