import DeclFront.Proofs.Completeness
import DeclFront.Proofs.Relabelling

/-!
# A text has one derivation

A text about which the lexer has no complaint and whose significant tokens are in the grammar is
parsed without a diagnostic, to the tree of whatever derivation its tokens have.
-/

namespace DeclFront

open DeclFront.Parser DeclFront.Grammar

theorem Cursor.clean_ofChars {cs : List Char} (h : Segment.complaints cs = []) :
    (ofChars cs).Clean :=
  ⟨(sound_ofChars h).1, (sound_ofChars h).2⟩

/-- From a clean cursor the tree of a module is the result of its parser, whatever its
derivation. -/
theorem Cursor.Clean.module_eq {c : Cursor} (hc : c.Clean) {r : ModuleHeader × List Declaration}
    (h : IsModule c.tokens r) : (module c).1 = r ∧ (module c).2.Clean := by
  obtain ⟨us, t, htokens, -, hruns⟩ := runs_module h
  obtain ⟨hr, hsilent, -⟩ := hruns c hc.tidy htokens rfl
  exact ⟨hr, hsilent.clean hc⟩

/-! ## Numbered tokens -/

/-- Tokens of the kinds of `ts`, one byte long and one byte apart. -/
def numbered (ts : List Token) : List Token := ts.mapIdx fun i t => ⟨t.kind, ⟨2 * i, 1, 1⟩, 1⟩

/-- The token for which a numbered one stands. -/
def numberedToken (ts : List Token) (u : Token) : Token := ts[u.start / 2]?.getD u

/-- The place for which one in the numbered tokens stands. -/
def numberedOffset (ts : List Token) (n : Nat) : Nat :=
  (ts[n / 2]?.map fun t => if n % 2 = 0 then t.start else t.stop).getD n

theorem length_numbered (ts : List Token) : (numbered ts).length = ts.length := List.length_mapIdx

theorem getElem_numbered {ts : List Token} {i : Nat} (h : i < ts.length)
    (h' : i < (numbered ts).length) : (numbered ts)[i] = ⟨ts[i].kind, ⟨2 * i, 1, 1⟩, 1⟩ := by
  simp [numbered]

theorem standFor_numbered (ts : List Token) :
    StandFor (numberedToken ts) (numberedOffset ts) ts (numbered ts) := by
  refine List.forall₂_iff_get.2 ⟨(length_numbered ts).symm, fun i h h' => ?_⟩
  have hstart : (2 * i) / 2 = i := by omega
  have hstop : (2 * i + 1) / 2 = i := by omega
  rw [List.get_eq_getElem, List.get_eq_getElem, getElem_numbered h h']
  constructor
  · rfl
  · simp [numberedToken, Token.start, hstart, List.getElem?_eq_getElem h]
  · simp [numberedOffset, Token.start, hstart, List.getElem?_eq_getElem h]
  · simp [numberedOffset, Token.stop, Token.start, hstop, List.getElem?_eq_getElem h]

theorem ordered_numbered (ts : List Token) : Ordered (numbered ts) := by
  refine List.pairwise_iff_getElem.2 fun i j hi hj hij => ?_
  rw [getElem_numbered (length_numbered ts ▸ hi) hi, getElem_numbered (length_numbered ts ▸ hj) hj]
  show 2 * i + 1 ≤ 2 * j
  omega

theorem StandFor.terminated {f : Token → Token} {g : Nat → Nat} {ts us : List Token}
    (h : StandFor f g ts us) (hts : Terminated ts) : Terminated us := by
  induction hts generalizing us with
  | last ht =>
    obtain ⟨u, hu, rfl⟩ := h.exists_singleton
    exact .last (hu.kind_eq.trans ht)
  | cons ht _ ih =>
    obtain ⟨u, us, hu, hus, rfl⟩ := h.exists_cons
    exact .cons (hu.kind_eq ▸ ht) (ih hus)

/-- Before tokens that stand in order, about which nothing was noticed, the cursor is clean. -/
theorem Cursor.clean_ofReadings {ts : List Token} (hterminated : Terminated ts)
    (hordered : Ordered ts) (hvalid : ∀ t ∈ ts, t.kind ≠ .invalid) :
    (ofReadings (ts.map fun t => ⟨.token t, [], []⟩)).Clean ∧
      (ofReadings (ts.map fun t => ⟨.token t, [], []⟩)).tokens = ts := by
  cases ts with
  | nil => exact absurd rfl hterminated.ne_nil
  | cons t ts =>
    have htokens : (ofReadings ((t :: ts).map fun t => ⟨.token t, [], []⟩)).tokens = t :: ts := by
      simp [ofReadings, tokens, Function.comp_def, Answer.value]
    refine ⟨⟨⟨by rwa [Closed, htokens], by rwa [htokens], by rwa [htokens], ?_, fun _ => rfl⟩, rfl⟩,
      htokens⟩
    intro r hr
    obtain ⟨u, -, rfl⟩ := List.mem_map.1 hr
    rfl

/-- A list of tokens has one tree at most. -/
theorem isModule_unique {ts : List Token} {r r' : ModuleHeader × List Declaration}
    (h : IsModule ts r) (h' : IsModule ts r') : r = r' := by
  have hstand := standFor_numbered ts
  obtain ⟨⟨us, last, hts, hproper, hlast⟩, hcarry⟩ := carried_module h
  obtain ⟨-, hcarry'⟩ := carried_module h'
  obtain ⟨b, hb, rfl⟩ := hcarry _ hstand
  obtain ⟨b', hb', rfl⟩ := hcarry' _ hstand
  have hterminated : Terminated (numbered ts) :=
    hstand.terminated (hts ▸ Cursor.terminated_append (fun t ht => (hproper t ht).1) hlast)
  have hvalid : ∀ u ∈ numbered ts, u.kind ≠ .invalid := by
    refine StandFor.forall_kind (P := (· ≠ .invalid)) hstand fun t ht => ?_
    rcases List.mem_append.1 (hts ▸ ht) with ht | ht
    · exact (hproper t ht).2
    · simp [List.mem_singleton.1 ht, hlast]
  obtain ⟨hc, htokens⟩ := Cursor.clean_ofReadings hterminated (ordered_numbered ts) hvalid
  rw [← htokens] at hb hb'
  rw [← (hc.module_eq hb).1, ← (hc.module_eq hb').1]

namespace Module

/-- What is in the grammar is parsed without a diagnostic, to its tree. -/
theorem ofSource_of_isModule {s : Source} {limit : Nat} (hlex : (lexRaw s limit).diagnostics = [])
    {r : ModuleHeader × List Declaration} (h : IsModule (lexSignificant s limit).tokens r)
    (limit' : Nat) (policy : TriviaPolicy) : (ofSource s limit' policy).diagnostics = [] ∧
      ((ofSource s limit' policy).header, (ofSource s limit' policy).members) = r := by
  rw [diagnostics_lexRaw, Sink.sorted_reportAll_eq_nil_iff] at hlex
  rw [tokens_lexSignificant, ← Cursor.tokens_ofChars] at h
  obtain ⟨hr, hclean⟩ := (Cursor.clean_ofChars hlex).module_eq h
  exact ⟨(Cursor.diagnostics_eq_nil_iff _ _).2 hclean.silent, hr⟩

/-- **What is in the grammar is parsed, and in one way only.** A text about which the lexer has no
complaint and whose significant tokens are in the grammar is parsed without a diagnostic, and the
module has the tree of every derivation of its tokens. No list of tokens at all has two trees. -/
theorem complete_unambiguous :
    (∀ (s : Source) (limit : Nat) (r : ModuleHeader × List Declaration),
      (lexRaw s limit).diagnostics = [] → IsModule (lexSignificant s limit).tokens r →
        ∀ limit' policy, (ofSource s limit' policy).diagnostics = [] ∧
          ((ofSource s limit' policy).header, (ofSource s limit' policy).members) = r) ∧
    ∀ (ts : List Token) (r r' : ModuleHeader × List Declaration),
      IsModule ts r → IsModule ts r' → r = r' :=
  ⟨fun _ _ _ hlex h => ofSource_of_isModule hlex h, fun _ _ _ => isModule_unique⟩

/-- A module of one declaration. -/
theorem complete_unambiguous_reference :
    let s : Source := ⟨"[[m]]\nA := b.C?", none⟩
    (lexRaw s 0).diagnostics = [] ∧ ∃ r, IsModule (lexSignificant s 0).tokens r ∧
      (ofSource s 0 .discard).diagnostics = [] ∧
      ((ofSource s 0 .discard).header, (ofSource s 0 .discard).members) = r ∧
      ∀ r', IsModule (lexSignificant s 0).tokens r' → r = r' := by
  intro s
  let head : List Token :=
    [⟨.leftBracket, ⟨0, 1, 1⟩, 1⟩, ⟨.leftBracket, ⟨1, 1, 2⟩, 1⟩, ⟨.identifier, ⟨2, 1, 3⟩, 1⟩,
      ⟨.rightBracket, ⟨3, 1, 4⟩, 1⟩, ⟨.rightBracket, ⟨4, 1, 5⟩, 1⟩]
  let name : List Token :=
    [⟨.identifier, ⟨11, 2, 6⟩, 1⟩, ⟨.dot, ⟨12, 2, 7⟩, 1⟩, ⟨.identifier, ⟨13, 2, 8⟩, 1⟩]
  let mark : List Token := [⟨.question, ⟨14, 2, 9⟩, 1⟩]
  let line : List Token :=
    [⟨.identifier, ⟨6, 2, 1⟩, 1⟩, ⟨.colonEqual, ⟨8, 2, 3⟩, 2⟩] ++ (name ++ mark)
  have hlex : (lexRaw s 0).diagnostics = [] := by decide +kernel
  have htokens : (lexSignificant s 0).tokens =
      head ++ [⟨.terminator, ⟨5, 1, 6⟩, 1⟩] ++ line ++ [⟨.endOfInput, ⟨15, 2, 10⟩, 0⟩] := by
    decide +kernel
  have hhead : IsHeader head _ := .mk rfl rfl (.mk rfl .nil) rfl rfl
  have hname : IsPath name _ := .mk rfl (.cons (.inl rfl) rfl .nil)
  have htype : IsType (name ++ mark) _ := .reference (.mk .unspecified hname .absent (.present rfl))
  have hline : IsDeclaration line _ :=
    @IsDeclaration.mk _ _ [] (name ++ mark) none _ rfl .absent rfl htype
  have hmodule := @IsModule.mk [] head [⟨.terminator, ⟨5, 1, 6⟩, 1⟩] line
    ⟨.endOfInput, ⟨15, 2, 10⟩, 0⟩ _ _ (List.forall_mem_nil _) hhead
    (List.forall_mem_singleton.2 rfl) (.last hline) rfl
  rw [List.nil_append, ← htokens] at hmodule
  obtain ⟨hsilent, htree⟩ := complete_unambiguous.1 s 0 _ hlex hmodule 0 .discard
  exact ⟨hlex, _, hmodule, hsilent, htree, fun r' => complete_unambiguous.2 _ _ r' hmodule⟩

end Module

end DeclFront
