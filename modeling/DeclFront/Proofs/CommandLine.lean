import DeclFront.Proofs.Arguments
import Mathlib.Data.List.Induction
import Mathlib.Data.List.Perm.Basic

/-!
# What a command line asks for

The reader of a command line goes through the arguments once, brings the options up to date with
each, and stops at the first argument that it cannot accept. Both ways to end are described here
without going through anything.

**Accepted** arguments each have a form, and at most one of them is an input. Their options are told
from the last argument of each sort (`Options.ofArguments`): one argument more changes them as the
reader does (`Options.ofArguments_concat`).

**An argument offends** behind others if it has no form, or if it is an input and there is one
already. Arguments are accepted just if none offends (`Argument.accepted_iff`).

**Theorem (`Options.parses_exactly`).** The reader gives the options of the accepted arguments, or
complains about the leftmost argument that offends. The options do not depend on the order of
arguments of different sorts, as no sort looks at another.
-/

namespace DeclFront

variable {args before after rest : List String} {as : List Argument} {a b : Argument} {arg : String}
  {e : UsageError}

namespace Argument

/-! ## Sorts of arguments -/

def color? : Argument → Option ColorMode
  | .color m => some m
  | _ => none

def format? : Argument → Option Format
  | .format f => some f
  | _ => none

def errorLimit? : Argument → Option Nat
  | .errorLimit n => some n
  | _ => none

def input? : Argument → Option Input
  | .input i => some i
  | _ => none

/-- The last of what is asked for by one sort of arguments. -/
def lastOf {α : Type} (sort : Argument → Option α) (as : List Argument) : Option α :=
  (as.filterMap sort).getLast?

theorem lastOf_concat {α : Type} (sort : Argument → Option α) (as : List Argument) (a : Argument) :
    lastOf sort (as ++ [a]) = (sort a).or (lastOf sort as) := by
  rw [lastOf, List.filterMap_append, List.getLast?_append]
  cases h : sort a <;> simp [lastOf, h]

end Argument

namespace Options

open Argument

/-- The options of a command with arguments: the last of each sort counts. -/
def ofArguments (command : Command) (as : List Argument) : Options where
  command := command
  input := (lastOf input? as).getD .stdin
  color := (lastOf color? as).getD .auto
  format := (lastOf format? as).getD .human
  errorLimit := (lastOf errorLimit? as).getD 100
  keepTrivia := decide (.keepTrivia ∈ as)
  significant := decide (.significant ∈ as)

theorem ofArguments_concat (c : Command) (as : List Argument) (a : Argument) :
    ofArguments c (as ++ [a]) = (ofArguments c as).set a := by
  cases a <;> simp [ofArguments, set, lastOf_concat, color?, format?, errorLimit?, input?]

/-- Arguments taken in turn leave the last of each sort. -/
theorem foldl_set (c : Command) (as : List Argument) :
    as.foldl set (ofCommand c) = ofArguments c as := by
  induction as using List.reverseRecOn with
  | nil => rfl
  | append_singleton as a ih => rw [List.foldl_concat, ih, ofArguments_concat]

end Options

/-! ## Accepted arguments -/

namespace Argument

theorem Spells.eq (ha : Spells arg a) (hb : Spells arg b) : a = b := by
  have h := (parse_eq_ok_iff.2 ha).symm.trans (parse_eq_ok_iff.2 hb)
  exact Except.ok.inj h

/-- The argument is an input. -/
def IsInput (arg : String) : Prop := ∃ i, Spells arg (.input i)

/-- Arguments with a form, at most one of which is an input, and what they ask for. -/
structure Accepted (args : List String) (as : List Argument) : Prop where
  spells : List.Forall₂ Spells args as
  inputs_le : (as.filterMap input?).length ≤ 1

theorem mem_iff_of_spells (h : List.Forall₂ Spells args as) :
    a ∈ as ↔ ∃ arg ∈ args, Spells arg a := by
  induction h with
  | nil => simp
  | @cons arg b args as hb _ ih =>
    have hhead : a = b ↔ Spells arg a := ⟨fun h => h ▸ hb, fun ha => ha.eq hb⟩
    rw [List.mem_cons, List.exists_mem_cons_iff, hhead, ih]

theorem eq_of_input?_eq {i : Input} (h : a.input? = some i) : a = .input i := by
  cases a with
  | input j => exact congrArg Argument.input (Option.some_inj.1 h)
  | color | format | errorLimit | keepTrivia | significant => cases h

theorem exists_isInput_iff (h : List.Forall₂ Spells args as) :
    (∃ arg ∈ args, IsInput arg) ↔ as.filterMap input? ≠ [] := by
  constructor
  · rintro ⟨arg, harg, i, hi⟩
    have hmem : Argument.input i ∈ as := (mem_iff_of_spells h).2 ⟨arg, harg, hi⟩
    exact List.ne_nil_of_mem (List.mem_filterMap.2 ⟨.input i, hmem, rfl⟩)
  · intro hne
    obtain ⟨i, hi⟩ := List.exists_mem_of_ne_nil _ hne
    obtain ⟨a, ha, hai⟩ := List.mem_filterMap.1 hi
    obtain ⟨arg, harg, hspells⟩ := (mem_iff_of_spells h).1 ha
    exact ⟨arg, harg, i, eq_of_input?_eq hai ▸ hspells⟩

theorem take_cons_drop {i : Nat} (hi : i < args.length) :
    args.take i ++ args[i] :: args.drop (i + 1) = args := by
  rw [List.getElem_cons_drop, List.take_append_drop]

theorem Accepted.take (h : Accepted args as) (n : Nat) : Accepted (args.take n) (as.take n) where
  spells := List.forall₂_take n h.spells
  inputs_le := by
    have hsub := (List.take_sublist n as).filterMap input?
    exact Nat.le_trans hsub.length_le h.inputs_le

/-! ## Offences -/

/-- What is said against an argument behind others. -/
inductive Offends (before : List String) : String → UsageError → Prop
  | refused {arg : String} {e : UsageError} (h : Refused arg e) : Offends before arg e
  | second {arg : String} (h : IsInput arg) (hbefore : ∃ earlier ∈ before, IsInput earlier) :
    Offends before arg (.unexpectedArgument arg)

/-- What is said against the argument at a position. -/
def OffendsAt (args : List String) (i : Nat) (e : UsageError) : Prop :=
  ∃ arg, args[i]? = some arg ∧ Offends (args.take i) arg e

end Argument

namespace Options

open Argument

variable {o : Options} {given : Bool}

/-- **One argument.** An argument with a form is taken, unless it is a second input. -/
theorem addAll_cons (h : Spells arg a) (hfree : given = true → a.input? = none) :
    addAll o given (arg :: args) = addAll (o.set a) (given || a.input?.isSome) args := by
  rw [addAll, Argument.parse_eq_ok_iff.2 h]
  cases a with
  | input i =>
    have hgiven : given = false := by
      by_contra hne
      cases hfree (by simpa using hne)
    rw [hgiven]
    rfl
  | color | format | errorLimit | keepTrivia | significant => simp [input?]

/-- **A run.** Arguments with a form are taken in turn, if they and what was given before make one
input at most. -/
theorem addAll_append (h : List.Forall₂ Spells before as)
    (hinputs : (as.filterMap input?).length + given.toNat ≤ 1) :
    addAll o given (before ++ rest) =
      addAll (as.foldl set o) (given || !(as.filterMap input?).isEmpty) rest := by
  induction h generalizing o given with
  | nil => simp
  | @cons arg a before as ha _ ih =>
    cases hi : a.input? with
    | none =>
      rw [List.filterMap_cons_none hi] at hinputs ⊢
      rw [List.cons_append, addAll_cons ha fun _ => hi, hi, Option.isSome_none, Bool.or_false]
      exact ih hinputs
    -- this is the one input, so none was given and none comes behind
    | some i =>
      rw [List.filterMap_cons_some hi, List.length_cons] at hinputs
      have hgiven : given = false := by
        cases given with
        | false => rfl
        | true => simp at hinputs
      have hrest : (as.filterMap input?).length = 0 := by omega
      have htail : addAll (o.set a) true (before ++ rest) =
          addAll (as.foldl set (o.set a)) (true || !(as.filterMap input?).isEmpty) rest :=
        ih (by simp [hrest])
      rw [List.cons_append, addAll_cons ha (by simp [hgiven]), hi, hgiven,
        List.filterMap_cons_some hi]
      exact htail

theorem addAll_of_accepted (c : Command) (h : Accepted before as) (rest : List String) :
    addAll (ofCommand c) false (before ++ rest) =
      addAll (ofArguments c as) (!(as.filterMap input?).isEmpty) rest := by
  have hinputs : (as.filterMap input?).length + false.toNat ≤ 1 := h.inputs_le
  rw [addAll_append h.spells hinputs, foldl_set, Bool.false_or]

theorem addAll_of_offends (c : Command) (h : Accepted before as) (hoffends : Offends before arg e)
    (after : List String) : addAll (ofCommand c) false (before ++ arg :: after) = .error e := by
  rw [addAll_of_accepted c h, addAll]
  cases hoffends with
  | refused hrefused => rw [Argument.parse_eq_error_iff.2 hrefused]
  | second harg hbefore =>
    obtain ⟨i, hi⟩ := harg
    have hgiven : (!(as.filterMap input?).isEmpty) = true := by
      simpa using (exists_isInput_iff h.spells).1 hbefore
    rw [Argument.parse_eq_ok_iff.2 hi, hgiven]
    rfl

end Options

/-! ## The leftmost offence -/

namespace Argument

/-- Arguments are accepted, or they are so up to one that offends. -/
theorem accepted_or_offends (args : List String) : (∃ as, Accepted args as) ∨
    ∃ before arg after as e, args = before ++ arg :: after ∧ Accepted before as ∧
      Offends before arg e := by
  -- the last argument is taken off, as an argument offends in view of those before it
  induction args using List.reverseRecOn with
  | nil => exact .inl ⟨[], .nil, by simp⟩
  | append_singleton args arg ih =>
    rcases ih with ⟨as, has⟩ | ⟨before, first, after, as, e, rfl, has, hoffends⟩
    · cases hparse : parse arg with
      | ok a =>
        have ha : Spells arg a := parse_eq_ok_iff.1 hparse
        have hspells : List.Forall₂ Spells (args ++ [arg]) (as ++ [a]) :=
          List.rel_append has.spells (.cons ha .nil)
        cases hi : a.input? with
        | none =>
          refine .inl ⟨as ++ [a], hspells, ?_⟩
          rw [List.filterMap_append, List.filterMap_cons_none hi, List.filterMap_nil,
            List.append_nil]
          exact has.inputs_le
        | some i =>
          by_cases hnone : as.filterMap input? = []
          · refine .inl ⟨as ++ [a], hspells, ?_⟩
            rw [List.filterMap_append, hnone, List.filterMap_cons_some hi]
            exact Nat.le_refl 1
          · have harg : IsInput arg := ⟨i, eq_of_input?_eq hi ▸ ha⟩
            exact .inr ⟨args, arg, [], as, _, rfl, has,
              .second harg ((exists_isInput_iff has.spells).2 hnone)⟩
      | error e =>
        exact .inr ⟨args, arg, [], as, e, rfl, has, .refused (parse_eq_error_iff.1 hparse)⟩
    · exact .inr ⟨before, first, after ++ [arg], as, e, by simp, has, hoffends⟩

/-- An argument offends in a command line as it does behind those in front of it. -/
theorem offendsAt_append : OffendsAt (before ++ arg :: after) before.length e ↔
    Offends before arg e := by
  constructor
  · rintro ⟨arg', harg', hoffends⟩
    rw [List.getElem?_append_right (Nat.le_refl _), Nat.sub_self, List.getElem?_cons_zero] at harg'
    rw [List.take_left, ← Option.some_inj.1 harg'] at hoffends
    exact hoffends
  · intro h
    refine ⟨arg, ?_, ?_⟩
    · rw [List.getElem?_append_right (Nat.le_refl _), Nat.sub_self, List.getElem?_cons_zero]
    · rwa [List.take_left]

theorem offendsAt_take_iff {i j : Nat} :
    OffendsAt (args.take i) j e ↔ j < i ∧ OffendsAt args j e := by
  by_cases hj : j < i
  · rw [OffendsAt, List.getElem?_take_of_lt hj, List.take_take, Nat.min_eq_left (Nat.le_of_lt hj)]
    exact (and_iff_right hj).symm
  · have hnone : (args.take i)[j]? = none := by
      rw [List.getElem?_eq_none_iff, List.length_take]
      omega
    constructor
    · rintro ⟨arg, harg, -⟩
      cases hnone.symm.trans harg
    · exact fun h => absurd h.1 hj

/-- Nothing is said against arguments that are accepted. -/
theorem Accepted.not_offendsAt (h : Accepted args as) (i : Nat) (e : UsageError) :
    ¬ OffendsAt args i e := by
  rintro ⟨arg, harg, hoffends⟩
  obtain ⟨hi, rfl⟩ := List.getElem?_eq_some_iff.1 harg
  -- read up to the end the arguments give options, read up to the offence an error
  have hok := Options.addAll_of_accepted .help h []
  have herror := Options.addAll_of_offends .help (h.take i) hoffends (args.drop (i + 1))
  rw [take_cons_drop hi] at herror
  rw [List.append_nil, herror] at hok
  cases hok

theorem accepted_iff : (∃ as, Accepted args as) ↔ ∀ i e, ¬ OffendsAt args i e := by
  constructor
  · rintro ⟨as, has⟩
    exact has.not_offendsAt
  · intro h
    rcases accepted_or_offends args with haccepted | ⟨before, arg, after, as, e, rfl, -, hoffends⟩
    · exact haccepted
    · exact absurd (offendsAt_append.2 hoffends) (h before.length e)

/-- Something is said against the argument at a position, and nothing against those before it. -/
def FirstOffence (args : List String) (e : UsageError) : Prop :=
  ∃ i, OffendsAt args i e ∧ ∀ j < i, ∀ e', ¬ OffendsAt args j e'

theorem firstOffence_iff : FirstOffence args e ↔ ∃ before arg after as,
    args = before ++ arg :: after ∧ Accepted before as ∧ Offends before arg e := by
  constructor
  · rintro ⟨i, ⟨arg, harg, hoffends⟩, hleft⟩
    obtain ⟨hi, rfl⟩ := List.getElem?_eq_some_iff.1 harg
    have haccepted : ∃ as, Accepted (args.take i) as := by
      rw [accepted_iff]
      intro j e' h
      obtain ⟨hj, h⟩ := offendsAt_take_iff.1 h
      exact hleft j hj e' h
    obtain ⟨as, has⟩ := haccepted
    exact ⟨args.take i, args[i], args.drop (i + 1), as, (take_cons_drop hi).symm, has, hoffends⟩
  · rintro ⟨before, arg, after, as, rfl, has, hoffends⟩
    refine ⟨before.length, offendsAt_append.2 hoffends, ?_⟩
    intro j hj e' h
    have htake : OffendsAt ((before ++ arg :: after).take before.length) j e' :=
      offendsAt_take_iff.2 ⟨hj, h⟩
    rw [List.take_left] at htake
    exact has.not_offendsAt j e' htake

theorem accepted_or_firstOffence (args : List String) :
    (∃ as, Accepted args as) ∨ ∃ e, FirstOffence args e := by
  rcases accepted_or_offends args with haccepted | ⟨before, arg, after, as, e, h⟩
  · exact .inl haccepted
  · exact .inr ⟨e, firstOffence_iff.2 ⟨before, arg, after, as, h⟩⟩

end Argument

/-! ## The whole command line -/

theorem Command.needsInput_iff {c : Command} :
    c.needsInput = true ↔ c ∈ [Command.lex, .parse, .check] := by
  cases c <;> decide

namespace Options

open Argument

variable {word : String} {c : Command}

theorem parse_of_unknown (h : ∀ c : Command, word ∉ c.words) :
    parse (word :: args) = .error (.unknownCommand word) := by
  have hnone : Command.parse? word = none := by
    rw [Option.eq_none_iff_forall_ne_some]
    exact fun c hc => h c (Command.parse?_eq_some_iff.1 hc)
  rw [parse, hnone]

theorem parse_of_accepted (hword : word ∈ c.words) (h : Accepted args as) :
    parse (word :: args) =
      if c.needsInput && (as.filterMap input?).isEmpty then .error (.missingInput word)
      else .ok (ofArguments c as) := by
  have hadd := addAll_of_accepted c h []
  rw [List.append_nil] at hadd
  rw [parse, Command.parse?_eq_some_iff.2 hword]
  simp only [hadd, addAll, Bool.not_not]

theorem parse_of_firstOffence (hword : word ∈ c.words) (h : FirstOffence args e) :
    parse (word :: args) = .error e := by
  obtain ⟨before, arg, after, as, rfl, has, hoffends⟩ := firstOffence_iff.1 h
  rw [parse, Command.parse?_eq_some_iff.2 hword]
  simp only [addAll_of_offends c has hoffends]

/-- A word names no command, or the arguments behind it are accepted, or one of them offends. -/
theorem unknown_or_accepted_or_firstOffence (word : String) (args : List String) :
    (∀ c : Command, word ∉ c.words) ∨ ∃ c : Command, word ∈ c.words ∧
      ((∃ as, Accepted args as) ∨ ∃ e, FirstOffence args e) := by
  by_cases hword : ∃ c : Command, word ∈ c.words
  · obtain ⟨c, hword⟩ := hword
    exact .inr ⟨c, hword, accepted_or_firstOffence args⟩
  · exact .inl (not_exists.1 hword)

theorem parse_cons_eq_ok_iff {o : Options} : parse (word :: args) = .ok o ↔
    ∃ c as, word ∈ c.words ∧ Accepted args as ∧
      (c ∈ [Command.lex, .parse, .check] → ∃ arg ∈ args, IsInput arg) ∧ o = ofArguments c as := by
  constructor
  · intro h
    rcases unknown_or_accepted_or_firstOffence word args with
      hword | ⟨c, hword, ⟨as, has⟩ | ⟨e, he⟩⟩
    · rw [parse_of_unknown hword] at h
      cases h
    · rw [parse_of_accepted hword has] at h
      split at h
      · cases h
      · next hinput =>
        refine ⟨c, as, hword, has, ?_, (Except.ok.inj h).symm⟩
        intro hc
        rw [exists_isInput_iff has.spells]
        simpa [Command.needsInput_iff.2 hc] using hinput
    · rw [parse_of_firstOffence hword he] at h
      cases h
  · rintro ⟨c, as, hword, has, hinput, rfl⟩
    rw [parse_of_accepted hword has, if_neg]
    intro hmissing
    obtain ⟨hc, hnone⟩ := Bool.and_eq_true_iff.1 hmissing
    have hne := (exists_isInput_iff has.spells).1 (hinput (Command.needsInput_iff.1 hc))
    exact hne (List.isEmpty_iff.1 hnone)

theorem parse_cons_eq_error_iff : parse (word :: args) = .error e ↔
    ((∀ c : Command, word ∉ c.words) ∧ e = .unknownCommand word) ∨
    ∃ c : Command, word ∈ c.words ∧ (FirstOffence args e ∨
      ((∀ i e', ¬ OffendsAt args i e') ∧ c ∈ [Command.lex, .parse, .check] ∧
        (¬ ∃ arg ∈ args, IsInput arg) ∧ e = .missingInput word)) := by
  constructor
  · intro h
    rcases unknown_or_accepted_or_firstOffence word args with
      hword | ⟨c, hword, ⟨as, has⟩ | ⟨e', he'⟩⟩
    · rw [parse_of_unknown hword] at h
      exact .inl ⟨hword, (Except.error.inj h).symm⟩
    · rw [parse_of_accepted hword has] at h
      split at h
      · next hmissing =>
        obtain ⟨hc, hnone⟩ := Bool.and_eq_true_iff.1 hmissing
        refine .inr ⟨c, hword, .inr ⟨has.not_offendsAt, Command.needsInput_iff.1 hc, ?_,
          (Except.error.inj h).symm⟩⟩
        rw [exists_isInput_iff has.spells, not_not]
        exact List.isEmpty_iff.1 hnone
      · cases h
    · rw [parse_of_firstOffence hword he'] at h
      cases h
      exact .inr ⟨c, hword, .inl he'⟩
  · rintro (⟨hword, rfl⟩ | ⟨c, hword, hoffence | ⟨hnone, hc, hinput, rfl⟩⟩)
    · exact parse_of_unknown hword
    · exact parse_of_firstOffence hword hoffence
    · obtain ⟨as, has⟩ := accepted_iff.2 hnone
      rw [exists_isInput_iff has.spells, not_not] at hinput
      rw [parse_of_accepted hword has, Command.needsInput_iff.2 hc, hinput]
      rfl

end Options

/-! ## The order of the arguments -/

namespace Argument

/-- The argument begins with the name of an option. -/
def beginsWith (name arg : String) : Bool := name.toList.isPrefixOf arg.toList

/-- The name of the option that an argument sets to a value. -/
def optionName? : Argument → Option String
  | .color _ => some "--color="
  | .format _ => some "--format="
  | .errorLimit _ => some "--error-limit="
  | .keepTrivia | .significant | .input _ => none

variable {α : Type} {sort : Argument → Option α} {name : String}

theorem beginsWith_of_spells (h : Spells arg a) (hname : a.optionName? = some name) :
    beginsWith name arg = true := by
  rw [beginsWith, List.isPrefixOf_iff_prefix]
  cases h with
  | color | format | errorLimit =>
    obtain rfl := Option.some_inj.1 hname
    rw [String.toList_append]
    exact List.prefix_append _ _
  | keepTrivia | significant | stdin | path => cases hname

/-- What the arguments of one option ask for is told from those that begin with its name. -/
theorem filterMap_eq_of_spells (hsort : ∀ a, sort a ≠ none → a.optionName? = some name)
    (h : List.Forall₂ Spells args as) : as.filterMap sort =
      (args.filter (beginsWith name)).filterMap fun arg => (parse arg).toOption.bind sort := by
  induction h with
  | nil => rfl
  | @cons arg a args as ha _ ih =>
    have hread : (parse arg).toOption.bind sort = sort a := by
      rw [Argument.parse_eq_ok_iff.2 ha]
      rfl
    by_cases hname : beginsWith name arg = true
    · rw [List.filter_cons_of_pos hname, List.filterMap_cons, List.filterMap_cons, hread, ih]
    · have hnone : sort a = none := by
        by_contra hne
        exact hname (beginsWith_of_spells ha (hsort a hne))
      rw [List.filter_cons_of_neg hname, List.filterMap_cons_none hnone, ih]

/-- An input that is alone stays so in any order. -/
theorem inputs_eq_of_perm {as' : List Argument} (h : as'.Perm as)
    (hle : (as.filterMap input?).length ≤ 1) : as'.filterMap input? = as.filterMap input? := by
  have hperm := h.filterMap input?
  cases hinputs : as.filterMap input? with
  | nil =>
    rw [hinputs] at hperm
    exact List.perm_nil.1 hperm
  | cons i is =>
    have his : is = [] := by
      rw [hinputs, List.length_cons] at hle
      exact List.length_eq_zero_iff.1 (by omega)
    rw [hinputs, his] at hperm
    rw [his]
    exact List.perm_singleton.1 hperm

/-- Accepted arguments ask for the same in any order that leaves those of each option in their
order. -/
theorem Accepted.perm {args' : List String} (h : Accepted args as) (hperm : args.Perm args')
    (hnames : ∀ name ∈ optionNames,
      args.filter (beginsWith name) = args'.filter (beginsWith name)) :
    ∃ as', Accepted args' as' ∧ ∀ c, Options.ofArguments c as' = Options.ofArguments c as := by
  obtain ⟨as', hspells, has⟩ := List.perm_comp_forall₂ hperm.symm h.spells
  have hinputs := inputs_eq_of_perm has h.inputs_le
  refine ⟨as', ⟨hspells, hinputs ▸ h.inputs_le⟩, ?_⟩
  have hsame {α : Type} {sort : Argument → Option α} (name : String) (hname : name ∈ optionNames)
      (hsort : ∀ a, sort a ≠ none → a.optionName? = some name) :
      lastOf sort as' = lastOf sort as := by
    rw [lastOf, lastOf, filterMap_eq_of_spells hsort hspells, filterMap_eq_of_spells hsort h.spells,
      hnames name hname]
  intro c
  have hcolor : lastOf color? as' = lastOf color? as :=
    hsame "--color=" (by decide) fun a => by cases a <;> simp [color?, optionName?]
  have hformat : lastOf format? as' = lastOf format? as :=
    hsame "--format=" (by decide) fun a => by cases a <;> simp [format?, optionName?]
  have hlimit : lastOf errorLimit? as' = lastOf errorLimit? as :=
    hsame "--error-limit=" (by decide) fun a => by
      cases a <;> simp [errorLimit?, optionName?]
  have hinput : lastOf input? as' = lastOf input? as := congrArg List.getLast? hinputs
  unfold Options.ofArguments
  simp only [hcolor, hformat, hlimit, hinput, has.mem_iff]

end Argument

/-! ## Messages -/

/-- The message quotes the argument, or it says which option is set and quotes the value. -/
def UsageError.Names (e : UsageError) (arg : String) : Prop :=
  (∃ lead, e.message = lead ++ "`" ++ arg ++ "`") ∨
    ∃ option value, arg = option ++ "=" ++ value ∧
      e.message = "invalid " ++ option ++ " value `" ++ value ++ "`"

theorem Argument.Offends.names (h : Offends args arg e) : e.Names arg := by
  cases h with
  | second => exact .inl ⟨"unexpected argument ", rfl⟩
  | refused h =>
    cases h with
    | @color value => exact .inr ⟨"--color", value, rfl, rfl⟩
    | @format value => exact .inr ⟨"--format", value, rfl, rfl⟩
    | @errorLimit value => exact .inr ⟨"--error-limit", value, rfl, rfl⟩
    | unknown => exact .inl ⟨"unknown option ", rfl⟩

namespace Options

open Argument

/-- **Reading a command line.** The empty command line asks for help. Any other gives options just
if its first word names a command, each argument behind it has a form, at most one of them is an
input, and there is one if the command is about an input; the options are then told from the last
argument of each sort. They are the same in any order of the arguments that leaves those of one
option in their order. Otherwise the complaint is about the word, or the leftmost argument that
offends, and its message names it; that an input is missing is said only where nothing offends. -/
theorem parses_exactly :
    parse [] = .ok (ofArguments .help []) ∧
    ∀ word args,
      (∀ o, parse (word :: args) = .ok o ↔ ∃ c as, word ∈ c.words ∧ Accepted args as ∧
        (c ∈ [Command.lex, .parse, .check] → ∃ arg ∈ args, IsInput arg) ∧
        o = ofArguments c as) ∧
      (∀ o args', parse (word :: args) = .ok o → args.Perm args' →
        (∀ name ∈ optionNames,
          args.filter (beginsWith name) = args'.filter (beginsWith name)) →
        parse (word :: args') = .ok o) ∧
      (∀ e, parse (word :: args) = .error e ↔
        ((∀ c : Command, word ∉ c.words) ∧ e = .unknownCommand word) ∨
        ∃ c : Command, word ∈ c.words ∧ (FirstOffence args e ∨
          ((∀ i e', ¬ OffendsAt args i e') ∧ c ∈ [Command.lex, .parse, .check] ∧
            (¬ ∃ arg ∈ args, IsInput arg) ∧ e = .missingInput word))) ∧
      (UsageError.unknownCommand word).Names word ∧
      (∀ i e, OffendsAt args i e → ∃ arg, args[i]? = some arg ∧ e.Names arg) ∧
      (UsageError.missingInput word).message = "`" ++ word ++ "` needs a file or `-`" := by
  refine ⟨rfl, fun word args => ⟨fun o => parse_cons_eq_ok_iff, ?_,
    fun e => parse_cons_eq_error_iff, .inl ⟨"unknown command ", rfl⟩, ?_, rfl⟩⟩
  · intro o args' h hperm hnames
    obtain ⟨c, as, hword, has, hinput, rfl⟩ := parse_cons_eq_ok_iff.1 h
    obtain ⟨as', has', hsame⟩ := has.perm hperm hnames
    refine parse_cons_eq_ok_iff.2 ⟨c, as', hword, has', ?_, (hsame c).symm⟩
    intro hc
    obtain ⟨arg, harg, hi⟩ := hinput hc
    exact ⟨arg, hperm.mem_iff.1 harg, hi⟩
  · rintro i e ⟨arg, harg, hoffends⟩
    exact ⟨arg, harg, hoffends.names⟩

/-- The colours keep their order, and all else moves. -/
theorem parses_exactly_reordered :
    parse ["lex", "--color=never", "a", "--significant", "--color=always", "--error-limit=+7"] =
      .ok ⟨.lex, .path "a", .always, .human, 7, false, true⟩ ∧
    parse ["lex", "--error-limit=+7", "--color=never", "--color=always", "--significant", "a"] =
      .ok ⟨.lex, .path "a", .always, .human, 7, false, true⟩ := by
  have h : parse ["lex", "--color=never", "a", "--significant", "--color=always",
      "--error-limit=+7"] = .ok ⟨.lex, .path "a", .always, .human, 7, false, true⟩ := by decide
  exact ⟨h, (parses_exactly.2 "lex" _).2.1 _ _ h (by decide) (by decide)⟩

end Options

end DeclFront
