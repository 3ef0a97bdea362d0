import DeclFront.Lexical.Script
import DeclFront.Proofs.Consumption

/-!
# Sifting loses nothing and moves nothing

The stage without trivia is asked for tokens and for the trivia it holds, in any order
(`Significant.Session`). At any time it stands behind some first readings of its source, and these
are told apart: the answers that are no trivia were given, and the trivia was handed out or is held
(`Significant.Session.Sifted`). A request that reads goes on to the next answer that is no trivia,
and not beyond it, so it is the requests alone that tell how far the stage has read.

**Theorem (`Significant.sifts_answers`).** This holds over every source, over the beginning of every
endless sequence of answers, and over the reader of a text, where the answers are the significant
tokens up to one end of input, and behind it the end of input again, as exhausted, for ever.
-/

namespace DeclFront

/-! ## The next readings of a source -/

namespace TokenSource

variable {σ : Type} [TokenSource σ]

/-- The source behind its next `n` readings. -/
def drop (s : σ) : Nat → σ
  | 0 => s
  | n + 1 => drop (read s).2 n

/-- The next `n` readings of a source. -/
def take (s : σ) : Nat → List Reading
  | 0 => []
  | n + 1 => (read s).1 :: take (read s).2 n

theorem length_take (s : σ) (n : Nat) : (take s n).length = n := by
  induction n generalizing s with
  | zero => rfl
  | succ n ih => simp [take, ih]

theorem drop_add (s : σ) (m n : Nat) : drop s (m + n) = drop (drop s m) n := by
  induction m generalizing s with
  | zero => simp [drop]
  | succ m ih => rw [Nat.succ_add, drop, drop, ih]

theorem take_add (s : σ) (m n : Nat) : take s (m + n) = take s m ++ take (drop s m) n := by
  induction m generalizing s with
  | zero => simp [take, drop]
  | succ m ih => rw [Nat.succ_add, take, take, drop, ih, List.cons_append]

theorem take_prefix (s : σ) {m n : Nat} (h : m ≤ n) : take s m <+: take s n := by
  obtain ⟨k, rfl⟩ := Nat.exists_eq_add_of_le h
  rw [take_add]
  exact List.prefix_append _ _

/-- The readings of a source whose first one has more behind it. -/
theorem take_behind {s s' : σ} {raised : List Diagnostic} {passed : List Token}
    (h : read s = ((read s').1.behind raised passed, (read s').2)) (n : Nat) :
    take s (n + 1) = (take s' (n + 1)).modifyHead (.behind raised passed) ∧
      drop s (n + 1) = drop s' (n + 1) := by
  simp [take, drop, h]

/-- A source that follows the segments of a text gives what is gathered from them, and stands then
where it does behind the end of input. -/
theorem Follows.take_eq {skips : TokenKind → Bool} {stop : Position} {src : List Segment → σ}
    (h : Follows skips stop src) (ss : List Segment) :
    take (src ss) (gather skips stop ss).length = gather skips stop ss ∧
      drop (src ss) (gather skips stop ss).length = (read (src [])).2 := by
  induction ss with
  | nil => simp [gather, take, drop, h.nil]
  | cons s ss ih =>
    obtain ⟨n, hn⟩ := Nat.exists_eq_add_one_of_ne_zero
      (mt List.eq_nil_of_length_eq_zero (gather_ne_nil skips stop ss))
    cases ht : s.token? with
    | none =>
      rw [gather_blank ht, List.length_modifyHead]
      rw [hn] at ih ⊢
      obtain ⟨htake, hdrop⟩ := take_behind (h.blank ht) n
      rw [htake, hdrop, ih.1, ih.2]
      exact ⟨rfl, rfl⟩
    | some t =>
      cases hk : skips t.kind with
      | true =>
        rw [gather_skipped ht hk, List.length_modifyHead]
        rw [hn] at ih ⊢
        obtain ⟨htake, hdrop⟩ := take_behind (h.skipped ht hk) n
        rw [htake, hdrop, ih.1, ih.2]
        exact ⟨rfl, rfl⟩
      | false =>
        rw [gather_kept ht hk, List.length_cons, take, drop, h.kept ht hk, ih.1, ih.2]
        exact ⟨rfl, rfl⟩

end TokenSource

theorem Script.take_append (as bs : List Answer) (last : Token) (reads : Nat) :
    TokenSource.take (Script.mk (as ++ bs) last reads) as.length =
      as.map fun a => ⟨a, [], []⟩ := by
  induction as generalizing reads with
  | nil => rfl
  | cons a as ih => exact congrArg (_ :: ·) (ih (reads + 1))

/-- Behind the end of input the reader shows the end of input for ever. -/
theorem Reader.take_finished (stop : Position) (n : Nat) :
    TokenSource.take (Reader.mk [] stop true) n =
      List.replicate n ⟨.exhausted ⟨.endOfInput, stop, 0⟩, [], []⟩ := by
  induction n with
  | zero => rfl
  | succ n ih => exact congrArg (_ :: ·) ih

/-! ## What is sifted out -/

/-- The token, if the answer is one and it is trivia. -/
def Answer.trivia? : Answer → Option Token
  | .token t => if t.kind.isTrivia then some t else none
  | .exhausted _ => none

theorem Answer.trivia?_eq_some_iff {a : Answer} {t : Token} :
    a.trivia? = some t ↔ a = .token t ∧ t.kind.isTrivia = true := by
  cases a with
  | token u =>
    by_cases hu : u.kind.isTrivia = true
    · have : u = t → t.kind.isTrivia = true := by rintro rfl; exact hu
      simpa [trivia?, hu] using this
    · have : u = t → t.kind.isTrivia = false := by rintro rfl; simpa using hu
      simpa [trivia?, hu] using this
  | exhausted u => simp [trivia?]

/-- The answers that are no trivia. -/
def sifted (rs : List Reading) : List Answer := (rs.map (·.answer)).filter (·.trivia?.isNone)

/-- The trivia among the answers. -/
def triviaOf (rs : List Reading) : List Token := rs.filterMap (·.answer.trivia?)

theorem sifted_append (rs rs' : List Reading) : sifted (rs ++ rs') = sifted rs ++ sifted rs' := by
  simp [sifted]

theorem sifted_of_kept {r : Reading} (h : r.answer.trivia? = none) : sifted [r] = [r.answer] := by
  simp [sifted, h]

theorem triviaOf_append (rs rs' : List Reading) :
    triviaOf (rs ++ rs') = triviaOf rs ++ triviaOf rs' := by
  simp [triviaOf]

/-- What is held of the trivia that is passed over. -/
def TriviaPolicy.hold : TriviaPolicy → List Token → List Token
  | .discard, _ => []
  | .collect, ts => ts

theorem TriviaPolicy.hold_append (policy : TriviaPolicy) (ts us : List Token) :
    policy.hold (ts ++ us) = policy.hold ts ++ policy.hold us := by
  cases policy <;> rfl

namespace Significant

variable {σ : Type} [TokenSource σ] {s : σ} {policy : TriviaPolicy} {n N : Nat}

/-- One reading of the stage makes readings of the source up to the next answer that is no
trivia. -/
theorem exists_pass (s : σ) : ∃ n rs r, TokenSource.take s (n + 1) = rs ++ [r] ∧ sifted rs = [] ∧
    r.answer.trivia? = none ∧
    pass [] [] s = (⟨r.answer, (rs ++ [r]).flatMap (·.complaints), triviaOf rs⟩,
      TokenSource.drop s (n + 1)) := by
  induction hn : TokenSource.remaining s using Nat.strongRecOn generalizing s with
  | ind k ih =>
    cases ht : (TokenSource.read s).1.answer.trivia? with
    | none =>
      refine ⟨0, [], (TokenSource.read s).1, rfl, rfl, ht, ?_⟩
      have hkept : ∀ t, (TokenSource.read s).1.answer = .token t → t.kind.isTrivia = false := by
        intro t hanswer
        rw [hanswer] at ht
        simpa [Answer.trivia?] using ht
      simp [pass_of_kept hkept, triviaOf, TokenSource.drop]
    | some t =>
      obtain ⟨hanswer, hk⟩ := Answer.trivia?_eq_some_iff.1 ht
      obtain ⟨n, rs, r, htake, hsifted, hr, hpass⟩ :=
        ih _ (hn ▸ TokenSource.remaining_lt s t hanswer) (TokenSource.read s).2 rfl
      refine ⟨n + 1, (TokenSource.read s).1 :: rs, r, ?_, ?_, hr, ?_⟩
      · rw [TokenSource.take, htake, List.cons_append]
      · simpa [sifted, ht] using hsifted
      · have hdrop : TokenSource.drop s (n + 1 + 1) =
            TokenSource.drop (TokenSource.read s).2 (n + 1) := rfl
        rw [pass_of_trivia hanswer hk, pass_eq, hpass, hdrop]
        simp [Reading.behind, triviaOf, ht]

/-- One reading of the stage, with what is held behind it. -/
theorem read_eq {x : Significant σ} {r : Reading} {inner : σ}
    (h : pass [] [] x.inner = (r, inner)) :
    x.read = (r, ⟨inner, x.policy, x.held ++ x.policy.hold r.passed⟩) := by
  obtain ⟨_, policy, held⟩ := x
  cases policy <;> simp_all [Significant.read, TriviaPolicy.hold]

/-! ## A stage in use -/

/-- What can be asked of the stage. -/
inductive Request where
  | read | takeTrivia
deriving DecidableEq

/-- A stage in use, and what it has given so far. -/
structure Session (σ : Type) where
  stage : Significant σ
  /-- The answers to the readings. -/
  answers : List Answer
  /-- The complaints that the readings raised. -/
  raised : List Diagnostic
  /-- The trivia that was taken. -/
  taken : List Token

namespace Session

/-- A stage over `s` of which nothing has been asked. -/
def start (s : σ) (policy : TriviaPolicy) : Session σ := ⟨ofSource s policy, [], [], []⟩

/-- Serves one request. -/
def serve (x : Session σ) : Request → Session σ
  | .read =>
    let (r, stage) := x.stage.read
    ⟨stage, x.answers ++ [r.answer], x.raised ++ r.complaints, x.taken⟩
  | .takeTrivia =>
    let (trivia, stage) := x.stage.takeTrivia
    ⟨stage, x.answers, x.raised, x.taken ++ trivia⟩

/-- Serves requests in turn. -/
def run (x : Session σ) (requests : List Request) : Session σ := requests.foldl serve x

theorem length_answers_run (x : Session σ) (requests : List Request) :
    (x.run requests).answers.length = x.answers.length + requests.count .read := by
  induction requests generalizing x with
  | nil => rfl
  | cons request requests ih =>
    show ((x.serve request).run requests).answers.length = _
    rw [ih]
    cases request with
    | read => simp [serve]; omega
    | takeTrivia => simp [serve]

/-- Each reading has one answer. -/
theorem length_answers_start (s : σ) (policy : TriviaPolicy) (requests : List Request) :
    ((start s policy).run requests).answers.length = requests.count .read := by
  rw [length_answers_run]
  exact Nat.zero_add _

/-- The stage stands behind the first `n` readings of `s`, and has given or holds what was in them.
The last of these readings was no trivia. -/
structure Sifted (s : σ) (policy : TriviaPolicy) (n : Nat) (x : Session σ) : Prop where
  inner : x.stage.inner = TokenSource.drop s n
  policy_eq : x.stage.policy = policy
  answers : x.answers = sifted (TokenSource.take s n)
  raised : x.raised = (TokenSource.take s n).flatMap (·.complaints)
  trivia : x.taken ++ x.stage.held = policy.hold (triviaOf (TokenSource.take s n))
  last : ∀ r ∈ (TokenSource.take s n).getLast?, r.answer.trivia? = none

variable {x : Session σ}

theorem sifted_start (s : σ) (policy : TriviaPolicy) : (start s policy).Sifted s policy 0 where
  inner := rfl
  policy_eq := rfl
  answers := rfl
  raised := rfl
  trivia := by cases policy <;> rfl
  last := by simp [TokenSource.take]

theorem Sifted.read (h : x.Sifted s policy n) : ∃ m, (x.serve .read).Sifted s policy m := by
  obtain ⟨k, rs, r, htake, hsifted, hr, hpass⟩ := exists_pass x.stage.inner
  have hserve : x.serve .read =
      ⟨⟨TokenSource.drop x.stage.inner (k + 1), x.stage.policy,
        x.stage.held ++ policy.hold (triviaOf rs)⟩,
        x.answers ++ [r.answer], x.raised ++ (rs ++ [r]).flatMap (·.complaints), x.taken⟩ := by
    rw [serve, read_eq hpass, h.policy_eq]
  rw [h.inner] at htake
  have hall := TokenSource.take_add s n (k + 1)
  rw [htake] at hall
  have htrivia : triviaOf [r] = [] := by simp [triviaOf, hr]
  rw [hserve]
  refine ⟨n + (k + 1), ?_, h.policy_eq, ?_, ?_, ?_, ?_⟩
  · show TokenSource.drop x.stage.inner (k + 1) = _
    rw [h.inner]
    exact (TokenSource.drop_add s n (k + 1)).symm
  · rw [hall, sifted_append, sifted_append, hsifted, sifted_of_kept hr, ← h.answers]
    rfl
  · rw [hall, h.raised, ← List.flatMap_append]
  · rw [hall, triviaOf_append, triviaOf_append, htrivia, List.append_nil, TriviaPolicy.hold_append,
      ← h.trivia, List.append_assoc]
  · rw [hall, ← List.append_assoc, List.getLast?_concat]
    rintro r' hr'
    rwa [← Option.some.inj hr']

theorem Sifted.takeTrivia (h : x.Sifted s policy n) : (x.serve .takeTrivia).Sifted s policy n where
  inner := h.inner
  policy_eq := h.policy_eq
  answers := h.answers
  raised := h.raised
  trivia := by
    rw [← h.trivia]
    exact List.append_nil _
  last := h.last

/-- Whatever is asked, what the source gave is told apart. -/
theorem Sifted.run (h : x.Sifted s policy n) (requests : List Request) :
    ∃ m, (x.run requests).Sifted s policy m := by
  induction requests generalizing x n with
  | nil => exact ⟨n, h⟩
  | cons request requests ih =>
    cases request with
    | read =>
      obtain ⟨m, hm⟩ := h.read
      exact ih hm
    | takeTrivia => exact ih h.takeTrivia

/-- The stage reads no further than the answers that were asked for. -/
theorem Sifted.le (h : x.Sifted s policy n)
    (hN : x.answers.length ≤ (sifted (TokenSource.take s N)).length) : n ≤ N := by
  refine Nat.le_of_not_lt fun hlt => ?_
  obtain ⟨k, rfl⟩ := Nat.exists_eq_add_of_lt hlt
  -- the last reading is behind the first `N`, and its answer was given
  have hall := TokenSource.take_add s N (k + 1)
  obtain ⟨rs, r, hrs⟩ : ∃ rs r, TokenSource.take (TokenSource.drop s N) (k + 1) = rs ++ [r] := by
    have hne : TokenSource.take (TokenSource.drop s N) (k + 1) ≠ [] := List.cons_ne_nil _ _
    exact ⟨_, _, (List.dropLast_concat_getLast hne).symm⟩
  rw [hrs, ← List.append_assoc] at hall
  have hr : r.answer.trivia? = none := by
    refine h.last r ?_
    rw [Nat.add_assoc, hall, List.getLast?_concat]
    rfl
  rw [h.answers, Nat.add_assoc, hall, sifted_append, sifted_append, sifted_of_kept hr] at hN
  simp only [List.length_append, List.length_singleton] at hN
  omega

/-- The answers are the first ones of the source that are no trivia. -/
theorem Sifted.answers_eq_take (h : x.Sifted s policy n)
    (hN : x.answers.length ≤ (sifted (TokenSource.take s N)).length) :
    x.answers = (sifted (TokenSource.take s N)).take x.answers.length := by
  obtain ⟨rs, hrs⟩ := TokenSource.take_prefix s (h.le hN)
  rw [← hrs, sifted_append, ← h.answers, List.take_left]

end Session

/-! ## Over a sequence of answers -/

theorem exists_run_script (a : Nat → Answer) (last : Token) (policy : TriviaPolicy)
    (requests : List Request)
    (h : requests.count .read ≤ ((List.range N).map a).countP (·.trivia?.isNone)) :
    let x := (Session.start (Script.mk ((List.range N).map a) last 0) policy).run requests
    x.answers =
      (((List.range N).map a).filter (·.trivia?.isNone)).take (requests.count .read) ∧
    ∃ n ≤ N, x.answers = ((List.range n).map a).filter (·.trivia?.isNone) ∧
      x.taken ++ x.stage.held = policy.hold (((List.range n).map a).filterMap Answer.trivia?) := by
  intro x
  have htake {n : Nat} (hn : n ≤ N) :
      TokenSource.take (Script.mk ((List.range N).map a) last 0) n =
        (List.range n).map fun i => ⟨a i, [], []⟩ := by
    have hall := Script.take_append ((List.range n).map a) (((List.range N).map a).drop n) last 0
    have hfirst : (List.range n).map a = ((List.range N).map a).take n := by
      rw [← List.map_take, List.take_range, Nat.min_eq_left hn]
    rw [List.length_map, List.length_range, hfirst, List.take_append_drop, ← hfirst,
      List.map_map] at hall
    exact hall
  have hsifted {n : Nat} (hn : n ≤ N) :
      sifted (TokenSource.take (Script.mk ((List.range N).map a) last 0) n) =
        ((List.range n).map a).filter (·.trivia?.isNone) := by
    rw [htake hn, sifted, List.map_map]
    rfl
  obtain ⟨n, hx⟩ := (Session.sifted_start (Script.mk ((List.range N).map a) last 0) policy).run
    requests
  have hlength : x.answers.length = requests.count .read := Session.length_answers_start _ _ _
  have hN : x.answers.length ≤
      (sifted (TokenSource.take (Script.mk ((List.range N).map a) last 0) N)).length := by
    rwa [hsifted le_rfl, ← List.countP_eq_length_filter, hlength]
  refine ⟨?_, n, hx.le hN, ?_, ?_⟩
  · rw [← hlength, ← hsifted le_rfl]
    exact hx.answers_eq_take hN
  · rw [← hsifted (hx.le hN)]
    exact hx.answers
  · rw [hx.trivia, htake (hx.le hN), triviaOf, List.filterMap_map, List.filterMap_map]
    rfl

/-! ## Over the reader of a text -/

section

variable (cs : List Char)

/-- The reader gives the readings of its text, and then shows the end of input. -/
theorem take_reader (k : Nat) :
    TokenSource.take (Reader.ofChars cs) ((Segment.readings (fun _ => false) cs).length + k) =
      Segment.readings (fun _ => false) cs ++
        List.replicate k ⟨.exhausted (endOfInput cs), [], []⟩ := by
  have h := (Reader.follows (Position.origin.after cs)).take_eq (Segment.ofText .origin cs)
  show TokenSource.take (Reader.mk (Segment.ofText .origin cs) (Position.origin.after cs) false)
    ((gather _ _ _).length + k) = _
  rw [TokenSource.take_add, h.1, h.2]
  exact congrArg (_ ++ ·) (Reader.take_finished _ k)

theorem sifted_readings : sifted (Segment.readings (fun _ => false) cs) =
    ((Segment.tokens cs).filter (!·.kind.isTrivia) ++ [endOfInput cs]).map Answer.token := by
  have htrivia (t : Token) : (Answer.token t).trivia?.isNone = !t.kind.isTrivia := by
    cases ht : t.kind.isTrivia <;> simp [Answer.trivia?, ht]
  rw [sifted, Segment.readings, map_answer_gather, List.filter_append, List.filter_map,
    List.map_append, List.filter_filter]
  simp only [Bool.not_false, Bool.and_true, Function.comp_def, htrivia]
  rfl

theorem triviaOf_readings : triviaOf (Segment.readings (fun _ => false) cs) =
    (Segment.tokens cs).filter (·.kind.isTrivia) := by
  have htrivia (t : Token) : (Answer.token t).trivia? = Option.guard (·.kind.isTrivia) t := by
    cases ht : t.kind.isTrivia <;> simp [Answer.trivia?, Option.guard, ht]
  have h := congrArg (List.filterMap Answer.trivia?)
    (map_answer_gather (fun _ => false) (Position.origin.after cs) (Segment.ofText .origin cs))
  rw [List.filterMap_map, List.filterMap_append, List.filterMap_map] at h
  refine h.trans ?_
  simp only [Function.comp_def, htrivia, List.filterMap_eq_filter]
  rw [List.filter_filter]
  simp only [Bool.not_false, Bool.and_true]
  exact List.append_nil _

theorem flatMap_complaints_readings :
    (Segment.readings (fun _ => false) cs).flatMap (·.complaints) = Segment.complaints cs :=
  flatMap_complaints_gather _ _ _

/-- The significant tokens of the text and the end of input, and then the end of input as
exhausted. -/
theorem sifted_take_reader (k : Nat) :
    sifted (TokenSource.take (Reader.ofChars cs)
        ((Segment.readings (fun _ => false) cs).length + k)) =
      ((Segment.tokens cs).filter (!·.kind.isTrivia) ++ [endOfInput cs]).map Answer.token ++
        List.replicate k (Answer.exhausted (endOfInput cs)) := by
  have hexhausted : sifted (List.replicate k ⟨.exhausted (endOfInput cs), [], []⟩) =
      List.replicate k (Answer.exhausted (endOfInput cs)) := by
    rw [sifted, List.map_replicate]
    exact List.filter_replicate_of_pos rfl
  rw [take_reader, sifted_append, sifted_readings, hexhausted]

theorem le_length_sifted_take_reader (k : Nat) :
    k ≤ (sifted (TokenSource.take (Reader.ofChars cs)
      ((Segment.readings (fun _ => false) cs).length + k))).length := by
  rw [sifted_take_reader, List.length_append, List.length_replicate]
  exact Nat.le_add_left _ _

end

variable {cs : List Char}

/-- Behind more answers than there are significant tokens, the reader is behind the end of input. -/
theorem Session.Sifted.readings_length_le {x : Session Reader}
    (h : x.Sifted (Reader.ofChars cs) policy n)
    (hk : ((Segment.tokens cs).filter (!·.kind.isTrivia)).length < x.answers.length) :
    (Segment.readings (fun _ => false) cs).length ≤ n := by
  refine Nat.le_of_not_lt fun hlt => ?_
  obtain ⟨rest, hrest⟩ := TokenSource.take_prefix (Reader.ofChars cs) (Nat.le_of_lt hlt)
  have hall := take_reader cs 0
  rw [List.replicate_zero, List.append_nil, Nat.add_zero] at hall
  rw [hall] at hrest
  obtain ⟨rs, r, rfl⟩ : ∃ rs r, rest = rs ++ [r] := by
    refine ⟨_, _, (List.dropLast_concat_getLast (l := rest) ?_).symm⟩
    rintro rfl
    have hlength := congrArg List.length hrest
    rw [List.append_nil, TokenSource.length_take] at hlength
    exact Nat.ne_of_lt hlt hlength
  -- the last reading of the text is the end of input, whose answer was not given yet
  have hlast : r.answer = .token (endOfInput cs) := by
    have hmap := congrArg List.getLast?
      (map_answer_gather (fun _ => false) (Position.origin.after cs) (Segment.ofText .origin cs))
    rw [List.getLast?_concat, ← Segment.readings, ← hrest, List.map_append, List.map_append,
      List.map_singleton, ← List.append_assoc, List.getLast?_concat] at hmap
    exact Option.some.inj hmap
  have hsifted := congrArg List.length (sifted_readings cs)
  rw [← hrest, sifted_append, sifted_append, ← h.answers] at hsifted
  rw [sifted_of_kept (by rw [hlast]; rfl)] at hsifted
  simp only [List.length_append, List.length_map, List.length_singleton] at hsifted
  omega

theorem Session.Sifted.answers_reader {x : Session Reader}
    (h : x.Sifted (Reader.ofChars cs) policy n) :
    x.answers = (((Segment.tokens cs).filter (!·.kind.isTrivia) ++ [endOfInput cs]).map
      Answer.token ++ List.replicate x.answers.length
        (Answer.exhausted (endOfInput cs))).take x.answers.length := by
  rw [← sifted_take_reader]
  exact h.answers_eq_take (le_length_sifted_take_reader cs _)

theorem Session.Sifted.raised_prefix_reader {x : Session Reader}
    (h : x.Sifted (Reader.ofChars cs) policy n) : x.raised <+: Segment.complaints cs := by
  obtain ⟨rest, hrest⟩ := TokenSource.take_prefix (Reader.ofChars cs)
    (h.le (le_length_sifted_take_reader cs x.answers.length))
  have hcomplaints := congrArg (List.flatMap (·.complaints)) (hrest.trans (take_reader cs _))
  rw [List.flatMap_append, List.flatMap_append, List.flatMap_replicate] at hcomplaints
  rw [h.raised, ← flatMap_complaints_readings]
  exact ⟨_, hcomplaints.trans (by simp)⟩

/-- Behind the end of input, all complaints have been raised and all trivia has been met. -/
theorem Session.Sifted.of_length_lt {x : Session Reader}
    (h : x.Sifted (Reader.ofChars cs) policy n)
    (hk : ((Segment.tokens cs).filter (!·.kind.isTrivia)).length < x.answers.length) :
    x.raised = Segment.complaints cs ∧
      x.taken ++ x.stage.held = policy.hold ((Segment.tokens cs).filter (·.kind.isTrivia)) := by
  obtain ⟨m, rfl⟩ := Nat.exists_eq_add_of_le (h.readings_length_le hk)
  rw [h.raised, h.trivia, take_reader, List.flatMap_append, triviaOf_append, triviaOf_readings,
    flatMap_complaints_readings]
  simp [triviaOf, Answer.trivia?]

/-- What a session over the reader of a text has given. -/
theorem run_reader (cs : List Char) (policy : TriviaPolicy) (requests : List Request) :
    let x := (Session.start (Reader.ofChars cs) policy).run requests
    let k := requests.count .read
    x.answers = (((Segment.tokens cs).filter (!·.kind.isTrivia) ++ [endOfInput cs]).map
      Answer.token ++ List.replicate k (Answer.exhausted (endOfInput cs))).take k ∧
    x.raised <+: Segment.complaints cs ∧
    (((Segment.tokens cs).filter (!·.kind.isTrivia)).length < k →
      x.raised = Segment.complaints cs ∧
      x.taken ++ x.stage.held = policy.hold ((Segment.tokens cs).filter (·.kind.isTrivia))) := by
  intro x k
  obtain ⟨n, hx⟩ := (Session.sifted_start (Reader.ofChars cs) policy).run requests
  have hlength : x.answers.length = k := Session.length_answers_start _ _ _
  rw [← hlength]
  exact ⟨hx.answers_reader, hx.raised_prefix_reader, hx.of_length_lt⟩

/-- **Sifting loses nothing and moves nothing.** Over every source, and whatever is asked in
whatever order, the stage stands behind some first readings of the source. Each request for a token
has one answer, and the answers are those of these readings that are no trivia, unchanged and in
order; an answer that the source is exhausted is among them whatever the kind of its token. What was
taken and what is held are together the trivia of these readings in order, or nothing at all if it
is not collected, and this is never decided anew. The last of the readings was no trivia: the stage
does not read ahead. The same holds for every endless sequence of answers as far as it is read.

Over the reader of a text, the answers are the significant tokens of the text up to the end of
input, once, and then the same end of input as exhausted for ever; the complaints are a first part
of those about the text, all of them from the end of input on, and then no more. So under every
limit the significant tokens are all tokens without trivia, and the diagnostics are the same. -/
theorem sifts_answers :
    (∀ {σ : Type} [TokenSource σ] (s : σ) (policy : TriviaPolicy) (requests : List Request),
      let x := (Session.start s policy).run requests
      ∃ n, x.stage.inner = TokenSource.drop s n ∧
        x.answers.length = requests.count .read ∧
        x.answers = ((TokenSource.take s n).map (·.answer)).filter (·.trivia?.isNone) ∧
        x.raised = (TokenSource.take s n).flatMap (·.complaints) ∧
        (policy = .collect →
          x.taken ++ x.stage.held = (TokenSource.take s n).filterMap (·.answer.trivia?)) ∧
        (policy = .discard → x.taken = [] ∧ x.stage.held = []) ∧
        x.stage.policy = policy ∧
        ∀ r ∈ (TokenSource.take s n).getLast?, r.answer.trivia? = none) ∧
    (∀ (a : Nat → Answer) (N : Nat) (last : Token) (policy : TriviaPolicy)
      (requests : List Request),
      requests.count .read ≤ ((List.range N).map a).countP (·.trivia?.isNone) →
      let x := (Session.start (Script.mk ((List.range N).map a) last 0) policy).run requests
      x.answers =
        (((List.range N).map a).filter (·.trivia?.isNone)).take (requests.count .read) ∧
      ∃ n ≤ N, x.answers = ((List.range n).map a).filter (·.trivia?.isNone) ∧
        x.taken ++ x.stage.held =
          policy.hold (((List.range n).map a).filterMap Answer.trivia?)) ∧
    (∀ (s : Source) (limit : Nat),
      (lexSignificant s limit).tokens = (lexRaw s limit).tokens.filter (!·.kind.isTrivia) ∧
      (lexSignificant s limit).diagnostics = (lexRaw s limit).diagnostics ∧
      Terminated (lexSignificant s limit).tokens ∧
      (lexSignificant s limit).tokens.getLast? = some (endOfInput s.chars)) ∧
    ∀ (s : Source) (limit : Nat) (policy : TriviaPolicy) (requests : List Request),
      let x := (Session.start (Reader.ofSource s) policy).run requests
      let k := requests.count .read
      x.answers = ((lexSignificant s limit).tokens.map Answer.token ++
        List.replicate k (Answer.exhausted (endOfInput s.chars))).take k ∧
      x.raised <+: (lexRaw s 0).diagnostics ∧
      ((lexSignificant s limit).tokens.length ≤ k → x.raised = (lexRaw s 0).diagnostics ∧
        x.taken ++ x.stage.held =
          policy.hold ((lexRaw s limit).tokens.filter (·.kind.isTrivia))) := by
  refine ⟨fun s policy requests => ?_,
    fun a N last policy requests => exists_run_script a last policy requests, fun s limit => ?_,
    fun s limit policy requests => ?_⟩
  · obtain ⟨n, hx⟩ := (Session.sifted_start s policy).run requests
    have htrivia := hx.trivia
    refine ⟨n, hx.inner, Session.length_answers_start s policy requests, hx.answers, hx.raised, ?_,
      ?_, hx.policy_eq, hx.last⟩
    · rintro rfl
      exact htrivia
    · rintro rfl
      exact List.append_eq_nil_iff.1 htrivia
  · have htokens : (lexSignificant s limit).tokens = (Cursor.ofChars s.chars).tokens := by
      rw [tokens_lexSignificant, Cursor.tokens_ofChars]
    refine ⟨?_, ?_, ?_, ?_⟩
    · rw [tokens_lexSignificant, tokens_lexRaw, List.filter_append]
      rfl
    · rw [diagnostics_lexSignificant, diagnostics_lexRaw]
    · rw [htokens]
      exact Cursor.closed_ofChars s.chars
    · rw [tokens_lexSignificant, List.getLast?_concat]
  · have hrun := run_reader s.chars policy requests
    rw [tokens_lexSignificant, Module.diagnostics_lexRaw_zero, tokens_lexRaw, List.filter_append,
      List.length_append, List.length_singleton]
    refine ⟨hrun.1, hrun.2.1, fun hk => ?_⟩
    have htrivia : [endOfInput s.chars].filter (·.kind.isTrivia) = [] := rfl
    rw [htrivia, List.append_nil]
    exact hrun.2.2 hk

end Significant

end DeclFront
