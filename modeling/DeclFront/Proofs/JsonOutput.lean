import DeclFront.Diagnostic.Json
import DeclFront.Proofs.JsonReader

/-!
# What is written as JSON reads back

A batch of diagnostics is written piece by piece, with separators that depend on what has been
written before. The text is the same however the batch is cut into pieces
(`JsonEmitter.written_eq`), so it is enough to look at a batch that is written at once.

**Theorem (`json_output_decodes`).** A reader of JSON gets every diagnostic back, and every string.
The proof follows the grammar from the inside: what is written for a character, a string and a
number stands for it (`isChar_escape`, `isString_ofString`, `isNumber_toString`), and items with
commas between them are a group of what they stand for (`Items.intercalate`).
-/

namespace DeclFront

namespace Json

/-! ## Strings -/

theorem toNat_lt_of_isControl {c : Char} (h : JsonString.isControl c = true) : c.toNat < 0xa0 := by
  simp only [JsonString.isControl, Bool.or_eq_true, Bool.and_eq_true, decide_eq_true_eq] at h
  omega

/-- The codes of control characters have four digits. -/
theorem code?_codeDigits {c : Char} (h : JsonString.isControl c = true) :
    code? (JsonString.codeDigits c) = some c.toNat := by
  have hall : ∀ n < 0xa0, code? ((Nat.toDigits 16 n).leftpad 4 '0') = some n := by decide +kernel
  exact hall c.toNat (toNat_lt_of_isControl h)

theorem isChar_escape (c : Char) : IsChar (JsonString.escape c) c := by
  unfold JsonString.escape
  split
  · exact .escape (by decide)
  · exact .escape (by decide)
  · exact .escape (by decide)
  · exact .escape (by decide)
  · exact .escape (by decide)
  · next hquote hbackslash _ _ _ =>
    split
    · next hcontrol =>
      have hlt := toNat_lt_of_isControl hcontrol
      have hcode := IsChar.code (code?_codeDigits hcontrol) (by simp [isHigh]; omega)
        (by simp [isLow]; omega)
      rwa [Char.ofNat_toNat] at hcode
    · next hcontrol =>
      refine .plain ?_
      simp only [JsonString.isControl, Bool.or_eq_true, decide_eq_true_eq, not_or, not_lt]
        at hcontrol
      simpa [isPlain, hcontrol.1] using ⟨hquote, hbackslash⟩

/-- A string is spelled character by character. -/
theorem isSpelling_flatMap {spell : Char → List Char} {cs : List Char}
    (h : ∀ c ∈ cs, IsChar (spell c) c) : IsSpelling (cs.flatMap spell) cs := by
  induction cs with
  | nil => exact .nil
  | cons c cs ih =>
    rw [List.flatMap_cons]
    exact .cons (h c List.mem_cons_self) (ih fun d hd => h d (List.mem_cons_of_mem c hd))

theorem isString_ofString (s : String) : IsString (JsonString.ofString s).toList s := by
  have hspelling := isSpelling_flatMap fun c (_ : c ∈ s.toList) => isChar_escape c
  have h := IsString.mk hspelling
  rw [String.ofList_toList] at h
  rw [JsonString.ofString, String.toList_ofList]
  exact h

/-- A string without special characters can be put between quotes as it is. -/
theorem isString_quoted {s : String} (h : s.toList.all isPlain = true) :
    IsString ("\"" ++ s ++ "\"").toList s := by
  have hspelling : IsSpelling s.toList s.toList := by
    simpa using isSpelling_flatMap fun c hc => .plain (List.all_eq_true.1 h c hc)
  have hstring := IsString.mk hspelling
  rw [String.ofList_toList] at hstring
  simpa using hstring

/-! ## Numbers -/

/-- Numbers are written without a zero in front. -/
theorem head?_toDigits {n : Nat} (h : 0 < n) : (Nat.toDigits 10 n).head? ≠ some '0' := by
  induction n using Nat.strong_induction_on with
  | _ n ih =>
    by_cases hn : n < 10
    · rw [Nat.toDigits_of_lt_base hn]
      have hall : ∀ n < 10, 0 < n → [n.digitChar].head? ≠ some '0' := by decide
      exact hall n hn h
    · have hsplit := Nat.toDigits_append_toDigits (b := 10) (n := n / 10) (d := n % 10) (by decide)
        (by omega) (by omega)
      rw [Nat.div_add_mod] at hsplit
      rw [← hsplit, List.head?_append, Option.or_of_isSome
        (List.isSome_head?.2 Nat.toDigits_ne_nil)]
      exact ih (n / 10) (by omega) (by omega)

theorem isNumber_toString (n : Nat) : IsNumber (toString n).toList n := by
  have hdigits : IsDigits (Nat.toDigits 10 n) :=
    ⟨Nat.toDigits_ne_nil, fun d hd => Nat.isDigit_of_mem_toDigits (by decide) (by decide) hd⟩
  have hwhole : IsWhole (Nat.toDigits 10 n) := by
    refine ⟨hdigits, fun hzero => ?_⟩
    cases n with
    | zero => rfl
    | succ n => exact absurd hzero (head?_toDigits n.succ_pos)
  have hvalue : decimal 1 (Nat.toDigits 10 n) [] 0 = n := by
    simp [decimal, Nat.ofDigitChars_ten_toDigits]
  have h := IsNumber.mk .absent hwhole .absent .absent
  rw [hvalue] at h
  simpa [Nat.toString_eq_ofList_toDigits] using h

/-! ## Groups -/

theorem isBlank_nil : IsBlank [] := fun _ => nofun

theorem isBlank_space : IsBlank [' '] := fun _ hc => List.mem_singleton.1 hc ▸ rfl

/-- Items with commas between them. -/
theorem Items.intercalate {α γ : Type} {IsItem : List Char → α → Prop} {text : γ → List Char}
    {value : γ → α} {before between behind : List Char} (hbefore : IsBlank before)
    (hbetween : IsBlank between) (hbehind : IsBlank behind) {x : γ} {xs : List γ}
    (h : ∀ y ∈ x :: xs, IsItem (text y) (value y)) :
    Items IsItem (before ++ ((',' :: between).intercalate ((x :: xs).map text) ++ behind))
      ((x :: xs).map value) := by
  induction xs generalizing x before with
  | nil => simpa using Items.last hbefore (h x List.mem_cons_self) hbehind
  | cons y ys ih =>
    have hrest := ih hbetween fun z hz => h z (List.mem_cons_of_mem x hz)
    simpa using Items.cons hbefore (h x List.mem_cons_self) isBlank_nil hrest

theorem IsGroup.intercalate {α γ : Type} {IsItem : List Char → α → Prop} {text : γ → List Char}
    {value : γ → α} {xs : List γ} (h : ∀ x ∈ xs, IsItem (text x) (value x))
    (opening closing : Char) :
    IsGroup opening closing IsItem
      (opening :: ([',', ' '].intercalate (xs.map text) ++ [closing])) (xs.map value) := by
  cases xs with
  | nil => exact .empty isBlank_nil
  | cons x xs =>
    simpa using IsGroup.items (Items.intercalate isBlank_nil isBlank_space isBlank_nil h)

end Json

/-! ## Diagnostics -/

namespace Diagnostic

/-- What a diagnostic says, as a JSON object. -/
def toJson (d : Diagnostic) : Json :=
  .object [
    ("code", .string d.code.id),
    ("severity", .string d.severity.name),
    ("phase", .string d.phase.name),
    ("message", .string d.message),
    ("offset", .number d.offset),
    ("length", .number d.length),
    ("line", .number d.position.line),
    ("column", .number d.position.column),
    ("actual", d.actual.elim .null fun k => .string k.name),
    ("expected", .array (d.expected.kinds.map fun k => .string k.name))]

/-- What is written for the kinds that were expected. -/
def expectedJson (d : Diagnostic) : String :=
  "[" ++ ", ".intercalate (d.expected.kinds.map fun k => JsonString.ofString k.name) ++ "]"

/-- The members of the object: the key, what is written for the value, and the value. -/
def members (d : Diagnostic) : List (String × String × Json) := [
    ("code", "\"" ++ d.code.id ++ "\"", .string d.code.id),
    ("severity", "\"" ++ d.severity.name ++ "\"", .string d.severity.name),
    ("phase", "\"" ++ d.phase.name ++ "\"", .string d.phase.name),
    ("message", JsonString.ofString d.message, .string d.message),
    ("offset", toString d.offset, .number d.offset),
    ("length", toString d.length, .number d.length),
    ("line", toString d.position.line, .number d.position.line),
    ("column", toString d.position.column, .number d.position.column),
    ("actual", (d.actual.map fun k => JsonString.ofString k.name).getD "null",
      d.actual.elim .null fun k => .string k.name),
    ("expected", d.expectedJson, .array (d.expected.kinds.map fun k => .string k.name))]

theorem toJson_eq (d : Diagnostic) : d.toJson = .object (d.members.map fun m => (m.1, m.2.2)) := rfl

theorem json_eq (d : Diagnostic) : d.json = "\x7b" ++ ", ".intercalate
    (d.members.map fun (key, text, _) => "\"" ++ key ++ "\"" ++ (": " ++ text)) ++ "\x7d" := by
  apply String.toList_inj.1
  unfold json members expectedJson
  simp only [List.map_cons, List.map_nil, String.intercalate_cons_cons,
    String.intercalate_singleton, String.toList_append, String.reduceToList, List.cons_append,
    List.nil_append, List.append_assoc]

theorem isValue_expectedJson (d : Diagnostic) : Json.IsValue d.expectedJson.toList
    (.array (d.expected.kinds.map fun k => .string k.name)) := by
  have hgroup := Json.IsGroup.intercalate
    (fun k (_ : k ∈ d.expected.kinds) =>
      Json.IsValue.string (Json.isString_ofString k.name)) '[' ']'
  refine .array ?_
  simpa [expectedJson, String.toList_append, String.toList_intercalate, Function.comp_def]
    using hgroup

theorem isPlain_id (code : DiagnosticCode) : code.id.toList.all Json.isPlain = true := by
  cases code <;> decide

theorem isPlain_severity (severity : Severity) : severity.name.toList.all Json.isPlain = true := by
  cases severity <;> decide

theorem isPlain_phase (phase : Phase) : phase.name.toList.all Json.isPlain = true := by
  cases phase <;> decide

/-- The keys need no escapes. -/
theorem isPlain_key (d : Diagnostic) : ∀ m ∈ d.members, m.1.toList.all Json.isPlain = true := by
  have hkeys : ∀ key ∈ d.members.map Prod.fst, key.toList.all Json.isPlain = true := by
    show ∀ key ∈ ["code", "severity", "phase", "message", "offset", "length", "line", "column",
      "actual", "expected"], _
    decide
  exact fun m hm => hkeys m.1 (List.mem_map_of_mem hm)

/-- What is written for a value stands for it. -/
theorem isValue_member (d : Diagnostic) : ∀ m ∈ d.members, Json.IsValue m.2.1.toList m.2.2 := by
  have hactual : Json.IsValue
      ((d.actual.map fun k => JsonString.ofString k.name).getD "null").toList
      (d.actual.elim .null fun k => .string k.name) := by
    cases d.actual with
    | none => exact .word (by simp [Json.words])
    | some k => exact .string (Json.isString_ofString k.name)
  unfold members
  simp only [List.forall_mem_cons]
  exact ⟨.string (Json.isString_quoted (isPlain_id d.code)),
    .string (Json.isString_quoted (isPlain_severity d.severity)),
    .string (Json.isString_quoted (isPlain_phase d.phase)),
    .string (Json.isString_ofString d.message), .number (Json.isNumber_toString d.offset),
    .number (Json.isNumber_toString d.length), .number (Json.isNumber_toString d.position.line),
    .number (Json.isNumber_toString d.position.column), hactual, d.isValue_expectedJson,
    List.forall_mem_nil _⟩

theorem isMember_member (d : Diagnostic) : ∀ m ∈ d.members,
    Json.IsMember Json.IsValue ("\"" ++ m.1 ++ "\"" ++ (": " ++ m.2.1)).toList (m.1, m.2.2) := by
  intro m hm
  have h := Json.IsMember.mk (Json.isString_quoted (d.isPlain_key m hm)) Json.isBlank_nil
    Json.isBlank_space (d.isValue_member m hm)
  simpa [String.toList_append] using h

theorem isValue_json (d : Diagnostic) : Json.IsValue d.json.toList d.toJson := by
  have hgroup := Json.IsGroup.intercalate d.isMember_member '\x7b' '\x7d'
  rw [json_eq, toJson_eq]
  refine .object ?_
  simpa [String.toList_append, String.toList_intercalate, Function.comp_def] using hgroup

end Diagnostic

/-! ## Batches -/

namespace JsonEmitter

/-- What an emitter can be asked between the opening and the closing of an array. -/
inductive Call where
  | emit (d : Diagnostic)
  | emitAll (ds : List Diagnostic)

/-- The diagnostics that are handed over. -/
def Call.diagnostics : Call → List Diagnostic
  | .emit d => [d]
  | .emitAll ds => ds

def call (e : JsonEmitter) : Call → String × JsonEmitter
  | .emit d => e.emit d
  | .emitAll ds => e.emitAll ds

/-- Writes one more piece behind a text. -/
def append {α : Type} (write : JsonEmitter → α → String × JsonEmitter) (p : String × JsonEmitter)
    (x : α) : String × JsonEmitter :=
  (p.1 ++ (write p.2 x).1, (write p.2 x).2)

/-- Writes the pieces of a list in turn. -/
def writeAll {α : Type} (write : JsonEmitter → α → String × JsonEmitter) (e : JsonEmitter)
    (xs : List α) : String × JsonEmitter :=
  xs.foldl (append write) ("", e)

/-- The whole text of an array that is filled by calls. -/
def written (calls : List Call) : String :=
  let (text, e) := fresh.writeAll call calls
  opening ++ text ++ e.closing

section WriteAll

variable {α : Type} (write : JsonEmitter → α → String × JsonEmitter) (e : JsonEmitter)

/-- What stands already does not matter. -/
theorem foldl_append (text : String) (xs : List α) : xs.foldl (append write) (text, e) =
    (text ++ (writeAll write e xs).1, (writeAll write e xs).2) := by
  induction xs generalizing text e with
  | nil => simp [writeAll]
  | cons x xs ih =>
    have hstep (text : String) : (x :: xs).foldl (append write) (text, e) =
        (text ++ (write e x).1 ++ (writeAll write (write e x).2 xs).1,
          (writeAll write (write e x).2 xs).2) := ih (write e x).2 (text ++ (write e x).1)
    rw [writeAll, hstep, hstep, String.empty_append, String.append_assoc]

theorem writeAll_append (xs ys : List α) : writeAll write e (xs ++ ys) =
    ((writeAll write e xs).1 ++ (writeAll write (writeAll write e xs).2 ys).1,
      (writeAll write (writeAll write e xs).2 ys).2) := by
  rw [writeAll, List.foldl_append, foldl_append]
  rfl

theorem writeAll_cons (x : α) (xs : List α) : writeAll write e (x :: xs) =
    ((write e x).1 ++ (writeAll write (write e x).2 xs).1,
      (writeAll write (write e x).2 xs).2) := by
  rw [writeAll, List.foldl_cons, append, foldl_append, String.empty_append]

end WriteAll

theorem emitAll_eq (e : JsonEmitter) (ds : List Diagnostic) : e.emitAll ds = e.writeAll emit ds :=
  rfl

/-- A call writes what its diagnostics write one by one. -/
theorem call_eq (e : JsonEmitter) (c : Call) : e.call c = e.writeAll emit c.diagnostics := by
  cases c with
  | emit d => simp [call, Call.diagnostics, writeAll, append]
  | emitAll ds => rfl

/-- It does not matter how a batch is cut into calls. -/
theorem written_eq (calls : List Call) :
    written calls = render (calls.flatMap Call.diagnostics) := by
  have hall (e : JsonEmitter) :
      e.writeAll call calls = e.emitAll (calls.flatMap Call.diagnostics) := by
    induction calls generalizing e with
    | nil => rfl
    | cons c calls ih =>
      rw [writeAll_cons, List.flatMap_cons, emitAll_eq, writeAll_append, call_eq, ih, emitAll_eq]
  rw [written, hall, render]

/-- Behind the first object, every object has a separator in front. -/
theorem emitAll_behind (d : Diagnostic) (ds : List Diagnostic) :
    d.json ++ (emitAll ⟨false⟩ ds).1 = ",\n  ".intercalate ((d :: ds).map Diagnostic.json) ∧
      (emitAll ⟨false⟩ ds).2 = ⟨false⟩ := by
  induction ds generalizing d with
  | nil => simp [emitAll]
  | cons d' ds ih =>
    obtain ⟨htext, hstate⟩ := ih d'
    rw [emitAll_eq, writeAll_cons, List.map_cons, List.map_cons, String.intercalate_cons_cons,
      ← List.map_cons, ← htext]
    refine ⟨?_, hstate⟩
    show d.json ++ (",\n  " ++ d'.json ++ (emitAll ⟨false⟩ ds).1) = _
    simp only [String.append_assoc]

/-- A batch is written with separators between the objects. -/
theorem render_cons (d : Diagnostic) (ds : List Diagnostic) : render (d :: ds) =
    "[\n  " ++ ",\n  ".intercalate ((d :: ds).map Diagnostic.json) ++ "\n]\n" := by
  obtain ⟨htext, hstate⟩ := emitAll_behind d ds
  rw [render, emitAll_eq, writeAll_cons]
  show "[" ++ ("\n  " ++ d.json ++ (emitAll ⟨false⟩ ds).1) ++ closing (emitAll ⟨false⟩ ds).2 = _
  have hopening : "[\n  " = "[" ++ "\n  " := rfl
  have hclosing : closing ⟨false⟩ = "\n]\n" := rfl
  rw [← htext, hstate, hopening, hclosing]
  simp only [String.append_assoc]

theorem isText_render (ds : List Diagnostic) :
    Json.IsText (render ds).toList (.array (ds.map Diagnostic.toJson)) := by
  have hfeed : Json.IsBlank ['\n'] := by simp [Json.IsBlank, Json.isBlank]
  have hindent : Json.IsBlank ['\n', ' ', ' '] := by simp [Json.IsBlank, Json.isBlank]
  cases ds with
  | nil =>
    exact .mk Json.isBlank_nil (.array (.empty Json.isBlank_nil)) hfeed
  | cons d ds =>
    have hitems := Json.Items.intercalate hindent hindent hfeed
      fun d' (_ : d' ∈ d :: ds) => d'.isValue_json
    have h := Json.IsText.mk Json.isBlank_nil (.array (.items hitems)) hfeed
    rw [render_cons]
    simpa [String.toList_append, String.toList_intercalate, Function.comp_def] using h

end JsonEmitter

/-- **What is written as JSON reads back.** However a batch is cut into calls, what a fresh emitter
writes for it is an array with one object for every diagnostic, in order, which says what the
diagnostic says. What is written for a string is a literal that stands for the string. -/
theorem json_output_decodes :
    (∀ calls : List JsonEmitter.Call, Json.read? (JsonEmitter.written calls).toList =
      some (.array ((calls.flatMap JsonEmitter.Call.diagnostics).map Diagnostic.toJson))) ∧
    ∀ s : String, Json.read? (JsonString.ofString s).toList = some (.string s) := by
  refine ⟨fun calls => ?_, fun s => ?_⟩
  · rw [JsonEmitter.written_eq, Json.read?_eq_some_iff]
    exact JsonEmitter.isText_render _
  · have h := Json.IsText.mk Json.isBlank_nil (.string (Json.isString_ofString s)) Json.isBlank_nil
    rw [Json.read?_eq_some_iff]
    simpa using h

end DeclFront
