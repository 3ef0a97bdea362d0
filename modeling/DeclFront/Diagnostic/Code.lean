/-!
# What a diagnostic can be about

A **code** names one kind of finding. Each has a stable identifier, whose first digit tells where
the finding comes from, and a title that does not depend on the place it was made at.
-/

namespace DeclFront

/-- How grave a finding is. -/
inductive Severity where
  | error | warning
deriving DecidableEq

def Severity.name : Severity → String
  | .error => "error"
  | .warning => "warning"

/-- The stage of reading a text that made a finding. -/
inductive Phase where
  | lexing | parsing
deriving DecidableEq

def Phase.name : Phase → String
  | .lexing => "lex"
  | .parsing => "parse"

/-- What a finding can concern: characters, the arrangement of tokens, or the findings
themselves. -/
inductive Concern where
  | lexical | syntactic | systemic
deriving DecidableEq

/-- A kind of finding. -/
inductive DiagnosticCode where
  | invalidCharacter | unsupportedWhitespace | unterminatedString | unterminatedRune
  | multipleRunes
  | unexpectedToken | missingToken | missingHeader | emptyGenericParams | emptyGenericArgs
  | unexpectedGenericBody
  /-- Stands at the end of the findings that were kept when further ones were dropped. -/
  | tooManyErrors
deriving DecidableEq

namespace DiagnosticCode

/-- Every code, in the order of the identifiers. -/
def all : List DiagnosticCode :=
  [.invalidCharacter, .unsupportedWhitespace, .unterminatedString, .unterminatedRune,
   .multipleRunes, .unexpectedToken, .missingToken, .missingHeader, .emptyGenericParams,
   .emptyGenericArgs, .unexpectedGenericBody, .tooManyErrors]

/-- Every code is listed. -/
theorem mem_all (c : DiagnosticCode) : c ∈ all := by cases c <;> decide

/-- The stable identifier. -/
def id : DiagnosticCode → String
  | .invalidCharacter => "E0001"
  | .unsupportedWhitespace => "E0002"
  | .unterminatedString => "E0003"
  | .unterminatedRune => "E0004"
  | .multipleRunes => "E0005"
  | .unexpectedToken => "E1001"
  | .missingToken => "E1002"
  | .missingHeader => "E1003"
  | .emptyGenericParams => "E1004"
  | .emptyGenericArgs => "E1005"
  | .unexpectedGenericBody => "E1006"
  | .tooManyErrors => "E9001"

/-- What the finding is, wherever it was made. -/
def title : DiagnosticCode → String
  | .invalidCharacter => "invalid character"
  | .unsupportedWhitespace => "unsupported whitespace character"
  | .unterminatedString => "unterminated string literal"
  | .unterminatedRune => "unterminated rune literal"
  | .multipleRunes => "rune literal must contain exactly one character"
  | .unexpectedToken => "unexpected token"
  | .missingToken => "missing token"
  | .missingHeader => "missing module header `[[ name ]]`"
  | .emptyGenericParams => "generic parameter list cannot be empty"
  | .emptyGenericArgs => "generic argument list cannot be empty"
  | .unexpectedGenericBody => "generic declaration body must follow `:=`"
  | .tooManyErrors => "too many errors, further diagnostics suppressed"

def concern : DiagnosticCode → Concern
  | .invalidCharacter | .unsupportedWhitespace | .unterminatedString | .unterminatedRune
  | .multipleRunes => .lexical
  | .unexpectedToken | .missingToken | .missingHeader | .emptyGenericParams | .emptyGenericArgs
  | .unexpectedGenericBody => .syntactic
  | .tooManyErrors => .systemic

/-- The severity of a finding whose maker asks for no other: every code is an error. -/
def defaultSeverity (_ : DiagnosticCode) : Severity := .error

/-- Whether the finding says that one token is wrong or absent. -/
def isTokenComplaint : DiagnosticCode → Bool
  | .unexpectedToken | .missingToken => true
  | _ => false

end DiagnosticCode

end DeclFront
