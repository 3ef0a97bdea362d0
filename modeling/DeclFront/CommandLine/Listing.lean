import DeclFront.Lexical.Lex
import DeclFront.Module
import DeclFront.Text.Quoted

/-!
# Listings

What the commands print about a text: a line for each token, or the header and a line for each
declaration. Kinds and shapes stand in columns of fixed width.
-/

namespace DeclFront.Listing

/-- The text with blanks behind it, up to `width` characters. -/
def column (width : Nat) (text : String) : String :=
  String.ofList (text.toList.rightpad width ' ')

/-- Line and column. -/
def place (p : Position) : String := toString p.line ++ ":" ++ toString p.column

/-- The texts of tokens with `separator` between them. -/
def joined (s : Source) (separator : String) (ts : List Token) : String :=
  separator.intercalate (ts.map s.tokenText)

/-- The lines one behind the other, each with a line feed. -/
def lines (ls : List String) : String := ls.foldl (fun text l => text ++ l ++ "\n") ""

/-- The line of a token: its kind, its place and its text in quotes. -/
def token (s : Source) (t : Token) : String :=
  column 16 t.kind.label ++ " " ++ place t.position ++ " " ++ Quoted.ofString (s.tokenText t)

def tokens (s : Source) (ts : List Token) : String := lines (ts.map (token s))

/-- The line of a header. -/
def header (s : Source) (h : ModuleHeader) : String :=
  "module " ++ if h.isMissing then "<missing>" else joined s "." h.path.segments

/-- The line of a declaration: its place, its shape and its name with the generic parameters. -/
def declaration (s : Source) (d : Declaration) : String :=
  place d.name.position ++ " " ++ column 8 d.shape.name ++ " " ++ s.tokenText d.name
    ++ d.generics.elim "" fun g => "[" ++ joined s ", " g.params ++ "]"

/-- The lines of a module. The number of trivia tokens follows if they were kept. -/
def module (s : Source) (m : Module) (keepTrivia : Bool) : String :=
  lines (header s m.header :: m.members.map (declaration s)
    ++ if keepTrivia then ["trivia: " ++ toString m.trivia.length ++ " tokens"] else [])

end DeclFront.Listing
