import DeclFront.CommandLine.Listing
import DeclFront.CommandLine.Options
import DeclFront.CommandLine.Program
import DeclFront.CommandLine.Run
import DeclFront.Diagnostic
import DeclFront.Diagnostic.Code
import DeclFront.Diagnostic.Expected
import DeclFront.Diagnostic.Json
import DeclFront.Diagnostic.Sink
import DeclFront.Diagnostic.Terminal
import DeclFront.Lexical.Character
import DeclFront.Lexical.Glyph
import DeclFront.Lexical.Lex
import DeclFront.Lexical.Literal
import DeclFront.Lexical.Reader
import DeclFront.Lexical.Script
import DeclFront.Lexical.Segment
import DeclFront.Lexical.Significant
import DeclFront.Lexical.TokenSource
import DeclFront.Main
import DeclFront.Module
import DeclFront.Parser.Basic
import DeclFront.Parser.Body
import DeclFront.Parser.Cursor
import DeclFront.Parser.Generics
import DeclFront.Parser.KindSet
import DeclFront.Parser.Module
import DeclFront.Parser.Name
import DeclFront.Parser.Recovery
import DeclFront.Parser.Signature
import DeclFront.Parser.TypeExpr
import DeclFront.Position
import DeclFront.Proofs.Anchors
import DeclFront.Proofs.Answers
import DeclFront.Proofs.Arguments
import DeclFront.Proofs.Boundaries
import DeclFront.Proofs.BytePositions
import DeclFront.Proofs.Capacity
import DeclFront.Proofs.CommandLine
import DeclFront.Proofs.Commands
import DeclFront.Proofs.Complaints
import DeclFront.Proofs.Completeness
import DeclFront.Proofs.Constituents
import DeclFront.Proofs.Consumption
import DeclFront.Proofs.Containment
import DeclFront.Proofs.Counterparts
import DeclFront.Proofs.Cut
import DeclFront.Proofs.Depth
import DeclFront.Proofs.Display
import DeclFront.Proofs.Drawing
import DeclFront.Proofs.Drift
import DeclFront.Proofs.Enclosure
import DeclFront.Proofs.Entries
import DeclFront.Proofs.Excerpts
import DeclFront.Proofs.Extents
import DeclFront.Proofs.Grammar
import DeclFront.Proofs.Isolation
import DeclFront.Proofs.JsonGrammar
import DeclFront.Proofs.JsonOutput
import DeclFront.Proofs.JsonReader
import DeclFront.Proofs.KindSlots
import DeclFront.Proofs.KindsOnly
import DeclFront.Proofs.Lexemes
import DeclFront.Proofs.Limits
import DeclFront.Proofs.LineBarrier
import DeclFront.Proofs.LineEndings
import DeclFront.Proofs.LineFeed
import DeclFront.Proofs.LongestMatch
import DeclFront.Proofs.Lookahead
import DeclFront.Proofs.Nesting
import DeclFront.Proofs.Numerals
import DeclFront.Proofs.Passage
import DeclFront.Proofs.Placement
import DeclFront.Proofs.QuotedBodies
import DeclFront.Proofs.Reach
import DeclFront.Proofs.Readings
import DeclFront.Proofs.Relabelling
import DeclFront.Proofs.Run
import DeclFront.Proofs.Runes
import DeclFront.Proofs.SameLine
import DeclFront.Proofs.Seams
import DeclFront.Proofs.Segments
import DeclFront.Proofs.Shift
import DeclFront.Proofs.Sifting
import DeclFront.Proofs.Slices
import DeclFront.Proofs.Soundness
import DeclFront.Proofs.Steps
import DeclFront.Proofs.Stretch
import DeclFront.Proofs.StringJumps
import DeclFront.Proofs.Termination
import DeclFront.Proofs.Tiling
import DeclFront.Proofs.Translation
import DeclFront.Proofs.Transport
import DeclFront.Proofs.TreeMap
import DeclFront.Proofs.TreeTokens
import DeclFront.Proofs.TypeRecursion
import DeclFront.Proofs.Unambiguity
import DeclFront.Proofs.Whereabouts
import DeclFront.Proofs.WholeGroups
import DeclFront.Source
import DeclFront.Source.ByteCursor
import DeclFront.Syntax.Node
import DeclFront.Syntax.Tree
import DeclFront.Text.JsonString
import DeclFront.Text.Quoted
import DeclFront.Token
import DeclFront.Token.Kind
import DeclFront.Unicode.Alphabetic
import DeclFront.Unicode.Blank
import DeclFront.Unicode.CharSet
import DeclFront.Unicode.DefaultIgnorable
import DeclFront.Unicode.GraphemeExtend
import DeclFront.Unicode.Numeric
import DeclFront.Unicode.Unprintable
