import DeclFront.Diagnostic

/-!
# Collecting diagnostics under a limit

A sink keeps the diagnostics reported to it, in order, up to its limit. The first one beyond the
limit is replaced by a **marker** at its place, which says that findings were dropped; after the
marker nothing more is kept.

**Order of display.** Diagnostics are shown in the order of their offsets, those at one offset in
the order in which they were reported, and the marker behind all others.
-/

namespace DeclFront

/-- The diagnostics kept so far. -/
structure Sink where
  /-- How many diagnostics are kept as reported; `none` keeps all. -/
  limit : Option Nat
  kept : Array Diagnostic
deriving DecidableEq

namespace Sink

/-- The limit of a sink whose maker asks for no other. -/
def defaultLimit : Nat := 100

def withLimit (n : Nat) : Sink := ⟨some n, #[]⟩

def unlimited : Sink := ⟨none, #[]⟩

/-- The sink for a limit that users give, where zero asks for no limit. -/
def ofUserLimit (n : Nat) : Sink := if n = 0 then unlimited else withLimit n

/-- Whether the next report is kept as it is. -/
def hasRoom (s : Sink) : Bool := s.limit.all (s.kept.size < ·)

/-- Whether a report was dropped, so that the marker is there. -/
def isSaturated (s : Sink) : Bool := s.limit.any (· < s.kept.size)

/-- The marker that takes the place of `d`. -/
def marker (d : Diagnostic) : Diagnostic := Diagnostic.about .tooManyErrors d.phase d.position 0

/-- Keeps `d`, or the marker in its place, or nothing. -/
def report (s : Sink) (d : Diagnostic) : Sink :=
  if s.hasRoom then { s with kept := s.kept.push d }
  else if s.isSaturated then s
  else { s with kept := s.kept.push (marker d) }

/-- Reports the diagnostics of a list in turn. -/
def reportAll (s : Sink) (ds : List Diagnostic) : Sink := ds.foldl report s

/-- The number of diagnostics kept, the marker included. -/
def size (s : Sink) : Nat := s.kept.size

def isEmpty (s : Sink) : Bool := s.kept.isEmpty

/-- How many of the diagnostics kept are errors. -/
def errorCount (s : Sink) : Nat := s.kept.countP Diagnostic.isError

def hasErrors (s : Sink) : Bool := 0 < s.errorCount

/-- The diagnostics kept, in the order of the reports. -/
def toList (s : Sink) : List Diagnostic := s.kept.toList

/-! ## Order of display -/

def isMarker (d : Diagnostic) : Bool := d.code == .tooManyErrors

/-- Whether `d` may be shown before `e`. -/
def precedes (d e : Diagnostic) : Bool :=
  if isMarker d == isMarker e then d.offset ≤ e.offset else isMarker e

/-- Whether neighbours stand in the order of display. -/
def isSorted : List Diagnostic → Bool
  | d :: e :: rest => precedes d e && isSorted (e :: rest)
  | _ => true

/-- The diagnostics kept, in the order of display. Reports mostly come in that order already, and
are then left as they are. -/
def sorted (s : Sink) : List Diagnostic :=
  if isSorted s.toList then s.toList else s.toList.mergeSort precedes

end Sink

end DeclFront
