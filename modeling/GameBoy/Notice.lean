/-!
# Notices

What the machine reports while it runs, apart from its results: a line of text and how serious it
is. Components hand their notices to whoever drives them, which keeps them in a journal in the
order in which they arose.
-/

namespace GameBoy

/-- How serious a notice is, most serious first. -/
inductive Level where
  | error
  | warn
  | info
  | debug
  | trace
  deriving DecidableEq, Repr

namespace Level

/-- The name under which a level is printed. -/
def name : Level → String
  | error => "ERROR"
  | warn => "WARN"
  | info => "INFO"
  | debug => "DEBUG"
  | trace => "TRACE"

/-- The position of a level; a smaller rank is more serious. -/
def rank : Level → Nat
  | error => 0
  | warn => 1
  | info => 2
  | debug => 3
  | trace => 4

/-- Whether a notice at level `l` is shown to a reader who asked for `threshold`. -/
def shownAt (l threshold : Level) : Bool := l.rank ≤ threshold.rank

end Level

/-- One reported line. -/
structure Notice where
  /-- How serious it is. -/
  level : Level
  /-- What it says. -/
  text : String
  deriving DecidableEq, Repr

/-- The notices so far, oldest first. -/
abbrev Journal := Array Notice

namespace Journal

/-- Append a notice, if there is one. -/
@[inline] def note (journal : Journal) : Option Notice → Journal
  | none => journal
  | some notice => journal.push notice

end Journal

end GameBoy
