import LetPrint.Diagnostic

/-!
# Program output

Where a running program prints.  A sink may have a limit; it then refuses a write that would make it
longer, as a whole.
-/

namespace LetPrint

/-- What was written so far, and how much may be. -/
structure Sink where
  limit : Option Nat := none
  written : Bytes := []
  deriving DecidableEq, Repr, Inhabited

namespace Sink

/-- Whether a sink takes `text` in one write. -/
def accepts (s : Sink) (text : Bytes) : Bool :=
  s.limit.all fun limit => s.written.length + text.length ≤ limit

/-- Write `text` as a whole, or nothing. -/
def write? (s : Sink) (text : Bytes) : Option Sink :=
  if s.accepts text then some { s with written := s.written ++ text } else none

/-- The diagnostic of a refused write. -/
def refusal : Diagnostic :=
  .toolchain (utf8 "cannot write program output") (.plain (utf8 "writer full"))

end Sink

end LetPrint
