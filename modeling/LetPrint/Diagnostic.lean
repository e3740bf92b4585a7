import LetPrint.Position

/-!
# Diagnostics

What a failed step reports.  A diagnostic is a plain text, a report of one of five categories with an
optional place, details and cause, or a cause put into a context.  `text` is its full wording,
`category` and `line` are those of the outermost report, and `chain` lists the wording of the
diagnostic and of each cause below it.
-/

namespace LetPrint

open Text

/-- The phase that a report comes from; `other` stands for none of them. -/
inductive Category where
  | usage
  | parse
  | semantic
  | verification
  | toolchain
  | other
  deriving DecidableEq, Repr, Inhabited

namespace Category

/-- The name that starts a report's wording. -/
def name : Category → Bytes
  | usage => utf8 "usage error"
  | parse => utf8 "parse error"
  | semantic => utf8 "semantic error"
  | verification => utf8 "verification error"
  | toolchain => utf8 "toolchain error"
  | other => utf8 "error"

/-- Categories are numbered from 1; every other number is `other`. -/
def ofNumber (n : Int) : Category :=
  if n = 1 then usage
  else if n = 2 then parse
  else if n = 3 then semantic
  else if n = 4 then verification
  else if n = 5 then toolchain
  else other

end Category

/-- One report: its category, its message, its place (0 where there is none) and its details. -/
structure Report where
  category : Category
  message : Bytes
  line : Int := 0
  column : Int := 0
  details : Bytes := []
  deriving DecidableEq, Repr, Inhabited

/-- The wording of a report.  The line is shown if it is positive, the column only after a line. -/
def Report.text (r : Report) : Bytes :=
  let line := Position.shown r.line
  let column := Position.shown r.column
  let place :=
    if 0 < line then
      utf8 " at line " ++ integer line
        ++ (if 0 < column then utf8 ", column " ++ integer column else [])
    else []
  let details := if r.details.isEmpty then [] else utf8 " (" ++ r.details ++ utf8 ")"
  r.category.name ++ place ++ utf8 ": " ++ r.message ++ details

/-- An error: a plain text, a report, a report with its cause, or a cause in a context. -/
inductive Diagnostic where
  | plain (text : Bytes)
  | report (r : Report)
  | because (r : Report) (cause : Diagnostic)
  | within (context : Bytes) (cause : Diagnostic)
  deriving DecidableEq, Repr, Inhabited

namespace Diagnostic

/-- The full wording, causes included. -/
def text : Diagnostic → Bytes
  | plain t => t
  | report r => r.text
  | because r cause => r.text ++ utf8 ": " ++ cause.text
  | within context cause => context ++ utf8 ": " ++ cause.text

/-- The outermost report. -/
def report? : Diagnostic → Option Report
  | plain _ => none
  | report r => some r
  | because r _ => some r
  | within _ cause => cause.report?

/-- The category of the outermost report. -/
def category (d : Diagnostic) : Category :=
  d.report?.elim .other (·.category)

/-- The line of the outermost report, 0 if there is none. -/
def line (d : Diagnostic) : Int :=
  d.report?.elim 0 (·.line)

/-- The wording of a diagnostic and of each cause below it, outermost first. -/
def chain : Diagnostic → List Bytes
  | plain t => [t]
  | report r => [r.text]
  | because r cause => (because r cause).text :: cause.chain
  | within context cause => (within context cause).text :: cause.chain

/-- A usage error without a cause. -/
def usage (message : Bytes) : Diagnostic :=
  .report { category := .usage, message }

/-- A toolchain error with the failure that caused it. -/
def toolchain (message : Bytes) (cause : Diagnostic) : Diagnostic :=
  .because { category := .toolchain, message } cause

/-- A verification error. -/
def verification (message : Bytes) : Diagnostic :=
  .report { category := .verification, message }

end Diagnostic

end LetPrint
