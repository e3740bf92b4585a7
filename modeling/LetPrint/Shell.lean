import LetPrint.Text.Bytes

/-!
# Shell scripts

The small part of the command language of `/bin/sh` in which helper tools are written: simple commands
with variables, quotes and redirections, lists joined by `;`, `&&` and `||`, and `if`, `while` and
`until`.
-/

namespace LetPrint.Shell

/-- What a `$` stands for. -/
inductive Parameter where
  /-- A variable. -/
  | named (name : Bytes)
  /-- `$0`, `$1`, … -/
  | argument (index : Nat)
  /-- `$@` and `$*` -/
  | arguments
  /-- `$#` -/
  | count
  /-- `$?` -/
  | status
  /-- `$$` -/
  | process
  deriving DecidableEq, Repr

/-- A part of a word; what stands in quotes is never split. -/
inductive Part where
  | literal (text : Bytes) (quoted : Bool)
  | parameter (p : Parameter) (quoted : Bool)
  deriving DecidableEq, Repr

/-- A word before expansion. -/
abbrev Word := List Part

/-- Where a file descriptor is redirected to. -/
inductive Redirection where
  /-- `fd> file`, or `fd>> file` if it appends -/
  | toFile (fd : Nat) (file : Word) (append : Bool)
  /-- `< file` -/
  | fromFile (file : Word)
  /-- `fd>&other` -/
  | duplicate (fd : Nat) (other : Word)
  deriving DecidableEq, Repr

/-- How a list of commands goes on after a command. -/
inductive Joint where
  /-- In any case. -/
  | always
  /-- After success. -/
  | andThen
  /-- After failure. -/
  | orElse
  deriving DecidableEq, Repr

/-- A command.  A list of commands is a chain of `next`. -/
inductive Command where
  | skip
  | simple (assignments : List (Bytes × Word)) (words : List Word)
  | redirected (c : Command) (redirections : List Redirection)
  | not (c : Command)
  | cond (test yes no : Command)
  /-- Repeat `body` as long as `test` succeeds, or fails if `negated`. -/
  | loop (negated : Bool) (test body : Command)
  | next (first : Command) (joint : Joint) (rest : Command)
  deriving Repr, Inhabited

end LetPrint.Shell
