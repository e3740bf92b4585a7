import LetPrint.Diagnostic

/-!
# Targets

The target triple of a platform, and that of the host.
-/

namespace LetPrint.Target

/-- The processor part of a triple, by the architecture's name. -/
def processor? (arch : Bytes) : Option Bytes :=
  if arch == utf8 "amd64" then some (utf8 "x86_64")
  else if arch == utf8 "arm64" then some (utf8 "aarch64")
  else none

/-- The triple of an operating system on a processor. -/
def tripleOf? (os processor : Bytes) : Option Bytes :=
  if os == utf8 "linux" then some (processor ++ utf8 "-unknown-linux-gnu")
  else if os == utf8 "darwin" then
    some ((if processor == utf8 "aarch64" then utf8 "arm64" else processor) ++ utf8 "-apple-darwin")
  else if os == utf8 "windows" then some (processor ++ utf8 "-pc-windows-msvc")
  else none

/-- The triple of an operating system and an architecture. -/
def triple (os arch : Bytes) : Except Diagnostic Bytes :=
  match processor? arch with
  | none => .error (.plain (utf8 "unsupported architecture: " ++ arch))
  | some processor =>
    match tripleOf? os processor with
    | none => .error (.plain (utf8 "unsupported operating system: " ++ os))
    | some t => .ok t

/-- The triple of the host. -/
def host : Bytes := utf8 "x86_64-unknown-linux-gnu"

end LetPrint.Target
