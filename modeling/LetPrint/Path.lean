import LetPrint.Text.Bytes

/-!
# Paths

Paths are byte strings with `/` between their elements.  Everything here is about the text of a path;
no file system is asked.
-/

namespace LetPrint.Path

open Text

/-- The byte between two elements. -/
def slash : UInt8 := byte '/'

/-- The element of the current directory. -/
def here : Bytes := utf8 "."

/-- The element of the parent directory. -/
def parent : Bytes := utf8 ".."

/-- What follows the last slash. -/
def fileName (path : Bytes) : Bytes :=
  (path.reverse.takeWhile (· != slash)).reverse

/-- The path up to and including its last slash. -/
def directoryPart (path : Bytes) : Bytes :=
  (path.reverse.dropWhile (· != slash)).reverse

/-- The last point of the file name and what follows it; empty if there is no point. -/
def extension (path : Bytes) : Bytes :=
  let name := (fileName path).reverse
  if name.contains (byte '.') then byte '.' :: (name.takeWhile (· != byte '.')).reverse else []

/-- The path without its extension. -/
def stem (path : Bytes) : Bytes :=
  path.take (path.length - (extension path).length)

/-- The path with the extension of an object file. -/
def object (path : Bytes) : Bytes :=
  stem path ++ utf8 ".o"

/-- The object file of an executable: as `object`, but never the executable itself. -/
def objectBeside (executable : Bytes) : Bytes :=
  if object executable = executable then executable ++ utf8 ".o" else object executable

/-- Put one more element behind a list of elements, the last element first: `.` and the empty element
add nothing, and `..` takes an element back where there is one. -/
def pushElement (rooted : Bool) (elements : List Bytes) (element : Bytes) : List Bytes :=
  if element.isEmpty || element == here then elements
  else if element == parent then
    match elements with
    | last :: rest => if last == parent then element :: elements else rest
    | [] => if rooted then [] else [element]
  else element :: elements

/-- The elements of a path after `.` and `..` are worked out as text. -/
def cleanElements (path : Bytes) : List Bytes :=
  ((splitOn slash path).foldl (pushElement (path.head? == some slash)) []).reverse

/-- The path of given elements, from the root or from the current directory. -/
def ofElements (rooted : Bool) (elements : List Bytes) : Bytes :=
  let body := joinWith [slash] elements
  if rooted then slash :: body else if elements.isEmpty then here else body

/-- The shortest path with the same meaning as text. -/
def clean (path : Bytes) : Bytes :=
  ofElements (path.head? == some slash) (cleanElements path)

/-- The directory of a path: what stands before the file name, cleaned. -/
def directory (path : Bytes) : Bytes :=
  clean (directoryPart path)

/-- The last element of a path, slashes at its end apart. -/
def base (path : Bytes) : Bytes :=
  if path.isEmpty then here
  else
    let trimmed := (path.reverse.dropWhile (· == slash)).reverse
    if trimmed.isEmpty then [slash] else fileName trimmed

end LetPrint.Path
