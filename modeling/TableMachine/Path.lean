import TableMachine.Text.Basic

/-! # Slash-separated paths

A path is a text; its components stand between slashes. Everything here is lexical and asks no
file system: cleaning, joining, the last component, the directory before it, and the name,
extension and parent that a program can ask a path for.
-/

namespace TableMachine.Path

open Text

/-- The byte between components. -/
def slash : UInt8 := 0x2F

/-- The component that names the directory it stands in. -/
def here : Text := [0x2E]

/-- The component that names the directory above. -/
def up : Text := [0x2E, 0x2E]

/-- Whether the path starts at the root. -/
def isAbsolute : Text → Bool
  | b :: _ => b == slash
  | [] => false

/-- The components between slashes, empty ones left out. -/
def components (path : Text) : List Text := (splitOn slash path).filter (· ≠ [])

/-- One step of cleaning: `kept` holds the cleaned components so far, the last one first. Dots
vanish, a double dot takes back a component, and above the root or above a leading double dot there
is nothing to take back. -/
def cleanStep (rooted : Bool) (kept : List Text) (component : Text) : List Text :=
  if component = here then kept
  else if component = up then
    match kept with
    | [] => if rooted then [] else [up]
    | last :: rest => if last = up then up :: last :: rest else rest
  else component :: kept

/-- The components of the cleaned path. -/
def cleanComponents (path : Text) : List Text :=
  ((components path).foldl (cleanStep (isAbsolute path)) []).reverse

/-- The path with the given components. -/
def assemble (rooted : Bool) (components : List Text) : Text :=
  if rooted then slash :: joinWith [slash] components
  else if components.isEmpty then here
  else joinWith [slash] components

/-- The shortest path that names the same place, read lexically. -/
def clean (path : Text) : Text := assemble (isAbsolute path) (cleanComponents path)

/-- The cleaned path of `element` below `base`; an empty part counts as absent. -/
def join (base element : Text) : Text :=
  match base, element with
  | [], [] => []
  | [], _ => clean element
  | _, _ => clean (base ++ slash :: element)

/-- The path without slashes at its end. -/
def trimEnd (path : Text) : Text := (path.reverse.dropWhile (· == slash)).reverse

/-- The last component; the root is its own and the empty path's is a dot. -/
def base (path : Text) : Text :=
  if path.isEmpty then here
  else
    let trimmed := trimEnd path
    if trimmed.isEmpty then [slash]
    else (trimmed.reverse.takeWhile (· != slash)).reverse

/-- The cleaned path of everything before the last component. -/
def directory (path : Text) : Text :=
  clean (path.reverse.dropWhile (· != slash)).reverse

/-- The path as seen from `workingDirectory`, cleaned. -/
def absolute (workingDirectory path : Text) : Text :=
  if isAbsolute path then clean path else join workingDirectory path

/-- An absolute path and every directory above it, the nearest first. -/
def ancestors (path : Text) : List Text :=
  let parts := cleanComponents path
  (List.range (parts.length + 1)).reverse.map fun n => assemble true (parts.take n)

/-- Division of a path by a text: the text below the path, or the text itself when it is absolute
or the path is empty. -/
def extend (path element : Text) : Text :=
  if isAbsolute element || path.isEmpty then element else join path element

/-! ## What a program can ask -/

/-- The last component, where it names a file or a directory. -/
def name? (path : Text) : Option Text :=
  let trimmed := trimEnd path
  if trimmed.isEmpty then none
  else
    let last := base trimmed
    if last = here || last = up then none else some last

/-- What stands after the last dot of the name; a name whose only dot is its first byte has none. -/
def extension? (path : Text) : Option Text := do
  let last ← name? path
  let (before, after) ← splitLast? 0x2E last
  if before.isEmpty then none else some after

/-- The directory that holds the path; the root and bare names have none. -/
def parent? (path : Text) : Option Text :=
  let trimmed := trimEnd path
  if trimmed.contains slash then some (directory trimmed) else none

end TableMachine.Path
