import TableMachine.Toml.Draft
import TableMachine.Toml.Statement

/-! # Reading a document

The statements of a text change a draft one after the other. Reading either gives the whole document
or nothing.
-/

namespace TableMachine.Toml

namespace Draft

/-- Opens the table of a braced value: one more of a repeated key inside an array, a table of its
own elsewhere. -/
def openInline? (d : Draft) (path : List Text) (key : Text) (inArray : Bool) : Option Draft :=
  let d := d.imply (path ++ [key])
  if inArray then d.openElement? path key else d.openTable? path key

/-! ## Values

The keys between braces are defined twice: at their paths in the document, where the rules for keys
apply, and in the table that is the braced value itself.
-/

mutual

/-- The value of an expression under a key of the table at a path. -/
def value? (path : List Text) (key : Text) (inArray : Bool) :
    Expr → Draft → Option (Value × Draft)
  | .literal l, d => some (.literal l, d)
  | .array items, d => do
    let (values, d) ← items? path key items (d.note path key true)
    some (.array values, d)
  | .inline pairs, d => do
    let (table, d) := (← d.openInline? path key inArray).newTable
    let d ← pairs? (path ++ [key]) table pairs d
    some (.table table, d)

/-- The values of an array's items under a key of the table at a path. -/
def items? (path : List Text) (key : Text) : List Expr → Draft → Option (List Value × Draft)
  | [], d => some ([], d)
  | e :: es, d => do
    let (v, d) ← value? path key true e d
    let (vs, d) ← items? path key es d
    some (v :: vs, d)

/-- Assigns the values of braced keys, both in the table at a path and in the one with the given
number. -/
def pairs? (path : List Text) (table : Nat) : List (Key × Expr) → Draft → Option Draft
  | [], d => some d
  | (key, e) :: rest, d => do
    let d ← d.openParts? path key.parents
    let inner := path ++ key.parents
    let (v, d) ← value? inner key.last false e d
    let d ← (← d.give? inner key.last v).enter? table key.last v key.parents
    pairs? path table rest d

end

/-- Assigns the value of an expression to a key of the table at a path. -/
def assign? (d : Draft) (path : List Text) (key : Key) (e : Expr) : Option Draft := do
  let d ← d.openParts? path key.parents
  let inner := path ++ key.parents
  let (v, d) ← value? inner key.last false e d
  d.give? inner key.last v

/-! ## Statements -/

/-- The draft after the statements, when the table opened last is at the given path. -/
def run? (opened : List Text) : List Statement → Draft → Option Draft
  | [], d => some d
  | .header key :: rest, d => do
    let d ← d.openTable? key.parents key.last
    run? key.path rest (d.noteTable key.path)
  | .element key :: rest, d => do
    let d ← d.openElement? key.parents key.last
    run? key.path rest (d.noteTable key.path)
  | .pair key e :: rest, d => do
    run? opened rest (← d.assign? opened key e)

end Draft

/-! ## Texts -/

/-- Whether every byte can be part of a document: no control characters but tabs and line ends,
and a carriage return only before a line feed. -/
def isPrintable : Text → Bool
  | [] => true
  | b :: rest =>
    (if b = 0x0D then rest.head? = some 0x0A else b = 0x09 || b = 0x0A || (0x20 ≤ b && b ≠ 0x7F))
      && isPrintable rest

/-- The text without a mark of its encoding at its beginning. -/
def dropMark : Text → Text
  | 0xFF :: 0xFE :: rest => rest
  | 0xFE :: 0xFF :: rest => rest
  | 0xEF :: 0xBB :: 0xBF :: rest => rest
  | t => t

/-- The document of a text. -/
def read? (t : Text) : Option Document := do
  let t := dropMark t
  if t.isUtf8 && isPrintable t then
    let d ← Draft.run? [] (← statements? t) .empty
    some d.document
  else none

end TableMachine.Toml
