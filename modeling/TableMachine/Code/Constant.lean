import TableMachine.Number.Display
import TableMachine.Text.Quoted
import TableMachine.Value.Basic

/-! # Constants

An entry of a constant pool carries a tag and one field for every sort of literal. The tag decides
which field counts; the others are kept, because a stored program keeps them and two entries are
one only when all fields agree.
-/

namespace TableMachine

/-- An entry of a constant pool. -/
structure Constant where
  /-- Which sort of literal the entry is. -/
  tag : UInt8
  /-- The literal of a number. -/
  number : Number := .zero
  /-- The literal of a string or a path. -/
  text : Text := []
  /-- The literal of a truth value. -/
  flag : Bool := false
  /-- The position of a function or a native. -/
  index : Int := 0
deriving DecidableEq, Repr, Inhabited

/-- A literal, as a program uses it. -/
inductive Literal where
  | null
  | number (value : Number)
  | bool (value : Bool)
  | string (text : Text)
  | function (index : Int)
  | native (index : Int)
  | path (text : Text)
deriving DecidableEq, Repr

namespace Literal

/-- The pool entry of a literal, its other fields empty. -/
def constant : Literal → Constant
  | null => ⟨0, .zero, [], false, 0⟩
  | number x => ⟨1, x, [], false, 0⟩
  | bool b => ⟨2, .zero, [], b, 0⟩
  | string t => ⟨3, .zero, t, false, 0⟩
  | function i => ⟨4, .zero, [], false, i⟩
  | native i => ⟨5, .zero, [], false, i⟩
  | path t => ⟨6, .zero, t, false, 0⟩

/-- The run-time value of a literal. -/
def value : Literal → Value
  | null => .null
  | number x => .number x
  | bool b => .bool b
  | string t => .string t
  | function i => .function i
  | native i => .native i
  | path t => .path t

/-- The text of a literal in a listing. -/
def listing : Literal → Text
  | null => "null"
  | number x => x.compact
  | bool b => Text.ofBool b
  | string t => t.quoted
  | function i => Text.concat ["<function ", Text.ofInt i, ">"]
  | native i => Text.concat ["<native ", Text.ofInt i, ">"]
  | path t => Text.concat ["path(", t.quoted, ")"]

end Literal

namespace Constant

/-- The names of the sorts of literals, in the order of their tags. -/
def tagNames : List Text := ["null", "number", "bool", "string", "function", "native", "path"]

/-- The name of a tag, also of one that stands for no sort of literal. -/
def nameOfTag (tag : Nat) : Text :=
  match tagNames[tag]? with
  | some name => name
  | none => Text.concat ["ConstKind(", Text.ofNat tag, ")"]

/-- The literal that the tag selects. -/
def literal? (k : Constant) : Option Literal :=
  match k.tag with
  | 0 => some .null
  | 1 => some (.number k.number)
  | 2 => some (.bool k.flag)
  | 3 => some (.string k.text)
  | 4 => some (.function k.index)
  | 5 => some (.native k.index)
  | 6 => some (.path k.text)
  | _ => none

/-- The run-time value; a tag that stands for no sort gives null. -/
def value (k : Constant) : Value :=
  match k.literal? with
  | some literal => literal.value
  | none => .null

/-- The text in a listing. -/
def listing (k : Constant) : Text :=
  match k.literal? with
  | some literal => literal.listing
  | none => nameOfTag k.tag.toNat

/-- Whether one entry can serve for both: all fields agree, numbers by numeric equality. -/
def same (a b : Constant) : Bool :=
  a.tag == b.tag && a.number.equals b.number && a.text == b.text && a.flag == b.flag
    && a.index == b.index

end Constant

end TableMachine
