import TableMachine.Code.Program
import TableMachine.Wire.Item

/-! # Programs from data items

The reading side is lenient: field numbers may be given as texts, unknown fields are skipped without
a look at their content, of a field given twice the first counts, of a map key given twice the last,
and null stands for whatever an absent field would be, or, in a map of names, for the key or name
before it. Tags are skipped, except that those with a
meaning of their own have to fit their content and big numbers are read as numbers.
-/

namespace TableMachine.Wire

/-! ## Tags -/

/-- Whether a tag with a meaning of its own fits its content: 0 marks a text, 1 a number, 2 and 3
bytes. -/
def tagFits (number : Nat) (content : Item) : Bool :=
  match number, content with
  | 0, .text _ => true
  | 0, _ => false
  | 1, .unsigned _ | 1, .negative _ | 1, .float _ => true
  | 1, _ => false
  | 2, .bytes _ | 3, .bytes _ => true
  | 2, _ | 3, _ => false
  | _, _ => true

/-- The natural number of bytes, the highest first. -/
def bigNat (bytes : Text) : Nat := bytes.foldl (fun n b => n * 256 + b.toNat) 0

/-- The item below its tags; big numbers keep theirs. -/
def untag? : Item → Option Item
  | .tag number content =>
    if !tagFits number content then none
    else if number = 2 || number = 3 then some (.tag number content)
    else untag? content
  | item => some item

/-! ## Scalars -/

/-- The least integer of 64 bits. -/
def leastInt : Int := -(pow2 63 : Int)

/-- The greatest integer of 64 bits. -/
def greatestInt : Int := (pow2 63 : Int) - 1

/-- The whole number that an item stands for, if it does: integers, big numbers that fit 64 bits,
and values without content that have no other meaning. -/
def whole? : Item → Option Int
  | .unsigned n => some n
  | .negative n => if n < pow2 63 then some (-1 - n) else none
  | .simple code => if code < 20 || 32 ≤ code then some code else none
  | .tag 2 (.bytes b) => if bigNat b < pow2 64 then some (bigNat b) else none
  | .tag 3 (.bytes b) => if bigNat b < pow2 63 then some (-1 - bigNat b) else none
  | _ => none

/-- What `f` makes of the item below its tags; null stands for the given value. -/
def orNull? {α : Type} (absent : α) (f : Item → Option α) (item : Item) : Option α := do
  let item ← untag? item
  if item.isNull then some absent else f item

/-- The whole number of an item, if it lies within bounds. -/
def wholeWithin? (low high : Int) (item : Item) : Option Int := do
  let i ← whole? item
  if low ≤ i && i ≤ high then some i else none

/-- An integer within bounds; null is zero. -/
def intWithin? (low high : Int) (item : Item) : Option Int :=
  orNull? 0 (wholeWithin? low high) item

/-- An integer of 64 bits; null stands for the given one. -/
def intOr? (absent : Int) (item : Item) : Option Int :=
  orNull? absent (wholeWithin? leastInt greatestInt) item

/-- An integer of 64 bits; null is zero. -/
def int? (item : Item) : Option Int := intOr? 0 item

/-- A number, from a float or an integer; null is zero. -/
def number? (item : Item) : Option Number :=
  item |> orNull? .zero fun
    | .float x => some x
    | item => (whole? item).map Number.ofInt

/-- A text each of whose pieces is well-formed; null stands for the given one. -/
def textOr? (absent : Text) (item : Item) : Option Text :=
  item |> orNull? absent fun
    | .text pieces => if pieces.all Text.isUtf8 then some pieces.flatten else none
    | _ => none

/-- A text each of whose pieces is well-formed; null is the empty one. -/
def text? (item : Item) : Option Text := textOr? [] item

/-- A truth value; null is false. -/
def bool? (item : Item) : Option Bool :=
  item |> orNull? false fun
    | .simple 20 => some false
    | .simple 21 => some true
    | _ => none

/-! ## Containers -/

/-- A section; null is its absence. -/
def section? {α : Type} (f : Item → Option α) (item : Item) : Option (Section α) :=
  item |> orNull? none fun
    | .array items => (items.mapM f).map fun entries => some entries.toArray
    | _ => none

/-- A byte. -/
def byte? (item : Item) : Option UInt8 := (intWithin? 0 255 item).map fun i => i.toNat.toUInt8

/-- The code section, from a string of bytes or an array of them. -/
def code? (item : Item) : Option (Section UInt8) := do
  match ← untag? item with
  | .bytes content => some (some content.toArray)
  | .tag _ (.bytes content) => some (some content.toArray)
  | item => section? byte? item

/-- The slots and names of a map in order, after the given ones. Null in the place of either stands
for the one before it. -/
def namesAfter? (slot : Int) (name : Text) : List (Item × Item) → Option (List (Int × Text))
  | [] => some []
  | (key, value) :: rest => do
    let slot ← intOr? slot key
    let name ← textOr? name value
    let names ← namesAfter? slot name rest
    some ((slot, name) :: names)

/-- A map of names; null is its absence. The first entry counts as if slot zero without a name came
before it. -/
def names? (item : Item) : Option (Option NameMap) :=
  item |> orNull? none fun
    | .map entries => (namesAfter? 0 [] entries).map fun names => some (.ofEntries names)
    | _ => none

/-- The field number that a key of a structure stands for; none when it stands for no field. The
outer option is empty where a key cannot be one of a structure. -/
def fieldNumber? : Item → Option (Option Nat)
  | .unsigned n => some (some n)
  | .negative n => if n < pow2 63 then some none else none
  | .text pieces =>
    if pieces.all Text.isUtf8 then
      match pieces.flatten with
      | [b] => some (if 0x31 ≤ b && b ≤ 0x39 then some (b.toNat - 48) else none)
      | _ => some none
    else none
  | _ => none

/-- The numbered fields of a structure in order; null has none. -/
def fields? (item : Item) : Option (List (Option Nat × Item)) :=
  item |> orNull? [] fun
    | .map entries => entries.mapM fun (key, value) => do
      let number ← fieldNumber? key
      some (number, value)
    | _ => none

/-- A field read by `f`; an absent one counts as null. -/
def field? {α : Type} (fields : List (Option Nat × Item)) (number : Nat) (f : Item → Option α) :
    Option α :=
  f ((fields.lookup (some number)).getD .null)

/-- What may be absent: null directly, without a tag, is its absence. -/
def option? {α : Type} (f : Item → Option α) (item : Item) : Option (Option α) :=
  if item.isNull then some none else (f item).map some

/-! ## Programs -/

/-- A constant. -/
def constant? (item : Item) : Option Constant := do
  let fields ← fields? item
  let tag ← field? fields 1 byte?
  let number ← field? fields 2 number?
  let text ← field? fields 3 text?
  let flag ← field? fields 4 bool?
  let index ← field? fields 5 int?
  some ⟨tag, number, text, flag, index⟩

/-- An entry of the line table. -/
def line? (item : Item) : Option LineEntry := do
  let fields ← fields? item
  let offset ← field? fields 1 int?
  let line ← field? fields 2 int?
  some ⟨offset, line⟩

/-- A catch clause. -/
def clause? (item : Item) : Option CatchClause := do
  let fields ← fields? item
  let entry ← field? fields 1 int?
  let errorType ← field? fields 2 int?
  let slot ← field? fields 3 int?
  some ⟨entry, errorType, slot⟩

/-- A try region. -/
def region? (item : Item) : Option TryRegion := do
  let fields ← fields? item
  let catches ← field? fields 1 (section? clause?)
  let elseEntry ← field? fields 2 int?
  some ⟨catches, elseEntry⟩

/-- A chunk. -/
def chunk? (item : Item) : Option Chunk := do
  let fields ← fields? item
  let version ← field? fields 1 (intWithin? 0 65535)
  let code ← field? fields 2 code?
  let constants ← field? fields 3 (section? constant?)
  let lines ← field? fields 4 (section? line?)
  let regions ← field? fields 5 (section? region?)
  let globals ← field? fields 6 names?
  let explicit ← field? fields 7 names?
  let errorTypes ← field? fields 8 (section? text?)
  some ⟨version.toNat.toUInt16, code, constants, lines, regions, globals, explicit, errorTypes⟩

/-- A capture. -/
def capture? (item : Item) : Option Capture := do
  let fields ← fields? item
  let name ← field? fields 1 text?
  let depth ← field? fields 2 int?
  let source ← field? fields 3 int?
  let target ← field? fields 4 int?
  some ⟨name, depth, source, target⟩

/-- A function. -/
def function? (item : Item) : Option Function := do
  let fields ← fields? item
  let name ← field? fields 1 text?
  let arity ← field? fields 2 int?
  let params ← field? fields 3 (section? text?)
  let captures ← field? fields 4 (section? capture?)
  let chunk ← field? fields 5 (option? chunk?)
  let cacheable ← field? fields 6 bool?
  some ⟨name, arity, params, captures.entries, cacheable, chunk⟩

/-- A program. -/
def program? (item : Item) : Option Program := do
  let fields ← fields? item
  let main ← field? fields 1 (option? chunk?)
  let functions ← field? fields 2 (section? (option? function?))
  some ⟨main, functions.entries⟩

end TableMachine.Wire
