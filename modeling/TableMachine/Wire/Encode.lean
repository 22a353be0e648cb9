import TableMachine.Code.Program
import TableMachine.Wire.Item

/-! # Programs as data items

Every structure is a map from field numbers to values. An absent section is null. Of constants and
functions, fields that hold nothing are left out; a number counts as nothing when it equals zero, so
a negative zero is not kept.
-/

namespace TableMachine.Wire

/-- A structure of numbered fields. -/
def record (fields : List (Nat × Item)) : Item :=
  .map (fields.map fun (number, item) => (.unsigned number, item))

/-- A field that is left out when it holds nothing. -/
def unless_ (holdsNothing : Bool) (number : Nat) (item : Item) : List (Nat × Item) :=
  if holdsNothing then [] else [(number, item)]

/-- A section, or null where it is absent. -/
def sectionItem {α : Type} (f : α → Item) : Section α → Item
  | some entries => .array (entries.toList.map f)
  | none => .null

/-- A pair of encoded keys in the order of maps: shorter ones first, then bytewise. -/
def keyBefore (a b : Text) : Bool := a.length < b.length || (a.length == b.length && a ≤ b)

/-- A map of names, its keys in the order of their encodings, or null where it is absent. -/
def namesItem : Option NameMap → Item
  | some names =>
    let entries := names.entries.map fun (slot, name) => (Item.int slot, Item.ofText name)
    .map (entries.mergeSort fun a b => keyBefore a.1.write b.1.write)
  | none => .null

/-- A constant. -/
def constantItem (k : Constant) : Item :=
  record ([(1, .unsigned k.tag.toNat)]
    ++ unless_ k.number.isZero 2 (.float k.number)
    ++ unless_ k.text.isEmpty 3 (.ofText k.text)
    ++ unless_ (!k.flag) 4 (.bool k.flag)
    ++ unless_ (k.index == 0) 5 (.int k.index))

/-- An entry of the line table. -/
def lineItem (e : LineEntry) : Item := record [(1, .int e.offset), (2, .int e.line)]

/-- A catch clause. -/
def clauseItem (c : CatchClause) : Item :=
  record [(1, .int c.entry), (2, .int c.errorType), (3, .int c.slot)]

/-- A try region. -/
def regionItem (r : TryRegion) : Item :=
  record [(1, sectionItem clauseItem r.catches), (2, .int r.elseEntry)]

/-- The code section. -/
def codeItem : Section UInt8 → Item
  | some code => .bytes code.toList
  | none => .null

/-- A chunk. -/
def chunkItem (c : Chunk) : Item :=
  record [
    (1, .unsigned c.version.toNat),
    (2, codeItem c.code),
    (3, sectionItem constantItem c.constants),
    (4, sectionItem lineItem c.lines),
    (5, sectionItem regionItem c.regions),
    (6, namesItem c.globals),
    (7, namesItem c.explicit),
    (8, sectionItem Item.ofText c.errorTypes)]

/-- A capture. -/
def captureItem (c : Capture) : Item :=
  record [(1, .ofText c.name), (2, .int c.depth), (3, .int c.source), (4, .int c.target)]

/-- What may be absent. -/
def optionItem {α : Type} (f : α → Item) : Option α → Item
  | some x => f x
  | none => .null

/-- A function. -/
def functionItem (f : Function) : Item :=
  record ([(1, .ofText f.name), (2, .int f.arity)]
    ++ unless_ f.params.entries.isEmpty 3 (sectionItem Item.ofText f.params)
    ++ unless_ f.captures.isEmpty 4 (.array (f.captures.toList.map captureItem))
    ++ [(5, optionItem chunkItem f.chunk)]
    ++ unless_ (!f.cacheable) 6 (.bool f.cacheable))

/-- A program. -/
def programItem (p : Program) : Item :=
  record ([(1, optionItem chunkItem p.main)]
    ++ unless_ p.functions.isEmpty 2
      (.array (p.functions.toList.map (optionItem functionItem))))

end TableMachine.Wire
