import TableMachine.Number.Narrow
import TableMachine.Text.Utf8

/-! # Self-describing data items

The stored form of a program is a tree of data items in the concise binary object representation:
every item begins with a head of three bits that say what it is and a number in as few bytes as
possible. `Item.write` is the canonical form; reading is in `Wire.Reader`.
-/

namespace TableMachine.Wire

/-- A data item. -/
inductive Item where
  /-- A natural number. -/
  | unsigned (n : Nat)
  /-- The number `-1 - n`. -/
  | negative (n : Nat)
  /-- A string of bytes. -/
  | bytes (content : Text)
  /-- A text, in the pieces it was stored in. -/
  | text (pieces : List Text)
  | array (items : List Item)
  | map (entries : List (Item × Item))
  /-- An item with a number that says how to understand it. -/
  | tag (number : Nat) (content : Item)
  /-- A value without content; 20 to 23 are false, true, null and undefined. -/
  | simple (code : Nat)
  | float (value : Number)
deriving Repr

namespace Item

/-- The absent item. -/
def null : Item := simple 22

/-- A truth value. -/
def bool (b : Bool) : Item := simple (if b then 21 else 20)

/-- An integer. -/
def int : Int → Item
  | .ofNat n => unsigned n
  | .negSucc n => negative n

/-- A text in one piece. -/
def ofText (t : Text) : Item := text [t]

/-- Whether the item is null or undefined. -/
def isNull : Item → Bool
  | simple 22 | simple 23 => true
  | _ => false

/-! ## Writing -/

/-- The `count` lowest bytes of a natural number, the highest first. -/
def bigEndian (count n : Nat) : Text :=
  (List.range count).map fun i => (n / pow256 (count - 1 - i)).toUInt8

/-- The head of an item: its major type and a number in the fewest bytes. -/
def head (major n : Nat) : Text :=
  let first (info : Nat) : UInt8 := (major * 32 + info).toUInt8
  if n < 24 then [first n]
  else if n < pow2 8 then first 24 :: bigEndian 1 n
  else if n < pow2 16 then first 25 :: bigEndian 2 n
  else if n < pow2 32 then first 26 :: bigEndian 4 n
  else first 27 :: bigEndian 8 n

/-- A number in the narrowest format that holds it; all that are not a number are one. -/
def writeFloat (x : Number) : Text :=
  if x.isNaN then 0xF9 :: bigEndian 2 0x7E00
  else if x.isInfinite then 0xF9 :: bigEndian 2 (if x.isNegative then 0xFC00 else 0x7C00)
  else match Number.Format.half.pack? x with
    | some word => 0xF9 :: bigEndian 2 word
    | none =>
      match Number.Format.single.pack? x with
      | some word => 0xFA :: bigEndian 4 word
      | none => 0xFB :: bigEndian 8 x.bits.toNat

mutual

/-- The canonical bytes of an item. -/
def write : Item → Text
  | unsigned n => head 0 n
  | negative n => head 1 n
  | bytes content => head 2 content.length ++ content
  | text pieces => head 3 pieces.flatten.length ++ pieces.flatten
  | array items => head 4 items.length ++ writeAll items
  | map entries => head 5 entries.length ++ writeEntries entries
  | tag number content => head 6 number ++ write content
  | simple code => head 7 code
  | float x => writeFloat x

/-- The bytes of items in order. -/
def writeAll : List Item → Text
  | [] => []
  | item :: rest => write item ++ writeAll rest

/-- The bytes of keys and values in order. -/
def writeEntries : List (Item × Item) → Text
  | [] => []
  | (key, value) :: rest => write key ++ write value ++ writeEntries rest

end

end Item

end TableMachine.Wire
