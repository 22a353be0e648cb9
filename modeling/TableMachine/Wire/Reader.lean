import TableMachine.Wire.Item

/-! # Reading data items

The reader accepts every well-formed item, canonical or not: numbers in more bytes than needed,
lengths that are given by an end mark, any order of keys. It refuses containers nested too deeply or
with too many entries. Every function returns what it read and the rest of the bytes.
-/

namespace TableMachine.Wire

/-- The greatest depth of containers and of tags upon tags. -/
def maxDepth : Nat := 32

/-- The greatest number of entries of an array, and of pairs of a map. -/
def maxEntries : Nat := 131072

/-- The byte that ends an item of unstated length. -/
def endMark : UInt8 := 0xFF

/-- The greatest length that can be stated. -/
def maxLength : Nat := pow2 63 - 1

/-- The number of a head. -/
inductive Argument where
  /-- A number, with the five bits that said where it stands. -/
  | given (info n : Nat)
  /-- None: an end mark will follow. -/
  | open_
deriving DecidableEq, Repr

/-- The natural number of bytes, the highest first. -/
def natOf (bytes : Text) : Nat := bytes.foldl (fun n b => n * 256 + b.toNat) 0

/-- The first `count` bytes and the rest, if there are that many. -/
def takeExactly? (count : Nat) (data : Text) : Option (Text × Text) :=
  let first := data.take count
  if first.length = count then some (first, data.drop count) else none

/-- The major type and the argument of the head that the bytes begin with. -/
def readHead? : Text → Option (Nat × Argument × Text)
  | [] => none
  | b :: rest =>
    let major := b.toNat / 32
    let info := b.toNat % 32
    let wide (count : Nat) : Option (Nat × Argument × Text) := do
      let (bytes, rest) ← takeExactly? count rest
      some (major, .given info (natOf bytes), rest)
    if info < 24 then some (major, .given info info, rest)
    else match info with
      | 24 => do
        let (bytes, rest) ← takeExactly? 1 rest
        let n := natOf bytes
        if major = 7 && n < 32 then none else some (major, .given info n, rest)
      | 25 => wide 2
      | 26 => wide 4
      | 27 => wide 8
      | 31 => if 2 ≤ major && major ≤ 5 then some (major, .open_, rest) else none
      | _ => none

/-- A string of stated length. -/
def readString? (length : Nat) (data : Text) : Option (Text × Text) :=
  if maxLength < length then none else takeExactly? length data

/-- The pieces of a string of unstated length: strings of the same major type and of stated
lengths, up to the end mark. -/
def readPieces? (major : Nat) : (fuel : Nat) → Text → Option (List Text × Text)
  | 0, _ => none
  | fuel + 1, data =>
    match data with
    | [] => none
    | b :: rest =>
      if b = endMark then some ([], rest)
      else match readHead? data with
        | some (m, .given _ n, rest) =>
          if m ≠ major then none
          else do
            let (piece, rest) ← readString? n rest
            let (pieces, rest) ← readPieces? major fuel rest
            some (piece :: pieces, rest)
        | _ => none

/-- Neighbours as pairs; none when one is left over. -/
def pairUp? : List Item → Option (List (Item × Item))
  | [] => some []
  | [_] => none
  | key :: value :: rest => (pairUp? rest).map ((key, value) :: ·)

/-- A value without content, or a number, by the information of its head. -/
def primitive (info n : Nat) : Item :=
  match info with
  | 25 => .float (Number.Format.half.unpack n)
  | 26 => .float (Number.Format.single.unpack n)
  | 27 => .float ⟨UInt64.ofNat n⟩
  | _ => .simple n

/-- Whether the bytes begin with a tag. -/
def startsWithTag : Text → Bool
  | b :: _ => b.toNat / 32 == 6
  | [] => false

mutual

/-- The item that the bytes begin with, inside `depth` containers. -/
def readItem? : (fuel depth : Nat) → Text → Option (Item × Text)
  | 0, _, _ => none
  | fuel + 1, depth, data =>
    match readHead? data with
    | none => none
    | some (0, .given _ n, rest) => some (.unsigned n, rest)
    | some (1, .given _ n, rest) => some (.negative n, rest)
    | some (2, .given _ n, rest) => do
      let (content, rest) ← readString? n rest
      some (.bytes content, rest)
    | some (2, .open_, rest) => do
      let (pieces, rest) ← readPieces? 2 data.length rest
      some (.bytes pieces.flatten, rest)
    | some (3, .given _ n, rest) => do
      let (content, rest) ← readString? n rest
      some (.text [content], rest)
    | some (3, .open_, rest) => do
      let (pieces, rest) ← readPieces? 3 data.length rest
      some (.text pieces, rest)
    | some (4, .given _ n, rest) =>
      if maxDepth ≤ depth || maxEntries < n then none
      else do
        let (items, rest) ← readCounted? fuel (depth + 1) n rest
        some (.array items, rest)
    | some (4, .open_, rest) =>
      if maxDepth ≤ depth then none
      else do
        let (items, rest) ← readOpen? fuel (depth + 1) rest
        if maxEntries < items.length then none else some (.array items, rest)
    | some (5, .given _ n, rest) =>
      if maxDepth ≤ depth || maxEntries < n then none
      else do
        let (items, rest) ← readCounted? fuel (depth + 1) (2 * n) rest
        let entries ← pairUp? items
        some (.map entries, rest)
    | some (5, .open_, rest) =>
      if maxDepth ≤ depth then none
      else do
        let (items, rest) ← readOpen? fuel (depth + 1) rest
        let entries ← pairUp? items
        if maxEntries < entries.length then none else some (.map entries, rest)
    | some (6, .given _ n, rest) =>
      -- A tag upon a tag counts as one level.
      let inner := if startsWithTag rest then depth + 1 else depth
      if maxDepth < inner then none
      else do
        let (content, rest) ← readItem? fuel inner rest
        some (.tag n content, rest)
    | some (7, .given info n, rest) => some (primitive info n, rest)
    | some _ => none

/-- A stated number of items. -/
def readCounted? : (fuel depth count : Nat) → Text → Option (List Item × Text)
  | _, _, 0, data => some ([], data)
  | 0, _, _ + 1, _ => none
  | fuel + 1, depth, count + 1, data => do
    let (item, rest) ← readItem? fuel depth data
    let (items, rest) ← readCounted? fuel depth count rest
    some (item :: items, rest)

/-- Items up to the end mark. -/
def readOpen? : (fuel depth : Nat) → Text → Option (List Item × Text)
  | 0, _, _ => none
  | fuel + 1, depth, data =>
    match data with
    | [] => none
    | b :: rest =>
      if b = endMark then some ([], rest)
      else do
        let (item, rest) ← readItem? fuel depth data
        let (items, rest) ← readOpen? fuel depth rest
        some (item :: items, rest)

end

/-- The item that the bytes are, with nothing after it. Every call takes a byte or ends, so twice
the number of bytes bounds their nesting. -/
def read? (data : Text) : Option Item :=
  match readItem? (2 * data.length + 2) 0 data with
  | some (item, []) => some item
  | _ => none

end TableMachine.Wire
