import TableMachine.Toml.Quoted

/-! # The statements of a document

A document is a sequence of statements, each on lines of its own: headers, which open a table, and
keys with their values, which belong to the table opened last. Values may span lines inside
brackets. This is the written form only; what may be defined when is a matter of drafts.
-/

namespace TableMachine.Toml

/-- A value as it is written. -/
inductive Expr where
  | literal (value : Literal)
  | array (items : List Expr)
  /-- Keys and their values between braces. -/
  | inline (pairs : List (Key × Expr))
deriving Repr, Inhabited

/-- A statement of a document. -/
inductive Statement where
  | header (key : Key)
  /-- A header in double brackets, which can be repeated. -/
  | element (key : Key)
  | pair (key : Key) (value : Expr)
deriving Repr, Inhabited

/-- The text without the blanks, line ends and comments at its beginning. -/
def skipSpaceFrom : (inComment : Bool) → Text → Text
  | _, [] => []
  | true, b :: rest => skipSpaceFrom (!isLineEnd b) rest
  | false, b :: rest =>
    if b = 0x23 then skipSpaceFrom true rest
    else if isBlank b || isLineEnd b then skipSpaceFrom false rest
    else b :: rest

/-- The text without the blanks, line ends and comments at its beginning. -/
def skipSpace (t : Text) : Text := skipSpaceFrom false t

/-! ## Values -/

mutual

/-- A value nested at most `depth` deep, and the rest. -/
def expr? : (depth : Nat) → Text → Option (Expr × Text)
  | 0, _ => none
  | depth + 1, t =>
    match skipBlanks t with
    | 0x5B :: rest => (items? depth rest).map fun (items, rest) => (.array items, rest)
    | 0x7B :: rest => (pairs? depth rest).map fun (pairs, rest) => (.inline pairs, rest)
    | 0x22 :: rest =>
      (Quoted.read? Quoted.double (0x22 :: rest)).map fun (t, rest) => (.literal (.text t), rest)
    | 0x27 :: rest =>
      (Quoted.read? Quoted.single (0x27 :: rest)).map fun (t, rest) => (.literal (.text t), rest)
    | t => (Literal.read? t).map fun (l, rest) => (.literal l, rest)

/-- The items of an array after its opening bracket, and what follows the closing one. A comma may
follow the last item. -/
def items? : (depth : Nat) → Text → Option (List Expr × Text)
  | 0, _ => none
  | depth + 1, t =>
    match skipSpace t with
    | 0x5D :: rest => some ([], rest)
    | t => do
      let (e, t) ← expr? depth t
      match skipSpace t with
      | 0x2C :: rest => do
        let (es, rest) ← items? depth rest
        some (e :: es, rest)
      | 0x5D :: rest => some ([e], rest)
      | _ => none

/-- The keys and values of a table after its opening brace, and what follows the closing one. A
comma may follow the last value. -/
def pairs? : (depth : Nat) → Text → Option (List (Key × Expr) × Text)
  | 0, _ => none
  | depth + 1, t =>
    match skipSpace t with
    | 0x7D :: rest => some ([], rest)
    | t => do
      let (key, t) ← key? t
      let (e, t) ← expr? depth (← Moment.after? 0x3D t)
      match skipSpace t with
      | 0x2C :: rest => do
        let (pairs, rest) ← pairs? depth rest
        some ((key, e) :: pairs, rest)
      | 0x7D :: rest => some ([(key, e)], rest)
      | _ => none

end

/-! ## Statements -/

/-- The statement at the beginning of a text, and the rest. -/
def statement? (t : Text) : Option (Statement × Text) :=
  match t with
  | 0x5B :: 0x5B :: rest => do
    let (key, rest) ← key? rest
    let rest ← Moment.after? 0x5D (← Moment.after? 0x5D rest)
    some (.element key, rest)
  | 0x5B :: rest => do
    let (key, rest) ← key? rest
    let rest ← Moment.after? 0x5D rest
    some (.header key, rest)
  | t => do
    let (key, rest) ← key? t
    let rest ← Moment.after? 0x3D rest
    let (e, rest) ← expr? (2 * rest.length + 1) rest
    some (.pair key e, rest)

/-- What follows the end of the line, blanks and a comment left out. -/
def endLine? (t : Text) : Option Text :=
  let t := skipBlanks t
  let t := if t.head? = some 0x23 then t.dropWhile fun b => !isLineEnd b else t
  match t with
  | [] => some []
  | b :: rest => if isLineEnd b then some rest else none

/-- At most `count` statements, with which the text has to end. -/
def statementsWithin? : (count : Nat) → Text → Option (List Statement)
  | 0, _ => none
  | count + 1, t =>
    match skipSpace t with
    | [] => some []
    | t => do
      let (s, rest) ← statement? t
      let statements ← statementsWithin? count (← endLine? rest)
      some (s :: statements)

/-- The statements of a text. -/
def statements? (t : Text) : Option (List Statement) := statementsWithin? (t.length + 1) t

end TableMachine.Toml
