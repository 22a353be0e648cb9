import TableMachine.Text.Basic

/-! # Dates and times

A moment is a date, a time of day, or a date and a time of day with or without a zone. Seconds may
be left out, and a fraction of any length may follow them.
-/

namespace TableMachine.Toml.Moment

/-- Whether the byte is a decimal digit. -/
def isDigit (b : UInt8) : Bool := 0x30 ≤ b && b ≤ 0x39

/-- The number that the first `count` bytes are the digits of, and the rest. -/
def fixed? (count : Nat) (t : Text) : Option (Nat × Text) :=
  let head := t.take count
  if head.length = count && head.all isDigit then
    some (head.foldl (fun n b => n * 10 + (b.toNat - 0x30)) 0, t.drop count)
  else none

/-- What follows the given byte. -/
def after? (byte : UInt8) : Text → Option Text
  | [] => none
  | b :: rest => if b = byte then some rest else none

/-- Whether the year has a leap day. -/
def isLeap (year : Nat) : Bool := year % 4 = 0 && (year % 100 ≠ 0 || year % 400 = 0)

/-- The number of days of a month. -/
def daysIn (year month : Nat) : Nat :=
  if month = 2 then (if isLeap year then 29 else 28)
  else if month = 4 || month = 6 || month = 9 || month = 11 then 30
  else 31

/-- What follows a date. -/
def date? (t : Text) : Option Text := do
  let (year, t) ← fixed? 4 t
  let (month, t) ← fixed? 2 (← after? 0x2D t)
  let (day, t) ← fixed? 2 (← after? 0x2D t)
  if 1 ≤ month ∧ month ≤ 12 ∧ 1 ≤ day ∧ day ≤ daysIn year month then some t else none

/-- What follows a fraction of a second, if there is one. -/
def fraction? (t : Text) : Option Text :=
  match after? 0x2E t with
  | none => some t
  | some digits =>
    let rest := digits.dropWhile isDigit
    if rest.length < digits.length then some rest else none

/-- What follows a time of day. -/
def clock? (t : Text) : Option Text := do
  let (hour, t) ← fixed? 2 t
  let (minute, t) ← fixed? 2 (← after? 0x3A t)
  if 24 ≤ hour ∨ 60 ≤ minute then none
  else match after? 0x3A t with
    | none => some t
    | some t => do
      let (second, t) ← fixed? 2 t
      if 60 ≤ second then none else fraction? t

/-- Whether the text is a zone: `Z`, or a signed distance of hours and minutes. -/
def isZone (t : Text) : Bool :=
  match t with
  | [] => false
  | sign :: rest =>
    if sign = 0x5A then rest.isEmpty
    else if sign = 0x2B || sign = 0x2D then
      (do let (hours, t) ← fixed? 2 rest
          let (minutes, t) ← fixed? 2 (← after? 0x3A t)
          some (hours ≤ 24 && minutes ≤ 60 && t.isEmpty)).getD false
    else false

/-- The text with its letters in upper case and its blank as the letter between date and time. -/
def normal (t : Text) : Text :=
  t.map fun b => if b = 0x20 then 0x54 else Text.upperByte b

/-- Whether a text in its normal form is a moment. -/
def isMoment (t : Text) : Bool :=
  match date? t with
  | some [] => true
  | some rest =>
    match (after? 0x54 rest).bind clock? with
    | some zone => zone.isEmpty || isZone zone
    | none => false
  | none => clock? t = some []

end TableMachine.Toml.Moment
