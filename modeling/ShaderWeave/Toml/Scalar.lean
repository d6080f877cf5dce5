/-
  TOML scalars that are not strings: booleans, numbers, dates and times.

  The text of a scalar is given whole.  Digits may be grouped by single underscores between two
  digits; a decimal number has no leading zero; hexadecimal, octal and binary numbers have no sign;
  a float has digits on both sides of its point.  Dates are checked against the calendar.

  Two kinds of numerals are admitted although they have no value: a base mark without digits, and a
  decimal number whose groups after the first start, and up to the last one end, with a hexadecimal
  digit, whatever else they hold.
-/
import ShaderWeave.Double.Decimal
import ShaderWeave.Toml.Item

namespace ShaderWeave.Toml.Scalar

/-! ## Numbers

  A numeral is an integer if it can be read as one, and a float otherwise. -/

/-- Digits without their grouping underscores; each underscore stands between two digits. -/
def ungroup (isDigit : Char → Bool) : Text → Option Text
  | [] => none
  | [c] => if isDigit c then some [c] else none
  | c :: '_' :: rest => if isDigit c then (ungroup isDigit rest).map (c :: ·) else none
  | c :: rest => if isDigit c then (ungroup isDigit rest).map (c :: ·) else none

/-- The value of a hexadecimal digit. -/
def hexDigit? (c : Char) : Option Nat :=
  if '0' ≤ c ∧ c ≤ '9' then some (c.toNat - '0'.toNat)
  else if 'a' ≤ c ∧ c ≤ 'f' then some (c.toNat - 'a'.toNat + 10)
  else if 'A' ≤ c ∧ c ≤ 'F' then some (c.toNat - 'A'.toNat + 10)
  else none

/-- Digits read in a base, all of them below it. -/
def inBase (base : Nat) (digits : Text) : Nat :=
  digits.foldl (fun n c => n * base + (hexDigit? c).getD 0) 0

/-- A digit of a base. -/
def isDigitOf (base : Nat) (c : Char) : Bool := (hexDigit? c).any (· < base)

/-- Decimal digits without a leading zero. -/
def wholeDigits? (t : Text) : Option Text :=
  match ungroup (isDigitOf 10) t with
  | some ('0' :: _ :: _) => none
  | digits => digits

/-- The sign of a number and what follows it. -/
def sign : Text → Bool × Text
  | '-' :: rest => (true, rest)
  | '+' :: rest => (false, rest)
  | t => (false, t)

/-- The digits after the mark of a base. -/
def based? (base : Nat) : Text → Option Item
  | [] => some .unreadable
  | digits => (ungroup (isDigitOf base) digits).map fun ds => .integer (Int.ofNat (inBase base ds))

/-- Whether a text starts with a hexadecimal digit. -/
def startsWithHex (t : Text) : Bool := t.head?.any (isDigitOf 16)

/-- Whether a text ends with a hexadecimal digit. -/
def endsWithHex (t : Text) : Bool := t.getLast?.any (isDigitOf 16)

/-- A grouped number, without its sign, that is only known to be one word or words with tabs between
    them, and no float: nothing else is asked of the inside of its groups after the first. -/
def isLooselyGrouped (t : Text) : Bool :=
  match t.splitOn '_' with
  | first :: group :: groups =>
    first.all Text.isAsciiDigit && first.head?.any (· != '0') &&
      t.all (fun c => c != '.' && c != 'e' && c != 'E' && c != ' ') &&
      (group :: groups).all startsWithHex && (group :: groups).dropLast.all endsWithHex
  | _ => false

/-- An integer. -/
def integer? (t : Text) : Option Item :=
  match t with
  | '0' :: 'x' :: digits => based? 16 digits
  | '0' :: 'o' :: digits => based? 8 digits
  | '0' :: 'b' :: digits => based? 2 digits
  | t =>
    let (negative, digits) := sign t
    match wholeDigits? digits with
    | some ds =>
      let n := Int.ofNat (inBase 10 ds)
      some (.integer (if negative then -n else n))
    | none => if isLooselyGrouped digits then some .unreadable else none

/-- The part of a float after its `e`. -/
def exponent? (t : Text) : Option Int :=
  let (negative, digits) := sign t
  (ungroup (isDigitOf 10) digits).map fun ds =>
    let n := Int.ofNat (inBase 10 ds)
    if negative then -n else n

/-- The part of a float before its `e`: all its digits, and how many stand after the point. -/
def mantissa? (t : Text) : Option (Text × Nat) :=
  match t.cut '.' with
  | none => (wholeDigits? t).map fun ds => (ds, 0)
  | some (whole, fraction) => do
    let whole ← wholeDigits? whole
    let fraction ← ungroup (isDigitOf 10) fraction
    return (whole ++ fraction, fraction.length)

/-- A float with a point or an exponent, or a special one. -/
def float? (t : Text) : Option Item := do
  let (negative, t) := sign t
  if t = "inf".toList then return .float (Double.infinity negative)
  if t = "nan".toList then return .float Double.nan
  let (mantissa, exponent) ← match Text.cut 'e' (t.map fun c => if c = 'E' then 'e' else c) with
    | none => pure (t, 0)
    | some (m, e) => do pure (m, ← exponent? e)
  let (digits, places) ← mantissa? mantissa
  return match Double.ofDecimal? negative (inBase 10 digits) (exponent - places) with
    | some x => .float x
    | none => .unreadable

/-! ## Dates and times

  A date, a time or both are kept as they are written, once they are known to be on the calendar and
  on the clock. -/

/-- A number of exactly `n` digits, and the text after it. -/
def fixed? (n : Nat) (t : Text) : Option (Nat × Text) :=
  let digits := t.take n
  if digits.length = n ∧ digits.all Text.isAsciiDigit then some (inBase 10 digits, t.drop n)
    else none

/-- The text after a character. -/
def expect? (c : Char) : Text → Option Text
  | d :: rest => if d = c then some rest else none
  | [] => none

/-- The days of a month. -/
def daysIn (year month : Nat) : Nat :=
  if month = 2 then
    if (year % 4 = 0 ∧ year % 100 ≠ 0) ∨ year % 400 = 0 then 29 else 28
  else if month ∈ [4, 6, 9, 11] then 30 else 31

/-- Reads a date. -/
def date? (t : Text) : Option Text := do
  let (year, t) ← fixed? 4 t
  let (month, t) ← fixed? 2 (← expect? '-' t)
  let (day, t) ← fixed? 2 (← expect? '-' t)
  if 1 ≤ month ∧ month ≤ 12 ∧ 1 ≤ day ∧ day ≤ daysIn year month then some t else none

/-- Reads the fraction of a second, if there is one. -/
def fraction? : Text → Option Text
  | '.' :: rest =>
    if (rest.takeWhile Text.isAsciiDigit).isEmpty then none
      else some (rest.dropWhile Text.isAsciiDigit)
  | t => some t

/-- Reads a time of day; the seconds may be missing. -/
def time? (t : Text) : Option Text := do
  let (hour, t) ← fixed? 2 t
  let (minute, t) ← fixed? 2 (← expect? ':' t)
  if 23 < hour ∨ 59 < minute then none
  else match t with
    | ':' :: rest =>
      let (second, t) ← fixed? 2 rest
      if second ≤ 60 then fraction? t else none
    | t => some t

/-- Reads the offset from universal time, if there is one. -/
def offset? : Text → Option Text
  | [] => some []
  | c :: rest =>
    if c = 'Z' ∨ c = 'z' then some rest
    else if c = '+' ∨ c = '-' then do
      let (hour, t) ← fixed? 2 rest
      let (minute, t) ← fixed? 2 (← expect? ':' t)
      if hour ≤ 23 ∧ minute ≤ 59 then some t else none
    else none

/-- Whether a text is a date, a time, or a date and a time. -/
def isDatetime (t : Text) : Bool :=
  match date? t with
  | none => time? t == some []
  | some [] => true
  | some (c :: rest) =>
    (c == 'T' || c == 't' || c == ' ') && (time? rest).bind offset? == some []

/-- A scalar. -/
def parse? (t : Text) : Option Item :=
  if t = "true".toList then some (.boolean true)
  else if t = "false".toList then some (.boolean false)
  else if isDatetime t then some (.datetime t)
  else integer? t <|> float? t

example :
    wholeDigits? "1_000".toList = some "1000".toList ∧ wholeDigits? "01".toList = none := by decide
example :
    isLooselyGrouped "1_a-".toList = true ∧ isLooselyGrouped "1__0".toList = false := by decide
example :
    isDatetime "1979-05-27 07:32:00.999".toList =
      true ∧ isDatetime "1979-13-27".toList = false := by
  decide

end ShaderWeave.Toml.Scalar
