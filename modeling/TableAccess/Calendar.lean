/-! Dates, times of day and moments of the Gregorian calendar, with an optional offset from UTC.
Each has an ISO 8601 text and a literal, the form in which it appears inside lists. -/

namespace TableAccess

structure Date where
  year : Nat
  month : Nat
  day : Nat
  deriving DecidableEq, Repr

/-- A time of day; `offset` is the distance from UTC in microseconds, if it is known. -/
structure Clock where
  hour : Nat
  minute : Nat
  second : Nat
  micro : Nat
  offset : Option Int
  deriving DecidableEq, Repr

structure Moment where
  date : Date
  clock : Clock
  deriving DecidableEq, Repr

namespace Calendar

/-- Decimal digits with zeros in front up to a width. -/
def padded (width n : Nat) : List Char :=
  let ds := Nat.toDigits 10 n
  List.replicate (width - ds.length) '0' ++ ds

/-- Hours, minutes and, where they are not zero, seconds and microseconds of an offset. -/
def offsetText (offset : Int) : List Char :=
  let size := offset.natAbs
  let seconds := size / 1000000
  let micro := size % 1000000
  let tail :=
    if micro ≠ 0 then ':' :: padded 2 (seconds % 60) ++ '.' :: padded 6 micro
    else if seconds % 60 ≠ 0 then ':' :: padded 2 (seconds % 60)
    else []
  (if offset < 0 then '-' else '+') :: padded 2 (seconds / 3600) ++
    ':' :: padded 2 (seconds / 60 % 60) ++ tail

def commaJoin : List (List Char) → List Char
  | [] => []
  | [x] => x
  | x :: xs => x ++ ',' :: ' ' :: commaJoin xs

/-- A length of time as days, seconds and microseconds, the last two not negative. -/
def spanLiteral (micros : Int) : List Char :=
  let days := Int.fdiv micros 86400000000
  let rest := Int.fmod micros 86400000000
  let part (name : String) (n : Int) : List (List Char) :=
    if n = 0 then [] else [name.toList ++ '=' :: (toString n).toList]
  let parts := part "days" days ++ part "seconds" (Int.fdiv rest 1000000) ++
    part "microseconds" (Int.fmod rest 1000000)
  "datetime.timedelta(".toList ++ (if parts.isEmpty then ['0'] else commaJoin parts) ++ [')']

def zoneLiteral (offset : Int) : List Char :=
  if offset = 0 then "datetime.timezone.utc".toList
  else "datetime.timezone(".toList ++ spanLiteral offset ++ [')']

def zoneArgument : Option Int → List (List Char)
  | none => []
  | some offset => ["tzinfo=".toList ++ zoneLiteral offset]

def number (n : Nat) : List Char := Nat.toDigits 10 n

end Calendar

open Calendar

namespace Date

def toText (d : Date) : List Char :=
  padded 4 d.year ++ '-' :: padded 2 d.month ++ '-' :: padded 2 d.day

def toLiteral (d : Date) : List Char :=
  "datetime.date(".toList ++ commaJoin [number d.year, number d.month, number d.day] ++ [')']

/-- Days since the beginning of the calendar, the year beginning in March. -/
def ordinal (d : Date) : Nat :=
  let y := if d.month ≤ 2 then d.year - 1 else d.year
  let m := if d.month ≤ 2 then d.month + 9 else d.month - 3
  365 * y + y / 4 - y / 100 + y / 400 + (153 * m + 2) / 5 + d.day

end Date

namespace Clock

def toText (c : Clock) : List Char :=
  padded 2 c.hour ++ ':' :: padded 2 c.minute ++ ':' :: padded 2 c.second ++
    (if c.micro = 0 then [] else '.' :: padded 6 c.micro) ++
    match c.offset with
    | none => []
    | some offset => offsetText offset

/-- Seconds and microseconds are left out from the right while they are zero. -/
def fields (c : Clock) : List (List Char) :=
  if c.micro ≠ 0 then [number c.hour, number c.minute, number c.second, number c.micro]
  else if c.second ≠ 0 then [number c.hour, number c.minute, number c.second]
  else [number c.hour, number c.minute]

def toLiteral (c : Clock) : List Char :=
  "datetime.time(".toList ++ commaJoin (c.fields ++ zoneArgument c.offset) ++ [')']

/-- Microseconds since midnight. -/
def micros (c : Clock) : Nat := ((c.hour * 60 + c.minute) * 60 + c.second) * 1000000 + c.micro

/-- Two times are equal if both or neither have an offset and they name the same time. -/
def same (a b : Clock) : Bool :=
  match a.offset, b.offset with
  | none, none => a.micros == b.micros
  | some x, some y => (a.micros : Int) - x == b.micros - y
  | _, _ => false

end Clock

namespace Moment

/-- The ISO text, with `sep` between the date and the time. -/
def toText (sep : Char) (m : Moment) : List Char := m.date.toText ++ sep :: m.clock.toText

def toLiteral (m : Moment) : List Char :=
  "datetime.datetime(".toList ++
    commaJoin ([number m.date.year, number m.date.month, number m.date.day] ++ m.clock.fields ++
      zoneArgument m.clock.offset) ++ [')']

def micros (m : Moment) : Nat := m.date.ordinal * 86400000000 + m.clock.micros

def same (a b : Moment) : Bool :=
  match a.clock.offset, b.clock.offset with
  | none, none => a.micros == b.micros
  | some x, some y => (a.micros : Int) - x == b.micros - y
  | _, _ => false

end Moment

end TableAccess
