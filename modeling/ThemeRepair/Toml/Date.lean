import ThemeRepair.Toml.Number

/-!
# Dates in a settings file

A date, a time of day, or a date and a time of day with or without its offset from Greenwich, in
the digits of the Gregorian calendar.
-/

namespace ThemeRepair
namespace Toml

/-- Reads a number of exactly `count` decimal digits. -/
def fixedDigits? (count : Nat) (t : Text) : Option (Nat × Text) := do
  if (t.take count).length < count then none
  else return (← ofDigits? 10 (t.take count), t.drop count)

/-- Reads a number of two digits that is at most `greatest`, which follows a mark. -/
def part? (mark : Text) (greatest : Nat) (t : Text) : Option (Nat × Text) := do
  let (n, rest) ← fixedDigits? 2 (← Text.after? mark t)
  if n ≤ greatest then some (n, rest) else none

/-- A year with a leap day. -/
def isLeapYear (year : Nat) : Bool := year % 4 == 0 && (year % 100 != 0 || year % 400 == 0)

/-- The number of days in a month. -/
def daysInMonth (year month : Nat) : Nat :=
  if month = 2 then if isLeapYear year then 29 else 28
  else if month = 4 ∨ month = 6 ∨ month = 9 ∨ month = 11 then 30
  else 31

/-- What follows a day of the calendar. -/
def afterDay? (t : Text) : Option Text := do
  let (year, t) ← fixedDigits? 4 t
  let (month, t) ← part? ['-'] 12 t
  let (day, t) ← part? ['-'] (daysInMonth year month) t
  if month = 0 ∨ day = 0 then none else some t

/-- What follows the fraction of a second, if there is one. -/
def afterFraction : Text → Text
  | '.' :: c :: t => if c.isDigit then t.dropWhile Char.isDigit else '.' :: c :: t
  | t => t

/-- What follows a time of day.  The sixtieth second is a leap second. -/
def afterTime? (t : Text) : Option Text := do
  let (_, t) ← part? [] 23 t
  let (_, t) ← part? [':'] 59 t
  let (_, t) ← part? [':'] 60 t
  return afterFraction t

/-- What follows an offset from Greenwich. -/
def afterOffset? : Text → Option Text
  | c :: t =>
    if c = 'Z' ∨ c = 'z' then some t
    else if c = '+' ∨ c = '-' then do
      let (_, t) ← part? [] 23 t
      let (_, t) ← part? [':'] 59 t
      return t
    else none
  | [] => none

/-- What follows the time of day that goes with a day. -/
def afterDayTime? : Text → Option Text
  | c :: t =>
    if c = 'T' ∨ c = 't' ∨ c = ' ' then
      (afterTime? t).map fun rest => (afterOffset? rest).getD rest
    else none
  | [] => none

/-- Reads a date. -/
def date? (t : Text) : Option (Value × Text) := do
  let rest ← ((afterDay? t).map fun rest => (afterDayTime? rest).getD rest).or (afterTime? t)
  return (.date (written t rest), rest)

end Toml
end ThemeRepair
