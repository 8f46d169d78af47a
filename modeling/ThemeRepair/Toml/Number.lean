import ThemeRepair.Toml.Quoted
import ThemeRepair.Toml.Value

/-!
# Numbers in a settings file

Between the digits of a number an underscore may stand, one at a time and never at either end.
An integer has to fit into 64 bits, sign included.  A float without a minus is refused where it is
so large that it would become infinite; `inf` has to be written out.
-/

namespace ThemeRepair
namespace Toml

/-- Reads a run of digits of a base, with underscores between them: the digits alone, and what
follows the run. -/
def digits? (base : Nat) (t : Text) : Option (Text × Text) :=
  let inRun := fun c => (digit? base c).isSome || c == '_'
  let groups := (t.takeWhile inRun).splitOn '_'
  if groups.any List.isEmpty then none else some (groups.flatten, t.dropWhile inRun)

/-- Reads a sign, if there is one: whether it is a minus, and what follows it. -/
def sign : Text → Bool × Text
  | '-' :: t => (true, t)
  | '+' :: t => (false, t)
  | t => (false, t)

/-- Reads decimal digits that do not begin with a zero, unless they are a zero. -/
def whole? (t : Text) : Option (Text × Text) :=
  match digits? 10 t with
  | some ('0' :: _ :: _, _) => none
  | p => p

/-! ## Integers -/

/-- The number of integers of 64 bits that are negative. -/
def integerBound : Nat := Nat.pow 2 63

/-- An integer of 64 bits. -/
def integer64? (n : Int) : Option Value :=
  if -(integerBound : Int) ≤ n ∧ n < integerBound then some (.integer n) else none

/-- The base that two characters at the start of a number announce. -/
def announcedBase? (t : Text) : Option Nat :=
  match t.take 2 with
  | ['0', 'x'] => some 16
  | ['0', 'o'] => some 8
  | ['0', 'b'] => some 2
  | _ => none

/-- Reads an integer. -/
def integer? (t : Text) : Option (Value × Text) :=
  match announcedBase? t with
  | some base => do
    let (digits, rest) ← digits? base (t.drop 2)
    let n ← ofDigits? base digits
    return (← integer64? n, rest)
  | none => do
    let (negative, t) := sign t
    let (digits, rest) ← whole? t
    let n ← ofDigits? 10 digits
    return (← integer64? (if negative then -(n : Int) else n), rest)

/-! ## Floats -/

/-- The least magnitude that is nearer to infinity than to any double: half a step above the
greatest one. -/
def infinityBound : Nat := Nat.pow 2 1024 - Nat.pow 2 970

/-- The number of digits in front of the decimal point of `infinityBound`. -/
def infinityDigits : Nat := 309

/-- The number `mantissa · 10 ^ exponent` is no finite double. -/
def isInfinite (mantissa : Nat) (exponent : Int) : Bool :=
  let length := ((Nat.toDigits 10 mantissa).length : Int) + exponent
  if mantissa = 0 ∨ length < infinityDigits then false
  else if infinityDigits < length then true
  else infinityBound * Nat.pow 10 (-exponent).toNat ≤ mantissa * Nat.pow 10 exponent.toNat

/-- Reads the digits behind a decimal point; there are none where there is no point. -/
def fraction? : Text → Option (Text × Text)
  | '.' :: t => digits? 10 t
  | t => some ([], t)

/-- Reads an exponent; it is zero where there is none. -/
def exponent? : Text → Option (Int × Text)
  | c :: t =>
    if c = 'e' ∨ c = 'E' then do
      let (negative, t) := sign t
      let (digits, rest) ← digits? 10 t
      let n ← ofDigits? 10 digits
      return (if negative then -(n : Int) else n, rest)
    else some (0, c :: t)
  | [] => some (0, [])

/-- What stands in a text in front of its end. -/
def written (t rest : Text) : Text := t.take (t.length - rest.length)

/-- Reads a float in digits. -/
def decimal? (t : Text) : Option (Value × Text) := do
  let (negative, t') := sign t
  let (digits, afterDigits) ← whole? t'
  let (decimals, afterPoint) ← fraction? afterDigits
  let (exponent, rest) ← exponent? afterPoint
  let mantissa ← ofDigits? 10 (digits ++ decimals)
  if rest.length = afterDigits.length then none
  else if !negative && isInfinite mantissa (exponent - decimals.length) then none
  else some (.float (written t rest), rest)

/-- Reads one of the floats that are named. -/
def namedFloat? (t : Text) : Option (Value × Text) := do
  let t' := (sign t).2
  let rest ← (Text.after? "inf".toList t').or (Text.after? "nan".toList t')
  return (.float (written t rest), rest)

/-- Reads a float. -/
def float? (t : Text) : Option (Value × Text) := (decimal? t).or (namedFloat? t)

end Toml
end ThemeRepair
