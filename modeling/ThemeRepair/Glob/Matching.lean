import ThemeRepair.Glob.Pattern

/-!
# Matching a glob

A glob is matched against the bytes of a path.  The tokens are taken one after the other, and what
is kept between them is only which places of the path have been reached, so the work is bounded by
the length of the glob times that of the path.  An alternative that stands for no text at all
counts for nothing beside others.
-/

namespace ThemeRepair
namespace Glob

/-! ## Bytes -/

/-- The bytes of a character. -/
def charBytes (c : Char) : List UInt8 := String.utf8EncodeChar c

/-- The byte ranges that a range of characters is written as: the bytes of both ends, those where
they meet joined to a range. -/
def byteRanges (r : Char × Char) : List (UInt8 × UInt8) :=
  let single := fun b : UInt8 => (b, b)
  if r.1 = r.2 then (charBytes r.1).map single
  else
    match (charBytes r.1).getLast?, charBytes r.2 with
    | some low, high :: rest =>
      (charBytes r.1).dropLast.map single ++ (low, high) :: rest.map single
    | _, _ => []

/-- The byte ranges of a class. -/
def CharClass.bytes (c : CharClass) : List (UInt8 × UInt8) := c.ranges.flatMap byteRanges

/-- A byte that a class admits. -/
def CharClass.admits (c : CharClass) (b : UInt8) : Bool :=
  (c.bytes.any fun r => r.1 ≤ b && b ≤ r.2) != c.negated

/-- The byte that separates the names of a path. -/
def separator : UInt8 := 0x2f

/-! ## Places -/

/-- For each place of a path, from the one before its first byte to the one behind its last,
whether it has been reached. -/
abbrev Reached := List Bool

namespace Reached

/-- Only the place before the first byte. -/
def start (bytes : List UInt8) : Reached := true :: bytes.map fun _ => false

/-- The places behind one byte that passes a test. -/
def step (test : UInt8 → Bool) (bytes : List UInt8) (r : Reached) : Reached :=
  false :: List.zipWith (fun reached b => reached && test b) r bytes

/-- The reached places and all behind them; all of them where one was reached before. -/
def onward : (before : Bool) → Reached → Reached
  | _, [] => []
  | before, reached :: rest => (before || reached) :: onward (before || reached) rest

/-- The places behind any bytes. -/
def skip (r : Reached) : Reached := onward false r

/-- The places that one or the other holds. -/
def either (r s : Reached) : Reached := List.zipWith or r s

/-- The places behind no bytes, or behind any bytes up to a separator. -/
def skipDirectories (bytes : List UInt8) (r : Reached) : Reached :=
  either r (step (· == separator) bytes r.skip)

/-- No place. -/
def nowhere (r : Reached) : Reached := r.map fun _ => false

/-- The place behind the last byte has been reached. -/
def isAtEnd (r : Reached) : Bool := r.getLast? == some true

end Reached

/-! ## Tokens -/

mutual

/-- A token that stands for no text at all. -/
def Token.isVoid : Token → Bool
  | .alternatives branches => areVoid branches
  | _ => false

/-- Tokens in a row that stand for no text at all. -/
def isVoidRow : List Token → Bool
  | [] => true
  | t :: ts => t.isVoid && isVoidRow ts

/-- Branches all of which stand for no text at all. -/
def areVoid : List (List Token) → Bool
  | [] => true
  | branch :: branches => isVoidRow branch && areVoid branches

end

mutual

/-- The places behind what a token stands for. -/
def Token.advance (bytes : List UInt8) : Token → Reached → Reached
  | .literal c, r => (charBytes c).foldl (fun r x => r.step (· == x) bytes) r
  | .anyByte, r => r.step (fun _ => true) bytes
  | .anyBytes, r => r.skip
  | .leadingDirectories, r => r.skipDirectories bytes
  | .innerDirectories, r => (r.step (· == separator) bytes).skipDirectories bytes
  | .trailingPath, r => (r.step (· == separator) bytes).skip
  | .charClass c, r => r.step c.admits bytes
  | .alternatives branches, r => if areVoid branches then r else advanceSome bytes branches r

/-- The places behind what tokens in a row stand for. -/
def advanceRow (bytes : List UInt8) : List Token → Reached → Reached
  | [], r => r
  | t :: ts, r => advanceRow bytes ts (t.advance bytes r)

/-- The places behind what one of several branches stands for. -/
def advanceSome (bytes : List UInt8) : List (List Token) → Reached → Reached
  | [], r => r.nowhere
  | branch :: branches, r =>
    if isVoidRow branch then advanceSome bytes branches r
    else (advanceRow bytes branch r).either (advanceSome bytes branches r)

end

end Glob

/-- A glob that has been read. -/
structure Glob where
  row : List Glob.Token

namespace Glob

/-- Reads a glob. -/
def ofString (glob : String) : Except PatternError Glob := do return ⟨← parse glob⟩

/-- A path, given relative to the root of a search, matches the glob.  A double star by itself
matches everything. -/
def isMatch (g : Glob) (path : String) : Bool :=
  match g.row with
  | [.leadingDirectories] => true
  | tokens =>
    let bytes := path.toUTF8.data.toList
    (advanceRow bytes tokens (Reached.start bytes)).isAtEnd

end Glob
end ThemeRepair
