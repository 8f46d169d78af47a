/-!
# Glob patterns

A glob is read in two steps.  First its characters become *symbols*: plain and escaped characters,
the wildcards, the marks of alternatives, and character classes as a whole.  Then the symbols
become a sequence of *tokens*, in which alternatives nest and a double star that stands as a
whole path component has its own meaning.
-/

namespace ThemeRepair
namespace Glob

/-- Why a glob cannot be read. -/
inductive PatternError where
  | unclosedClass
  | invalidRange (low high : Char)
  | unopenedAlternatives
  | unclosedAlternatives
  | danglingEscape
deriving DecidableEq, Repr

/-- A character class: ranges of characters, the ends included, or all that lie in none of
them. -/
structure CharClass where
  negated : Bool
  ranges : List (Char × Char)
deriving DecidableEq, Repr

/-- The marks that a glob is written with. -/
inductive Symbol where
  | plain (c : Char)
  | escaped (c : Char)
  | question
  | star
  | openBrace
  | closeBrace
  | comma
  | charClass (c : CharClass)
deriving DecidableEq, Repr

/-! ## Symbols -/

/-- A class that has been read in part: its ranges, the last one first, whether anything has been
read behind its opening, and whether a dash waits for the end of a range. -/
structure OpenClass where
  negated : Bool
  ranges : List (Char × Char)
  started : Bool
  dash : Bool

/-- Where the reading of symbols stands. -/
inductive ReadState where
  | between
  | escape
  | classStart
  | inClass (c : OpenClass)

/-- The class that ends here; a dash that has waited in vain stands for itself. -/
def OpenClass.close (c : OpenClass) : CharClass :=
  ⟨c.negated, (if c.dash then ('-', '-') :: c.ranges else c.ranges).reverse⟩

/-- Reads one more character of a class: `none` where it closes the class. -/
def OpenClass.add (c : OpenClass) (x : Char) : Except PatternError (Option OpenClass) :=
  if x = ']' ∧ c.started then .ok none
  else if x = '-' ∧ c.started ∧ !c.dash then .ok (some { c with dash := true })
  else
    match c.dash, c.ranges with
    | true, (low, _) :: ranges =>
      if x < low then .error (.invalidRange low x)
      else .ok (some { c with ranges := (low, x) :: ranges, dash := false, started := true })
    | _, ranges =>
      .ok (some { c with ranges := (x, x) :: ranges, dash := false, started := true })

/-- The symbols of a glob. -/
def symbols : ReadState → List Char → Except PatternError (List Symbol)
  | .between, [] => .ok []
  | .escape, [] => .error .danglingEscape
  | .classStart, [] => .error .unclosedClass
  | .inClass _, [] => .error .unclosedClass
  | .between, c :: cs =>
    if c = '\\' then symbols .escape cs
    else if c = '[' then symbols .classStart cs
    else do
      let rest ← symbols .between cs
      let symbol : Symbol :=
        if c = '?' then .question
        else if c = '*' then .star
        else if c = '{' then .openBrace
        else if c = '}' then .closeBrace
        else if c = ',' then .comma
        else .plain c
      return symbol :: rest
  | .escape, c :: cs => do
    let rest ← symbols .between cs
    return .escaped c :: rest
  | .classStart, c :: cs =>
    if c = '!' ∨ c = '^' then symbols (.inClass ⟨true, [], false, false⟩) cs
    else do
      match ← OpenClass.add ⟨false, [], false, false⟩ c with
      | some cls => symbols (.inClass cls) cs
      | none => symbols .between cs
  | .inClass cls, c :: cs => do
    match ← cls.add c with
    | some cls' => symbols (.inClass cls') cs
    | none =>
      let rest ← symbols .between cs
      return .charClass cls.close :: rest

/-! ## Tokens -/

/-- What a glob is made of. -/
inductive Token where
  /-- The character itself. -/
  | literal (c : Char)
  /-- Any one byte. -/
  | anyByte
  /-- Any bytes, separators too. -/
  | anyBytes
  /-- A double star as the first component: any directories. -/
  | leadingDirectories
  /-- A double star between separators: a separator and any directories. -/
  | innerDirectories
  /-- A double star as the last component: a separator and anything below it. -/
  | trailingPath
  /-- A byte that the class admits. -/
  | charClass (c : CharClass)
  /-- One of several sequences. -/
  | alternatives (branches : List (List Token))

/-- Alternatives that have been opened: the tokens before them, the last one first, and the
branches that are complete, the last one first. -/
structure OpenAlternatives where
  outer : List Token
  branches : List (List Token)

/-- The tokens read so far, those of the innermost open branch with the last one first, and the
character that was read last. -/
structure Parsed where
  current : List Token
  enclosing : List OpenAlternatives
  last : Option Char

/-- Adds a token. -/
def Parsed.push (p : Parsed) (t : Token) (last : Char) : Parsed :=
  { p with current := t :: p.current, last := some last }

/-- A double star that is no path component of its own is two stars. -/
def Parsed.pushTwoStars (p : Parsed) : Parsed :=
  { p with current := .anyBytes :: .anyBytes :: p.current, last := some '*' }

/-- Puts a double star in place of the separator before it; right behind another double star it
adds nothing. -/
def Parsed.mergeDoubleStar (p : Parsed) (t : Token) (last : Char) : Parsed :=
  match p.current with
  | .leadingDirectories :: _ => { p with last := some last }
  | .trailingPath :: _ => { p with last := some last }
  | _ :: outer => { p with current := t :: outer, last := some last }
  | [] => { p with current := [t], last := some last }

/-- The character before a double star lets it be a path component of its own. -/
def Parsed.followsBoundary (p : Parsed) : Bool :=
  p.last == some '/' || (!p.enclosing.isEmpty && (p.last == some ',' || p.last == some '{'))

/-- The next symbol ends an open branch. -/
def endsBranch : List Symbol → Bool
  | .comma :: _ => true
  | .closeBrace :: _ => true
  | _ => false

/-- The tokens that symbols make up, behind those read so far. -/
def tokens : Parsed → List Symbol → Except PatternError (List Token)
  | p, [] => if p.enclosing.isEmpty then .ok p.current.reverse else .error .unclosedAlternatives
  | p, .star :: .star :: .plain '/' :: rest =>
    if p.current.isEmpty then tokens (p.push .leadingDirectories '/') rest
    else if p.followsBoundary then tokens (p.mergeDoubleStar .innerDirectories '/') rest
    else tokens (p.pushTwoStars.push (.literal '/') '/') rest
  | p, .star :: .star :: rest =>
    if p.current.isEmpty then
      if rest.isEmpty then tokens (p.push .leadingDirectories '*') rest
      else tokens p.pushTwoStars rest
    else if p.followsBoundary && (rest.isEmpty || (!p.enclosing.isEmpty && endsBranch rest)) then
      tokens (p.mergeDoubleStar .trailingPath '*') rest
    else tokens p.pushTwoStars rest
  | p, .star :: rest => tokens (p.push .anyBytes '*') rest
  | p, .question :: rest => tokens (p.push .anyByte '?') rest
  | p, .plain c :: rest => tokens (p.push (.literal c) c) rest
  | p, .escaped c :: rest => tokens (p.push (.literal c) c) rest
  | p, .charClass c :: rest => tokens (p.push (.charClass c) ']') rest
  | p, .openBrace :: rest =>
    tokens ⟨[], ⟨p.current, []⟩ :: p.enclosing, some '{'⟩ rest
  | p, .comma :: rest =>
    match p.enclosing with
    | [] => tokens (p.push (.literal ',') ',') rest
    | a :: enclosing =>
      tokens ⟨[], ⟨a.outer, p.current.reverse :: a.branches⟩ :: enclosing, some ','⟩ rest
  | p, .closeBrace :: rest =>
    match p.enclosing with
    | [] => .error .unopenedAlternatives
    | a :: enclosing =>
      tokens
        ⟨.alternatives (p.current.reverse :: a.branches).reverse :: a.outer, enclosing, some '}'⟩
        rest

/-- The tokens of a glob. -/
def parse (glob : String) : Except PatternError (List Token) := do
  tokens ⟨[], [], none⟩ (← symbols .between glob.toList)

end Glob
end ThemeRepair
