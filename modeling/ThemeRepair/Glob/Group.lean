import ThemeRepair.Glob.Expression

/-!
# Several globs together

The globs of a group are read one after the other, and then made ready to be asked together.  Some
need no regular expression, because they only compare the beginning or the end of a path.  Of the
others, those that end in an extension have an expression each, asked only about paths with that
extension; the rest have one expression in common, of which each is a numbered pattern.  An
expression that nests too deep is refused, those of the first kind first.
-/

namespace ThemeRepair
namespace Glob

/-- How a glob of a group is asked. -/
inductive Treatment where
  /-- By comparing text. -/
  | comparison
  /-- By its own expression, about paths with its extension only. -/
  | extension
  /-- As a pattern of the common expression. -/
  | common
deriving DecidableEq, Repr

/-- A token that is a character itself. -/
def Token.isLiteral : Token → Bool
  | .literal _ => true
  | _ => false

/-- Any bytes and a fixed text behind them, which is not only a separator. -/
def isEnding : List Token → Bool
  | [.anyBytes, .literal c] => c != '/'
  | .anyBytes :: t :: ts => (t :: ts).all Token.isLiteral
  | _ => false

/-- A fixed text and anything behind it. -/
def isBeginning (tokens : List Token) : Bool :=
  tokens.dropLast.all Token.isLiteral &&
    match tokens.getLast? with
    | some .anyBytes => 1 < tokens.length
    | some .trailingPath => true
    | _ => false

/-- Tokens, the last one first, that end in an extension. -/
def endsInExtension : List Token → Bool
  | .literal c :: ts => if c = '.' then true else c != '/' && endsInExtension ts
  | _ => false

/-- Characters, at least one. -/
def isText (tokens : List Token) : Bool := !tokens.isEmpty && tokens.all Token.isLiteral

/-- A comparison of text is enough to ask a glob. -/
def isComparison : List Token → Bool
  | .leadingDirectories :: tokens => isText tokens || isEnding tokens
  | tokens => isText tokens || isEnding tokens || isBeginning tokens

/-- How a glob is asked. -/
def treatment (g : Glob) : Treatment :=
  if isComparison g.row then .comparison
  else if endsInExtension g.row.reverse then .extension
  else .common

/-- Why globs cannot be asked together. -/
inductive GroupError where
  | unreadable (glob : String)
  /-- The expression of a glob with an extension nests too deep. -/
  | deepExpression (expression : String)
  /-- A pattern of the common expression nests too deep. -/
  | deepPattern (index : Nat)
deriving DecidableEq, Repr

/-- The wording of a refusal. -/
def GroupError.message : GroupError → String
  | unreadable glob => "Invalid glob: '" ++ glob ++ "'"
  | deepExpression expression =>
    "error parsing glob '" ++ expression ++ "': error parsing pattern 0"
  | deepPattern index => "error parsing pattern " ++ toString index

/-- The globs of a group that are asked in some way. -/
def treated (how : Treatment) (globs : List Glob) : List Glob :=
  globs.filter fun g => g.treatment == how

/-- Makes globs ready to be asked together. -/
def prepare (globs : List Glob) : Except GroupError (List Glob) :=
  match (treated .extension globs).find? isTooDeep, (treated .common globs).findIdx? isTooDeep with
  | some g, _ => .error (.deepExpression g.expression)
  | none, some index => .error (.deepPattern index)
  | none, none => .ok globs

/-- Reads a glob of a group. -/
def readOne (glob : String) : Except GroupError Glob :=
  match ofString glob with
  | .ok g => .ok g
  | .error _ => .error (.unreadable glob)

/-- Reads globs and makes them ready to be asked together. -/
def readGroup (globs : List String) : Except GroupError (List Glob) := do
  prepare (← globs.mapM readOne)

/-- A path matches one of several globs. -/
def anyMatch (gs : List Glob) (path : String) : Bool := gs.any fun g => g.isMatch path

end Glob
end ThemeRepair
