import ThemeRepair.Run.Basic

/-!
# Arguments of the command line

The arguments are read from left to right, and the first thing that ends the reading decides: a
request for help or for the version, or something that cannot be understood.  Options may stand
ahead of the command as well as behind it; an option that takes a value takes it after an equals
sign or from the next argument, which must not look like an option itself.  No option that takes
a value may stand twice on one side of the command, and the side behind the command wins.
-/

namespace ThemeRepair
namespace CommandLine

/-- The commands. -/
inductive Command where
  | check
  | fix
deriving DecidableEq, Repr

/-- The word for a command. -/
def Command.name : Command → String
  | check => "check"
  | fix => "fix"

/-- The command that a word names. -/
def Command.ofName? (word : String) : Option Command :=
  if word = "check" then some .check else if word = "fix" then some .fix else none

/-- What a run is asked to do. -/
structure Request where
  command : Command
  settingsFile : Option String
  root : Option String
  pass : Pass
  style : EventStyle
  write : Bool
deriving DecidableEq, Repr

/-- Why arguments cannot be understood. -/
inductive UsageError where
  | unknownArgument (argument : String)
  | missingValue (option : String)
  | invalidValue (option value : String)
  | unexpectedValue (flag : String)
  | repeated (option : String)
  | missingCommand
deriving DecidableEq, Repr

/-- The wording of a refusal. -/
def UsageError.message : UsageError → String
  | unknownArgument argument => "unexpected argument '" ++ argument ++ "'"
  | missingValue option => "'--" ++ option ++ "' needs a value"
  | invalidValue option value => "'" ++ value ++ "' is no value for '--" ++ option ++ "'"
  | unexpectedValue flag => "'--" ++ flag ++ "' takes no value"
  | repeated option => "'--" ++ option ++ "' cannot be used more than once"
  | missingCommand => "a command is needed: check or fix"

/-- Why the reading of arguments ends before a request is complete. -/
inductive Stop where
  | help
  | version
  | usage (e : UsageError)
deriving DecidableEq, Repr

/-! ## Options and flags -/

/-- Options that take a value. -/
inductive ValueOption where
  | settingsFile
  | root
  | pass
  | style
deriving DecidableEq, Repr

/-- Options that take none. -/
inductive Flag where
  | verbose
  | dryRun
  | help
  | version
deriving DecidableEq, Repr

/-- The name of an option. -/
def ValueOption.name : ValueOption → String
  | settingsFile => "config"
  | root => "root"
  | pass => "pass"
  | style => "progress"

/-- The name of a flag. -/
def Flag.name : Flag → String
  | verbose => "verbose"
  | dryRun => "dry-run"
  | help => "help"
  | version => "version"

/-- The option of a name, ahead of the command or behind it. -/
def ValueOption.ofName? (command : Option Command) (name : String) : Option ValueOption :=
  match command with
  | none => if name = "config" then some .settingsFile else none
  | some _ => [settingsFile, root, pass, style].find? fun o => o.name == name

/-- The flag of a name, ahead of the command or behind it. -/
def Flag.ofName? (command : Option Command) (name : String) : Option Flag :=
  let flags :=
    match command with
    | none => [verbose, help, version]
    | some .check => [verbose, help]
    | some .fix => [verbose, help, dryRun]
  flags.find? fun f => f.name == name

/-- The flag of a letter, ahead of the command or behind it. -/
def Flag.ofLetter? (command : Option Command) (letter : Char) : Option Flag :=
  if letter = 'v' then some .verbose
  else if letter = 'h' then some .help
  else if letter = 'V' ∧ command = none then some .version
  else none

/-- The pass of a name. -/
def pass? (name : String) : Option Pass :=
  if name = "schema" then some .schema
  else if name = "templates" then some .templates
  else if name = "all" then some .all
  else none

/-- The style of a name in which events are written. -/
def style? (name : String) : Option EventStyle :=
  if name = "off" then some .off
  else if name = "human" then some .human
  else if name = "json" then some .json
  else none

/-! ## Choices -/

/-- What has been chosen on one side of the command. -/
structure Choices where
  settingsFile : Option String := none
  root : Option String := none
  pass : Option Pass := none
  style : Option EventStyle := none
  dryRun : Bool := false
deriving DecidableEq, Repr

/-- The value of an option that has none yet. -/
def choose {α : Type} (option : ValueOption) (chosen new : Option α) (value : String) :
    Except Stop (Option α) :=
  match chosen, new with
  | some _, _ => .error (.usage (.repeated option.name))
  | none, none => .error (.usage (.invalidValue option.name value))
  | none, some v => .ok (some v)

/-- A path as the value of an option. -/
def path? (value : String) : Option String := if value.isEmpty then none else some value

namespace Choices

/-- Chooses the value of an option. -/
def set (c : Choices) (option : ValueOption) (value : String) : Except Stop Choices :=
  match option with
  | .settingsFile => do
    return { c with settingsFile := ← choose option c.settingsFile (path? value) value }
  | .root => do return { c with root := ← choose option c.root (path? value) value }
  | .pass => do return { c with pass := ← choose option c.pass (pass? value) value }
  | .style => do return { c with style := ← choose option c.style (style? value) value }

/-- Raises a flag.  There is nothing more to say however verbose a run is to be. -/
def raise (c : Choices) (flag : Flag) : Except Stop Choices :=
  match flag with
  | .verbose => .ok c
  | .dryRun =>
    if c.dryRun then .error (.usage (.repeated flag.name)) else .ok { c with dryRun := true }
  | .help => .error .help
  | .version => .error .version

/-- Raises the flag of a letter. -/
def raiseLetter (command : Option Command) (c : Choices) (letter : Char) : Except Stop Choices :=
  match Flag.ofLetter? command letter with
  | some flag => c.raise flag
  | none => .error (.usage (.unknownArgument ("-" ++ letter.toString)))

end Choices

/-! ## Reading -/

/-- What an argument looks like. -/
inductive Word where
  /-- Two dashes: no option follows. -/
  | endOfOptions
  | long (name : String) (attached : Option String)
  | short (letters : List Char)
  | plain
deriving DecidableEq, Repr

/-- The name of a long option, and what stands behind the equals sign. -/
def splitAttached (t : List Char) : String × Option String :=
  match t.dropWhile (· != '=') with
  | [] => (String.ofList t, none)
  | _ :: value => (String.ofList (t.takeWhile (· != '=')), some (String.ofList value))

/-- What an argument looks like. -/
def Word.ofArgument (argument : String) : Word :=
  match argument.toList with
  | ['-', '-'] => .endOfOptions
  | '-' :: '-' :: t => .long (splitAttached t).1 (splitAttached t).2
  | '-' :: c :: t => .short (c :: t)
  | _ => .plain

/-- Where the reading stands: behind which command, if any, what settings file was chosen ahead of
it, and what has been chosen on this side. -/
structure Reading where
  command : Option Command := none
  outerSettingsFile : Option String := none
  choices : Choices := {}
deriving DecidableEq, Repr

namespace Reading

/-- The request that all arguments together make. -/
def finish (r : Reading) : Except Stop Request :=
  match r.command with
  | none => .error (.usage .missingCommand)
  | some command =>
    .ok {
      command := command
      settingsFile := r.choices.settingsFile.or r.outerSettingsFile
      root := r.choices.root
      pass := r.choices.pass.getD .all
      style := r.choices.style.getD .off
      write := command = .fix && !r.choices.dryRun }

/-- Goes on behind a command. -/
def enter (r : Reading) (command : Command) : Reading :=
  { command := some command, outerSettingsFile := r.choices.settingsFile, choices := {} }

/-- What asking for help on words comes to. -/
def helpOn (topics : List String) : Stop :=
  match topics with
  | [] => .help
  | [topic] =>
    if topic = "help" ∨ (Command.ofName? topic).isSome then .help
    else .usage (.unknownArgument topic)
  | topic :: other :: _ =>
    if (Command.ofName? topic).isSome then .usage (.unknownArgument other)
    else .usage (.unknownArgument topic)

/-- Reads the arguments that are left. -/
def read (r : Reading) : List String → Except Stop Request
  | [] => r.finish
  | argument :: rest =>
    match Word.ofArgument argument with
    | .endOfOptions =>
      match rest with
      | [] => r.finish
      | other :: _ => .error (.usage (.unknownArgument other))
    | .long name attached =>
      match ValueOption.ofName? r.command name, Flag.ofName? r.command name, attached with
      | some option, _, some value =>
        match r.choices.set option value with
        | .ok choices => read { r with choices := choices } rest
        | .error stop => .error stop
      | some option, _, none =>
        match rest with
        | [] => .error (.usage (.missingValue option.name))
        | value :: rest =>
          if Word.ofArgument value = .plain then
            match r.choices.set option value with
            | .ok choices => read { r with choices := choices } rest
            | .error stop => .error stop
          else .error (.usage (.missingValue option.name))
      | none, some flag, some _ => .error (.usage (.unexpectedValue flag.name))
      | none, some flag, none =>
        match r.choices.raise flag with
        | .ok choices => read { r with choices := choices } rest
        | .error stop => .error stop
      | none, none, _ => .error (.usage (.unknownArgument argument))
    | .short letters =>
      match letters.foldlM (Choices.raiseLetter r.command) r.choices with
      | .ok choices => read { r with choices := choices } rest
      | .error stop => .error stop
    | .plain =>
      match r.command, Command.ofName? argument with
      | none, some command => read (r.enter command) rest
      | none, none =>
        .error (if argument = "help" then helpOn rest else .usage (.unknownArgument argument))
      | some _, _ => .error (.usage (.unknownArgument argument))

end Reading

/-- The request that arguments make. -/
def Request.ofArguments (arguments : List String) : Except Stop Request :=
  Reading.read {} arguments

end CommandLine
end ThemeRepair
