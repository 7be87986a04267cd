import GenreRelations.CommandLine.Command

/-!
Reading a command line: words name a command, and options may stand anywhere before, among and
behind its operands. Words are read from left to right, and the first mistake counts. An option or
operand is only settled when the next one comes or the line ends, so a mistake about it may be
found behind it.
-/

namespace GenreRelations

namespace CommandLine

/-! ### Words -/

/-- What a word looks like. -/
inductive Word where
  /-- Two dashes: only operands follow. -/
  | escape
  /-- Two dashes and a name, perhaps with a value behind an equals sign. -/
  | long (name : Text) (value : Option Text)
  /-- A dash and letters. -/
  | short (letters : Text)
  | plain (text : Text)
  deriving DecidableEq, Repr

def Word.ofText : Text → Word
  | ['-', '-'] => escape
  | '-' :: '-' :: s =>
    match s.dropWhile (· != '=') with
    | [] => long s none
    | _ :: value => long (s.takeWhile (· != '=')) (some value)
  | ['-'] => plain ['-']
  | '-' :: s => short s
  | s => plain s

/-! ### Flags -/

/-- The flags that every command takes. -/
inductive Flag where
  | debug
  | noColor
  | help
  | version
  deriving DecidableEq, Repr

namespace Flag

def ofName? (s : Text) : Option Flag :=
  if s = "debug".toList then some debug
  else if s = "no-color".toList then some noColor
  else if s = "help".toList then some help
  else if s = "version".toList then some version
  else none

def ofLetter? (c : Char) : Option Flag :=
  if c = 'd' then some debug
  else if c = 'h' then some help
  else if c = 'V' then some version
  else none

end Flag

/-- The flags that stand at one level of the line: before, or behind, the word for a command. -/
structure Flags where
  debug : Nat := 0
  noColor : Bool := false
  deriving DecidableEq, Repr

namespace Flags

def any (fs : Flags) : Bool := fs.debug != 0 || fs.noColor

/-- The greatest number of debug flags that is counted. -/
def greatestDebug : Nat := 255

/-- Adds a flag of the command with the given full name. Colours are turned off once only. -/
def add (fs : Flags) (name : Text) : Flag → Except Usage Flags
  | .debug => .ok { fs with debug := min (fs.debug + 1) greatestDebug }
  | .noColor => if fs.noColor then .error .repeated else .ok { fs with noColor := true }
  | .help => .error .help
  | .version => .error (.version name)

/-- The flags of two levels: those of the inner one count instead of the outer ones. -/
def within (inner outer : Flags) : Flags where
  debug := if inner.debug = 0 then outer.debug else inner.debug
  noColor := inner.noColor || outer.noColor

end Flags

/-! ### The level of one action -/

/-- What was read last and is not settled yet. -/
inductive Pending where
  /-- The option for the format, and its value once that was read. -/
  | format (value : Option Text)
  | operand (value : Text)
  deriving DecidableEq, Repr

/-- What was read behind the word for an action. -/
structure Reading where
  flags : Flags := {}
  format : Option Format := none
  operand : Option Text := none
  pending : Option Pending := none
  deriving DecidableEq, Repr

namespace Reading

/-- Sets the format to the one of a name, unless it is set already. -/
def setFormat (r : Reading) (name : Text) : Except Usage Reading :=
  if r.format.isSome then .error .repeated
  else
    match Format.ofName? name with
    | none => .error .invalidValue
    | some f => .ok { r with format := some f }

def settle (a : Action) (r : Reading) : Except Usage Reading :=
  let settled := { r with pending := none }
  match r.pending with
  | none => .ok r
  | some (.format none) => .error .invalidValue
  | some (.format (some value)) => settled.setFormat value
  | some (.operand value) =>
    if a.accepts value then .ok { settled with operand := some value } else .error .invalidValue

/-- An operand was read, settled or not. -/
def hasOperand (r : Reading) : Bool :=
  r.operand.isSome ||
    match r.pending with
    | some (.operand _) => true
    | _ => false

def addFlag (a : Action) (name : Text) (r : Reading) (f : Flag) : Except Usage Reading := do
  let r ← r.settle a
  return { r with flags := ← r.flags.add name f }

/-- Reads the option for the format, with its value if that is part of the same word. -/
def addFormat (a : Action) (r : Reading) (value : Option Text) : Except Usage Reading := do
  let r ← r.settle a
  match value with
  | none => return { r with pending := some (.format none) }
  | some value => r.setFormat value

def addOperand (a : Action) (r : Reading) (value : Text) : Except Usage Reading :=
  if !a.takesOperand || r.hasOperand then .error .unknownArgument
  else do
    let r ← r.settle a
    return { r with pending := some (.operand value) }

/-- Reads a name behind two dashes. -/
def addLong (a : Action) (name : Text) (r : Reading) (option : Text) (value : Option Text) :
    Except Usage Reading :=
  match Flag.ofName? option with
  | some f => if value.isSome then .error .unexpectedValue else r.addFlag a name f
  | none =>
    if a.takesFormat ∧ option = "format".toList then r.addFormat a value
    else .error .unknownArgument

/-- Reads letters behind a dash. What follows the letter of the format is its value, perhaps
behind an equals sign. -/
def addLetters (a : Action) (name : Text) (r : Reading) : Text → Except Usage Reading
  | [] => .ok r
  | c :: s =>
    match Flag.ofLetter? c with
    | some f => r.addFlag a name f >>= fun r => r.addLetters a name s
    | none =>
      if a.takesFormat ∧ c = 'f' then
        match s with
        | [] => r.addFormat a none
        | '=' :: value => r.addFormat a (some value)
        | value => r.addFormat a (some value)
      else .error .unknownArgument

/-- Reads a word that starts with no dash: the value that an option waits for, or an operand. -/
def addPlain (a : Action) (r : Reading) (w : Text) : Except Usage Reading :=
  match r.pending with
  | some (.format none) => .ok { r with pending := some (.format (some w)) }
  | _ => r.addOperand a w

/-- Reads the words behind the one for an action. -/
def addWords (a : Action) (name : Text) (r : Reading) : List Text → Except Usage Reading
  | [] => r.settle a
  | w :: ws =>
    match Word.ofText w with
    | .escape => ws.foldlM (fun r w => r.addOperand a w) r >>= fun r => r.settle a
    | .long option value => r.addLong a name option value >>= fun r => r.addWords a name ws
    | .short letters => r.addLetters a name letters >>= fun r => r.addWords a name ws
    | .plain w => r.addPlain a w >>= fun r => r.addWords a name ws

end Reading

/-! ### The levels above -/

/-- What the first words of a line can lead to. -/
inductive Branch where
  | action (action : Action)
  | config
  | help
  deriving DecidableEq, Repr

/-- The actions of the program itself. -/
def rootActions : List Action := [.parse, .flatten, .check, .catalog, .aliases, .completion]

/-- The actions that deal with settings. -/
def configActions : List Action := [.showConfig, .configPaths]

/-- The action among these that a word names. -/
def actionOf? (actions : List Action) (w : Text) : Option Action :=
  actions.find? fun a => a.words.getLast? = some w

def rootBranch? (w : Text) : Option Branch :=
  if w = "config".toList then some .config
  else if w = "help".toList then some .help
  else (actionOf? rootActions w).map .action

def configBranch? (w : Text) : Option Branch :=
  if w = "help".toList then some .help else (actionOf? configActions w).map .action

/-- Reads flags behind a dash. -/
def addFlagLetters (name : Text) (fs : Flags) : Text → Except Usage Flags
  | [] => .ok fs
  | c :: s =>
    match Flag.ofLetter? c with
    | some f => fs.add name f >>= fun fs => addFlagLetters name fs s
    | none => .error .unknownArgument

/-- Reads flags up to the word for a branch, and gives the words behind that. -/
def toBranch (branch? : Text → Option Branch) (name : Text) (fs : Flags) :
    List Text → Except Usage (Flags × Branch × List Text)
  | [] => .error (if fs.any then .missingCommand else .nothing)
  | w :: ws =>
    match Word.ofText w with
    | .escape =>
      match ws with
      | [] => .error (if fs.any then .missingCommand else .nothing)
      | v :: _ => .error (if (branch? v).isSome then .unknownArgument else .unknownCommand)
    | .long option value =>
      match Flag.ofName? option with
      | some f =>
        if value.isSome then .error .unexpectedValue
        else fs.add name f >>= fun fs => toBranch branch? name fs ws
      | none => .error .unknownArgument
    | .short letters =>
      addFlagLetters name fs letters >>= fun fs => toBranch branch? name fs ws
    | .plain w =>
      match branch? w with
      | some b => .ok (fs, b, ws)
      | none => .error .unknownCommand

/-- Help on the command that the words name. There is none on words behind it. -/
def helpOn (branch? : Text → Option Branch) : List Text → Usage
  | [] => .help
  | w :: ws =>
    match branch? w with
    | none => .unknownCommand
    | some .config =>
      match ws with
      | [] => .help
      | v :: vs => if (configBranch? v).isSome ∧ vs.isEmpty then .help else .unknownCommand
    | some _ => if ws.isEmpty then .help else .unknownCommand

def programName : Text := "genreguide".toList

def fullName (a : Action) : Text := ['-'].intercalate (programName :: a.words)

/-- Reads the words behind an action, below the given flags. -/
def readAction (outer : Flags) (a : Action) (ws : List Text) : Except Usage Invocation := do
  let r ← ({} : Reading).addWords a (fullName a) ws
  if a.takesOperand ∧ r.operand.isNone then throw .missingOperand
  match a.command? (r.operand.getD []) r.format with
  | none => throw .invalidValue
  | some command =>
    let flags := r.flags.within outer
    return ⟨command, flags.debug, flags.noColor⟩

/-- Reads the words behind the one for settings. -/
def readConfig (outer : Flags) (ws : List Text) : Except Usage Invocation := do
  let name := programName ++ "-config".toList
  match ← toBranch configBranch? name {} ws with
  | (fs, .action a, ws) => readAction (fs.within outer) a ws
  | (_, _, ws) => throw (helpOn configBranch? ws)

/-- The invocation that a command line stands for. -/
def read (ws : List Text) : Except Usage Invocation := do
  match ← toBranch rootBranch? programName {} ws with
  | (fs, .action a, ws) => readAction fs a ws
  | (fs, .config, ws) => readConfig fs ws
  | (_, .help, ws) => throw (helpOn rootBranch? ws)

end CommandLine

end GenreRelations
