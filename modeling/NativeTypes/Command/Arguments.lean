/-! # Arguments of the command line

The arguments are flags for the whole program, then one of two commands with flags and options of
its own. A long flag is spelled out after two dashes; short ones follow a single dash, several in a
row if need be. The value of an option follows as the next argument, after an equals sign, or right
after a short letter, and it may not be empty. Nothing may be given twice. The first thing that is
wrong, or the first request for help, decides the answer. -/

namespace NativeTypes

/-- What the program is asked to do. -/
inductive Command where
  | print (input : String) (config : Option String) (strict : Bool)
  | validate (input : String)
deriving DecidableEq

namespace Command

/-- What the arguments amount to. -/
inductive Request where
  | run (c : Command)
  | help
  | rejected
deriving DecidableEq

/-- A flag or an option. -/
structure Switch where
  long : String
  short : Option Char
  takesValue : Bool := false
deriving DecidableEq

/-- The request for help. -/
def helpSwitch : Switch := ⟨"help", some 'h', false⟩

/-- The switches of the whole program. -/
def programSwitches : List Switch :=
  [⟨"verbose", some 'v', false⟩, ⟨"debug", some 'd', false⟩, helpSwitch]

/-- The option for the container. -/
def inputSwitch : Switch := ⟨"input", some 'i', true⟩

/-- The option for the settings of the printer. -/
def configSwitch : Switch := ⟨"config", some 'c', true⟩

/-- The flag for all or nothing. -/
def strictSwitch : Switch := ⟨"strict", none, false⟩

/-- The switches of the command `print`. -/
def printSwitches : List Switch :=
  [inputSwitch, configSwitch, strictSwitch, helpSwitch]

/-- The switches of the command `validate`. -/
def validateSwitches : List Switch :=
  [inputSwitch, helpSwitch]

/-- The switches that were given, each with its value, if it takes one. -/
abbrev Given := List (Switch × Option String)

/-- Why the reading of switches stops early. -/
inductive Stop where
  | help
  | rejected

/-- The request that a stop amounts to. -/
def Stop.request : Stop → Request
  | help => .help
  | rejected => .rejected

/-- Takes a switch, which may not have been given before, and a value, which may not be empty. -/
def take (given : Given) (w : Switch) (value : Option String) : Except Stop Given :=
  if given.any (·.1 = w) then .error .rejected
  else if w = helpSwitch then .error .help
  else if value = some "" then .error .rejected
  else .ok (given ++ [(w, value)])

/-- Takes a long switch, without its dashes; an option without a value waits for one. -/
def takeLong (switches : List Switch) (given : Given) (s : String) :
    Except Stop (Given × Option Switch) :=
  let name := String.ofList (s.toList.takeWhile (· ≠ '='))
  let rest := s.toList.dropWhile (· ≠ '=')
  match switches.find? (·.long = name) with
  | none => .error .rejected
  | some w =>
    match w.takesValue, rest with
    | true, [] => .ok (given, some w)
    | true, _ :: value => (take given w (some (String.ofList value))).map fun g => (g, none)
    | false, [] => (take given w none).map fun g => (g, none)
    | false, _ :: _ => .error .rejected

/-- Takes short switches, without their dash. -/
def takeShort (switches : List Switch) (given : Given) : List Char →
    Except Stop (Given × Option Switch)
  | [] => .ok (given, none)
  | c :: r =>
    match switches.find? (·.short = some c) with
    | none => .error .rejected
    | some w =>
      if w.takesValue then
        match r with
        | [] => .ok (given, some w)
        | '=' :: value => (take given w (some (String.ofList value))).map fun g => (g, none)
        | value => (take given w (some (String.ofList value))).map fun g => (g, none)
      else
        match take given w none with
        | .ok g => takeShort switches g r
        | .error e => .error e

/-- Takes one argument that starts with a dash. -/
def takeDashed (switches : List Switch) (given : Given) (s : List Char) :
    Except Stop (Given × Option Switch) :=
  match s with
  | '-' :: '-' :: r => takeLong switches given (String.ofList r)
  | _ => takeShort switches given (s.drop 1)

/-- Whether an argument is a switch: a dash with something after it. -/
def isDashed (s : List Char) : Bool :=
  s.head? == some '-' && s.length > 1

/-- Takes the switches of a command, which are all that may follow it. Two dashes alone say that no
switch follows, so nothing may follow them. -/
def takeAll (switches : List Switch) (given : Given) (waiting : Option Switch) :
    List String → Except Stop Given
  | [] => if waiting.isSome then .error .rejected else .ok given
  | s :: r =>
    if s = "--" then if waiting.isNone ∧ r.isEmpty then .ok given else .error .rejected
    else if isDashed s.toList then
      if waiting.isSome then .error .rejected
      else
        match takeDashed switches given s.toList with
        | .ok (g, w) => takeAll switches g w r
        | .error e => .error e
    else
      match waiting with
      | some w =>
        match take given w (some s) with
        | .ok g => takeAll switches g none r
        | .error e => .error e
      | none => .error .rejected

/-- The value of an option. -/
def valueOf (given : Given) (w : Switch) : Option String :=
  (given.find? (·.1 = w)).bind (·.2)

/-- The request of the arguments after the name of a command. -/
def requestOf (name : String) (args : List String) : Request :=
  if name = "print" then
    match takeAll printSwitches [] none args with
    | .error e => e.request
    | .ok g =>
      match valueOf g inputSwitch with
      | some input => .run (.print input (valueOf g configSwitch) (g.any (·.1 = strictSwitch)))
      | none => .rejected
  else if name = "validate" then
    match takeAll validateSwitches [] none args with
    | .error e => e.request
    | .ok g =>
      match valueOf g inputSwitch with
      | some input => .run (.validate input)
      | none => .rejected
  else if name = "help" then
    match args with
    | [] => .help
    | [topic] => if topic ∈ ["print", "validate", "help"] then .help else .rejected
    | _ => .rejected
  else .rejected

/-- The request of arguments, after the switches that were given for the whole program. -/
def parseFrom (given : Given) : List String → Request
  | [] => .rejected
  | s :: r =>
    if s ≠ "--" ∧ isDashed s.toList then
      match takeDashed programSwitches given s.toList with
      | .ok (g, _) => parseFrom g r
      | .error e => e.request
    else requestOf s r

/-- **What the arguments ask for.** -/
def parse (args : List String) : Request :=
  parseFrom [] args

end Command

end NativeTypes
