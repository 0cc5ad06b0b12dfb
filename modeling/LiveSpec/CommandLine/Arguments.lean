import LiveSpec.Text.Split

/-!
# The arguments of the program

The program has three tasks, each with arguments of its own, and options that can stand before or
after the name of the task. Arguments are read from left to right. A question for help or for the
version is answered where it stands, if all before it is sound; whatever else is wrong is a misuse.

An option takes its value from the same argument or from the next one. That value is looked at only
when the next argument is: so the name of a task is read before the value of an option directly
before it is judged.
-/

namespace LiveSpec.CommandLine

/-- How a report is written. -/
inductive Format where
  | text
  | json
deriving DecidableEq, Repr

/-- When the report is decorated. -/
inductive Decoration where
  | auto
  | always
  | never
deriving DecidableEq, Repr

/-- What the program is asked to do. -/
inductive Task where
  | run (spec : String) (data? output? : Option String) (format : Format)
  | check (spec : String)
  | config (showsDefaults : Bool)
deriving DecidableEq, Repr

/-- A request: a task, and the options that all tasks share. -/
structure Request where
  task : Task
  isQuiet : Bool
  decoration : Decoration
  /-- The file with the configuration. -/
  config? : Option String
deriving DecidableEq, Repr

/-- What the arguments are if they are no request. -/
inductive Refusal where
  | misuse
  | help
  | version (program : String)
deriving DecidableEq, Repr

/-- The name of the program. -/
def programName : String := "concordant"

/-- The values that an option can have. -/
inductive Domain where
  /-- Any text but the empty one. -/
  | path
  | oneOf (words : List String)
deriving DecidableEq, Repr

/-- Says whether a text is a value of an option. -/
def Domain.has (d : Domain) (s : String) : Bool :=
  match d with
  | .path => s != ""
  | .oneOf words => words.contains s

/-- What an option does. -/
inductive Effect where
  | value (d : Domain)
  /-- Set once. -/
  | flag
  /-- Set any number of times. -/
  | count
  | help
  | version
deriving DecidableEq, Repr

/-- An option with its long and its short name. -/
structure OptionSpec where
  name : String
  short : Option Char
  effect : Effect
deriving DecidableEq, Repr

/-- The options of all tasks. -/
def sharedOptions : List OptionSpec := [
  ⟨"verbose", some 'v', .count⟩, ⟨"quiet", some 'q', .flag⟩,
  ⟨"color", none, .value (.oneOf ["auto", "always", "never"])⟩, ⟨"config", some 'c', .value .path⟩,
  ⟨"help", some 'h', .help⟩, ⟨"version", some 'V', .version⟩]

/-- The arguments that can stand in one part of the command line. -/
structure Grammar where
  /-- The program, with the task if it has been named. -/
  program : String
  options : List OptionSpec
  /-- The number of arguments without a name. -/
  places : Nat
  tasks : List String

/-- The part before the name of the task. -/
def outerGrammar : Grammar := ⟨programName, sharedOptions, 0, ["run", "check", "config", "help"]⟩

/-- The part after the name of a task. -/
def taskGrammar (task : String) : Grammar :=
  let own : List OptionSpec :=
    if task = "run" then
      [⟨"data", some 'd', .value .path⟩, ⟨"output", some 'o', .value .path⟩,
        ⟨"format", some 'f', .value (.oneOf ["text", "json"])⟩]
    else if task = "config" then [⟨"defaults", none, .flag⟩]
    else []
  ⟨programName ++ "-" ++ task, own ++ sharedOptions, if task = "config" then 0 else 1, []⟩

/-- An option whose value has not been judged yet, or not even been found. -/
structure Pending where
  option : OptionSpec
  value? : Option String
deriving DecidableEq, Repr

/-- What has been read of one part of the command line. -/
structure Found where
  values : List (String × String)
  flags : List String
  places : List String
  pending? : Option Pending
deriving DecidableEq, Repr

namespace Found

/-- Nothing. -/
def nothing : Found := ⟨[], [], [], none⟩

/-- The value of an option. -/
def value? (f : Found) (name : String) : Option String := f.values.lookup name

/-- Judges the value of the option read last: it has to be there, to fit, and to be the only one. -/
def settle (f : Found) : Except Refusal Found :=
  match f.pending? with
  | none => .ok f
  | some p =>
    match p.option.effect, p.value? with
    | .value d, some v =>
      if d.has v && (f.value? p.option.name).isNone then
        .ok { f with values := f.values ++ [(p.option.name, v)], pending? := none }
      else .error .misuse
    | _, _ => .error .misuse

/-- Reads an option, perhaps with a value in the same argument. -/
def take (f : Found) (g : Grammar) (o : OptionSpec) (attached? : Option String) :
    Except Refusal Found := do
  let f ← f.settle
  match o.effect, attached? with
  | .value _, some v => settle { f with pending? := some ⟨o, some v⟩ }
  | .value _, none => return { f with pending? := some ⟨o, none⟩ }
  | _, some _ => throw .misuse
  | .flag, none =>
    if f.flags.contains o.name then throw .misuse
    return { f with flags := f.flags ++ [o.name] }
  | .count, none => return { f with flags := f.flags ++ [o.name] }
  | .help, none => throw .help
  | .version, none => throw (.version g.program)

/-- Reads an argument with a long name, given without its dashes. -/
def takeLong (f : Found) (g : Grammar) (cs : List Char) : Except Refusal Found :=
  let (name, attached?) :=
    match Text.cutAt? '=' cs with
    | some (name, v) => (String.ofList name, some (String.ofList v))
    | none => (String.ofList cs, none)
  match g.options.find? fun o => o.name == name with
  | some o => f.take g o attached?
  | none => .error .misuse

/-- Reads an argument with short names, given without its dash. All that follows the name of an
option that takes a value is its value, with or without an equals sign. -/
def takeShort (f : Found) (g : Grammar) : List Char → Except Refusal Found
  | [] => .ok f
  | c :: cs =>
    match g.options.find? fun o => o.short == some c with
    | none => .error .misuse
    | some o =>
      match o.effect with
      | .value _ =>
        match cs with
        | [] => f.take g o none
        | '=' :: v => f.take g o (some (.ofList v))
        | v => f.take g o (some (.ofList v))
      | _ => do takeShort (← f.take g o none) g cs

/-- Reads an argument without a name. -/
def takePlace (f : Found) (g : Grammar) (s : String) : Except Refusal Found := do
  if f.places.length ≥ g.places then throw .misuse
  let f ← f.settle
  if s = "" then throw .misuse
  return { f with places := f.places ++ [s] }

/-- Reads arguments that all stand without a name. -/
def takePlaces (f : Found) (g : Grammar) : List String → Except Refusal Found
  | [] => .ok f
  | s :: rest => do takePlaces (← f.takePlace g s) g rest

/-- Says whether an option still waits for its value. -/
def awaitsValue (f : Found) : Bool := (f.pending?.map fun p => p.value?.isNone).getD false

/-- Answers a question for help by the name `help`. A task can be named after it, nothing else. -/
def helpFor (g : Grammar) : List String → Refusal
  | [] => .help
  | [task] => if g.tasks.contains task then .help else .misuse
  | _ => .misuse

/-- Reads a part of the command line. If it ends with the name of a task, that is returned together
with the arguments after it. -/
def read (g : Grammar) (f : Found) :
    List String → Except Refusal (Found × Option (String × List String))
  | [] => .ok (f, none)
  | s :: rest => do
    if !f.awaitsValue && g.tasks.contains s then
      if s = "help" then throw (helpFor g rest) else return (f, some (s, rest))
    match s.toList with
    | ['-', '-'] =>
      if f.awaitsValue then throw .misuse
      return (← f.takePlaces g rest, none)
    | '-' :: '-' :: cs => read g (← f.takeLong g cs) rest
    | '-' :: c :: cs => read g (← f.takeShort g (c :: cs)) rest
    | _ =>
      match f.pending? with
      | some p =>
        if p.value?.isNone then read g { f with pending? := some { p with value? := some s } } rest
        else read g (← f.takePlace g s) rest
      | none => read g (← f.takePlace g s) rest

end Found

/-- The task that was asked for. -/
def taskOf (name : String) (f : Found) : Except Refusal Task :=
  match name, f.places with
  | "run", [spec] =>
    let format := if f.value? "format" = some "json" then Format.json else .text
    .ok (.run spec (f.value? "data") (f.value? "output") format)
  | "check", [spec] => .ok (.check spec)
  | "config", [] => .ok (.config (f.flags.contains "defaults"))
  | _, _ => .error .misuse

/-- The decoration that a word asks for. -/
def decorationOf (word? : Option String) : Decoration :=
  if word? = some "always" then .always else if word? = some "never" then .never else .auto

/-- Reads the arguments of the program. The configuration can be named by the environment as well;
what is said after the name of the task counts before what is said in front of it, and that before
the environment. -/
def Request.read (environment? : Option String) (args : List String) : Except Refusal Request := do
  let (outer, task?) ← Found.nothing.read outerGrammar args
  match task? with
  | none => throw .misuse
  | some (name, rest) =>
    let (inner, _) ← Found.nothing.read (taskGrammar name) rest
    let inner ← inner.settle
    let outer ← outer.settle
    let isNamedTwice := (inner.value? "config").isSome && (outer.value? "config").isSome
    if environment? = some "" && !isNamedTwice then throw .misuse
    let shared? (option : String) : Option String := inner.value? option <|> outer.value? option
    return {
      task := ← taskOf name inner
      isQuiet := (inner.flags ++ outer.flags).contains "quiet"
      decoration := decorationOf (shared? "color")
      config? := shared? "config" <|> environment? }

end LiveSpec.CommandLine
