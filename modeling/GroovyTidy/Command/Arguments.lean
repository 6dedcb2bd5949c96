import GroovyTidy.Format.Stage
import GroovyTidy.Settings.Basic

set_option autoImplicit false

/-!
Arguments of the command line. The options `-h` and `--help`, which print a text on all the others
and end with code zero, are left out together with that text; here they are refused as unknown ones
are.
-/
namespace GroovyTidy.Command

inductive Mode where
  | print
  | check
  | write
  deriving DecidableEq, Repr

/-- What a run is asked to do. -/
structure Invocation where
  paths : List String := []
  check : Bool := false
  write : Bool := false
  stage : Option Stage := none
  printWidth : Option Nat := none
  indentWidth : Option Nat := none
  config : Option String := none
  verbosity : Nat := 0
  deriving DecidableEq, Repr

inductive Request where
  | run (invocation : Invocation)
  | version
  /-- The command line is not understood. -/
  | refused
  deriving DecidableEq, Repr

/-- Without paths the source is on standard input. -/
def Request.readsInput : Request → Bool
  | .run invocation => invocation.paths.isEmpty
  | .version | .refused => false

inductive Flag where
  | check
  | write
  | verbose
  | version
  deriving DecidableEq, Repr

/-- Options that take a value. -/
inductive Setting where
  | stage
  | printWidth
  | indentWidth
  | config
  deriving DecidableEq, Repr

inductive Switch where
  | flag (flag : Flag)
  | setting (setting : Setting)
  deriving DecidableEq, Repr

def longSwitch? (name : String) : Option Switch :=
  match name with
  | "check" => some (.flag .check)
  | "write" => some (.flag .write)
  | "verbose" => some (.flag .verbose)
  | "version" => some (.flag .version)
  | "stage" => some (.setting .stage)
  | "print-width" => some (.setting .printWidth)
  | "indent-width" => some (.setting .indentWidth)
  | "config" => some (.setting .config)
  | _ => none

def shortSwitch? : Char → Option Switch
  | 'w' => some (.flag .write)
  | 'v' => some (.flag .verbose)
  | 'V' => some (.flag .version)
  | 's' => some (.setting .stage)
  | 'c' => some (.setting .config)
  | _ => none

namespace Invocation

def mode (invocation : Invocation) : Mode :=
  if invocation.check then .check else if invocation.write then .write else .print

def shownStage (invocation : Invocation) : Stage :=
  invocation.stage.getD .formatted

/-- Sets a flag. Only the one for more messages may be given again. -/
def setFlag (invocation : Invocation) : Flag → Option Invocation
  | .check => if invocation.check then none else some { invocation with check := true }
  | .write => if invocation.write then none else some { invocation with write := true }
  | .verbose => some { invocation with verbosity := invocation.verbosity + 1 }
  | .version => some invocation

def give {α : Type} (current value : Option α) : Option (Option α) :=
  match current, value with
  | none, some value => some (some value)
  | _, _ => none

def set (invocation : Invocation) (setting : Setting) (value : String) : Option Invocation :=
  match setting with
  | .stage =>
    (give invocation.stage (Stage.ofName? value)).map fun stage => { invocation with stage }
  | .printWidth =>
    (give invocation.printWidth (Settings.natural? value)).map fun printWidth =>
      { invocation with printWidth }
  | .indentWidth =>
    (give invocation.indentWidth (Settings.natural? value)).map fun indentWidth =>
      { invocation with indentWidth }
  | .config =>
    (give invocation.config (if value.isEmpty then none else some value)).map fun config =>
      { invocation with config }

/-- Adds a path, which must not be empty. -/
def addPath (invocation : Invocation) (path : String) : Option Invocation :=
  if path.isEmpty then none else some { invocation with paths := invocation.paths ++ [path] }

def addPaths (invocation : Invocation) (paths : List String) : Option Invocation :=
  paths.foldlM addPath invocation

end Invocation

/-- A value does not look like an option. A single dash is a value. -/
def isValue (argument : String) : Bool :=
  argument.toList.head? != some '-' || argument = "-"

/-- What options ask for so far. -/
inductive Progress where
  | going (invocation : Invocation)
  /-- An option waits for its value. -/
  | waiting (invocation : Invocation) (setting : Setting)
  | version
  | refused
  deriving DecidableEq, Repr

/-- Goes on with an invocation, unless there is none. -/
def Progress.ofOption : Option Invocation → Progress
  | some invocation => .going invocation
  | none => .refused

/-- Reads short options that stand together. One that takes a value takes what follows it, after an
equals sign or without. -/
def shortOptions (invocation : Invocation) : List Char → Progress
  | [] => .going invocation
  | c :: rest =>
    match shortSwitch? c with
    | none => .refused
    | some (.flag .version) => .version
    | some (.flag flag) =>
      match invocation.setFlag flag with
      | some invocation => shortOptions invocation rest
      | none => .refused
    | some (.setting setting) =>
      if rest.isEmpty then .waiting invocation setting
      else .ofOption (invocation.set setting
        (String.ofList (if rest.head? = some '=' then rest.drop 1 else rest)))

def longOption (invocation : Invocation) (argument : List Char) : Progress :=
  let name := argument.takeWhile (· != '=')
  let value? :=
    if name.length < argument.length then some (argument.drop (name.length + 1)) else none
  match longSwitch? (String.ofList name), value? with
  | some (.flag .version), none => .version
  | some (.flag flag), none => .ofOption (invocation.setFlag flag)
  | some (.setting setting), none => .waiting invocation setting
  | some (.setting setting), some value => .ofOption (invocation.set setting (String.ofList value))
  | _, _ => .refused

def readArgument (invocation : Invocation) (argument : String) : Progress :=
  match argument.toList with
  | '-' :: '-' :: rest => longOption invocation rest
  | '-' :: c :: rest => shortOptions invocation (c :: rest)
  | _ => .ofOption (invocation.addPath argument)

/-- Reads arguments. After two dashes there are only paths. -/
def readArguments : Progress → List String → Progress
  | .going invocation, argument :: rest =>
    if argument = "--" then .ofOption (invocation.addPaths rest)
    else readArguments (readArgument invocation argument) rest
  | .waiting invocation setting, argument :: rest =>
    if isValue argument then readArguments (.ofOption (invocation.set setting argument)) rest
    else .refused
  | progress, _ => progress

/-- What a command line asks for. Checking and writing exclude each other. -/
def parse (arguments : List String) : Request :=
  match readArguments (.going {}) arguments with
  | .going invocation => if invocation.check && invocation.write then .refused else .run invocation
  | .version => .version
  | .waiting _ _ | .refused => .refused

end GroovyTidy.Command
