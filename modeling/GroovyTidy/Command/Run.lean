import GroovyTidy.Command.Arguments
import GroovyTidy.Command.Log
import GroovyTidy.Format.Registry
import GroovyTidy.Ignore.Walk
import GroovyTidy.Settings.Layers

set_option autoImplicit false

/-!
Runs of the program on files and on standard input.
-/
namespace GroovyTidy.Command

/-- What a run found, from the best to the worst. -/
inductive Status where
  | clean
  | wouldChange
  | failed
  deriving DecidableEq, Repr

namespace Status

def code : Status → Nat
  | .clean => 0
  | .wouldChange => 1
  | .failed => 2

def worst (left right : Status) : Status :=
  if left.code < right.code then right else left

end Status

/-- What a run reads and writes. -/
structure World where
  files : FileTree
  output : String
  errors : String

namespace World

def print (world : World) (text : String) : World :=
  { world with output := world.output ++ text }

def complain (world : World) (text : String) : World :=
  { world with errors := world.errors ++ text }

/-- Tells of an event if enough messages are asked for. -/
def log (verbosity : Nat) (world : World) (event : Event) : World :=
  if event.level.threshold ≤ verbosity then world.complain event.line else world

end World

/-- How sources are treated. -/
structure Plan where
  stage : Stage
  mode : Mode
  settings : Settings
  verbosity : Nat

namespace Plan

def log (plan : Plan) (world : World) (event : Event) : World :=
  world.log plan.verbosity event

/-- How an error of formatting is told. A refused source is shown around the place. -/
def describe (path source : String) : FormatError → String
  | .malformed error => path ++ ": " ++ error.withExcerpt source ++ "\n"
  | error => path ++ ": " ++ error.message ++ "\n"

/-- The output of a stage as it is printed: formatted text as it is, and all else with a line
end. -/
def printed (plan : Plan) (output : String) : String :=
  if plan.stage = .formatted ∨ output.toList.getLast? = some '\n' then output else output ++ "\n"

/-- Writes formatted text in place of a source, unless something would be lost. -/
def overwrite (plan : Plan) (language : Format) (path source output : String) (world : World) :
    Status × World :=
  if output = source then (.clean, world)
  else if !language.isLossless source output then
    (.clean, plan.log world (.inProgram .warn
      ("not writing " ++ path ++ ": formatting would drop source text it cannot print")))
  else
    match world.files.write path (Text.toBytes output) with
    | .ok files => (.clean, plan.log { world with files } (.inProgram .info ("formatted " ++ path)))
    | .error failure =>
      (.failed, world.complain ("Error writing " ++ path ++ ": " ++ failure.message ++ "\n"))

def process (plan : Plan) (language : Format) (path source : String) (world : World) :
    Status × World :=
  let world := (Event.ofSource plan.stage source).foldl plan.log world
  match plan.stage.run language plan.settings.layout source with
  | .error error => (.failed, world.complain (describe path source error))
  | .ok output =>
    match plan.mode with
    | .print => (.clean, world.print (plan.printed output))
    | .check =>
      if output = source then (.clean, world)
      else (.wouldChange, world.complain ("Would reformat: " ++ path ++ "\n"))
    | .write => plan.overwrite language path source output world

/-- The format for a path, or the one for Groovy if none claims it. -/
def languageFor (plan : Plan) (path : String) (world : World) : Format × World :=
  match Registry.standard.forPath path with
  | .ok language => (language, world)
  | .error _ =>
    (.groovy,
      plan.log world (.inProgram .debug ("no format claims extension, using groovy path=" ++ path)))

def processFile (plan : Plan) (several : Bool) (path : String) (world : World) : Status × World :=
  match world.files.read path with
  | .error failure =>
    (.failed, world.complain ("Error reading " ++ path ++ ": " ++ failure.message ++ "\n"))
  | .ok bytes =>
    match Text.ofBytes? bytes with
    | none =>
      (.clean, plan.log world (.inProgram .warn ("skipping " ++ path ++ ": not valid UTF-8")))
    | some source =>
      let (language, world) := plan.languageFor path world
      let world :=
        if several && plan.mode == .print then world.print ("==> " ++ path ++ " <==\n") else world
      plan.process language path source world

def processFiles (plan : Plan) (several : Bool) : List String → World → Status × World
  | [], world => (.clean, world)
  | path :: paths, world =>
    let (first, world) := plan.processFile several path world
    let (rest, world) := processFiles plan several paths world
    (first.worst rest, world)

/-- The files that a path stands for: those of a directory with the right extension, or the path
itself. -/
def expand (plan : Plan) (tree : FileTree) (path : String) : List String :=
  if tree.isDirectory path then (Ignore.walk tree path).filter plan.settings.matchesExtension
  else [path]

/-- Drops paths that have the same components as the one before them. -/
def dropRepeated : List String → List String
  | [] => []
  | path :: paths =>
    match dropRepeated paths with
    | next :: rest =>
      if Path.components path = Path.components next then path :: rest else path :: next :: rest
    | [] => [path]

/-- The files that paths stand for, in the order of their components and each once. -/
def collect (plan : Plan) (tree : FileTree) (paths : List String) : List String :=
  dropRepeated ((paths.flatMap (plan.expand tree)).mergeSort fun left right =>
    !Path.precedes (Path.components right) (Path.components left))

def processPaths (plan : Plan) (paths : List String) (world : World) : Status × World :=
  let files := plan.collect world.files paths
  let world :=
    plan.log world ⟨.debug, "groovy_fmt::files",
      "collected input files count=" ++ toString files.length⟩
  plan.processFiles (1 < files.length) files world

/-- Treats the source on standard input, which cannot be written to. -/
def processInput (plan : Plan) (input : List UInt8) (world : World) : Status × World :=
  match Text.ofBytes? input with
  | none => (.failed, world.complain "Error reading stdin: stream did not contain valid UTF-8\n")
  | some source =>
    if plan.mode = .write then
      { plan with mode := .print }.process .groovy "<stdin>" source
        (plan.log world (.inProgram .warn "--write has no effect on stdin, printing instead"))
    else plan.process .groovy "<stdin>" source world

end Plan

/-- A width as an integer of 64 bits with a sign. -/
def signedWidth (width : Nat) : Settings.Value :=
  .scalar none (.integer (Int.bmod width (Nat.pow 2 64)))

/-- The layers of settings for a run: a file of the project, one that is named, and widths that are
given. -/
def Invocation.layers (invocation : Invocation) : List Settings.Layer :=
  [.optionalFile "groovy-fmt.toml"] ++ (invocation.config.map Settings.Layer.file).toList ++
    (invocation.printWidth.map fun width =>
      .override "format.print_width" (signedWidth width)).toList ++
    (invocation.indentWidth.map fun width =>
      .override "format.indent_width" (signedWidth width)).toList

/-- How a run ended. -/
inductive Outcome where
  /-- The command line is not understood. -/
  | misused
  /-- There are no settings. -/
  | unsettled (error : Settings.Error)
  | finished (status : Status) (world : World)

/-- What the program tells someone who misuses it. -/
def usage : String :=
  "usage: groovy-fmt [--check | --write] [--stage <stage>] [--print-width <n>] " ++
    "[--indent-width <n>] [--config <file>] [-v]... [<path>]...\n"

namespace Outcome

def code : Outcome → Nat
  | .misused | .unsettled _ => 2
  | .finished status _ => status.code

def output : Outcome → String
  | .misused | .unsettled _ => ""
  | .finished _ world => world.output

def errors : Outcome → String
  | .misused => usage
  | .unsettled error => "Configuration error: " ++ error.message ++ "\n"
  | .finished _ world => world.errors

def files (before : FileTree) : Outcome → FileTree
  | .misused | .unsettled _ => before
  | .finished _ world => world.files

end Outcome

namespace Invocation

/-- What a run does once it has its settings. -/
def runWith (invocation : Invocation) (settings : Settings) (files : FileTree)
    (input : List UInt8) : Outcome :=
  let plan : Plan := ⟨invocation.shownStage, invocation.mode, settings, invocation.verbosity⟩
  let world : World := ⟨files, "", ""⟩
  if plan.stage ≠ .formatted ∧ plan.mode ≠ .print then
    .finished .failed (world.complain "--check and --write only apply to the format stage\n")
  else
    let treated :=
      if invocation.paths.isEmpty then plan.processInput input world
      else plan.processPaths invocation.paths world
    .finished treated.1 treated.2

/-- Runs the program on files and standard input. -/
def run (invocation : Invocation) (files : FileTree) (input : List UInt8) : Outcome :=
  match Settings.load files invocation.layers with
  | .error error => .unsettled error
  | .ok settings => invocation.runWith settings files input

end Invocation

def versionLine : String := "groovy-fmt 0.1.0\n"

def run (arguments : List String) (files : FileTree) (input : List UInt8) : Outcome :=
  match parse arguments with
  | .refused => .misused
  | .version => .finished .clean ⟨files, versionLine, ""⟩
  | .run invocation => invocation.run files input

end GroovyTidy.Command
