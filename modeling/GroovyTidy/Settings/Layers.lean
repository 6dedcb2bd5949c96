import GroovyTidy.FileTree
import GroovyTidy.Settings.Basic

set_option autoImplicit false

/-!
Layers of settings: the built-in ones, then files in their order, then single values.
-/
namespace GroovyTidy.Settings

/-- A source of settings. -/
inductive Layer where
  | file (path : String)
  /-- A file that need not be there. -/
  | optionalFile (path : String)
  /-- A value at a path. -/
  | override (path : String) (value : Value)

def builtIn : Value :=
  .table none
    [("format", .table none
        [("print_width", .scalar none (.integer 80)), ("indent_width", .scalar none (.integer 4))]),
      ("files", .table none
        [("extensions", .array none
          (["groovy", "gradle", "gvy", "gy", "gsh"].map fun extension =>
            .scalar none (.text extension)))])]

def plainPath (path : String) : String :=
  "/".intercalate (((Path.components path).filter (· != .current)).map Path.Component.text)

/-- The same path with a further extension on its name. -/
def extendedPath? (path : String) : Option String :=
  (Path.fileName? path).map fun _ => plainPath path ++ ".toml"

/-- The file that a path names, with or without its extension: where it is, and its contents. -/
def findFile (tree : FileTree) (path : String) : Option (String × List UInt8) :=
  let read? (path : String) : Option (String × List UInt8) :=
    (tree.read path).toOption.map (plainPath path, ·)
  match read? path with
  | some found => some found
  | none => (extendedPath? path).bind read?

/-- Puts a field of a file on top of a value. A key that reads as a path is one. -/
def putField (below : Value) (field : String × Value) : Value :=
  below |> field.2.set ((path? field.1).getD [.key field.1])

def putFile (below : Value) (origin : String) (bytes : List UInt8) : Except Error Value :=
  match Toml.parse? (Text.ofBytesLossy (Text.dropByteOrderMark bytes)).toList with
  | none => .error (.malformedFile origin)
  | some fields => .ok ((Value.fieldsOfToml (some origin) fields).foldl putField below)

/-- Puts a layer on top of a value, if it is a file. -/
def putLayer (tree : FileTree) (below : Value) : Layer → Except Error Value
  | .file path =>
    match findFile tree path with
    | some (origin, bytes) => putFile below origin bytes
    | none => .error (.missingFile path)
  | .optionalFile path =>
    match findFile tree path with
    | some (origin, bytes) => putFile below origin bytes
    | none => .ok below
  | .override _ _ => .ok below

/-- The single values of layers, with the paths they are put at. -/
def overrides (layers : List Layer) : Except Error (List (List Step × Value)) :=
  layers.foldlM
    (fun found layer =>
      match layer with
      | .override text value =>
        match path? text with
        | some path => .ok (found ++ [(path, value)])
        | none => .error (.malformedPath text)
      | _ => .ok found)
    []

/-- The settings of layers on top of the built-in ones. Single values stand above all files. -/
def load (tree : FileTree) (layers : List Layer) : Except Error Settings := do
  let overrides ← overrides layers
  let files ← layers.foldlM (putLayer tree) builtIn
  decode (overrides.foldl (fun below change => change.2.set change.1 below) files)

end GroovyTidy.Settings
