import Courier.Files
import Courier.Settings.Basic
import Courier.Settings.Variable
import Courier.Toml.Document

/-! Loading settings: a file of defaults, a file for where the application runs, and the
environment, each overriding the one before. -/
namespace Courier.Settings

/-- Variables by name, in the order in which they were set. -/
abbrev Environment := List (String × String)

inductive LoadError where
  /-- Files that are not what settings are written in. -/
  | malformed (paths : List String)
  | mismatch (m : Mismatch) (source : Option Source)

/-- A path in its shortest form. -/
def displayPath (path : String) : String := "/".intercalate (Files.names path)

/-- The place a value at a path comes from, as failures name it. -/
def Source.describe (path : List String) : Source → String
  | .file place =>
    " for key " ++ Text.quoted (".".intercalate ("default" :: path)) ++
      " in " ++ displayPath place ++ " TOML file"
  | .environment =>
    " for key " ++ Text.quoted (".".intercalate (path.map Text.upperAscii)) ++
      " in `MQ_` environment variable(s)"

/-- What a parser has against a malformed file is not said: its place is held by a text that names
the file. -/
def LoadError.reason : LoadError → String
  | .malformed paths =>
    "\n".intercalate (paths.map fun path => "invalid TOML in " ++ displayPath path ++ " TOML file")
  | .mismatch m none => m.reason
  | .mismatch m (some source) => m.reason ++ source.describe m.path

def LoadError.message (e : LoadError) : String := "Failed to load config: " ++ e.reason

/-- The settings in a file. A file that cannot be opened has none. -/
def fileTable (files : Files) (path : String) : Option Table :=
  match files.read path with
  | .error _ => some []
  | .ok content => (Utf8.decode? content).bind Toml.parse

def environmentTable (environment : Environment) : Table :=
  environment.foldl (fun table (name, raw) =>
    match Variable.path? name with
    | none => table
    | some path =>
      match nest path (Variable.read raw) with
      | .table entries => Data.overrideTable table entries
      | _ => table) []

/-- The files of a directory for a stage, the defaults first. -/
def filePaths (directory stage : String) : List String :=
  [directory ++ "/default.toml", directory ++ "/" ++ stage ++ ".toml"]

/-- The layers for a directory and a stage, which is the name of where the application runs. -/
def layers (files : Files) (environment : Environment) (directory stage : String) :
    Except LoadError (List Layer) :=
  let read := (filePaths directory stage).map fun path => (path, fileTable files path)
  let malformed := (read.filter fun (_, table) => table.isNone).map (·.1)
  if malformed.isEmpty then
    .ok ((read.map fun (path, table) => ⟨.file path, table.getD []⟩) ++
      [⟨.environment, environmentTable environment⟩])
  else .error (.malformed malformed)

/-- The settings that layers come to; a mismatch is put down to the layer it comes from. -/
def ofLayers (layers : List Layer) : Except LoadError Settings :=
  match ofTable (merged layers) with
  | .ok settings => .ok settings
  | .error m =>
    match m with
    | .wrongType path _ _ => .error (.mismatch m (sourceOf layers path))
    | .missing _ => .error (.mismatch m none)

def loadFor (files : Files) (environment : Environment) (directory stage : String) :
    Except LoadError Settings := do
  ofLayers (← layers files environment directory stage)

def stage (environment : Environment) : String :=
  (environment.lookup "APP_ENV").getD "development"

def load (files : Files) (environment : Environment) (directory : String) :
    Except LoadError Settings :=
  loadFor files environment directory (stage environment)

end Courier.Settings
