import Courier.Settings.Data

/-! Layers of settings, and what they come to when the later ones override the earlier. -/
namespace Courier.Settings

inductive Source where
  | file (path : String)
  | environment
  deriving DecidableEq

structure Layer where
  source : Source
  table : Table

mutual

/-- Two tables are merged key by key; anything else is replaced. -/
def Data.override : Data → Data → Data
  | .table older, .table newer => .table (Data.overrideTable older newer)
  | _, newer => newer

def Data.overrideTable (older : Table) : Table → Table
  | [] => older
  | (key, newer) :: rest =>
    let value := match older.get? key with
      | none => newer
      | some old => Data.override old newer
    Data.overrideTable (older.set key value) rest

end

/-- A value under a path of keys, each in a table of its own. -/
def nest (path : List String) (value : Data) : Data :=
  path.foldr (fun key inner => .table [(key, inner)]) value

/-- All layers in one, the first at the bottom. -/
def merged (layers : List Layer) : Table :=
  layers.foldl (fun table layer => Data.overrideTable table layer.table) []

/-- What stands at a path; the items of a list are named by their numbers. -/
def Data.at? : Data → List String → Option Data
  | d, [] => some d
  | .table entries, key :: path => (Table.get? entries key).bind fun d => d.at? path
  | .list items, key :: path =>
    (items.zipIdx.find? fun (_, n) => toString n == key).bind fun (d, _) => d.at? path
  | _, _ :: _ => none

/-- The last layer that has a value at a path: it is the one whose value, or whose part of a
table, is found there. -/
def sourceOf (layers : List Layer) (path : List String) : Option Source :=
  (layers.reverse.find? fun layer => ((Data.table layer.table).at? path).isSome).map (·.source)

end Courier.Settings
