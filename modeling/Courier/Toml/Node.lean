import Courier.Settings.Data

/-! Tables under construction. Who may still add to a table depends on how it came to be. -/
namespace Courier.Toml

open Settings (Data)

inductive Origin where
  /-- It has a header of its own. -/
  | declared
  /-- The header of a table below it names it on the way. -/
  | implied
  /-- A dotted key names it on the way. -/
  | dotted
  deriving DecidableEq

inductive Node where
  | value (d : Data)
  | table (origin : Origin) (entries : List (String × Node))
  /-- One table for each header; only the last can be added to. -/
  | tables (items : List (List (String × Node)))

abbrev Entries := List (String × Node)

namespace Entries

/-- Replaces what stands at a key by what `f` makes of it. -/
def update (f : Option Node → Option Node) (key : String) : Entries → Option Entries
  | [] => (f none).map fun node => [(key, node)]
  | (k, node) :: rest =>
    if k == key then (f (some node)).map fun node => (k, node) :: rest
    else (update f key rest).map ((k, node) :: ·)

/-- Changes the table at the end of a path. Tables missing on the way are made, with `way` as
their origin; a dotted key does not lead through a declared table. -/
def within (way : Origin) (f : Origin → Entries → Option Entries) :
    List String → Origin → Entries → Option Entries
  | [], origin, entries => f origin entries
  | key :: path, _, entries => entries.update (fun
      | none => (within way f path way []).map (.table way)
      | some (.value _) => none
      | some (.table origin inner) =>
        if way = .dotted && origin = .declared then none
        else (within way f path origin inner).map (.table origin)
      | some (.tables items) =>
        match items.getLast? with
        | none => none
        | some inner =>
          (within way f path .declared inner).map fun inner => .tables (items.dropLast ++ [inner]))
      key

def insertNew (key : String) (node : Node) (entries : Entries) : Option Entries :=
  entries.update (fun | none => some node | some _ => none) key

/-- Sets a dotted key in a table. The table next to the value is the one the path starts from or
one that a dotted key has made. -/
def assign (path : List String) (value : Data) (origin : Origin) (entries : Entries) :
    Option Entries :=
  match path.reverse with
  | [] => none
  | key :: way =>
    within .dotted (fun last inner =>
      if way.isEmpty || last = .dotted then inner.insertNew key (.value value) else none)
      way.reverse origin entries

/-- Opens the table of a header, which must be new unless another header implied it. -/
def declare (path : List String) (entries : Entries) : Option Entries :=
  match path.reverse with
  | [] => none
  | key :: way =>
    within .implied (fun _ inner => inner.update (fun
      | none => some (.table .declared [])
      | some (.table .implied old) => some (.table .declared old)
      | some _ => none) key) way.reverse .declared entries

/-- Opens one more table in the list of tables of a header. -/
def append (path : List String) (entries : Entries) : Option Entries :=
  match path.reverse with
  | [] => none
  | key :: way =>
    within .implied (fun _ inner => inner.update (fun
      | none => some (.tables [[]])
      | some (.tables items) => some (.tables (items ++ [[]]))
      | some _ => none) key) way.reverse .declared entries

end Entries

mutual

def Node.data : Node → Data
  | .value d => d
  | .table _ entries => .table (Node.dataOfEntries entries)
  | .tables items => .list (Node.dataOfItems items)

def Node.dataOfEntries : List (String × Node) → Settings.Table
  | [] => []
  | (key, node) :: rest => (key, node.data) :: Node.dataOfEntries rest

def Node.dataOfItems : List (List (String × Node)) → List Data
  | [] => []
  | entries :: rest => .table (Node.dataOfEntries entries) :: Node.dataOfItems rest

end

def Entries.table (entries : Entries) : Settings.Table := Node.dataOfEntries entries

end Courier.Toml
