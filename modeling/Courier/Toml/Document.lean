import Courier.Toml.Value

/-! Documents: lines that set keys and headers that say in which table. -/
namespace Courier.Toml

open Settings (Data)

inductive Statement where
  | header (path : List String)
  | listHeader (path : List String)
  | assignment (path : List String) (value : Data)

/-- A carriage return before a newline belongs to the line end. -/
def unifyLineEnds : List Char → List Char
  | [] => []
  | '\r' :: '\n' :: cs => '\n' :: unifyLineEnds cs
  | c :: cs => c :: unifyLineEnds cs

/-- What may follow on a line: blanks and a comment. -/
def lineEnd : Scan Unit := do
  blanks
  if (← Scan.peek) = some '#' then comment
  Scan.atEnd <|> Scan.char '\n'

def header : Scan Statement := do
  Scan.char '['
  if (← Scan.peek) = some '[' then
    Scan.char '['
    let path ← key
    Scan.word "]]"
    pure (.listHeader path)
  else
    let path ← key
    Scan.char ']'
    pure (.header path)

def assignment : Scan Statement := do
  let path ← key
  Scan.char '='
  blanks
  let v ← value maxDepth
  pure (.assignment path v)

def line : Scan (List Statement) := do
  blanks
  match ← Scan.peek with
  | none => pure []
  | some '\n' | some '#' => do
    lineEnd
    pure []
  | some '[' => do
    let s ← header
    lineEnd
    pure [s]
  | some _ => do
    let s ← assignment
    lineEnd
    pure [s]

def statements : Scan (List Statement) := do
  let lines ← Scan.manyWhile Option.isSome line ((← Scan.remaining) + 1)
  pure lines.flatten

/-- A document so far: its tables, and the path of the one that assignments go to. -/
structure Draft where
  current : List String
  entries : Entries

def Draft.add (draft : Draft) : Statement → Option Draft
  | .header path => (draft.entries.declare path).map (⟨path, ·⟩)
  | .listHeader path => (draft.entries.append path).map (⟨path, ·⟩)
  | .assignment path v =>
    (draft.entries.within .implied (fun origin inner => inner.assign path v origin)
      draft.current .declared).map (⟨draft.current, ·⟩)

/-- The table a document describes, unless it is malformed or sets something twice. -/
def parse (text : String) : Option Settings.Table := do
  let chars := unifyLineEnds (if text.startsWith "\ufeff" then text.toList.tail else text.toList)
  let ss ← Scan.whole statements chars
  let draft ← ss.foldlM Draft.add ⟨[], []⟩
  pure draft.entries.table

end Courier.Toml
