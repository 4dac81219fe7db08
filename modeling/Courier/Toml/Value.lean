import Courier.Toml.Node
import Courier.Toml.Number
import Courier.Toml.Text

/-! Keys and values. -/
namespace Courier.Toml

open Settings (Data)

def blanks : Scan Unit := Scan.skip isBlank

def isBareKey (c : Char) : Bool := c.isAlphanum || c == '_' || c == '-'

def simpleKey : Scan String :=
  quotedLine <|> (String.ofList <$> Scan.span1 isBareKey)

/-- Keys and tables may be nested this deep, but not deeper. -/
def maxDepth : Nat := 79

/-- A key, or several with dots between them; blanks may surround each. -/
def key : Scan (List String) := do
  let part : Scan String := do
    blanks
    let k ← simpleKey
    blanks
    pure k
  let first ← part
  let more ← Scan.manyWhile (· == some '.') (do Scan.char '.'; part) ((← Scan.remaining) + 1)
  guard (more.length < maxDepth)
  pure (first :: more)

def comment : Scan Unit := do
  Scan.char '#'
  Scan.skip isPlain

/-- Blanks, line ends and comments that a line end closes. -/
def gap : Scan Unit := do
  let piece : Scan Unit := do
    if (← Scan.peek) = some '#' then
      comment
      Scan.char '\n'
    else Scan.skip isPlainGap
  let _ ← Scan.manyWhile (fun c => c.any fun c => isPlainGap c || c == '#') piece
    ((← Scan.remaining) + 1)
where
  isPlainGap (c : Char) : Bool := isBlank c || c == '\n'

/-- The items of a list after its opening bracket; a comma may follow the last. -/
def items (item : Scan Data) : Nat → Scan (List Data)
  | 0 => failure
  | bound + 1 => do
    gap
    if (← Scan.peek) = some ']' then
      Scan.char ']'
      pure []
    else
      let first ← item
      gap
      if (← Scan.peek) = some ',' then
        Scan.char ','
        let more ← items item bound
        pure (first :: more)
      else
        Scan.char ']'
        pure [first]

def pair (value : Scan Data) : Scan (List String × Data) := do
  let path ← key
  Scan.char '='
  blanks
  let v ← value
  blanks
  pure (path, v)

/-- The pairs of a table in braces after its first; no comma follows the last. -/
def morePairs (value : Scan Data) : Nat → Scan (List (List String × Data))
  | 0 => failure
  | bound + 1 => do
    if (← Scan.peek) = some ',' then
      Scan.char ','
      let first ← pair value
      let more ← morePairs value bound
      pure (first :: more)
    else
      Scan.char '}'
      pure []

def pairs (value : Scan Data) : Scan (List (List String × Data)) := do
  blanks
  if (← Scan.peek) = some '}' then
    Scan.char '}'
    pure []
  else
    let first ← pair value
    let more ← morePairs value ((← Scan.remaining) + 1)
    pure (first :: more)

def tableOfPairs (ps : List (List String × Data)) : Option Settings.Table :=
  (ps.foldlM (fun (entries : Entries) (path, v) => entries.assign path v .declared) []).map
    Entries.table

/-- A value that may hold `levels` more of lists and tables inside each other. -/
def value (levels : Nat) : Scan Data := do
  match ← Scan.peek with
  | some '[' =>
    match levels with
    | 0 => failure
    | levels + 1 => do
      Scan.char '['
      let elements ← items (value levels) ((← Scan.remaining) + 1)
      pure (.list elements)
  | some '{' =>
    match levels with
    | 0 => failure
    | levels + 1 => do
      Scan.char '{'
      let table ← fun cs => do
        let (ps, rest) ← pairs (value levels) cs
        pure (← tableOfPairs ps, rest)
      pure (.table table)
  | some '"' | some '\'' => Data.text <$> quoted
  | some 't' => do
    Scan.word "true"
    pure (.bool true)
  | some 'f' => do
    Scan.word "false"
    pure (.bool false)
  | _ => number

end Courier.Toml
