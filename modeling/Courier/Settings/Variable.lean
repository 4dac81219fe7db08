import Courier.Text.Blank
import Courier.Toml.Value

/-! Settings from environment variables: which name sets which key, and what a value means. -/
namespace Courier.Settings

namespace Variable

def isSeparator (c : Char) : Bool := c ∈ [',', '{', '}', '[', ']']

def blanks : Scan Unit := Scan.skip Text.isAsciiBlank

/-- A whole number without its sign, if `text` is one. -/
def digits? (text : List Char) : Option Nat :=
  if !text.isEmpty && text.all (Text.isDigit 10) then some (Text.digitsValue 10 text) else none

/-- Numbers have 64 bits; only those below zero are signed, and minus zero. -/
def integer? (text : List Char) : Option Data :=
  let (negative, ds) := Decimal.sign text
  match digits? ds with
  | none => none
  | some n =>
    if negative then (if n ≤ 0x8000000000000000 then some (.signed (-(n : Int))) else none)
    else if n < 0x10000000000000000 then some (.unsigned n) else none

/-- What a bare text stands for: a number if it reads as one, else itself. -/
def bare (text : List Char) : Data :=
  match Decimal.pointed? text with
  | some x => .float x
  | none => (integer? text).getD (.text (String.ofList text))

def quoted : Scan String := do
  Scan.char '"'
  String.ofList <$> Toml.basic

def key : Scan String := do
  if (← Scan.peek) = some '"' then quoted else String.ofList <$> Scan.span1 Toml.isBareKey

/-- The items between an opening and a closing bracket; a comma may follow the last. -/
def delimited (item : Scan α) (close : Char) : Nat → Scan (List α)
  | 0 => failure
  | bound + 1 => do
    if (← Scan.peek) = some close then
      Scan.char close
      pure []
    else
      let first ← item
      if (← Scan.peek) = some ',' then
        Scan.char ','
        let more ← delimited item close bound
        pure (first :: more)
      else
        Scan.char close
        pure [first]

def pair (value : Scan Data) : Scan (String × Data) := do
  blanks
  let k ← key
  blanks
  Scan.char '='
  pure (k, ← value)

/-- A value with the blanks around it, which may open `levels` brackets. -/
def value : Nat → Scan Data
  | 0 => failure
  | levels + 1 => do
    blanks
    let v ← core levels
    blanks
    pure v
where
  core (levels : Nat) : Scan Data :=
    (do Scan.word "true"; pure (.bool true)) <|> (do Scan.word "false"; pure (.bool false)) <|>
    do
      match ← Scan.peek with
      | some '{' => do
        Scan.char '{'
        let ps ← delimited (pair (value levels)) '}' ((← Scan.remaining) + 1)
        pure (.table (ps.foldl (fun (table : Table) (k, v) => table.set k v) []))
      | some '[' => do
        Scan.char '['
        let items ← delimited (value levels) ']' ((← Scan.remaining) + 1)
        pure (.list items)
      | some '"' => Data.text <$> quoted
      | some '\'' => do
        Scan.char '\''
        let c ← Scan.any
        Scan.char '\''
        pure (.text c.toString)
      | _ => do
        let text ← Scan.span (!isSeparator ·)
        pure (bare (Text.strip Text.isBlank text))

/-- What the value of a variable stands for; one that is no value to its end is a text. -/
def read (raw : String) : Data :=
  (Scan.whole (value (raw.length + 1)) raw.toList).getD (.text raw)

/-- Two underscores are a step down, as a dot is. -/
def steps : List Char → List Char
  | '_' :: '_' :: cs => '.' :: steps cs
  | c :: cs => c :: steps cs
  | [] => []

/-- The key a variable sets, if it sets one: its name starts with MQ_ in any case, and no part
of the rest is empty. -/
def path? (name : String) : Option (List String) :=
  let name := Text.trim name
  if "MQ_".toList.isPrefixOf (Text.upperAscii name).toList then
    let parts := Text.parts '.' (Text.lowerAscii (String.ofList (steps (name.toList.drop 3))))
    if parts.any String.isEmpty then none else some parts
  else none

end Variable

end Courier.Settings
