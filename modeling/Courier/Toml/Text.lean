import Courier.Text.Digits
import Courier.Text.Scan

/-! Quoted texts: in double quotes with escapes, in single quotes without, and both in threes
over several lines. Line ends are single newlines here. -/
namespace Courier.Toml

/-- Characters that may stand in a comment or a quoted text: controls other than the tab may not. -/
def isPlain (c : Char) : Bool := c == '\t' || (' ' ≤ c && c != '\x7f')

def isPlainOrNewline (c : Char) : Bool := isPlain c || c == '\n'

def escaped? : Char → Option Char
  | 'b' => some '\x08'
  | 't' => some '\t'
  | 'n' => some '\n'
  | 'f' => some '\x0c'
  | 'r' => some '\r'
  | '"' => some '"'
  | '\\' => some '\\'
  | _ => none

/-- Replaces the escapes; outside of them only characters in `plain` may stand. -/
def unescape (plain : Char → Bool) : List Char → Option (List Char)
  | [] => some []
  | '\\' :: 'u' :: a :: b :: c :: d :: cs => do
    pure ((← Text.codePoint? [a, b, c, d]) :: (← unescape plain cs))
  | '\\' :: 'U' :: a :: b :: c :: d :: e :: f :: g :: h :: cs => do
    pure ((← Text.codePoint? [a, b, c, d, e, f, g, h]) :: (← unescape plain cs))
  | '\\' :: c :: cs => do
    pure ((← escaped? c) :: (← unescape plain cs))
  | c :: cs => do
    guard (plain c && c != '\\')
    pure (c :: (← unescape plain cs))

/-- Splits after the first double quote that no backslash protects; the quote is dropped. -/
def upToQuote : List Char → Option (List Char × List Char)
  | [] => none
  | '\\' :: c :: cs => (upToQuote cs).map fun (inner, rest) => ('\\' :: c :: inner, rest)
  | c :: cs =>
    if c = '"' then some ([], cs)
    else (upToQuote cs).map fun (inner, rest) => (c :: inner, rest)

/-- Splits after the first three quotes in a row; up to two more before them belong to the text.
With `escapes`, a backslash protects the character after it. -/
def upToThreeQuotes (quote : Char) (escapes : Bool) : List Char → Option (List Char × List Char)
  | [] => none
  | [_] => none
  | c :: d :: cs =>
    if escapes && c = '\\' then
      (upToThreeQuotes quote escapes cs).map fun (inner, rest) => (c :: d :: inner, rest)
    else
      let quotes := ((c :: d :: cs).takeWhile (· = quote)).length
      if 3 ≤ quotes then
        let kept := min (quotes - 3) 2
        some (List.replicate kept quote, (c :: d :: cs).drop (kept + 3))
      else (upToThreeQuotes quote escapes (d :: cs)).map fun (inner, rest) => (c :: inner, rest)

def isBlank (c : Char) : Bool := c == ' ' || c == '\t'

/-- Drops every backslash that ends a line, with the blanks and line ends after it. -/
def joinLines (joining : Bool) : List Char → List Char
  | [] => []
  | '\\' :: c :: cs =>
    if ((c :: cs).dropWhile isBlank).head? = some '\n' then joinLines true (c :: cs)
    else '\\' :: c :: joinLines false cs
  | c :: cs =>
    if joining && (isBlank c || c = '\n') then joinLines true cs else c :: joinLines false cs

def dropFirstNewline : List Char → List Char
  | '\n' :: cs => cs
  | cs => cs

def basic : Scan (List Char) := fun cs => do
  let (inner, rest) ← upToQuote cs
  pure (← unescape isPlain inner, rest)

def literal : Scan (List Char) := do
  let inner ← Scan.span (· != '\'')
  Scan.char '\''
  guard (inner.all isPlain)
  pure inner

def basicLines : Scan (List Char) := fun cs => do
  let (inner, rest) ← upToThreeQuotes '"' true (dropFirstNewline cs)
  pure (← unescape isPlainOrNewline (joinLines false inner), rest)

def literalLines : Scan (List Char) := fun cs => do
  let (inner, rest) ← upToThreeQuotes '\'' false (dropFirstNewline cs)
  guard (inner.all isPlainOrNewline)
  pure (inner, rest)

def quotedLine : Scan String := do
  let inner ← (do Scan.char '"'; basic) <|> (do Scan.char '\''; literal)
  pure (String.ofList inner)

/-- A quoted text; three quotes open one of several lines, whatever follows. -/
def quoted : Scan String := fun cs =>
  match cs with
  | '"' :: '"' :: '"' :: cs => (basicLines.map String.ofList) cs
  | '\'' :: '\'' :: '\'' :: cs => (literalLines.map String.ofList) cs
  | cs => quotedLine cs

end Courier.Toml
