import Courier.Json.Basic
import Courier.Decimal.Notation

/-! The compact text of a JSON value. -/
namespace Courier.Json

/-- Positional between 1e-5 and 1e15, always with a fraction; else one digit before the point
and a signed exponent. -/
def floatStyle : Decimal.Style := ⟨some (-5), some 15, true, true⟩

/-- Quotes, backslashes and controls are escaped, every other character stands for itself. -/
def escapeChar (c : Char) : List Char :=
  match c with
  | '"' => ['\\', '"']
  | '\\' => ['\\', '\\']
  | '\n' => ['\\', 'n']
  | '\r' => ['\\', 'r']
  | '\t' => ['\\', 't']
  | '\x08' => ['\\', 'b']
  | '\x0c' => ['\\', 'f']
  | c =>
    if c.val < 0x20 then
      ['\\', 'u', '0', '0', Nat.digitChar (c.toNat / 16), Nat.digitChar (c.toNat % 16)]
    else [c]

def printString (s : String) : List Char := '"' :: s.toList.flatMap escapeChar ++ ['"']

def printInt (n : Int) : List Char :=
  (if n < 0 then ['-'] else []) ++ Nat.toDigits 10 n.natAbs

def Number.print : Number → List Char
  | .int n => printInt n
  | .float x => (Decimal.write floatStyle x).toList

mutual

def print : Json → List Char
  | .null => ['n', 'u', 'l', 'l']
  | .bool true => ['t', 'r', 'u', 'e']
  | .bool false => ['f', 'a', 'l', 's', 'e']
  | .num n => n.print
  | .str s => printString s
  | .arr items => '[' :: printItems items ++ [']']
  | .obj members => '\x7b' :: printMembers members ++ ['\x7d']

def printItems : List Json → List Char
  | [] => []
  | [item] => print item
  | item :: rest => print item ++ ',' :: printItems rest

def printMembers : List (String × Json) → List Char
  | [] => []
  | [(name, value)] => printString name ++ ':' :: print value
  | (name, value) :: rest => printString name ++ ':' :: print value ++ ',' :: printMembers rest

end

def compact (j : Json) : String := String.ofList (print j)

end Courier.Json
