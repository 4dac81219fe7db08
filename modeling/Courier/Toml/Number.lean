import Courier.Decimal.Nearest
import Courier.Settings.Data
import Courier.Text.Scan

/-! Numbers, dates and times. -/
namespace Courier.Toml

open Settings (Data)

/-- Digits of a base, with single underscores between them, which are dropped. -/
def digitsAhead (base : Nat) : List Char → List Char × List Char
  | '_' :: c :: cs =>
    if Text.isDigit base c then
      let (ds, rest) := digitsAhead base cs
      (c :: ds, rest)
    else ([], '_' :: c :: cs)
  | c :: cs =>
    if Text.isDigit base c then
      let (ds, rest) := digitsAhead base cs
      (c :: ds, rest)
    else ([], c :: cs)
  | [] => ([], [])

def digits (base : Nat) : Scan (List Char) := do
  let first ← Scan.one (Text.isDigit base)
  let more ← fun cs => some (digitsAhead base cs)
  pure (first :: more)

/-- Whether there is a minus sign; a plus sign is the same as none. -/
def sign : Scan Bool := fun cs => some (Decimal.sign cs)

/-- The digits of a whole number: a zero stands alone. -/
def wholeDigits : Scan (List Char) := do
  if (← Scan.peek) = some '0' then
    let zero ← Scan.any
    pure [zero]
  else digits 10

/-- Integers have 64 bits. -/
def inRange (n : Int) : Scan Data := do
  guard (-0x8000000000000000 ≤ n && n < 0x8000000000000000)
  pure (.signed n)

def based (opening : String) (base : Nat) : Scan Data := do
  Scan.word opening
  inRange (Text.digitsValue base (← digits base))

def integer : Scan Data := do
  let negative ← sign
  let n : Int := Text.digitsValue 10 (← wholeDigits)
  inRange (if negative then -n else n)

def exponent : Scan Int := do
  let _ ← Scan.one fun c => c == 'e' || c == 'E'
  let negative ← sign
  let n : Int := Text.digitsValue 10 (← digits 10)
  pure (if negative then -n else n)

def fraction : Scan (List Char) := do
  Scan.char '.'
  digits 10

/-- A number with a fraction, an exponent or both. One too large for a double is refused. -/
def float : Scan Data := do
  let negative ← sign
  let whole ← wholeDigits
  let (places, e) ← (do pure (← fraction, ← exponent <|> pure 0)) <|> (do pure ([], ← exponent))
  let x := Decimal.ofDigits negative whole places e
  guard (x != 1.0 / 0.0)
  pure (.float x)

def named : Scan Data := do
  let negative ← sign
  let x ← (do Scan.word "inf"; pure (1.0 / 0.0)) <|> (do Scan.word "nan"; pure (0.0 / 0.0))
  pure (.float (if negative then -x else x))

/-! Dates and times are checked and not kept: no setting is one, and none asks for their parts. -/

def field (width low high : Nat) : Scan Nat := fun cs => do
  let ds := cs.take width
  let n := Text.digitsValue 10 ds
  guard (ds.length = width && ds.all (Text.isDigit 10) && low ≤ n && n ≤ high)
  pure (n, cs.drop width)

def isLeap (year : Nat) : Bool := year % 4 = 0 && (year % 100 ≠ 0 || year % 400 = 0)

def daysIn (year month : Nat) : Nat :=
  if month = 2 then (if isLeap year then 29 else 28)
  else if month ∈ [4, 6, 9, 11] then 30
  else 31

def date : Scan Unit := do
  let year ← field 4 0 9999
  Scan.char '-'
  let month ← field 2 1 12
  Scan.char '-'
  let _ ← field 2 1 (daysIn year month)

def time : Scan Unit := do
  let _ ← field 2 0 23
  Scan.char ':'
  let _ ← field 2 0 59
  Scan.char ':'
  let _ ← field 2 0 60
  Scan.optional do
    Scan.char '.'
    let _ ← Scan.span1 (Text.isDigit 10)

def offset : Scan Unit :=
  (do let _ ← Scan.one fun c => c == 'Z' || c == 'z') <|> do
    let _ ← Scan.one fun c => c == '+' || c == '-'
    let _ ← field 2 0 23
    Scan.char ':'
    let _ ← field 2 0 59

def moment : Scan Data := do
  (do date
      Scan.optional do
        let _ ← Scan.one fun c => c == 'T' || c == 't' || c == ' '
        time
        Scan.optional offset) <|> time
  pure (.table [])

def number : Scan Data :=
  moment <|> float <|> named <|> based "0x" 16 <|> based "0o" 8 <|> based "0b" 2 <|> integer

end Courier.Toml
