/-! Digits in bases up to sixteen. -/
namespace Courier.Text

def digit? (c : Char) : Option Nat :=
  if '0' ≤ c && c ≤ '9' then some (c.toNat - '0'.toNat)
  else if 'a' ≤ c && c ≤ 'f' then some (c.toNat - 'a'.toNat + 10)
  else if 'A' ≤ c && c ≤ 'F' then some (c.toNat - 'A'.toNat + 10)
  else none

def isDigit (base : Nat) (c : Char) : Bool := (digit? c).any (· < base)

def digitsValue (base : Nat) (ds : List Char) : Nat :=
  ds.foldl (fun n c => base * n + (digit? c).getD 0) 0

/-- The character whose code point the hexadecimal digits `ds` write. -/
def codePoint? (ds : List Char) : Option Char :=
  let n := digitsValue 16 ds
  if ds.all (isDigit 16) && n.isValidChar then some (Char.ofNat n) else none

end Courier.Text
