import Courier.Text.Digits

/-! The floating-point number nearest to a decimal, and the decimal texts that stand for one. -/
namespace Courier.Decimal

/-- The double nearest to `significand * 10 ^ exponent`. Beyond 330 places on either side of the
point every number is zero or infinite. -/
def nearest (significand : Nat) (exponent : Int) : Float :=
  let magnitude := exponent + (Nat.toDigits 10 significand).length
  if significand = 0 ∨ magnitude < -330 then 0.0
  else if 330 < magnitude then 1.0 / 0.0
  else if 0 ≤ exponent then Float.ofScientific significand false exponent.toNat
  else Float.ofScientific significand true exponent.natAbs

def ofDigits (negative : Bool) (whole fraction : List Char) (exponent : Int) : Float :=
  let x := nearest (Text.digitsValue 10 (whole ++ fraction)) (exponent - fraction.length)
  if negative then -x else x

/-- Splits off a sign; none is positive. -/
def sign : List Char → Bool × List Char
  | '-' :: cs => (true, cs)
  | '+' :: cs => (false, cs)
  | cs => (false, cs)

/-- The exponent after the last digit, if one is well formed or there is none. -/
def exponent? : List Char → Option Int
  | [] => some 0
  | c :: cs =>
    let (negative, ds) := sign cs
    if (c == 'e' || c == 'E') && !ds.isEmpty && ds.all (Text.isDigit 10) then
      let n : Int := Text.digitsValue 10 ds
      some (if negative then -n else n)
    else none

/-- A sign, digits with a point before, among or after them, and an exponent; sign and
exponent may be missing. -/
def pointed? (cs : List Char) : Option Float :=
  let (negative, cs) := sign cs
  let whole := cs.takeWhile (Text.isDigit 10)
  match cs.dropWhile (Text.isDigit 10) with
  | '.' :: cs =>
    let fraction := cs.takeWhile (Text.isDigit 10)
    if whole.isEmpty && fraction.isEmpty then none
    else (exponent? (cs.dropWhile (Text.isDigit 10))).map (ofDigits negative whole fraction)
  | _ => none

end Courier.Decimal
