import Courier.Decimal.Shortest

/-! How a floating-point number is written from its shortest digits. -/
namespace Courier.Decimal

/-- The choices a format makes; `none` for no limit on positional writing. -/
structure Style where
  /-- Scientific exponents from here up to `highest` are written positionally. -/
  lowest : Option Int
  highest : Option Int
  /-- A whole number keeps one zero after its point. -/
  point : Bool
  /-- The sign of a positive exponent is written. -/
  plus : Bool

def zeros (n : Nat) : List Char := List.replicate n '0'

def positional (style : Style) (digits : List Char) (exponent : Int) : List Char :=
  let tail := if style.point then ['.', '0'] else []
  if 0 ≤ exponent then digits ++ zeros exponent.toNat ++ tail
  else
    let places := (-exponent).toNat
    if places < digits.length then
      digits.take (digits.length - places) ++ '.' :: digits.drop (digits.length - places)
    else '0' :: '.' :: zeros (places - digits.length) ++ digits

def scientific (style : Style) (digits : List Char) (exponent : Int) : List Char :=
  let sign := if exponent < 0 then ['-'] else if style.plus then ['+'] else []
  let fraction := match digits with
    | d :: e :: rest => d :: '.' :: e :: rest
    | digits => digits
  fraction ++ 'e' :: sign ++ Nat.toDigits 10 exponent.natAbs

def Numeral.write (style : Style) (d : Numeral) : List Char :=
  let digits := Nat.toDigits 10 d.digits
  let exponent := d.exponent + digits.length - 1
  let fits := style.lowest.all (· ≤ exponent) && style.highest.all (exponent ≤ ·)
  if fits then positional style digits d.exponent else scientific style digits exponent

/-- A finite number in shortest digits, its sign first. -/
def write (style : Style) (x : Float) : String :=
  let sign := if x.toBits >>> 63 = 1 then ['-'] else []
  String.ofList (sign ++ (shortest (Binary.ofBits x.toBits)).write style)

end Courier.Decimal
