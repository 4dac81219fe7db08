/-! The shortest decimal that reads back as a given binary floating-point number.

* `Binary.ofBits` takes a finite number apart into significand and exponent;
* `shortest` looks at one grid of decimals after the other, coarse ones first. -/
namespace Courier.Decimal

/-- The number `significand * 2 ^ exponent`; `lowest` marks a power of two, below which the
next number is only half as far away as above. -/
structure Binary where
  significand : Nat
  exponent : Int
  lowest : Bool

structure Numeral where
  digits : Nat
  exponent : Int
  deriving DecidableEq, Repr

/-- The magnitude that the 63 lower bits of a double stand for. -/
def Binary.ofBits (bits : UInt64) : Binary :=
  let fraction := (bits &&& 0xFFFFFFFFFFFFF).toNat
  let biased := ((bits >>> 52) &&& 0x7FF).toNat
  if biased = 0 then ⟨fraction, -1074, false⟩
  else ⟨fraction + 0x10000000000000, (biased : Int) - 1075, fraction == 0 && biased != 1⟩

/-- A fraction of two naturals, the second not zero. -/
structure Ratio where
  num : Nat
  den : Nat

def Ratio.le (a b : Ratio) : Bool := a.num * b.den ≤ b.num * a.den

def Ratio.lt (a b : Ratio) : Bool := a.num * b.den < b.num * a.den

def Ratio.scaled (n base : Nat) (e : Int) : Ratio :=
  ⟨n * Nat.pow base e.toNat, Nat.pow base (-e).toNat⟩

namespace Binary

/-- A quarter of the distance to the next number above is the unit here. -/
def quarters (b : Binary) (n : Nat) : Ratio := Ratio.scaled n 2 (b.exponent - 2)

def value (b : Binary) : Ratio := b.quarters (4 * b.significand)

def low (b : Binary) : Ratio := b.quarters (4 * b.significand - if b.lowest then 1 else 2)

def high (b : Binary) : Ratio := b.quarters (4 * b.significand + 2)

/-- `r` rounds to `b`; the two midpoints do if the significand is even. -/
def holds (b : Binary) (r : Ratio) : Bool :=
  if b.significand % 2 = 0 then b.low.le r && r.le b.high else b.low.lt r && r.lt b.high

end Binary

namespace Numeral

def ratio (d : Numeral) : Ratio := Ratio.scaled d.digits 10 d.exponent

/-- The same decimal with its trailing zeros moved into the exponent, `limit` at most. -/
def reduce (limit : Nat) (d : Numeral) : Numeral :=
  match limit with
  | 0 => d
  | limit + 1 =>
    if d.digits % 10 = 0 && d.digits != 0 then reduce limit ⟨d.digits / 10, d.exponent + 1⟩ else d

end Numeral

/-- The greatest `k` with `10 ^ k ≤ r`, for a positive `r`. -/
def magnitude (r : Ratio) : Int :=
  let whole := r.num / r.den
  if whole ≠ 0 then (Nat.toDigits 10 whole).length - 1
  else
    let places := (Nat.toDigits 10 (r.den / r.num)).length
    if r.den ≤ r.num * Nat.pow 10 (places - 1) then 1 - places else -places

/-- The one of two neighbouring decimals on a grid that reads back as `b`, the nearer one if both
do. -/
def onGrid (b : Binary) (exponent : Int) : Option Numeral :=
  let v := b.value
  let unit := Ratio.scaled 1 10 exponent
  let below : Numeral := ⟨v.num * unit.den / (v.den * unit.num), exponent⟩
  let above : Numeral := ⟨below.digits + 1, exponent⟩
  let twice : Ratio := ⟨2 * v.num, v.den⟩
  let sum := Ratio.scaled (below.digits + above.digits) 10 exponent
  match b.holds below.ratio, b.holds above.ratio with
  | true, true =>
    if twice.lt sum then some below
    else if sum.lt twice then some above
    else some (if below.digits % 2 = 0 then below else above)
  | true, false => some below
  | false, true => some above
  | false, false => none

/-- Seventeen digits always suffice, so the last grid answers if no coarser one does. -/
def shortest (b : Binary) : Numeral :=
  if b.significand = 0 then ⟨0, 0⟩ else
  let top := magnitude b.value
  let grids := (List.range 17).map fun (n : Nat) => top - (n : Int)
  ((grids.findSome? (onGrid b)).getD ⟨0, 0⟩).reduce 20

end Courier.Decimal
