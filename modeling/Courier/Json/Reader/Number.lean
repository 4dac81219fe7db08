import Courier.Json.Reader.Basic

/-! Reading JSON numbers.

A number without point and exponent is an integer as long as it has 64 bits; every other one is
the product or quotient of its first significant digits and a power of ten, each as a double. -/
namespace Courier.Json.Reader

def isDigit (b : UInt8) : Bool := 0x30 ≤ b && b ≤ 0x39

def digitOf (b : UInt8) : Nat := b.toNat - 0x30

def isExponentMark (b : UInt8) : Bool := b == 0x65 || b == 0x45

def powerOfTen (n : Nat) : Float := Float.ofScientific 1 false n

def signed (positive : Bool) (x : Float) : Float := if positive then x else -x

/-- `x * 10 ^ exponent`, by powers of ten up to 308. A result too large for a double is refused. -/
def scale (steps : Nat) (x : Float) (exponent : Int) : Option Float :=
  match steps with
  | 0 => some x
  | steps + 1 =>
    if 0 ≤ exponent then
      if exponent ≤ 308 then
        let y := x * powerOfTen exponent.toNat
        if y.isInf then none else some y
      else if x == 0.0 then some x
      else none
    else if -308 ≤ exponent then some (x / powerOfTen exponent.natAbs)
    else if x == 0.0 then some x
    else scale steps (x / powerOfTen 308) (exponent + 308)

def assemble (positive : Bool) (significand : Nat) (exponent : Int) : Reader Float :=
  match scale 4 (Float.ofNat significand) exponent with
  | none => fail .numberOutOfRange
  | some x => pure (signed positive x)

def skipDigits : Reader Nat := fun c =>
  let rest := c.rest.dropWhile isDigit
  let n := c.rest.length - rest.length
  (.ok n, ⟨rest, c.index + n⟩)

def digits : Reader Bytes := fun c =>
  let ds := c.rest.takeWhile isDigit
  (.ok ds, ⟨c.rest.drop ds.length, c.index + ds.length⟩)

/-- The longest run of digits that keeps the significand below 2^64, and what follows it. -/
def gather (significand : Nat) : Bytes → Nat × Bytes
  | [] => (significand, [])
  | d :: ds =>
    let n := significand * 10 + digitOf d
    if n < 0x10000000000000000 then gather n ds else (significand, d :: ds)

/-- The digits of an exponent, stopping at the one that takes it past 31 bits. -/
def exponentDigits (n : Nat) : Nat → Reader (Option Nat)
  | 0 => pure (some n)
  | steps + 1 => do
    match ← peek with
    | some b =>
      if isDigit b then do
        eat
        let m := n * 10 + digitOf b
        if m < 0x80000000 then exponentDigits m steps else pure none
      else pure (some n)
    | none => pure (some n)

def exponent (positive : Bool) (significand : Nat) (start : Int) : Reader Float := do
  eat
  let up ← match ← peek with
    | some 0x2B => do eat; pure true
    | some 0x2D => do eat; pure false
    | _ => pure true
  match ← next with
  | none => fail .endInValue
  | some b =>
    if !isDigit b then fail .invalidNumber else
    match ← exponentDigits (digitOf b) (← remaining) with
    | some e => assemble positive significand (if up then start + e else start - e)
    | none =>
      if significand != 0 && up then fail .numberOutOfRange
      else do
        let _ ← skipDigits
        pure (signed positive 0.0)

def finish (positive : Bool) (significand : Nat) (start : Int) : Reader Float := do
  match ← peek with
  | some b =>
    if isExponentMark b then exponent positive significand start
    else assemble positive significand start
  | none => assemble positive significand start

def fraction (positive : Bool) (significand : Nat) (start : Int) : Reader Float := do
  eat
  let ds ← digits
  if ds.isEmpty then failAhead (if (← peek).isSome then .invalidNumber else .endInValue)
  else
    let (n, dropped) := gather significand ds
    finish positive n (start - (ds.length - dropped.length : Nat))

/-- What follows the digits of a number that is not an integer of 64 bits, or may not be one. -/
def tail (positive : Bool) (significand : Nat) (dropped : Nat) : Reader Number := do
  match ← peek with
  | some b =>
    if b == 0x2E then .float <$> fraction positive significand dropped
    else if isExponentMark b then .float <$> exponent positive significand dropped
    else whole
  | none => whole
where
  whole : Reader Number :=
    if dropped ≠ 0 then .float <$> assemble positive significand dropped
    else if positive then pure (.int significand)
    else if significand = 0 || 0x8000000000000000 < significand then
      pure (.float (-(Float.ofNat significand)))
    else pure (.int (-(significand : Int)))

/-- A number after its sign. -/
def number (positive : Bool) : Reader Number := do
  match ← next with
  | none => fail .endInValue
  | some b =>
    if b == 0x30 then
      match ← peek with
      | some d => if isDigit d then failAhead .invalidNumber else tail positive 0 0
      | none => tail positive 0 0
    else if isDigit b then do
      let ds ← digits
      let (n, dropped) := gather (digitOf b) ds
      tail positive n dropped.length
    else fail .invalidNumber

end Courier.Json.Reader
