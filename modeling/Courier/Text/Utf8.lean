/-! Bytes and the texts they spell in UTF-8.

* `scan` splits a byte sequence into characters and the maximal runs that spell none;
* `decode?` accepts a sequence without such runs, `decodeLossy` shows each of them as U+FFFD. -/
namespace Courier

abbrev Bytes := List UInt8

namespace Utf8

def encode (s : String) : Bytes := s.toList.flatMap String.utf8EncodeChar

def isTail (b : UInt8) : Bool := 0x80 ≤ b && b ≤ 0xBF

/-- A lead byte of a longer character: how many bytes follow it and the range its
second byte is taken from, which shuts out overlong forms and surrogates. -/
def lead (b : UInt8) : Option (Nat × UInt8 × UInt8) :=
  if 0xC2 ≤ b && b ≤ 0xDF then some (1, 0x80, 0xBF)
  else if b == 0xE0 then some (2, 0xA0, 0xBF)
  else if b == 0xED then some (2, 0x80, 0x9F)
  else if 0xE1 ≤ b && b ≤ 0xEF then some (2, 0x80, 0xBF)
  else if b == 0xF0 then some (3, 0x90, 0xBF)
  else if 0xF1 ≤ b && b ≤ 0xF3 then some (3, 0x80, 0xBF)
  else if b == 0xF4 then some (3, 0x80, 0x8F)
  else none

/-- The character of the six payload bits of each tail byte below the lead's bits. -/
def assemble (top : Nat) (tails : List UInt8) : Char :=
  Char.ofNat (tails.foldl (fun n b => n * 64 + b.toNat % 64) top)

/-- The first character of a sequence, or `none` for a run that spells none,
and the number of bytes it takes after the first. -/
def front (b : UInt8) (rest : Bytes) : Option Char × Nat :=
  if b < 0x80 then (some (Char.ofNat b.toNat), 0) else
  match lead b with
  | none => (none, 0)
  | some (tails, low, high) =>
    match rest with
    | [] => (none, 0)
    | c :: rest =>
      if !(low ≤ c && c ≤ high) then (none, 0) else
      let more := (rest.take (tails - 1)).takeWhile isTail
      if more.length + 1 < tails then (none, more.length + 1)
      else (some (assemble (b.toNat % (1 <<< (6 - tails))) (c :: more)), tails)

/-- The characters of a sequence in order, with `none` for each maximal run that spells none. -/
def scan : Bytes → List (Option Char)
  | [] => []
  | b :: rest =>
    let (c, n) := front b rest
    c :: scan (rest.drop n)
termination_by bytes => bytes.length
decreasing_by simp only [List.length_drop, List.length_cons]; omega

def decode? (bytes : Bytes) : Option String :=
  ((scan bytes).mapM id).map String.ofList

/-- U+FFFD stands for each run that spells no character. -/
def decodeLossy (bytes : Bytes) : String :=
  String.ofList ((scan bytes).map (·.getD '\uFFFD'))

end Utf8

end Courier
