import Courier.Json.Reader.Basic

/-! Reading JSON strings, from behind the opening quote. -/
namespace Courier.Json.Reader

def hexDigit (b : UInt8) : Option Nat :=
  if 0x30 ≤ b && b ≤ 0x39 then some (b.toNat - 0x30)
  else if 0x61 ≤ b && b ≤ 0x66 then some (b.toNat - 0x61 + 10)
  else if 0x41 ≤ b && b ≤ 0x46 then some (b.toNat - 0x41 + 10)
  else none

/-- The four digits of a \u escape. Fewer bytes than that are all read before the text ends. -/
def hexUnit : Reader Nat := fun c =>
  match c.rest with
  | p :: q :: r :: s :: rest =>
    let after : Cursor := ⟨rest, c.index + 4⟩
    match hexDigit p, hexDigit q, hexDigit r, hexDigit s with
    | some p, some q, some r, some s => (.ok (p * 4096 + q * 256 + r * 16 + s), after)
    | _, _, _, _ => fail .invalidEscape after
  | rest => fail .endInString ⟨[], c.index + rest.length⟩

/-- The second half of a surrogate pair must follow its first at once. -/
def pairByte (b : UInt8) : Reader Unit := do
  match ← peek with
  | none => fail .endInString
  | some c => do
    eat
    if c == b then pure () else fail .unfinishedSurrogate

def unicodeEscape : Reader Char := do
  let n ← hexUnit
  if 0xDC00 ≤ n && n ≤ 0xDFFF then fail .loneSurrogate
  else if 0xD800 ≤ n && n ≤ 0xDBFF then do
    pairByte 0x5C
    pairByte 0x75
    let m ← hexUnit
    if 0xDC00 ≤ m && m ≤ 0xDFFF then
      pure (Char.ofNat (0x10000 + (n - 0xD800) * 1024 + (m - 0xDC00)))
    else fail .loneSurrogate
  else pure (Char.ofNat n)

/-- The character a letter after the backslash stands for. -/
def letterEscape (b : UInt8) : Option Char :=
  match b with
  | 0x22 => some '"'
  | 0x5C => some '\\'
  | 0x2F => some '/'
  | 0x62 => some '\x08'
  | 0x66 => some '\x0c'
  | 0x6E => some '\n'
  | 0x72 => some '\r'
  | 0x74 => some '\t'
  | _ => none

def escape : Reader Char := do
  match ← next with
  | none => fail .endInString
  | some b =>
    match letterEscape b with
    | some c => pure c
    | none => if b == 0x75 then unicodeEscape else fail .invalidEscape

/-- The bytes up to the closing quote, which is not read yet. -/
def stringBytes : Nat → Reader Bytes
  | 0 => fail .endInString
  | steps + 1 => do
    match ← peek with
    | none => fail .endInString
    | some b =>
      if b == 0x22 then pure []
      else if b == 0x5C then do
        eat
        let c ← escape
        let more ← stringBytes steps
        pure (String.utf8EncodeChar c ++ more)
      else do
        eat
        if b < 0x20 then fail .controlCharacter
        else
          let more ← stringBytes steps
          pure (b :: more)

def string : Reader String := do
  let bytes ← stringBytes ((← remaining) + 1)
  match Utf8.decode? bytes with
  | none => fail .invalidCodePoint
  | some s => do
    eat
    pure s

/-- Reads past a string without looking at what it spells. -/
def skipString : Nat → Reader Unit
  | 0 => fail .endInString
  | steps + 1 => do
    match ← peek with
    | none => fail .endInString
    | some b =>
      if b == 0x22 then eat
      else if b == 0x5C then do
        eat
        match ← next with
        | none => fail .endInString
        | some e => do
          if (letterEscape e).isNone then
            if e == 0x75 then let _ ← hexUnit
            else fail .invalidEscape
          skipString steps
      else if b < 0x20 then fail .controlCharacter
      else do
        eat
        skipString steps

end Courier.Json.Reader
