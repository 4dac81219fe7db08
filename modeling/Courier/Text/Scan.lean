/-! Reading a text from its front: a scan takes what it recognises and leaves the rest, or
fails and takes nothing. -/
namespace Courier

abbrev Scan := StateT (List Char) Option

namespace Scan

def peek : Scan (Option Char) := fun cs => some (cs.head?, cs)

def any : Scan Char
  | [] => none
  | c :: cs => some (c, cs)

def one (p : Char → Bool) : Scan Char
  | [] => none
  | c :: cs => if p c then some (c, cs) else none

def char (c : Char) : Scan Unit := do
  let _ ← one (· == c)

def word (w : String) : Scan Unit := fun cs =>
  if w.toList.isPrefixOf cs then some ((), cs.drop w.toList.length) else none

/-- All characters in `p` ahead, maybe none. -/
def span (p : Char → Bool) : Scan (List Char) := fun cs =>
  some (cs.takeWhile p, cs.dropWhile p)

def span1 (p : Char → Bool) : Scan (List Char) := do
  let taken ← span p
  guard (!taken.isEmpty)
  pure taken

def skip (p : Char → Bool) : Scan Unit := do
  let _ ← span p

def optional (s : Scan Unit) : Scan Unit := s <|> pure ()

def remaining : Scan Nat := fun cs => some (cs.length, cs)

def atEnd : Scan Unit
  | [] => some ((), [])
  | _ :: _ => none

/-- Reads with `s` as long as `more` is ahead, `bound` times at most. -/
def manyWhile (more : Option Char → Bool) (s : Scan α) : Nat → Scan (List α)
  | 0 => failure
  | bound + 1 => do
    if more (← peek) then
      let a ← s
      let rest ← manyWhile more s bound
      pure (a :: rest)
    else pure []

def whole (s : Scan α) (text : List Char) : Option α :=
  match s text with
  | some (a, []) => some a
  | _ => none

end Scan

end Courier
