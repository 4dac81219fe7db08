import Courier.Settings.Load
import Courier.Text.Scan

/-! Files of variables, one assignment a line, that add to an environment without overriding it.

A quoted value may go on over several lines. The first line that is malformed ends the file. -/
namespace Courier.Settings.EnvFile

inductive Mode where
  | plain
  | blank
  | escape
  | weak
  | weakEscape
  | strong
  | strongEscape
  deriving DecidableEq

/-- What a character leads to outside of quotes. -/
def Mode.outside (c : Char) : Mode :=
  if c == '\\' then .escape else if c == '"' then .weak else if c == '\'' then .strong else .plain

def Mode.next : Mode → Char → Mode
  | .plain, c => if Text.isBlank c && c != '\n' && c != '\r' then .blank else Mode.outside c
  | .blank, c => Mode.outside c
  | .escape, _ => .plain
  | .weak, c => if c == '\\' then .weakEscape else if c == '"' then .plain else .weak
  | .weakEscape, _ => .weak
  | .strong, c => if c == '\\' then .strongEscape else if c == '\'' then .plain else .strong
  | .strongEscape, _ => .strong

/-- A line up to a comment, and the mode it ends in unless there is one. -/
def follow (mode : Mode) : List Char → List Char × Option Mode
  | [] => ([], some mode)
  | c :: cs =>
    if mode = .blank ∧ c = '#' then ([], none)
    else
      let (kept, last) := follow (mode.next c) cs
      (c :: kept, last)

def lines : List Char → List (List Char)
  | [] => []
  | c :: cs =>
    if c = '\n' then [c] :: lines cs
    else
      match lines cs with
      | [] => [[c]]
      | first :: rest => (c :: first) :: rest

def trimEnd (cs : List Char) : List Char := (cs.reverse.dropWhile Text.isBlank).reverse

/-- Joins the lines over which a quoted value goes on. A value that is still open when the text
ends makes the last one malformed. -/
def joined (start : List Char) (mode : Mode) : List (List Char) → List (Option (List Char))
  | [] => if mode = .plain then [] else [none]
  | line :: rest =>
    let text := start ++ line
    if (text.dropWhile Text.isBlank).head? = some '#' then joined [] .plain rest
    else
      match follow mode line with
      | (kept, none) => some (start ++ kept) :: joined [] .plain rest
      | (_, some .plain) => some text :: joined [] .plain rest
      | (_, some mode) => joined text mode rest

inductive Part where
  | text
  /-- Behind the value only blanks and a comment may stand. -/
  | ending
  | escape
  | strong
  | name (start : List Char)
  | braced (start : List Char)

def escaped? (c : Char) : Option Char :=
  if c ∈ ['\\', '\'', '"', '$', ' '] then some c else if c == 'n' then some '\n' else none

/-- Letters and digits; every character outside ASCII counts as a letter. -/
def isNameChar (c : Char) : Bool := c.isAlphanum || 0x80 ≤ c.val

def lookup (environment : Environment) (name : List Char) : List Char :=
  ((environment.lookup (String.ofList name)).getD "").toList

/-- A value without its quotes, with variables replaced by what they are set to. -/
def value (environment : Environment) (weak : Bool) : Part → List Char → Option (List Char)
  | .text, [] | .ending, [] | .escape, [] => if weak then none else some []
  | .strong, [] | .braced _, [] => none
  | .name start, [] => if weak then none else some (lookup environment start)
  | .ending, c :: cs =>
    if c == ' ' || c == '\t' then value environment weak .ending cs
    else if c == '#' then some [] else none
  | .escape, c :: cs => do pure ((← escaped? c) :: (← value environment weak .text cs))
  | .strong, c :: cs =>
    if c == '\'' then value environment weak .text cs
    else (value environment weak .strong cs).map (c :: ·)
  | .name start, c :: cs =>
    if isNameChar c then value environment weak (.name (start ++ [c])) cs
    else if c == '{' && start.isEmpty then value environment weak (.braced []) cs
    else if c == '$' then
      (value environment weak (.name []) cs).map (lookup environment start ++ ·)
    else (value environment weak .text cs).map (lookup environment start ++ c :: ·)
  | .braced start, c :: cs =>
    if c == '}' then (value environment weak .text cs).map (lookup environment start ++ ·)
    else value environment weak (.braced (start ++ [c])) cs
  | .text, c :: cs =>
    if c == '$' then value environment weak (.name []) cs
    else if c == '\\' then value environment weak .escape cs
    else if c == '"' then value environment (!weak) .text cs
    else if weak then (value environment weak .text cs).map (c :: ·)
    else if c == '\'' then value environment weak .strong cs
    else if c == ' ' || c == '\t' then value environment weak .ending cs
    else (value environment weak .text cs).map (c :: ·)

def blanks : Scan Unit := Scan.skip Text.isBlank

def key : Scan String := do
  let first ← Scan.one fun c => c.isAlpha || c == '_'
  let rest ← Scan.span fun c => c.isAlphanum || c == '_' || c == '.'
  blanks
  pure (String.ofList (first :: rest))

/-- A name and its value; the word export before it means nothing, unless it is the name. -/
def assignment (environment : Environment) : Scan (String × String) := do
  let first ← key
  let name ←
    if first == "export" then
      (do Scan.char '='; pure first) <|> (do let name ← key; Scan.char '='; pure name)
    else do Scan.char '='; pure first
  blanks
  fun cs => do
    let text ← if cs.head?.all (· == '#') then some [] else value environment false .text cs
    pure ((name, String.ofList text), [])

/-- Takes over the assignments of lines, up to the first malformed one. -/
def addLines (environment : Environment) : List (Option (List Char)) → Environment
  | [] => environment
  | none :: _ => environment
  | some line :: rest =>
    let text := (trimEnd line).dropWhile Text.isBlank
    if text.head?.all (· == '#') then addLines environment rest
    else
      match Scan.whole (assignment environment) text with
      | none => environment
      | some (name, text) =>
        addLines (if (environment.lookup name).isSome then environment
          else environment ++ [(name, text)]) rest

/-- The environment with the variables of a file. -/
def add (environment : Environment) (text : String) : Environment :=
  let cs := if text.startsWith "\ufeff" then text.toList.tail else text.toList
  addLines environment (joined [] .plain (lines cs))

theorem lookup_append_of_isSome {environment : Environment} {name : String} (more : Environment)
    (h : (environment.lookup name).isSome) :
    (environment ++ more).lookup name = environment.lookup name := by
  induction environment with
  | nil => simp at h
  | cons entry rest ih =>
    obtain ⟨k, v⟩ := entry
    rw [List.cons_append, List.lookup_cons, List.lookup_cons]
    cases hk : name == k
    · simp only [List.lookup_cons, hk] at h
      exact ih h
    · rfl

/-- A variable that is set keeps its value. -/
theorem lookup_addLines {environment : Environment} {name : String}
    (ls : List (Option (List Char))) (h : (environment.lookup name).isSome) :
    (addLines environment ls).lookup name = environment.lookup name := by
  induction ls generalizing environment with
  | nil => rfl
  | cons line rest ih =>
    cases line with
    | none => rfl
    | some line =>
      simp only [addLines]
      split
      · exact ih h
      · split
        · rfl
        · split
          · exact ih h
          · rw [ih (by rw [lookup_append_of_isSome _ h]; exact h), lookup_append_of_isSome _ h]

end Courier.Settings.EnvFile
