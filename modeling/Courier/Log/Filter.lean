import Courier.Log
import Courier.Text.Blank
import Courier.Text.Digits

/-! Which log lines are let through: directives for one target or for all of them.

* `allows_of_general`: a single directive for everything decides alone. -/
namespace Courier.Log

inductive Limit where
  | off
  | error
  | warn
  | info
  | debug
  | trace
  deriving DecidableEq, Repr

namespace Limit

def all : List Limit := [off, error, warn, info, debug, trace]

def name : Limit → String
  | off => "off"
  | error => "error"
  | warn => "warn"
  | info => "info"
  | debug => "debug"
  | trace => "trace"

/-- A name in any case, a number counting up from off, or nothing for errors. -/
def ofText? (s : String) : Option Limit :=
  let digits := match s.toList with
    | '+' :: cs => cs
    | cs => cs
  if s.isEmpty then some error
  else if !digits.isEmpty && digits.all (Text.isDigit 10) then all[Text.digitsValue 10 digits]?
  else all.find? (·.name == Text.lowerAscii s)

def allows : Limit → Level → Bool
  | off, _ => false
  | error, level => level == .error
  | warn, level => level == .error || level == .warn
  | info, level => level != .debug
  | debug, _ | trace, _ => true

end Limit

/-- A limit for the targets that start with a name, or for all of them. -/
structure Directive where
  target : Option String
  limit : Limit
  deriving DecidableEq, Repr

namespace Directive

def isStart (c : Char) : Bool := c.isAlphanum || c ∈ ['-', ':', '_'] || 0x80 ≤ c.val

/-- A limit for everything, a target with its limit, or a target of which everything is let
through. -/
def ofText? (s : String) : Option Directive :=
  if !s.toList.head?.any isStart then none
  else
    let target := s.toList.takeWhile (· != '=')
    match s.toList.dropWhile (· != '=') with
    | [] =>
      match Limit.ofText? s with
      | some limit => some ⟨none, limit⟩
      | none => some ⟨some s, .trace⟩
    | _ :: limit => (Limit.ofText? (String.ofList limit)).map (⟨some (String.ofList target), ·⟩)

def covers (d : Directive) (target : String) : Bool :=
  d.target.all fun t => t.toList.isPrefixOf target.toList

/-- A longer target wins over a shorter one, and any over none. -/
def weight (d : Directive) : Nat := (d.target.map fun t => t.length + 1).getD 0

end Directive

structure Filter where
  directives : List Directive
  deriving DecidableEq, Repr

namespace Filter

/-- The texts between commas; empty ones are no directives. -/
def parts (s : String) : List String := (Text.parts ',' s).filter (!·.isEmpty)

/-- All directives, if every one of them is well formed. -/
def ofText? (s : String) : Option Filter := ((parts s).mapM Directive.ofText?).map (⟨·⟩)

/-- The directives that are well formed, and the texts of the others. -/
def ofTextLenient (s : String) : Filter × List String :=
  (⟨(parts s).filterMap Directive.ofText?⟩,
    (parts s).filter fun part => (Directive.ofText? part).isNone)

/-- The directive that decides on a target: of equal ones the last. -/
def deciding (filter : Filter) (target : String) : Option Directive :=
  (filter.directives.filter (·.covers target)).foldl (fun best d =>
    match best with
    | none => some d
    | some b => if b.weight ≤ d.weight then some d else some b) none

/-- Without any directive errors are let through, and with some only what one of them allows. -/
def allows (filter : Filter) (target : String) (level : Level) : Bool :=
  if filter.directives.isEmpty then level == .error
  else (filter.deciding target).any (·.limit.allows level)

theorem allows_of_general (limit : Limit) (target : String) (level : Level) :
    allows ⟨[⟨none, limit⟩]⟩ target level = limit.allows level := by
  simp [allows, deciding, Directive.covers]

end Filter

end Courier.Log
