/-! Patterns of topics: extended regular expressions, of which a reader needs to know only
whether they are well formed. -/
namespace Courier.Broker.Pattern

inductive Place where
  | outside
  | quoted
  /-- At the start of a set of characters, where a closing bracket is one of them. -/
  | setStart (negatable : Bool)
  | inSet

/-- Sets and groups are closed, and no backslash is the last character; `depth` groups are open.
A closing parenthesis without an opening one stands for itself. -/
def closes (place : Place) (depth : Nat) : List Char → Bool
  | [] => match place with
    | .outside => depth == 0
    | _ => false
  | c :: cs =>
    match place with
    | .quoted => closes .outside depth cs
    | .setStart negatable =>
      if negatable && c == '^' then closes (.setStart false) depth cs else closes .inSet depth cs
    | .inSet => closes (if c == ']' then .outside else .inSet) depth cs
    | .outside =>
      if c == '\\' then closes .quoted depth cs
      else if c == '[' then closes (.setStart true) depth cs
      else if c == '(' then closes .outside (depth + 1) cs
      else if c == ')' then closes .outside (depth - 1) cs
      else closes .outside depth cs

/-- Only a name that starts with a circumflex is a pattern; any other stands for itself. -/
def isValid (name : String) : Bool := !name.startsWith "^" || closes .outside 0 name.toList

end Courier.Broker.Pattern
