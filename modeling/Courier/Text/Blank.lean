/-! Blank characters (the White_Space property) and the two ways a text is
stripped of blanks at its ends. -/
namespace Courier.Text

/-- The White_Space property: 25 characters, most of them outside ASCII. -/
def isBlank (c : Char) : Bool :=
  (0x09 ≤ c.val && c.val ≤ 0x0D) || c.val == 0x20 || c.val == 0x85 || c.val == 0xA0 ||
  c.val == 0x1680 || (0x2000 ≤ c.val && c.val ≤ 0x200A) || c.val == 0x2028 ||
  c.val == 0x2029 || c.val == 0x202F || c.val == 0x205F || c.val == 0x3000

/-- The blanks of ASCII alone, the vertical tab not among them. -/
def isAsciiBlank (c : Char) : Bool :=
  c == ' ' || c == '\t' || c == '\n' || c == '\r' || c.val == 0x0C

/-- What is left of `cs` when the characters in `p` are dropped at both ends. -/
def strip (p : Char → Bool) (cs : List Char) : List Char :=
  ((cs.dropWhile p).reverse.dropWhile p).reverse

def trim (s : String) : String := String.ofList (strip isBlank s.toList)

def blank (s : String) : Bool := (trim s).isEmpty

/-- ASCII letters in upper case; every other character as it is. -/
def upperAscii (s : String) : String := String.ofList (s.toList.map Char.toUpper)

def lowerAscii (s : String) : String := String.ofList (s.toList.map Char.toLower)

/-- The parts of `cs` between the characters in `p`, one more than there are such characters. -/
def splitAt (p : Char → Bool) : List Char → List (List Char)
  | [] => [[]]
  | c :: cs =>
    match splitAt p cs with
    | [] => [[]]
    | part :: parts => if p c then [] :: part :: parts else (c :: part) :: parts

def parts (sep : Char) (s : String) : List String :=
  (splitAt (· == sep) s.toList).map String.ofList

end Courier.Text
