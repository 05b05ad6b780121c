/-! Texts: white space and lines, numerals and the operands of a listing. A padded numeral is never cut: a number that
needs more digits shows them all. -/

namespace PimAsm

namespace Text

/-- The ranges of code points with the Unicode property `White_Space`, ends included, in ascending order. -/
def blankRanges : List (Nat × Nat) :=
  [(0x09, 0x0D), (0x20, 0x20), (0x85, 0x85), (0xA0, 0xA0), (0x1680, 0x1680), (0x2000, 0x200A),
   (0x2028, 0x2029), (0x202F, 0x202F), (0x205F, 0x205F), (0x3000, 0x3000)]

def isBlank (c : Char) : Bool := blankRanges.any fun (lo, hi) => lo ≤ c.toNat && c.toNat ≤ hi

def trim (cs : List Char) : List Char :=
  (cs.dropWhile isBlank).reverse.dropWhile isBlank |>.reverse

/-- A line feed ends a line, together with one carriage return right before it; the text after the last line feed is a
line only if it is not empty. -/
def lines : List Char → List (List Char)
  | [] => []
  | '\r' :: '\n' :: cs => [] :: lines cs
  | '\n' :: cs => [] :: lines cs
  | c :: cs =>
    match lines cs with
    | [] => [[c]]
    | l :: ls => (c :: l) :: ls

def beforeComment : List Char → List Char
  | [] => []
  | '/' :: '/' :: _ => []
  | c :: cs => c :: beforeComment cs

-- counted in UTF-8
def octets : List Char → Nat
  | [] => 0
  | c :: cs => c.utf8Size + octets cs

end Text

namespace Numeral

def decimal (n : Nat) : String := toString n

def decimalOf {w : Nat} (v : BitVec w) : String := decimal v.toNat

def signed (n : Int) : String := if n < 0 then "-" ++ decimal n.natAbs else decimal n.natAbs

def binary (width n : Nat) : String := String.ofList (List.leftpad width '0' (Nat.toDigits 2 n))

def hexLower (width n : Nat) : String := String.ofList (List.leftpad width '0' (Nat.toDigits 16 n))

def hexUpper (width n : Nat) : String :=
  String.ofList (List.leftpad width '0' ((Nat.toDigits 16 n).map Char.toUpper))

def decimals (ns : List Nat) : String := "[" ++ String.intercalate ", " (ns.map decimal) ++ "]"

-- for bases up to ten
def digit? (base : Nat) (c : Char) : Option Nat :=
  if '0' ≤ c ∧ c.toNat < '0'.toNat + base then some (c.toNat - '0'.toNat) else none

def readDigits? (base : Nat) (cs : List Char) : Option Nat :=
  cs.foldlM (fun n c => (digit? base c).map (base * n + ·)) 0

def unsigned? (base : Nat) (cs : List Char) : Option Nat :=
  if cs.isEmpty then none else readDigits? base cs

def plussed? (base : Nat) : List Char → Option Nat
  | '+' :: cs => unsigned? base cs
  | cs => unsigned? base cs

def signed? : List Char → Option Int
  | '-' :: cs => (unsigned? 10 cs).map fun n => -(n : Int)
  | cs => (plussed? 10 cs).map Int.ofNat

end Numeral

structure Listing where
  name : String
  operands : List (String × String) := []
  deriving DecidableEq, Repr

def Listing.render (l : Listing) : String :=
  if l.operands.isEmpty then l.name
  else l.name ++ " " ++ String.intercalate ", " (l.operands.map fun (label, value) => label ++ "=" ++ value)

end PimAsm
