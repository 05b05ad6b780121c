import PimAsm.Json.Number

/-! The reader of JSON texts: strict grammar, no limit on size or depth, one value with white space around it. -/

namespace PimAsm.Json

namespace Reader

/-- The part of a text that is not read yet: a scan returns it with its result, a refusal where it refuses. -/
abbrev Rest := List Char

def isSpace (c : Char) : Bool := c = ' ' || c = '\t' || c = '\n' || c = '\r'

def skip (cs : List Char) : List Char := cs.dropWhile isSpace

/-- A piece of a text: a character, or a code unit written as `\u` and four digits. -/
inductive Piece
  | char (c : Char)
  | unit (u : Nat)

def hexDigit? (c : Char) : Option Nat :=
  if c.isDigit then some (c.toNat - '0'.toNat)
  else if 'a' ≤ c ∧ c ≤ 'f' then some (c.toNat - 'a'.toNat + 10)
  else if 'A' ≤ c ∧ c ≤ 'F' then some (c.toNat - 'A'.toNat + 10)
  else none

def escape? : Char → Option Char
  | '"' => some '"'
  | '\\' => some '\\'
  | '/' => some '/'
  | 'b' => some '\x08'
  | 'f' => some '\x0c'
  | 'n' => some '\n'
  | 'r' => some '\r'
  | 't' => some '\t'
  | _ => none

def codeUnit? (a b c d : Char) : Option Nat := do
  some (((← hexDigit? a) * 16 + (← hexDigit? b)) * 256 + (← hexDigit? c) * 16 + (← hexDigit? d))

def pieces : List Char → Except Rest (List Piece × Rest)
  | [] => .error []
  | '"' :: cs => .ok ([], cs)
  | '\\' :: 'u' :: a :: b :: c :: d :: cs =>
    match codeUnit? a b c d with
    | none => .error (a :: b :: c :: d :: cs)
    | some u => (pieces cs).map fun (ps, rest) => (.unit u :: ps, rest)
  | '\\' :: c :: cs =>
    match escape? c with
    | none => .error (c :: cs)
    | some c => (pieces cs).map fun (ps, rest) => (.char c :: ps, rest)
  | c :: cs =>
    if c.toNat < 0x20 ∨ c = '\\' then .error (c :: cs)
    else (pieces cs).map fun (ps, rest) => (.char c :: ps, rest)

def isHigh (u : Nat) : Bool := 0xD800 ≤ u && u < 0xDC00

def isLow (u : Nat) : Bool := 0xDC00 ≤ u && u < 0xE000

/-- Joins surrogate pairs; nothing when a surrogate has no partner. -/
def join? : List Piece → Option (List Char)
  | [] => some []
  | .char c :: ps => (join? ps).map (c :: ·)
  | .unit u :: ps =>
    if isHigh u then
      match ps with
      | .unit v :: qs =>
        if isLow v then
          (join? qs).map (Char.ofNat (0x10000 + (u - 0xD800) * 0x400 + (v - 0xDC00)) :: ·)
        else none
      | _ => none
    else if isLow u then none
    else (join? ps).map (Char.ofNat u :: ·)

def text (cs : List Char) : Except Rest (Option String × Rest) :=
  (pieces cs).map fun (ps, rest) => ((join? ps).map String.ofList, rest)

def digits (cs : List Char) : Except Rest (List Char × Rest) :=
  match Decimal.digitsOf cs with
  | ([], rest) => .error rest
  | (ds, rest) => .ok (ds, rest)

def whole : List Char → Except Rest (List Char × Rest)
  | '0' :: cs => if (cs.head?.elim false Char.isDigit) then .error cs else .ok (['0'], cs)
  | cs => digits cs

def fraction : List Char → Except Rest (Option (List Char) × Rest)
  | '.' :: cs => (digits cs).map fun (ds, rest) => (some ds, rest)
  | cs => .ok (none, cs)

def exponent : List Char → Except Rest (Option (Bool × List Char) × Rest)
  | c :: cs =>
    if c = 'e' ∨ c = 'E' then
      let (down, cs) := match cs with
        | '-' :: cs => (true, cs)
        | '+' :: cs => (false, cs)
        | cs => (false, cs)
      (digits cs).map fun (ds, rest) => (some (down, ds), rest)
    else .ok (none, c :: cs)
  | [] => .ok (none, [])

def number (cs : List Char) : Except Rest (Json × Rest) := do
  let (negative, cs) := match cs with
    | '-' :: cs => (true, cs)
    | cs => (false, cs)
  let (w, cs) ← whole cs
  let (f, cs) ← fraction cs
  let (e, cs) ← exponent cs
  .ok (Literal.toJson ⟨negative, w, f, e⟩, cs)

def scalar : List Char → Except Rest (Json × Rest)
  | 'n' :: 'u' :: 'l' :: 'l' :: cs => .ok (.null, cs)
  | 't' :: 'r' :: 'u' :: 'e' :: cs => .ok (.bool true, cs)
  | 'f' :: 'a' :: 'l' :: 's' :: 'e' :: cs => .ok (.bool false, cs)
  | '"' :: cs => (text cs).map fun (s, rest) => (s.elim .unreadable .text, rest)
  | cs => number cs

/-- An object with half of a surrogate pair in a key names no value. -/
def objectOf (fields : List (Option String × Json)) : Json :=
  match fields.mapM fun f => f.1.map fun key => (key, f.2) with
  | some fields => .object fields
  | none => .unreadable

mutual

/-- A value and the text after it. Every step of the recursion reads a character, so the length of the text is
enough fuel. -/
def value : (fuel : Nat) → List Char → Except Rest (Json × Rest)
  | 0, cs => .error cs
  | fuel + 1, cs =>
    match skip cs with
    | '[' :: cs =>
      match skip cs with
      | ']' :: cs => .ok (.list [], cs)
      | cs => (items fuel cs).map fun (xs, rest) => (.list xs, rest)
    | '\x7b' :: cs =>
      match skip cs with
      | '\x7d' :: cs => .ok (.object [], cs)
      | cs => (members fuel cs).map fun (fs, rest) => (objectOf fs, rest)
    | cs => scalar cs

def items : (fuel : Nat) → List Char → Except Rest (List Json × Rest)
  | 0, cs => .error cs
  | fuel + 1, cs => do
    let (x, rest) ← value fuel cs
    match skip rest with
    | ',' :: cs =>
      let (xs, rest) ← items fuel cs
      .ok (x :: xs, rest)
    | ']' :: cs => .ok ([x], cs)
    | cs => .error cs

def members : (fuel : Nat) → List Char → Except Rest (List (Option String × Json) × Rest)
  | 0, cs => .error cs
  | fuel + 1, cs =>
    match skip cs with
    | '"' :: cs => do
      let (key, rest) ← text cs
      match skip rest with
      | ':' :: cs =>
        let (x, rest) ← value fuel cs
        match skip rest with
        | ',' :: cs =>
          let (fs, rest) ← members fuel cs
          .ok ((key, x) :: fs, rest)
        | '\x7d' :: cs => .ok ([(key, x)], cs)
        | cs => .error cs
      | cs => .error cs
    | cs => .error cs

end

end Reader

structure Place where
  line : Nat
  column : Nat
  deriving DecidableEq, Repr

def Place.after (cs : List Char) : Place :=
  ⟨1 + cs.count '\n', 1 + (cs.reverse.takeWhile (· ≠ '\n')).length⟩

def parse (s : String) : Except Place Json :=
  let cs := s.toList
  let placeOf (rest : List Char) : Place := Place.after (cs.take (cs.length - rest.length))
  match Reader.value (cs.length + 1) cs with
  | .error rest => .error (placeOf rest)
  | .ok (j, rest) =>
    match Reader.skip rest with
    | [] => .ok j
    | rest => .error (placeOf rest)

/-- Reads a whole text and hands the value to `f`; a value that `f` refuses counts as refused at the end. -/
def readWith {α : Type} (f : Json → Option α) (s : String) : Except Place α := do
  match f (← parse s) with
  | some a => .ok a
  | none => .error (Place.after s.toList)

end PimAsm.Json
