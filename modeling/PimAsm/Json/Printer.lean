import PimAsm.Json.Value
import PimAsm.Number.Layout

namespace PimAsm.Json

namespace Printer

def escape (c : Char) : List Char :=
  match c with
  | '"' => ['\\', '"']
  | '\\' => ['\\', '\\']
  | '\x08' => ['\\', 'b']
  | '\t' => ['\\', 't']
  | '\n' => ['\\', 'n']
  | '\x0c' => ['\\', 'f']
  | '\r' => ['\\', 'r']
  | c => if c.toNat < 0x20 then ['\\', 'u'] ++ List.leftpad 4 '0' (Nat.toDigits 16 c.toNat) else [c]

def quoted (s : String) : String := "\"" ++ String.ofList (s.toList.flatMap escape) ++ "\""

def scalar : Json → String
  | .null => "null"
  | .bool b => if b then "true" else "false"
  | .int n => Numeral.signed n
  | .real x => Layout.json.text x
  | .text s => quoted s
  | _ => "null"

mutual

def compactItems : List Json → List String
  | [] => []
  | x :: xs => compactValue x :: compactItems xs

def compactFields : List (String × Json) → List String
  | [] => []
  | (key, x) :: fs => (quoted key ++ ":" ++ compactValue x) :: compactFields fs

def compactValue : Json → String
  | .list xs => "[" ++ String.intercalate "," (compactItems xs) ++ "]"
  | .object fs => "\x7b" ++ String.intercalate "," (compactFields fs) ++ "\x7d"
  | x => scalar x

end

def indent (level : Nat) : String := "\n" ++ String.ofList (List.replicate (2 * level) ' ')

def block (level : Nat) (opening closing : String) (parts : List String) : String :=
  if parts.isEmpty then opening ++ closing
  else
    opening ++ indent (level + 1) ++ String.intercalate ("," ++ indent (level + 1)) parts ++ indent level ++ closing

mutual

def prettyItems (level : Nat) : List Json → List String
  | [] => []
  | x :: xs => prettyValue level x :: prettyItems level xs

def prettyFields (level : Nat) : List (String × Json) → List String
  | [] => []
  | (key, x) :: fs => (quoted key ++ ": " ++ prettyValue level x) :: prettyFields level fs

def prettyValue (level : Nat) : Json → String
  | .list xs => block level "[" "]" (prettyItems (level + 1) xs)
  | .object fs => block level "\x7b" "\x7d" (prettyFields (level + 1) fs)
  | x => scalar x

end

end Printer

def compact (j : Json) : String := Printer.compactValue j

def pretty (j : Json) : String := Printer.prettyValue 0 j

end PimAsm.Json
