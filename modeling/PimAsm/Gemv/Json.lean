import PimAsm.Gemv.Op
import PimAsm.Json.Value

namespace PimAsm.Gemv

def AluFn.key : AluFn → String
  | .add => "Add"
  | .cpx => "Cpx"
  | .cpy => "Cpy"
  | .sub => "Sub"

def AluFn.ofKey? : String → Option AluFn
  | "Add" => some .add
  | "Cpx" => some .cpx
  | "Cpy" => some .cpy
  | "Sub" => some .sub
  | _ => none

def SelectFn.key : SelectFn → String
  | .col => "Col"
  | .block => "Block"
  | .row => "Row"
  | .all => "All"

def SelectFn.ofKey? : String → Option SelectFn
  | "Col" => some .col
  | "Block" => some .block
  | "Row" => some .row
  | "All" => some .all
  | _ => none

namespace Op

def toJson : Op → Json
  | .nop => .text "Nop"
  | .write addr data => .ofVariant "Write" [("addr", .ofBits addr), ("data", .ofBits data)]
  | .alu fn rd rs1 rs2 =>
    .ofVariant "Alu" [("func", .text fn.key), ("rd", .ofBits rd), ("rs1", .ofBits rs1), ("rs2", .ofBits rs2)]
  | .updatePp offset pp multiplicand multiplier =>
    .ofVariant "UpdatePp" [
      ("offset", .ofBits offset), ("pp_reg", .ofBits pp), ("multiplicand", .ofBits multiplicand),
      ("multiplier", .ofBits multiplier)]
  | .accumBlk fold rd rs =>
    .ofVariant "AccumBlk" [("fold", .ofBits fold), ("rd", .ofBits rd), ("rs", .ofBits rs)]
  | .accumRow level reg => .ofVariant "AccumRow" [("level", .ofBits level), ("reg", .ofBits reg)]
  | .select fn rowId colId =>
    .ofVariant "Select" [("func", .text fn.key), ("row_id", .ofBits rowId), ("col_id", .ofBits colId)]
  | .movOffset offset rd rs =>
    .ofVariant "MovOffset" [("offset", .ofBits offset), ("rd", .ofBits rd), ("rs", .ofBits rs)]
  | .clrMbit => .text "ClrMbit"

def ofFields? (name : String) (fields : List (String × Json)) : Option Op := do
  let byte (key : String) := Json.field? (Json.bits? 8) key fields
  let half (key : String) := Json.field? (Json.bits? 16) key fields
  let fn := Json.field? Json.name? "func" fields
  match name with
  | "Write" => some (.write (← half "addr") (← half "data"))
  | "Alu" => some (.alu (← AluFn.ofKey? (← fn)) (← byte "rd") (← byte "rs1") (← byte "rs2"))
  | "UpdatePp" =>
    some (.updatePp (← byte "offset") (← byte "pp_reg") (← byte "multiplicand") (← byte "multiplier"))
  | "AccumBlk" => some (.accumBlk (← byte "fold") (← byte "rd") (← byte "rs"))
  | "AccumRow" => some (.accumRow (← byte "level") (← byte "reg"))
  | "Select" => some (.select (← SelectFn.ofKey? (← fn)) (← byte "row_id") (← byte "col_id"))
  | "MovOffset" => some (.movOffset (← byte "offset") (← byte "rd") (← byte "rs"))
  | _ => none

def ofJson? (j : Json) : Option Op :=
  match j.variant? with
  | some ("Nop", .null) => some .nop
  | some ("ClrMbit", .null) => some .clrMbit
  | some (name, .object fields) => ofFields? name fields
  | _ => none

end Op

end PimAsm.Gemv
