import PimAsm.Json.Reader
import PimAsm.Vv.Op
import PimAsm.Vv.Register

namespace PimAsm.Vv

def ArithFn.key : ArithFn → String
  | .add => "add"
  | .sub => "sub"
  | .mult => "mult"

def ArithFn.ofKey? : String → Option ArithFn
  | "add" => some .add
  | "sub" => some .sub
  | "mult" => some .mult
  | _ => none

namespace Register

def toJson : Register → Json
  | .ordinary r => .ofBits r
  | r => .text r.text

def ofJson? : Json → Option Register
  | .text s => (read s).toOption
  | j => (j.bits? 8).map .ordinary

def readJson (text : String) : Except Json.Place Register := Json.readWith ofJson? text

end Register

namespace Op

def toJson : Op → Json
  | .nop => .text "Nop"
  | .xy fn rx ry => .ofVariant "Xy" [("func", .text fn.key), ("rx", .ofBits rx), ("ry", .ofBits ry)]
  | .xsreg fn rx => .ofVariant "Xsreg" [("func", .text fn.key), ("rx", .ofBits rx)]
  | .relu => .text "Relu"
  | .actLookup table => .ofVariant "ActLookup" [("code", .ofBits table)]
  | .shiftOff => .text "ShiftOff"
  | .serialEn => .text "SerialEn"
  | .parallelEn => .text "ParallelEn"
  | .selectBlk id => .ofVariant "SelectBlk" [("id", .ofBits id)]
  | .selectAll => .text "SelectAll"
  | .movO2Sreg => .text "MovO2Sreg"
  | .movY2Sreg ry => .ofVariant "MovY2Sreg" [("ry", .ofBits ry)]
  | .movSreg2R rd => .ofVariant "MovSreg2R" [("rd", .ofBits rd)]
  | .movOreg2R rd => .ofVariant "MovOreg2R" [("rd", .ofBits rd)]
  | .movY2Oreg ry => .ofVariant "MovY2Oreg" [("ry", .ofBits ry)]
  | .movOreg2Act => .text "MovOreg2Act"
  | .movX2Act rx => .ofVariant "MovX2Act" [("rx", .ofBits rx)]
  | .write addr data => .ofVariant "Write" [("addr", .ofBits addr), ("data", .int data.toInt)]

def ofName? : String → Option Op
  | "Nop" => some .nop
  | "Relu" => some .relu
  | "ShiftOff" => some .shiftOff
  | "SerialEn" => some .serialEn
  | "ParallelEn" => some .parallelEn
  | "SelectAll" => some .selectAll
  | "MovO2Sreg" => some .movO2Sreg
  | "MovOreg2Act" => some .movOreg2Act
  | _ => none

def ofFields? (name : String) (fields : List (String × Json)) : Option Op := do
  let byte (key : String) := Json.field? (Json.bits? 8) key fields
  let fn := do ArithFn.ofKey? (← Json.field? Json.name? "func" fields)
  match name with
  | "Xy" => some (.xy (← fn) (← byte "rx") (← byte "ry"))
  | "Xsreg" => some (.xsreg (← fn) (← byte "rx"))
  | "ActLookup" => some (.actLookup (← byte "code"))
  | "SelectBlk" => some (.selectBlk (← byte "id"))
  | "MovY2Sreg" => some (.movY2Sreg (← byte "ry"))
  | "MovSreg2R" => some (.movSreg2R (← byte "rd"))
  | "MovOreg2R" => some (.movOreg2R (← byte "rd"))
  | "MovY2Oreg" => some (.movY2Oreg (← byte "ry"))
  | "MovX2Act" => some (.movX2Act (← byte "rx"))
  | "Write" =>
    let addr ← Json.field? (Json.bits? 16) "addr" fields
    let data ← Json.field? (Json.int? (-32768) 32768) "data" fields
    some (.write addr (BitVec.ofInt 16 data))
  | _ => none

def ofJson? (j : Json) : Option Op :=
  match j.variant? with
  | some (name, .null) => ofName? name
  | some (name, .object fields) => ofFields? name fields
  | _ => none

end Op

end PimAsm.Vv
