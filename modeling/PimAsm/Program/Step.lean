import PimAsm.Program.Call
import PimAsm.Vv.Json

namespace PimAsm

namespace Call

/-- The names of the calls. A call can be given by its index here as well. -/
def names : List String :=
  ["mv_nop", "mv_write", "mv_add", "mv_sub", "mv_updatepp", "mv_block_fold", "mv_accum_row", "mv_select_block",
   "mv_select_row", "mv_select_col", "mv_select_all", "mv_mov", "mv_mov_offset",
   "vv_nop", "vv_write", "vv_mov", "vv_add", "vv_sub", "vv_mult", "vv_activation", "vv_shift_off",
   "vv_serial_en", "vv_parallel_en", "vv_select_blk", "vv_select_all",
   "mv_mult", "mv_mult_fxp", "mv_block_accum", "mv_range_accum", "mv_all_accum", "mv_sync", "mv_clear_reg",
   "mv_load_mat", "mv_load_vec_row", "mv_load_vec_col", "vv_sync", "vv_clear_reg", "vv_load_vec", "as_comment"]

def name? : Json → Option String
  | .text name => some name
  | j => do names[← j.nat? names.length]?

def ofFields? (name : String) (fields : List (String × Json)) : Option Call := do
  let count (key : String) := Json.field? (Json.nat? countLimit) key fields
  let register (key : String) := Json.field? Vv.Register.ofJson? key fields
  let reals (key : String) := Json.field? (Json.listOf? Json.double?) key fields
  match name with
  | "mv_nop" => some .mvNop
  | "mv_write" => some (.mvWrite (← count "addr") (← count "data"))
  | "mv_add" => some (.mvAdd (← count "rd") (← count "rs1") (← count "rs2"))
  | "mv_sub" => some (.mvSub (← count "rd") (← count "rs1") (← count "rs2"))
  | "mv_updatepp" =>
    some (.mvUpdatePp (← count "pp_reg") (← count "multiplicand") (← count "multiplier") (← count "bit_no"))
  | "mv_block_fold" => some (.mvBlockFold (← count "fold") (← count "rd") (← count "rs"))
  | "mv_accum_row" => some (.mvAccumRow (← count "level") (← count "reg"))
  | "mv_select_block" => some (.mvSelectBlock (← count "row_id") (← count "col_id"))
  | "mv_select_row" => some (.mvSelectRow (← count "row_id"))
  | "mv_select_col" => some (.mvSelectCol (← count "col_id"))
  | "mv_select_all" => some .mvSelectAll
  | "mv_mov" => some (.mvMov (← count "rd") (← count "rs"))
  | "mv_mov_offset" => some (.mvMovOffset (← count "offset") (← count "rd") (← count "rs"))
  | "vv_nop" => some .vvNop
  | "vv_write" =>
    some (.vvWrite (← count "addr") (← Json.field? (Json.int? (-2147483648) 2147483648) "data" fields))
  | "vv_mov" => some (.vvMov (← register "rd") (← register "rs"))
  | "vv_add" => some (.vvAdd (← register "opl") (← register "opr"))
  | "vv_sub" => some (.vvSub (← register "opl") (← register "opr"))
  | "vv_mult" => some (.vvMult (← register "opl") (← register "opr"))
  | "vv_activation" => some (.vvActivation (← count "code"))
  | "vv_shift_off" => some .vvShiftOff
  | "vv_serial_en" => some .vvSerialEn
  | "vv_parallel_en" => some .vvParallelEn
  | "vv_select_blk" => some (.vvSelectBlk (← count "id"))
  | "vv_select_all" => some .vvSelectAll
  | "mv_mult" => some (.mvMult (← count "rd") (← count "multiplicand") (← count "multiplier"))
  | "mv_mult_fxp" => some (.mvMultFxp (← count "rd") (← count "multiplicand") (← count "multiplier"))
  | "mv_block_accum" => some (.mvBlockAccum (← count "rd") (← count "rs"))
  | "mv_range_accum" => some (.mvRangeAccum (← count "col_cnt") (← count "rd") (← count "rs"))
  | "mv_all_accum" => some (.mvAllAccum (← count "rd") (← count "rs"))
  | "mv_sync" => some .mvSync
  | "mv_clear_reg" => some (.mvClearReg (← count "reg"))
  | "mv_load_mat" =>
    some (.mvLoadMat (← count "reg") (← Json.field? (Json.listOf? (Json.listOf? Json.double?)) "matrix" fields))
  | "mv_load_vec_row" => some (.mvLoadVecRow (← count "reg") (← reals "vector"))
  | "mv_load_vec_col" => some (.mvLoadVecCol (← count "reg") (← reals "vector"))
  | "vv_sync" => some .vvSync
  | "vv_clear_reg" => some (.vvClearReg (← count "reg"))
  | "vv_load_vec" => some (.vvLoadVec (← count "reg") (← reals "vector"))
  | "as_comment" => some (.comment (← Json.field? Json.text? "text" fields))
  | _ => none

def ofCounts (counts : List (String × Nat)) : List (String × Json) := counts.map fun c => (c.1, .ofNat c.2)

def ofReals (xs : List Double) : Json := .list (xs.map .real)

def fields : Call → String × List (String × Json)
  | .mvNop => ("mv_nop", [])
  | .mvWrite addr data => ("mv_write", ofCounts [("addr", addr), ("data", data)])
  | .mvAdd rd rs1 rs2 => ("mv_add", ofCounts [("rd", rd), ("rs1", rs1), ("rs2", rs2)])
  | .mvSub rd rs1 rs2 => ("mv_sub", ofCounts [("rd", rd), ("rs1", rs1), ("rs2", rs2)])
  | .mvUpdatePp pp multiplicand multiplier bit =>
    ("mv_updatepp", ofCounts [
      ("pp_reg", pp), ("multiplicand", multiplicand), ("multiplier", multiplier), ("bit_no", bit)])
  | .mvBlockFold fold rd rs => ("mv_block_fold", ofCounts [("fold", fold), ("rd", rd), ("rs", rs)])
  | .mvAccumRow level reg => ("mv_accum_row", ofCounts [("level", level), ("reg", reg)])
  | .mvSelectBlock rowId colId => ("mv_select_block", ofCounts [("row_id", rowId), ("col_id", colId)])
  | .mvSelectRow rowId => ("mv_select_row", ofCounts [("row_id", rowId)])
  | .mvSelectCol colId => ("mv_select_col", ofCounts [("col_id", colId)])
  | .mvSelectAll => ("mv_select_all", [])
  | .mvMov rd rs => ("mv_mov", ofCounts [("rd", rd), ("rs", rs)])
  | .mvMovOffset offset rd rs => ("mv_mov_offset", ofCounts [("offset", offset), ("rd", rd), ("rs", rs)])
  | .vvNop => ("vv_nop", [])
  | .vvWrite addr data => ("vv_write", [("addr", .ofNat addr), ("data", .int data)])
  | .vvMov rd rs => ("vv_mov", [("rd", rd.toJson), ("rs", rs.toJson)])
  | .vvAdd opl opr => ("vv_add", [("opl", opl.toJson), ("opr", opr.toJson)])
  | .vvSub opl opr => ("vv_sub", [("opl", opl.toJson), ("opr", opr.toJson)])
  | .vvMult opl opr => ("vv_mult", [("opl", opl.toJson), ("opr", opr.toJson)])
  | .vvActivation code => ("vv_activation", ofCounts [("code", code)])
  | .vvShiftOff => ("vv_shift_off", [])
  | .vvSerialEn => ("vv_serial_en", [])
  | .vvParallelEn => ("vv_parallel_en", [])
  | .vvSelectBlk id => ("vv_select_blk", ofCounts [("id", id)])
  | .vvSelectAll => ("vv_select_all", [])
  | .mvMult rd multiplicand multiplier =>
    ("mv_mult", ofCounts [("rd", rd), ("multiplicand", multiplicand), ("multiplier", multiplier)])
  | .mvMultFxp rd multiplicand multiplier =>
    ("mv_mult_fxp", ofCounts [("rd", rd), ("multiplicand", multiplicand), ("multiplier", multiplier)])
  | .mvBlockAccum rd rs => ("mv_block_accum", ofCounts [("rd", rd), ("rs", rs)])
  | .mvRangeAccum colCnt rd rs => ("mv_range_accum", ofCounts [("col_cnt", colCnt), ("rd", rd), ("rs", rs)])
  | .mvAllAccum rd rs => ("mv_all_accum", ofCounts [("rd", rd), ("rs", rs)])
  | .mvSync => ("mv_sync", [])
  | .mvClearReg reg => ("mv_clear_reg", ofCounts [("reg", reg)])
  | .mvLoadMat reg matrix => ("mv_load_mat", [("reg", .ofNat reg), ("matrix", .list (matrix.map ofReals))])
  | .mvLoadVecRow reg vector => ("mv_load_vec_row", [("reg", .ofNat reg), ("vector", ofReals vector)])
  | .mvLoadVecCol reg vector => ("mv_load_vec_col", [("reg", .ofNat reg), ("vector", ofReals vector)])
  | .vvSync => ("vv_sync", [])
  | .vvClearReg reg => ("vv_clear_reg", ofCounts [("reg", reg)])
  | .vvLoadVec reg vector => ("vv_load_vec", [("reg", .ofNat reg), ("vector", ofReals vector)])
  | .comment text => ("as_comment", [("text", .text text)])

end Call

structure Step where
  call : Call
  note : Option String := none
  deriving DecidableEq, Repr

namespace Step

def ofJson? : Json → Option Step
  | .object fields => do
    let note ← Json.fieldOr? none (Json.optional? Json.text?) "note" fields
    let name ← Json.field? Call.name? "op" fields
    some ⟨← Call.ofFields? name fields, note⟩
  | _ => none

def toJson (st : Step) : Json :=
  let (name, fields) := st.call.fields
  .object (("op", .text name) :: fields ++ st.note.elim [] fun note => [("note", .text note)])

end Step

end PimAsm
