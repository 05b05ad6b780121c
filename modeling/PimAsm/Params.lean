import PimAsm.Gemv.Limits
import PimAsm.Json.Reader
import PimAsm.Vv.Limits

namespace PimAsm

open Numeral Outcome

structure Params where
  userRegs : Nat := 16
  vvRegs : Nat := 256
  regWidth : Nat := 16
  maxLevel : Nat := 3
  maxFold : Nat := 4
  idWidth : Nat := 8
  fracWidth : Nat := 0
  /-- Rows and columns of blocks; without them the shape of data is not checked. -/
  blockDim : Option (Nat × Nat) := none
  reservedRegs : Nat := 0
  actCount : Nat := 3
  deriving DecidableEq, Repr

/-- Registers after the user's, for macros only. -/
structure Reserved where
  base : Nat
  count : Nat
  deriving DecidableEq, Repr

structure Config where
  gemv : Gemv.Limits := {}
  vv : Vv.Limits := {}
  fracWidth : Nat := 0
  maxRow : Option Nat := none
  maxCol : Option Nat := none
  reserved : Option Reserved := none
  deriving DecidableEq, Repr

def ceilLog2 (n : Nat) : Nat := if n ≤ 1 then 0 else (n - 1).log2 + 1

namespace Params

def checkBlockDim (p : Params) (rows cols : Nat) : Outcome Nat := do
  require (1 ≤ rows ∧ 1 ≤ cols) (.params (.blockDim rows cols))
  require (cols * 16 < countLimit) (.params (.columns cols))
  require (ceilLog2 cols ≤ p.maxLevel + 1) (.params (.levelTooLow p.maxLevel (ceilLog2 cols - 1)))
  return cols * 16

def checkReserved (p : Params) (available : Nat) : Outcome (Option Reserved) :=
  if p.reservedRegs = 0 then return none
  else do
    let total ← checkedCount (p.userRegs + p.reservedRegs)
    require (total ≤ available) (.params (.reserved p.userRegs p.reservedRegs available))
    return some ⟨p.userRegs, p.reservedRegs⟩

def validate (p : Params) : Outcome Config := do
  require (1 ≤ p.userRegs ∧ p.userRegs ≤ 60) (.params (.userRegs p.userRegs))
  require (p.regWidth = 16) (.params (.regWidth p.regWidth))
  require (1 ≤ p.idWidth ∧ p.idWidth ≤ 8) (.params (.idWidth p.idWidth))
  require (1 ≤ p.maxFold ∧ p.maxFold ≤ 63) (.params (.maxFold p.maxFold))
  require (p.maxLevel ≤ 26) (.params (.maxLevel p.maxLevel))
  let maxCol ← match p.blockDim with
    | none => pure none
    | some (rows, cols) => some <$> p.checkBlockDim rows cols
  let available := 1024 / p.regWidth
  require (p.userRegs ≤ available) (.params (.depth p.userRegs p.regWidth))
  require (1 ≤ p.vvRegs ∧ p.vvRegs ≤ 256) (.params (.vvRegs p.vvRegs))
  require (p.actCount ≤ 3) (.params (.tables p.actCount))
  require (p.fracWidth ≤ p.regWidth) (.params (.fracWidth p.regWidth p.fracWidth))
  let reserved ← p.checkReserved available
  return {
    gemv := {
      regCnt := p.userRegs, regWidth := p.regWidth, maxLevel := p.maxLevel, maxFold := p.maxFold
      idWidth := p.idWidth, peCount := 16, pimDepth := 1024 }
    vv := { regCnt := p.vvRegs, regWidth := p.regWidth, idWidth := p.idWidth, actCount := p.actCount }
    fracWidth := p.fracWidth
    maxRow := p.blockDim.map Prod.fst
    maxCol
    reserved }

def pair? (j : Json) : Option (Nat × Nat) :=
  match j with
  | .list [a, b] => do some (← a.nat? countLimit, ← b.nat? countLimit)
  | _ => none

def keys : List String :=
  ["mvRegCnt", "vvRegCnt", "regWidth", "maxLevel", "maxFold", "idWidth", "fracWidth", "mvBlockDim",
   "mvResvRegCnt", "actCount"]

def ofFields? (fields : List (String × Json)) : Option Params := do
  guard (fields.all fun f => keys.contains f.1)
  let count (key : String) (default : Nat) := Json.fieldOr? default (Json.nat? countLimit) key fields
  let d : Params := {}
  some {
    userRegs := ← count "mvRegCnt" d.userRegs
    vvRegs := ← count "vvRegCnt" d.vvRegs
    regWidth := ← count "regWidth" d.regWidth
    maxLevel := ← count "maxLevel" d.maxLevel
    maxFold := ← count "maxFold" d.maxFold
    idWidth := ← count "idWidth" d.idWidth
    fracWidth := ← count "fracWidth" d.fracWidth
    blockDim := ← Json.fieldOr? d.blockDim (Json.optional? pair?) "mvBlockDim" fields
    reservedRegs := ← count "mvResvRegCnt" d.reservedRegs
    actCount := ← count "actCount" d.actCount }

/-- Parameters from an object, or from a list of the leading ones in order. -/
def ofJson? : Json → Option Params
  | .object fields => ofFields? fields
  | .list items => if items.length ≤ keys.length then ofFields? (keys.zip items) else none
  | _ => none

def read (text : String) : Except Json.Place Params :=
  Json.readWith (fun j => if j.fits Json.depthLimit then ofJson? j else none) text

def toJson (p : Params) : Json :=
  .object [
    ("mvRegCnt", .ofNat p.userRegs), ("vvRegCnt", .ofNat p.vvRegs), ("regWidth", .ofNat p.regWidth),
    ("maxLevel", .ofNat p.maxLevel), ("maxFold", .ofNat p.maxFold), ("idWidth", .ofNat p.idWidth),
    ("fracWidth", .ofNat p.fracWidth),
    ("mvBlockDim", p.blockDim.elim .null fun (rows, cols) => .list [.ofNat rows, .ofNat cols]),
    ("mvResvRegCnt", .ofNat p.reservedRegs), ("actCount", .ofNat p.actCount)]

end Params

namespace Config

def toJson (c : Config) : Json :=
  .object [
    ("picaso", .object [
      ("reg_cnt", .ofNat c.gemv.regCnt), ("reg_width", .ofNat c.gemv.regWidth),
      ("max_level", .ofNat c.gemv.maxLevel), ("max_fold", .ofNat c.gemv.maxFold),
      ("id_width", .ofNat c.gemv.idWidth), ("pe_count", .ofNat c.gemv.peCount),
      ("pim_depth", .ofNat c.gemv.pimDepth)]),
    ("vv", .object [
      ("reg_cnt", .ofNat c.vv.regCnt), ("reg_width", .ofNat c.vv.regWidth), ("id_width", .ofNat c.vv.idWidth),
      ("act_count", .ofNat c.vv.actCount)]),
    ("frac_width", .ofNat c.fracWidth), ("mv_max_row", .ofNatOption c.maxRow),
    ("mv_max_col", .ofNatOption c.maxCol),
    ("reserved", c.reserved.elim .null fun r => .object [("base", .ofNat r.base), ("count", .ofNat r.count)])]

def summary (c : Config) : String :=
  let optional (n : Option Nat) : String := n.elim "None" decimal
  String.join <| List.map (· ++ "\n") [
    "fracWidth    : " ++ decimal c.fracWidth,
    "mvMaxRow     : " ++ optional c.maxRow,
    "mvMaxCol     : " ++ optional c.maxCol,
    "mvResvRegCnt : " ++ decimal (c.reserved.elim 0 Reserved.count),
    "mvResvRegBase: " ++ optional (c.reserved.map Reserved.base),
    "PiCaSOAsm Params:",
    "  regCnt  : " ++ decimal c.gemv.regCnt,
    "  regWidth: " ++ decimal c.gemv.regWidth,
    "  maxLevel: " ++ decimal c.gemv.maxLevel,
    "  maxFold : " ++ decimal c.gemv.maxFold,
    "  idWidth : " ++ decimal c.gemv.idWidth,
    "  peCount : " ++ decimal c.gemv.peCount,
    "VVBlockAsm Params:",
    "  regCnt  : " ++ decimal c.vv.regCnt,
    "  regWidth: " ++ decimal c.vv.regWidth,
    "  idWidth : " ++ decimal c.vv.idWidth,
    "  actCount: " ++ decimal c.vv.actCount]

end Config

end PimAsm
