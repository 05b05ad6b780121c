import PimAsm.Params
import PimAsm.Program.Record

namespace PimAsm

structure ExportOptions where
  /-- Comments, comment lines and the marks around macros. -/
  comment : Bool := true
  source : Bool := true
  separator : String := "_"
  deriving DecidableEq, Repr

namespace Export

structure Style where
  indent : String
  word : List Segment → String

def commentText (s : String) : String := "// " ++ s

def remark (o : ExportOptions) (r : Record) : String :=
  let source := if o.source then [r.source] else []
  let comment := match r.comment with
    | some c => if o.comment ∧ c ≠ "" then [c] else []
    | none => []
  String.intercalate "; " (source ++ comment)

/-- The text of an encoded record, possibly several lines; nothing for a hidden comment. -/
def render? (st : Style) (o : ExportOptions) (r : Record) : Option String :=
  let note := remark o r
  match r.code, r.body with
  | none, _ => none
  | some _, .comment =>
    match r.comment with
    | some c => if o.comment then some (st.indent ++ commentText c) else none
    | none => none
  | some _, .gemvMacro .. | some _, .vvMacro .. =>
    let words := r.segments.map st.word
    let lines :=
      if o.comment then
        [st.indent ++ commentText ("---- MACRO: " ++ note)] ++ words ++ [st.indent ++ commentText "---- End of MACRO"]
      else words
    some (String.intercalate "\n" lines)
  | some _, .gemv _ | some _, .vv _ =>
    (r.segments.head?.map st.word).map fun word => if note = "" then word else word ++ "  " ++ commentText note

def renderAll (st : Style) (o : ExportOptions) (rs : List Record) : List String := rs.filterMap (render? st o)

def verilog (o : ExportOptions) (rs : List Record) : String :=
  String.join ((renderAll ⟨"", Segment.binaryText o.separator⟩ o rs).map (· ++ "\n"))

def headerName : String := "davinci_prog.h"

def header : String :=
  String.join <| List.map (· ++ "\n") [
    "#ifndef DAVINCI_PROG_H",
    "#define DAVINCI_PROG_H",
    "",
    "",
    "#include <stdint.h>",
    "",
    "typedef struct \x7b",
    "    const uint32_t * const instruction;",
    "    const int size;",
    "    // target DA-VinCi configuration of the program",
    "    const int fracWidth;",
    "    const int mvMaxRow;",
    "    const int mvMaxCol;",
    "    const int regWidth;",
    "    const int idWidth;",
    "    const int peCount;",
    "\x7d Davinci_Prog;",
    "",
    "",
    "#endif  // DAVINCI_PROG_H"]

def cIndent : String := "    "

def cWord (segs : List Segment) : String := cIndent ++ Segment.hexText (Segment.pack segs) 32 ++ ", "

open Numeral

def cProgram (name : String) (o : ExportOptions) (c : Config) (rs : List Record) : String :=
  "#include \"" ++ headerName ++ "\"\n\n\nstatic const uint32_t word_arr[] = \x7b\n"
    ++ String.intercalate "\n" (renderAll ⟨cIndent, cWord⟩ o rs)
    ++ "\n\x7d;\n\n\nDavinci_Prog " ++ name ++ " = \x7b\n    word_arr,\n"
    ++ "    sizeof(word_arr)/sizeof(word_arr[0]),   // size\n"
    ++ "    " ++ decimal c.fracWidth ++ ",    // fracWidth\n"
    ++ "    " ++ decimal (c.maxRow.getD 0) ++ ",   // mvMaxRow\n"
    ++ "    " ++ decimal (c.maxCol.getD 0) ++ ",   // mvMaxCol\n"
    ++ "    " ++ decimal c.gemv.regWidth ++ ",   // regWidth\n"
    ++ "    " ++ decimal c.gemv.idWidth ++ ",    // idWidth\n"
    ++ "    " ++ decimal c.gemv.peCount ++ ",   // peCount\n"
    ++ "\x7d;\n"

end Export

end PimAsm
