import PimAsm.Cli.Simulator

/-! The command line: `as` runs the assembler and `sim` the simulator on the arguments after it. -/

namespace PimAsm.Cli

def faultOf (e : IO.Error) : FileFault :=
  match e with
  | .noFileOrDirectory _ code reason => .system reason code.toNat
  | .inappropriateType _ code reason => .system reason code.toNat
  | .permissionDenied _ code reason => .system reason code.toNat
  | .invalidArgument _ code reason => .system reason code.toNat
  | .resourceExhausted _ code reason => .system reason code.toNat
  | .illegalOperation code reason => .system reason code.toNat
  | .resourceBusy code reason => .system reason code.toNat
  | .otherError code reason => .system reason code.toNat
  | e => .system (toString e) 0

def systemFiles : Files IO where
  read path := do
    try
      let file ← IO.FS.Handle.mk path .read
      return textOf (← file.readBinToEnd)
    catch e => return .error (faultOf e)
  write path text := do
    try
      IO.FS.writeFile path text
      return .ok ()
    catch e => return .error (faultOf e)

end PimAsm.Cli

open PimAsm.Cli in
def main (args : List String) : IO UInt32 := do
  let report ← match args with
    | "as" :: args => Assembler.run systemFiles args
    | "sim" :: args => Simulator.run systemFiles args
    | _ => pure ⟨2, "", Assembler.usage ++ Simulator.usage⟩
  (← IO.getStdout).putStr report.out
  (← IO.getStderr).putStr report.err
  return report.exit.toUInt32
