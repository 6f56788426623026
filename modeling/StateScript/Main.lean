import StateScript.CommandLine.Run

/-! # The command

  Runs the command line on the files of the disk. -/

open StateScript

/-- What the system says about a file. -/
def diskFault : IO.Error → FileFault
  | .noFileOrDirectory .. => .missing
  | .inappropriateType _ code reason =>
    if code == 20 then .notDirectory
    else if code == 21 then .isDirectory
    else .refused code.toNat reason
  | .permissionDenied _ code reason => .refused code.toNat reason
  | .resourceBusy code reason => .refused code.toNat reason
  | .resourceExhausted _ code reason => .refused code.toNat reason
  | .invalidArgument _ code reason =>
    if code == 36 then .nameTooLong else .refused code.toNat reason
  | .otherError code reason => .refused code.toNat reason
  | e => .refused 5 (toString e)

/-- The files of the disk. -/
def disk : Files IO where
  read path := do
    try
      return .ok (← IO.FS.readBinFile path).data.toList
    catch e => return .error (diskFault e)
  write path bytes := do
    try
      IO.FS.writeBinFile path ⟨bytes.toArray⟩
      return .ok ()
    catch e => return .error (diskFault e)

def main (args : List String) : IO UInt32 := do
  let outcome ← CommandLine.run disk args
  (← IO.getStdout).putStr outcome.stdout
  (← IO.getStderr).putStr outcome.stderr
  return UInt32.ofNat outcome.exit
