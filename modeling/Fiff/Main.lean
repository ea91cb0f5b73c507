import Fiff.Cli.Run

/-!
# The command-line program

The program reads its arguments, runs the tool on the real files and prints what the run
leaves on the two output streams, ending with the run's status.
-/

open Fiff.Cli

def ioErrorOf (e : IO.Error) : IoError :=
  let code : Option UInt32 := match e with
    | .noFileOrDirectory _ c _ | .inappropriateType _ c _ | .permissionDenied _ c _
    | .otherError c _ | .alreadyExists _ c _ | .resourceBusy c _ | .resourceExhausted _ c _
    | .hardwareFault c _ | .illegalOperation c _ | .protocolError c _ | .timeExpired c _
    | .noSuchThing _ c _ | .resourceVanished c _ | .unsupportedOperation c _
    | .invalidArgument _ c _ | .interrupted _ c _ => some c
    | _ => none
  match code.map UInt32.toNat with
  | some 2 => .notFound
  | some 13 => .permissionDenied
  | some 20 => .notDirectory
  | some 21 => .isDirectory
  | some c => .other c (toString e)
  | none => .other 0 (toString e)

def systemFiles : Files IO where
  read path := do
    try
      let bytes ← IO.FS.readBinFile path
      pure (.ok bytes.data.toList)
    catch e => pure (.error (ioErrorOf e))
  write path bytes := do
    try
      IO.FS.writeBinFile path ⟨bytes.toArray⟩
      pure (.ok ())
    catch e => pure (.error (ioErrorOf e))

def main (args : List String) : IO UInt32 := do
  let outcome ← run systemFiles args
  let out ← IO.getStdout
  out.putStr outcome.stdout
  out.flush
  let err ← IO.getStderr
  err.putStr outcome.stderr
  err.flush
  pure outcome.status.toUInt32
