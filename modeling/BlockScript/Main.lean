import BlockScript.Cli.Run

/-
  This file is the program: it reads files and the command
  line and writes what a command responds.
-/

namespace BlockScript
namespace Cli

------------------------------------------------------------
-- Program
------------------------------------------------------------

/-
  Read a file from disk. The code of an error may come with
  either sign.
-/
def readFromDisk (path : String) :
    IO (Except ReadError ByteArray) := do
  try
    return .ok (← IO.FS.readBinFile path)
  catch e =>
    match e with
    | .noFileOrDirectory .. => return .error .notFound
    | .inappropriateType _ code _ =>
        if code == 20 || code + 20 == 0 then
          return .error .notDirectory
        else
          return .error .isDirectory
    | .invalidArgument _ code _ =>
        if code == 36 || code + 36 == 0 then
          return .error .nameTooLong
        else
          return .error (.other e.toString)
    | e => return .error (.other e.toString)

/- The command line in short. -/
def usage : String :=
  "usage: ufoscript [--config FILE] check FILE...\n"
    ++ "       ufoscript [--config FILE] dump FILE\n"
    ++ "       ufoscript [--config FILE] kinds\n"

end Cli
end BlockScript

open BlockScript Cli in
/- Carry out the command line. -/
def main (arguments : List String) : IO UInt32 := do
  match Invocation.parse? arguments with
  | none =>
      IO.eprint usage
      return 2
  | some invocation =>
      let response ← invocation.run readFromDisk
      IO.eprint response.stderr
      IO.print response.stdout
      return response.exitCode.toUInt32
