import StagedLoad.CommandLine.Program
import StagedLoad.Target.Server

/-!
# The executable

Hands arguments and files to the program, prints what it prints, and exits as it says.

Time passes for a run on a clock of its own, so that hours of a schedule are over at once.
The network has one server, the one of `Target.serve`, at `127.0.0.1:9090`.

## Main definitions

* `Disk.reader` — files on the disk.
* `main` — the executable.
-/

namespace StagedLoad

namespace Disk

/-- What a fault of the system means. -/
def faultOf : IO.Error → FileFault
  | .noFileOrDirectory .. => .notFound
  | .inappropriateType none .. => .isADirectory
  | .inappropriateType (some _) .. => .notADirectory
  | .invalidArgument (some _) .. => .nameTooLong
  | e => .other (toString e)

/-- Files on the disk. -/
def reader : FileReader IO := fun path =>
  tryCatch (do return .ok (← IO.FS.readBinFile path).toList) fun e => return .error (faultOf e)

end Disk

/-- The server that can be reached. -/
def localTarget : Network TargetCounters := Target.network (.ipv4 0x7F000001) 9090

/-- How the program is used. -/
def usage : String :=
  "usage: staged-load run <profile> [--base-url URL] [--think-time DURATION]\n" ++
  "         [--output human-readable|json] [--no-progress] [-v]\n" ++
  "       staged-load validate <profile> [-v]\n"

/-- How many steps a run may take. -/
def greatestRun : Nat := 1000000000000000

/-- Prints a session. -/
def report (s : Session) : IO UInt32 := do
  IO.print s.printed
  if let .error f := s.result then
    IO.eprintln ((f.crash?.map ProgramCrash.message).getD f.message)
  return s.status

/-- Does nothing. -/
def refuse (r : Refusal) : IO UInt32 := do
  match r with
  | .crash c => IO.eprintln c.message; return crashCode
  | r =>
    if r.exitCode = .success then IO.print usage else IO.eprint usage
    return r.exitCode.code.toUInt32

end StagedLoad

open StagedLoad in
/-- The executable. -/
def main (words : List String) : IO UInt32 := do
  match Arguments.parse words with
  | .error r => refuse r
  | .ok a =>
    let start := Instant.clamp (← IO.monoNanosNow)
    match ← a.execute? Disk.reader localTarget {} [] start greatestRun .taking with
    | some s => report s
    | none => return ExitCode.runtimeFault.code.toUInt32
