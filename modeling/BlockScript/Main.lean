import BlockScript.CommandLine

/-!
The program: runs the green-flag scripts of a project file in real time and writes log records to
standard error.
-/
namespace BlockScript.CommandLine

def usage : String :=
  "Run the green-flag scripts of an extracted project\n\n" ++
  "Usage: blockscript [OPTIONS] [PROJECT]\n\n" ++
  "Arguments:\n" ++
  "  [PROJECT]  Path to the project.json [default: project.json]\n\n" ++
  "Options:\n" ++
  "      --list-item-limit <LIST_ITEM_LIMIT>  Largest number of items a list may hold\n" ++
  "  -h, --help                               Print help"

def printRecords (records : List LogRecord) : IO Unit := do
  for r in records do
    let level := r.level.name
    let message := r.message
    IO.eprintln s!"{level} > {message}"

/-- The system's number for reading a folder as a file. -/
def isFolderErrno : UInt32 := 21

def readPath (path : String) : IO FileContent := do
  try
    return .text (← IO.FS.readFile path)
  catch
    | .userError _ => return .garbled
    | .inappropriateType _ errno _ => return if errno = isFolderErrno then .garbled else .missing
    | _ => return .missing

/-- Lets scripts run until all have ended; the clock is the time since `began`. -/
partial def runToEnd (began : Nat) (s : Session) : IO Unit := do
  printRecords s.world.traces.logs.reverse
  let s := s.clearReport
  if s.machine.isFinished then return ()
  else if s.machine.isIdle then
    let now := (← IO.monoMsNow) - began
    let pause := (s.machine.nextTimer?.getD (now + 1000)) - now
    IO.sleep (UInt32.ofNat (min pause 1000))
    let now := (← IO.monoMsNow) - began
    runToEnd began (s.onMachine (·.setClock now))
  else runToEnd began (s.onMachine Machine.round)

/-- Runs the program and gives its exit status. -/
def runProgram (args : List String) : IO Nat := do
  match Invocation.ofArgs args with
  | .help => do
    IO.println usage
    return 0
  | .misuse => do
    IO.eprintln usage
    return misuseStatus
  | .run path listItemLimit => do
    let (loaded, logs) := load (← readPath path) listItemLimit
    printRecords logs
    match loaded with
    | .error e => do
      printRecords [failure path e]
      return failureStatus
    | .ok project => do
      printRecords [running project.scripts.length]
      runToEnd (← IO.monoMsNow) (Session.ofProject project).greenFlag
      return 0

end BlockScript.CommandLine

def main (args : List String) : IO UInt32 := do
  return UInt32.ofNat (← BlockScript.CommandLine.runProgram args)
