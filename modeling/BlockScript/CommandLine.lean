import BlockScript.Session.Run

/-!
The command line: runs the green-flag scripts of a project file. Arguments are read from left to
right, and the first that is wrong or asks for help decides.
-/
namespace BlockScript

/-- What the arguments ask for. -/
inductive Invocation where
  | run (path : String) (listItemLimit : Option Nat)
  | help
  | misuse
  deriving DecidableEq

namespace Invocation

/-- The project file unless another is named. -/
def defaultPath : String := "project.json"

def limitOption : String := "--list-item-limit"

/-- A whole number below `2 ^ 64`, in decimal digits after an optional plus sign. -/
def limit? (s : String) : Option Nat :=
  let digits := match s.toList with
    | '+' :: rest => rest
    | all => all
  (Number.readDigits? 10 digits).filter (· < twoPow 64)

/-- An argument that is no option: the path. -/
def withPath (path : Option String) (arg : String) : Option String :=
  if arg.isEmpty || path.isSome then none else some arg

/-- Arguments that are all paths, after those read so far. -/
def ofPaths (path : Option String) (limit : Option Nat) : List String → Invocation
  | [] => .run (path.getD defaultPath) limit
  | arg :: rest =>
    match withPath path arg with
    | some path => ofPaths (some path) limit rest
    | none => .misuse

/-- Whether an argument looks like an option; a lone dash does not. -/
def isOption (arg : String) : Bool := arg.startsWith "-" && arg != "-"

def ofArgsAfter (path : Option String) (limit : Option Nat) : List String → Invocation
  | [] => .run (path.getD defaultPath) limit
  | arg :: rest =>
    if arg = "--" then ofPaths path limit rest
    else if arg = "--help" || arg.startsWith "-h" then .help
    else if arg = limitOption then
      match rest with
      | [] => .misuse
      | value :: rest =>
        if isOption value || limit.isSome then .misuse
        else match limit? value with
          | some n => ofArgsAfter path (some n) rest
          | none => .misuse
    else if arg.startsWith (limitOption ++ "=") then
      match limit, limit? (String.ofList (arg.toList.drop (limitOption.length + 1))) with
      | none, some n => ofArgsAfter path (some n) rest
      | _, _ => .misuse
    else if isOption arg then .misuse
    else match withPath path arg with
      | some path => ofArgsAfter (some path) limit rest
      | none => .misuse

def ofArgs (args : List String) : Invocation := ofArgsAfter none none args

end Invocation

/-- What a path leads to. -/
inductive FileContent where
  | missing
  /-- Something that can be opened but holds no text, such as a folder. -/
  | garbled
  | text (s : String)
  deriving DecidableEq

/-- A folder with files under their names; a file of a folder within has slashes in its name. -/
structure Folder where
  files : List (String × String)

/-- Where a path has led so far. -/
inductive Place where
  /-- A folder within, by the names that lead there, last first. -/
  | within (names : List String)
  /-- A folder around. -/
  | around
  | file (text : String)
  | nowhere
  deriving DecidableEq

namespace Folder

/-- Enters a name of a folder within. Nothing is known about the names of folders around. -/
def enter (f : Folder) (names : List String) : Place :=
  let name := "/".intercalate names.reverse
  match f.files.lookup name with
  | some text => .file text
  | none => if f.files.any (·.1.startsWith (name ++ "/")) then .within names else .nowhere

/-- One part of a path further. An empty part or a dot stays, two dots lead up, and only folders can be
entered. -/
def follow (f : Folder) : Place → String → Place
  | .within names, part =>
    if part = "" || part = "." then .within names
    else if part = ".." then match names with
      | [] => .around
      | _ :: up => .within up
    else f.enter (part :: names)
  | .around, part => if part = "" || part = "." || part = ".." then .around else .nowhere
  | _, _ => .nowhere

def openPath (f : Folder) (path : String) : FileContent :=
  let start := if path.startsWith "/" then .around else .within []
  match (path.splitOn "/").foldl f.follow start with
  | .file text => .text text
  | .within _ | .around => .garbled
  | .nowhere => .missing

end Folder

/-- How a run of the program ends. -/
structure Exit where
  status : Nat
  logs : List LogRecord

namespace CommandLine

def config (listItemLimit : Option Nat) : Config :=
  match listItemLimit with
  | some n => { Config.default with listItemLimit := n }
  | none => Config.default

/-- Loads a project from what its path leads to. -/
def load (content : FileContent) (listItemLimit : Option Nat) : Except ProjectError Project × List LogRecord :=
  match content with
  | .missing => (.error .unreadable, [])
  | .garbled => (.error .malformed, [])
  | .text text => Project.ofText (config listItemLimit) (.tracked 0 0) text

/-- The record of a project that cannot be run. -/
def failure (path : String) (e : ProjectError) : LogRecord :=
  let problem := e.message
  .error s!"cannot run `{path}`: {problem}"

def running (count : Nat) : LogRecord := .info s!"running {count} scripts"

/-- Exit status for arguments that make no sense. -/
def misuseStatus : Nat := 2

/-- Exit status for a project that cannot be run. -/
def failureStatus : Nat := 1

/-- Runs the program on files of a folder, with waits that take no real time. Records are sorted,
since scripts interleave. -/
def execute (fuel limit : Nat) (folder : Folder) (args : List String) : Exit :=
  match Invocation.ofArgs args with
  | .help => ⟨0, []⟩
  | .misuse => ⟨misuseStatus, []⟩
  | .run path listItemLimit =>
    match load (folder.openPath path) listItemLimit with
    | (.error e, logs) => ⟨failureStatus, sortRecords (logs ++ [failure path e])⟩
    | (.ok project, logs) =>
      let report := (Session.ofProject project).run fuel limit
      ⟨0, sortRecords (logs ++ running project.scripts.length :: report.logs)⟩

end CommandLine
end BlockScript
