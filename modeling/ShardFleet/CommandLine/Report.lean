import ShardFleet.Fault

/-!
# Reports

What a run of the program leaves behind: what it wrote to its two outputs, and its exit code. A failure
is reported by what failed and, below that, by what lies behind it.
-/

namespace ShardFleet.CommandLine

/-- What a run leaves behind. -/
structure Report where
  stdout : String := ""
  stderr : String := ""
  /-- The exit code, unless the run never ends. -/
  code : Option Nat := some 0
deriving DecidableEq, Repr

/-- A failure and what lies behind it, nearest first. -/
structure Failure where
  text : String
  causes : List String := []
deriving DecidableEq, Repr

namespace Failure

/-- The failure of a call. -/
def ofFault (f : Fault) : Failure := ⟨f.message, f.causes⟩

/-- The failure to use settings. -/
def ofSettings (f : Settings.Fault) : Failure := ⟨f.message, []⟩

/-- The failure as the cause of another one. -/
def because (text : String) (f : Failure) : Failure := ⟨text, f.text :: f.causes⟩

/-- A cause with its lines under one another, the first after a mark. -/
def causeText (mark : String) (cause : String) : String :=
  let margin := "\n" ++ String.ofList (List.replicate mark.length ' ')
  mark ++ margin.intercalate (cause.splitOn "\n")

/-- The mark in front of a cause: its number, where there are several. -/
def mark (count index : Nat) : String :=
  if count = 1 then "    "
  else
    let n := toString index
    String.ofList (List.replicate (5 - n.length) ' ') ++ n ++ ": "

/-- The report of a failure. -/
def report (f : Failure) : String :=
  let causes := f.causes.mapIdx fun i c => causeText (mark f.causes.length i) c
  "Error: " ++ f.text ++
    (if causes.isEmpty then "" else "\n\nCaused by:\n" ++ "\n".intercalate causes) ++ "\n"

end Failure

namespace Report

/-- Adds a line to the output. -/
def say (line : String) (r : Report) : Report := { r with stdout := r.stdout ++ line ++ "\n" }

/-- Adds lines to the output. -/
def sayAll (lines : List String) (r : Report) : Report := lines.foldl (fun r l => r.say l) r

/-- Adds a line to the output for errors. -/
def warn (line : String) (r : Report) : Report := { r with stderr := r.stderr ++ line ++ "\n" }

/-- Ends with a failure. -/
def fail (f : Failure) (r : Report) : Report :=
  { r with stderr := r.stderr ++ f.report, code := some 1 }

/-- The run goes on for ever. -/
def endless (r : Report) : Report := { r with code := none }

end Report

end ShardFleet.CommandLine
