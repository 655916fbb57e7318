import ResumableEvm.Document.Json
import ResumableEvm.Fixture

/-!
# The command line

Executes the transaction of the fixture on standard input and prints its report.  `--patch`
with a name puts other rules in place of those that the fixture names.

* `rulesetOption` — the arguments.
* `main` — the program.
-/

namespace ResumableEvm

/-- The name of the rules in the arguments, if there is one; no result if there is anything
    else. -/
def rulesetOption : List String → Option (Option String)
  | [] => some none
  | ["--patch", name] => some (some name)
  | _ => none

def reportText (fixture : String) (name : Option String) : Except FixtureError String :=
  match Document.ofJson? fixture with
  | some doc => (Fixture.report doc name).map Report.text
  | none => .error .unreadable

end ResumableEvm

open ResumableEvm in
/-- Prints the report, or what went wrong. -/
def main (args : List String) : IO UInt32 := do
  match rulesetOption args with
  | none =>
    IO.eprintln "usage: resumable-evm [--patch NAME] < FIXTURE"
    return 2
  | some name =>
    let input ← (← IO.getStdin).readToEnd
    match reportText input name with
    | .ok report =>
      IO.print report
      return 0
    | .error e =>
      IO.eprintln s!"Error: {e.message}"
      return 1
