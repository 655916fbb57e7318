import ResumableEvm.Document.Domain
import ResumableEvm.Document.Yaml
import ResumableEvm.Engine

/-!
# Reports

What became of a transaction, in the form in which it is shown to people.

* `Report` — the outcome.
* `Report.ofEngine` — the report of an engine that has ended.
* `Report.toDocument`, `Report.text` — its written form.
-/

namespace ResumableEvm

/-- What became of a transaction. -/
structure Report where
  status : EngineStatus
  usedGas : Gas
  /-- How many requirements were answered. -/
  requirements : Nat
  out : Bytes
  logs : List LogEntry
  changes : List AccountChange

namespace Report

/-- The report of an engine that has ended. -/
def ofEngine (e : Engine) : Report where
  status := e.status
  usedGas := e.usedGas
  requirements := e.requirements.length
  out := e.out
  logs := e.logs
  changes := e.changes

def toDocument (r : Report) : Document :=
  .object [
    ("status", .text r.status.text),
    ("failed", .bool r.status.isFailure),
    ("used_gas", Codec.gas.write r.usedGas),
    ("requirements", .int r.requirements),
    ("out", .text r.out.toHex),
    ("logs", (Codec.list LogEntry.codec).write r.logs),
    ("account_changes", (Codec.list AccountChange.codec).write r.changes)]

def text (r : Report) : String := r.toDocument.toYaml

end Report

end ResumableEvm
