/-!
# Documents

A document is a tree of plain values: the form in which hosts write transactions, rules and
state down and in which they get results.  Documents are read in one of two dialects, which
differ in whether text has to be quoted.

* `Document` — the tree.
* `Dialect`, `Document.text?` — text, and what else is read as text.
* `Fields`, `Document.record?` — records, by field name or by position.
* `Document.variant?` — one of several named cases.
-/

namespace ResumableEvm

/-- A tree of plain values. -/
inductive Document where
  | null
  | bool (b : Bool)
  | int (n : Int)
  /-- A number that is not an integer, as it is written. -/
  | fraction (digits : String)
  | text (s : String)
  | list (items : List Document)
  /-- Named values, in the order in which they are written. -/
  | object (fields : List (String × Document))
  deriving Inhabited

/-- Whether text has to be quoted. -/
inductive Dialect where
  | strict
  /-- Where text is expected, a scalar without quotes is text too. -/
  | lenient
  deriving DecidableEq, Repr

namespace Document

/-- The text that a scalar without quotes is written as. -/
def scalarText? : Document → Option String
  | .null => some "null"
  | .bool b => some (if b then "true" else "false")
  | .int n => some (toString n)
  | .fraction digits => some digits
  | _ => none

def text? (d : Dialect) : Document → Option String
  | .text s => some s
  | doc =>
    match d with
    | .strict => none
    | .lenient => doc.scalarText?

/-- **One of several cases.**  A case is named by text, or by the only field of an object whose
    value it then carries. -/
def variant? : Document → Option (String × Option Document)
  | .text name => some (name, none)
  | .object [(name, value)] => some (name, some value)
  | _ => none

end Document

/-! ## Records -/

/-- The fields of a record that have not been read yet. -/
inductive Fields where
  | named (fields : List (String × Document))
  | positional (items : List Document)

namespace Fields

/-- Takes the field of a name, or the next one where fields go by position. -/
def take (name : String) : Fields → Option Document × Fields
  | .named fields => (fields.lookup name, .named (fields.filter (·.1 ≠ name)))
  | .positional [] => (none, .positional [])
  | .positional (item :: items) => (some item, .positional items)

end Fields

/-- Reads a record field by field, in the order in which they are declared. -/
abbrev FieldReader := StateT Fields Option

/-- **Reads a record,** given by name or by position.  Fields that were not read are refused by
    position, and by name if the record is closed. -/
def Document.record? {α : Type} (closed : Bool) (reader : FieldReader α) : Document → Option α
  | .object fields =>
    match reader.run (.named fields) with
    | some (a, .named rest) => if closed && !rest.isEmpty then none else some a
    | _ => none
  | .list items =>
    match reader.run (.positional items) with
    | some (a, .positional []) => some a
    | _ => none
  | _ => none

end ResumableEvm
