import ResumableEvm.Bytes
import ResumableEvm.Document

/-!
# Documents in block style

Results are written as YAML in block style: one value a line, nesting shown by two blanks, the
dashes of a list set in under its name, and empty lists and objects in brackets.  Text that
could be taken for anything else is quoted.

* `Document.isPlain` — which text needs no quotes.
* `Document.lines` — the lines of a document.
* `Document.toYaml` — a document as a whole.
-/

namespace ResumableEvm

namespace Document

/-! ## Scalars -/

/-- Words that stand for truth values and null where they are not quoted. -/
def reservedWords : List String :=
  ["y", "n", "yes", "no", "true", "false", "on", "off", "null", "nan", "inf", "infinity"]

/-- **Text without quotes.**  It starts with a letter, has only letters, digits, underscores and
    parentheses, and is no reserved word in any case. -/
def isPlain (s : String) : Bool :=
  (match s.toList with
    | c :: rest => c.isAlpha && rest.all fun c => c.isAlphanum || c == '_' || c == '(' || c == ')'
    | [] => false)
    && !(s.toLower ∈ reservedWords)

def yamlEscaped (c : Char) : String :=
  if c = '"' then "\\\""
  else if c = '\\' then "\\\\"
  else if c.toNat < 0x20 then "\\x" ++ String.ofList (hexDigits 2 c.toNat [])
  else c.toString

def yamlText (s : String) : String :=
  if isPlain s then s else "\"" ++ s.foldl (fun out c => out ++ yamlEscaped c) "" ++ "\""

/-- A document that fits behind its name: a scalar, or an empty list or object. -/
def inline? : Document → Option String
  | .null => some "~"
  | .bool b => some (if b then "true" else "false")
  | .int n => some (toString n)
  | .fraction digits => some digits
  | .text s => some (yamlText s)
  | .list [] => some "[]"
  | .object [] => some "\x7b\x7d"
  | _ => none

/-! ## Blocks -/

def indented (lines : List String) : List String := lines.map ("  " ++ ·)

/-- The lines of a list item, the first of them behind a dash. -/
def dashed : List String → List String
  | [] => []
  | first :: rest => ("- " ++ first) :: indented rest

mutual

def lines : Document → List String
  | .list (item :: items) => itemLines (item :: items)
  | .object (entry :: entries) => entryLines (entry :: entries)
  | doc => (inline? doc).toList

def itemLines : List Document → List String
  | [] => []
  | item :: items => dashed (lines item) ++ itemLines items

def entryLines : List (String × Document) → List String
  | [] => []
  | (name, value) :: entries =>
    (match inline? value with
      | some inline => [yamlText name ++ ": " ++ inline]
      | none => (yamlText name ++ ":") :: indented (lines value))
    ++ entryLines entries

end

/-- **A document as a whole,** behind the mark that starts one. -/
def toYaml (doc : Document) : String :=
  ("---" :: lines doc).foldl (fun out line => out ++ line ++ "\n") ""

end Document

end ResumableEvm
