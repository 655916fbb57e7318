import ResumableEvm.Bytes
import ResumableEvm.Document

/-!
# Documents in JSON

Fixtures are written in JSON.  Every reader takes the text that is left and gives what is left
behind what it read.

* `Json.stringBody` — text, behind its opening quote.
* `Json.value` — any value.
* `Document.ofJson?` — a document as a whole.
-/

namespace ResumableEvm

namespace Json

def skipBlanks (text : List Char) : List Char :=
  text.dropWhile fun c => c == ' ' || c == '\t' || c == '\n' || c == '\r'

/-! ## Text -/

/-- The character that a one-letter escape stands for. -/
def shortEscape? : Char → Option Char
  | '"' => some '"'
  | '\\' => some '\\'
  | '/' => some '/'
  | 'b' => some '\x08'
  | 'f' => some '\x0c'
  | 'n' => some '\n'
  | 'r' => some '\r'
  | 't' => some '\t'
  | _ => none

/-- **Pairs.**  The characters of a list of numbers, in which a character beyond U+FFFF may be
    given by two numbers from ranges of their own, high and low. -/
def joinPairs : List Nat → Option (List Char)
  | [] => some []
  | n :: rest =>
    if n < 0xd800 || 0xdfff < n then (joinPairs rest).map (Char.ofNat n :: ·)
    else
      match rest with
      | low :: rest =>
        if n < 0xdc00 && 0xdc00 ≤ low && low < 0xe000 then
          (joinPairs rest).map
            (Char.ofNat (0x10000 + (n - 0xd800) * 0x400 + (low - 0xdc00)) :: ·)
        else none
      | [] => none

/-- The text whose numbers are given, the last first. -/
def textOf? (read : List Nat) : Option String := (joinPairs read.reverse).map String.ofList

/-- Text behind its opening quote.  `read` holds the numbers of the characters read so far, the
    last first. -/
def stringBody : (text : List Char) → (read : List Nat) → Option (String × List Char)
  | '"' :: rest, read => (textOf? read).map fun s => (s, rest)
  | '\\' :: 'u' :: a :: b :: c :: d :: rest, read =>
    match hexNat? [a, b, c, d] with
    | some n => stringBody rest (n :: read)
    | none => none
  | '\\' :: letter :: rest, read =>
    match shortEscape? letter with
    | some c => stringBody rest (c.toNat :: read)
    | none => none
  | c :: rest, read => if c.toNat < 0x20 then none else stringBody rest (c.toNat :: read)
  | [], _ => none

/-! ## Numbers and words -/

/-- Whether a character can be part of a number. -/
def isNumeric (c : Char) : Bool :=
  c.isDigit || c == '-' || c == '+' || c == '.' || c == 'e' || c == 'E'

/-- The document of a number as it is written. -/
def number? (digits : List Char) : Option Document :=
  let text := String.ofList digits
  match text.toInt? with
  | some n => some (.int n)
  | none => if digits.any Char.isDigit then some (.fraction text) else none

def bare (text : List Char) : Option (Document × List Char) :=
  match text with
  | 'n' :: 'u' :: 'l' :: 'l' :: rest => some (.null, rest)
  | 't' :: 'r' :: 'u' :: 'e' :: rest => some (.bool true, rest)
  | 'f' :: 'a' :: 'l' :: 's' :: 'e' :: rest => some (.bool false, rest)
  | _ => (number? (text.takeWhile isNumeric)).map fun n => (n, text.dropWhile isNumeric)

/-! ## Values -/

mutual

/-- Any value.  Every value nested in it takes one from `fuel`. -/
def value : (fuel : Nat) → (text : List Char) → Option (Document × List Char)
  | 0, _ => none
  | fuel + 1, text =>
    match skipBlanks text with
    | '"' :: rest => (stringBody rest []).map fun (s, rest) => (.text s, rest)
    | '[' :: rest =>
      match skipBlanks rest with
      | ']' :: rest => some (.list [], rest)
      | rest => items fuel rest []
    | '\x7b' :: rest =>
      match skipBlanks rest with
      | '\x7d' :: rest => some (.object [], rest)
      | rest => members fuel rest []
    | rest => bare rest

/-- The items of a list up to its end.  `read` holds those read so far, the last first. -/
def items : (fuel : Nat) → (text : List Char) → (read : List Document) →
    Option (Document × List Char)
  | 0, _, _ => none
  | fuel + 1, text, read =>
    match value fuel text with
    | none => none
    | some (item, rest) =>
      match skipBlanks rest with
      | ',' :: rest => items fuel rest (item :: read)
      | ']' :: rest => some (.list (item :: read).reverse, rest)
      | _ => none

/-- The members of an object up to its end.  `read` holds those read so far, the last first. -/
def members : (fuel : Nat) → (text : List Char) → (read : List (String × Document)) →
    Option (Document × List Char)
  | 0, _, _ => none
  | fuel + 1, text, read =>
    match skipBlanks text with
    | '"' :: rest =>
      match stringBody rest [] with
      | none => none
      | some (name, rest) =>
        match skipBlanks rest with
        | ':' :: rest =>
          match value fuel rest with
          | none => none
          | some (item, rest) =>
            match skipBlanks rest with
            | ',' :: rest => members fuel rest ((name, item) :: read)
            | '\x7d' :: rest => some (.object ((name, item) :: read).reverse, rest)
            | _ => none
        | _ => none
    | _ => none

end

end Json

/-- **A document as a whole:** one value with nothing but blanks around it. -/
def Document.ofJson? (text : String) : Option Document :=
  let chars := text.toList
  match Json.value (2 * chars.length + 1) chars with
  | some (doc, rest) => if (Json.skipBlanks rest).isEmpty then some doc else none
  | none => none

end ResumableEvm
