import ResumableEvm.Address
import ResumableEvm.Document
import ResumableEvm.Gas
import Std.Data.TreeMap

/-!
# Codecs

How values are read from documents and written to them.  A codec is a pair of functions; a
value that was written is read back, and what is read may be written differently, as there
are several ways to write a number.

* `Codec` — the pair, with `Codec.field` and `Codec.fieldD` to read fields.
* `Codec.text`, `Codec.flag`, `Codec.natural`, `Codec.bytes` — scalars and bytes.
* `Codec.word`, `Codec.gas`, `Codec.address`, `Codec.hash` — hexadecimal text.
* `Codec.list`, `Codec.pair`, `Codec.map` — values made of others.
-/

namespace ResumableEvm

/-- A way to read and to write a type of values. -/
structure Codec (α : Type) where
  read : Dialect → Document → Option α
  write : α → Document

namespace Codec

variable {α β : Type}

/-! ## Fields and cases -/

def field (c : Codec α) (d : Dialect) (name : String) : FieldReader α := fun fields =>
  match fields.take name with
  | (some doc, rest) => (c.read d doc).map fun a => (a, rest)
  | (none, _) => none

def fieldD (c : Codec α) (d : Dialect) (name : String) (default : α) : FieldReader α :=
  fun fields =>
    match fields.take name with
    | (some doc, rest) => (c.read d doc).map fun a => (a, rest)
    | (none, rest) => some (default, rest)

def carried (c : Codec α) (d : Dialect) (value : Option Document) : Option α :=
  value.bind (c.read d)

/-- A value that may be absent, which is written as null. -/
def option (c : Codec α) : Codec (Option α) where
  read d
    | .null => some none
    | doc => (c.read d doc).map some
  write
    | none => .null
    | some a => c.write a

/-- A value with another in its place in documents. -/
def via (c : Codec β) (ofRead : β → α) (toWrite : α → β) : Codec α where
  read d doc := (c.read d doc).map ofRead
  write a := c.write (toWrite a)

/-! ## Scalars -/

def text : Codec String where
  read d doc := doc.text? d
  write := .text

def flag : Codec Bool where
  read _
    | .bool b => some b
    | _ => none
  write := .bool

/-- A natural number up to a limit. -/
def natural (limit : Nat) : Codec Nat where
  read _
    | .int n => if 0 ≤ n ∧ n.toNat ≤ limit then some n.toNat else none
    | _ => none
  write n := .int n

def count : Codec Nat := natural maxIndex

def index : Codec UInt64 := count.via UInt64.ofNat UInt64.toNat

def byte : Codec UInt8 := (natural 255).via UInt8.ofNat UInt8.toNat

/-! ## Hexadecimal text -/

/-- The word that one to 64 characters spell, behind an optional `0x`. -/
def wordOfText? (s : String) : Option Word :=
  let text := dropHexLead s.toList
  if text.isEmpty ∨ 64 < text.length then none
  else (spacedDigits? text).map fun digits => Word.ofNat (hexNat digits)

/-- The number of `width` digits that exactly `width` characters spell, behind an optional `0x`.
    Where blanks take the place of digits, the digits missing at the end are zero. -/
def fixedOfText? (width : Nat) (s : String) : Option Nat :=
  let text := dropHexLead s.toList
  if text.length = width then
    (spacedDigits? text).map fun digits => hexNat digits <<< (4 * (width - digits.length))
  else none

def addressOfText? (s : String) : Option Address :=
  (fixedOfText? 40 s).map (BitVec.ofNat 160)

/-- A word, written in as few digits as it needs. -/
def word : Codec Word where
  read d doc := (doc.text? d).bind wordOfText?
  write w := .text w.toHex

/-- An amount of gas, in the form of a word. -/
def gas : Codec Gas := word.via Gas.mk Gas.toWord

def address : Codec Address where
  read d doc := (doc.text? d).bind addressOfText?
  write a := .text a.toHex

def hash : Codec Hash where
  read d doc := (doc.text? d).bind fun s => (fixedOfText? 64 s).map (BitVec.ofNat 256)
  write h := .text (Word.toHexFull h)

/-! ## Values made of others -/

def list (c : Codec α) : Codec (List α) where
  read d
    | .list items => items.mapM (c.read d)
    | _ => none
  write as := .list (as.map c.write)

def pair (c : Codec α) (e : Codec β) : Codec (α × β) where
  read d
    | .list [a, b] => do return (← c.read d a, ← e.read d b)
    | _ => none
  write p := .list [c.write p.1, e.write p.2]

/-- A byte string, as a list of numbers. -/
def bytes : Codec Bytes := (list byte).via List.toByteArray (·.data.toList)

/-- Values by a key that has a written form.  A key given twice counts the last time. -/
def map {κ : Type} [Ord κ] (key? : String → Option κ) (keyText : κ → String) (c : Codec α) :
    Codec (Std.TreeMap κ α) where
  read d
    | .object fields =>
      fields.foldlM (fun m (name, doc) => do return m.insert (← key? name) (← c.read d doc)) ∅
    | _ => none
  write m := .object (m.toList.map fun (key, a) => (keyText key, c.write a))

end Codec

end ResumableEvm
