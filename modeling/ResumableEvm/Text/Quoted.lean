import ResumableEvm.Bytes
import ResumableEvm.Text.Unshown

/-!
# Quoted text

Messages show text they were given in double quotes, with everything that would be misread
written as an escape.

* `quoted` — the text in quotes.
-/

namespace ResumableEvm

/-- A character as it stands inside quotes. -/
def escaped (c : Char) : String :=
  match c with
  | '"' => "\\\""
  | '\\' => "\\\\"
  | '\t' => "\\t"
  | '\n' => "\\n"
  | '\r' => "\\r"
  | '\x00' => "\\0"
  | c =>
    if isUnshown c then
      "\\u\x7b" ++ String.ofList (Nat.toDigits 16 c.toNat) ++ "\x7d"
    else c.toString

def quoted (text : String) : String :=
  text.foldl (fun out c => out ++ escaped c) "\"" ++ "\""

end ResumableEvm
