import ResumableEvm.Instruction

/-!
# Jump destinations

Code may only jump to a destination byte that is an instruction, not the payload of a push.
Which bytes are instructions is settled by one sweep over the code from its start, in which a
push skips its payload.

* `JumpTable.ofCode` — the sweep.
* `JumpTable.isValid` — whether a position is a destination.
-/

namespace ResumableEvm

/-- For each code position, whether code may jump there. -/
structure JumpTable where
  marks : Array Bool
  deriving DecidableEq, Repr

namespace JumpTable

/-- **The sweep.**  From instruction to instruction, starting at `i`, marking destinations. -/
def sweep (code : Bytes) (i : Nat) (marks : Array Bool) : Array Bool :=
  if h : i < code.size then
    let op : Opcode := ⟨code[i]⟩
    sweep code (i + op.width)
      (if op = Opcode.jumpDest then marks.setIfInBounds i true else marks)
  else marks
termination_by code.size - i
decreasing_by
  have := Opcode.width_pos ⟨code[i]⟩
  omega

/-- The destinations of a piece of code. -/
def ofCode (code : Bytes) : JumpTable :=
  ⟨sweep code 0 (Array.replicate code.size false)⟩

/-- The number of positions, that is the length of the code. -/
def size (table : JumpTable) : Nat := table.marks.size

/-- Whether code may jump to a position; never past the end. -/
def isValid (table : JumpTable) (position : Nat) : Bool :=
  table.marks[position]?.getD false

def destinations (table : JumpTable) : List Nat :=
  (List.range table.size).filter table.isValid

end JumpTable

end ResumableEvm
