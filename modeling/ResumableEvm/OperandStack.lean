import ResumableEvm.Exit

/-!
# The operand stack

A stack of words with a limit on its height.  It is kept as a list with the top at its head,
so that an instruction's operands are the first items of the list.

* `OperandStack.push`, `OperandStack.pop`, `OperandStack.peek`, `OperandStack.set`.
* `OperandStack.check` — whether some items can be taken and others put in their place.
-/

namespace ResumableEvm

/-- A stack of words. -/
structure OperandStack where
  /-- The items, the top first. -/
  items : List Word
  /-- How many items fit. -/
  limit : Nat
  deriving DecidableEq, Repr

namespace OperandStack

def empty (limit : Nat) : OperandStack := ⟨[], limit⟩

def size (s : OperandStack) : Nat := s.items.length

def toList (s : OperandStack) : List Word := s.items.reverse

/-- Puts a word on top, unless the stack is full. -/
def push (s : OperandStack) (w : Word) : Except ExitError OperandStack :=
  if s.size + 1 > s.limit then .error .stackOverflow else .ok { s with items := w :: s.items }

def pop (s : OperandStack) : Except ExitError (Word × OperandStack) :=
  match s.items with
  | [] => .error .stackUnderflow
  | w :: rest => .ok (w, { s with items := rest })

/-- The item at position `i`, the top being position zero. -/
def peek (s : OperandStack) (i : Nat) : Except ExitError Word :=
  match s.items[i]? with
  | some w => .ok w
  | none => .error .stackUnderflow

/-- The item at position `i`, zero when there is none. -/
def peekD (s : OperandStack) (i : Nat) : Word := s.items[i]?.getD 0

/-- Replaces the item at position `i`, the top being position zero. -/
def set (s : OperandStack) (i : Nat) (w : Word) : Except ExitError OperandStack :=
  if i < s.size then .ok { s with items := s.items.set i w } else .error .stackUnderflow

/-- **Room for an instruction.**  Whether `taken` items can be taken off and `given` items put
    on, in that order. -/
def check (s : OperandStack) (taken given : Nat) : Except ExitError Unit :=
  let size := s.size
  if size < taken then .error .stackUnderflow
  else if size - taken + given > s.limit then .error .stackOverflow
  else .ok ()

end OperandStack

end ResumableEvm
