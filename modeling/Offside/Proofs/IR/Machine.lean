import Mathlib
import Offside.Proofs.IR.Growth

/-
  A machine for intermediate code, which takes the instructions
  of a function one after another.

  Key definitions include:
    * `Offside.IR.Numbers`
    * `Offside.IR.Config`
    * `Offside.IR.step`
    * `Offside.IR.Reaches`

  The machine works on numbers of any kind.  A cell of memory
  goes by the name of the instruction that reserves it; it is
  there from the start, and reserving it is no step.  What is
  not reserved cannot be read or written.

  Main statement:
    * `Offside.IR.Reaches.within`: a run goes the same way in
      every function that has the same code at the same places.
-/

------------------------------------------------------------
-- Numbers
------------------------------------------------------------

namespace Offside.IR

/- Numbers, and what can be done with them. -/
structure Numbers (F : Type) where
  literal : Binary64 → F
  add : F → F → F
  sub : F → F → F
  mul : F → F → F
  less : F → F → Bool
  greater : F → F → Bool
  differ : F → F → Bool
  ofBool : Bool → F

namespace Numbers

variable {F : Type}

/- The number zero. -/
def zero
    (N : Numbers F) :
    F :=
  N.literal Binary64.zero

/- The result of an arithmetic instruction. -/
def arithmetic
    (N : Numbers F) :
    Arithmetic →
    F →
    F →
    F
  | .add => N.add
  | .sub => N.sub
  | .mul => N.mul

/- The result of a comparison. -/
def compare
    (N : Numbers F) :
    Comparison →
    F →
    F →
    Bool
  | .less => N.less
  | .greater => N.greater
  | .differ => N.differ

end Numbers

end Offside.IR

------------------------------------------------------------
-- Configurations
------------------------------------------------------------

namespace Offside.IR

/- What a register can hold. -/
inductive Datum (F : Type) where
  | number (x : F)
  | truth (b : Bool)

/- The registers by their names; one that is not set has nothing. -/
abbrev Registers (F : Type) := String → Option (Datum F)

/- The cells of memory by their names. -/
abbrev Memory (F : Type) := String → F

/-
  The machine between two instructions: where it is, from which
  block it has come, its registers and its memory.
-/
structure Config (F : Type) where
  point : Point
  previous : String
  registers : Registers F
  memory : Memory F

namespace Operand

variable {F : Type}

/- The value of an operand. -/
def eval
    (N : Numbers F)
    (registers : Registers F) :
    Operand →
    Option (Datum F)
  | const _ x => some (.number (N.literal x))
  | register _ name => registers name
  | _ => none

/- The number that an operand has. -/
def number?
    (N : Numbers F)
    (registers : Registers F)
    (operand : Operand) :
    Option F :=
  match operand.eval N registers with
  | some (.number x) => some x
  | _ => none

/- The truth value that an operand has. -/
def truth?
    (N : Numbers F)
    (registers : Registers F)
    (operand : Operand) :
    Option Bool :=
  match operand.eval N registers with
  | some (.truth b) => some b
  | _ => none

/- The cell that an operand leads to, which has to be reserved. -/
def cell?
    (cells : List String) :
    Operand →
    Option String
  | register (.pointer _) name =>
      if name ∈ cells then some name else none
  | _ => none

theorem cell?_pointer
    {cells : List String}
    {name : String}
    (hMem : name ∈ cells)
    (type : Ty) :
    (register (.pointer type) name).cell? cells = some name := by
  simp [cell?, hMem]

theorem cell?_mono
    {cells cells' : List String}
    (hSubset : cells ⊆ cells')
    {operand : Operand}
    {name : String}
    (hCell : operand.cell? cells = some name) :
    operand.cell? cells' = some name := by
  unfold cell? at hCell ⊢
  split at hCell
  · rename_i type cell
    split_ifs at hCell with hMem
    rw [if_pos (hSubset hMem)]
    exact hCell
  · cases hCell

end Operand

namespace Config

variable {F : Type}

/- The next step, with a register set. -/
def define
    (c : Config F)
    (name : String)
    (d : Datum F) :
    Config F :=
  { c with
    point := c.point.next
    registers := Function.update c.registers name (some d) }

/- The next step, with a cell of memory set. -/
def write
    (c : Config F)
    (cell : String)
    (x : F) :
    Config F :=
  { c with
    point := c.point.next
    memory := Function.update c.memory cell x }

/- The start of another block. -/
def goTo
    (c : Config F)
    (label : String) :
    Config F :=
  { c with
    point := .start label
    previous := c.point.label }

end Config

end Offside.IR

------------------------------------------------------------
-- Steps and Runs
------------------------------------------------------------

namespace Offside.IR

variable {F : Type}

/-
  What an instruction does, where the given cells are reserved;
  some are not for this machine.
-/
def exec
    (N : Numbers F)
    (cells : List String)
    (c : Config F)
    (i : Instruction) :
    Option (Config F) :=
  match i.op with
  | .load pointer => do
      let cell ← pointer.cell? cells
      return c.define i.name (.number (c.memory cell))
  | .store value pointer => do
      let cell ← pointer.cell? cells
      let x ← value.number? N c.registers
      return c.write cell x
  | .arithmetic op lhs rhs => do
      let x ← lhs.number? N c.registers
      let y ← rhs.number? N c.registers
      return c.define i.name (.number (N.arithmetic op x y))
  | .compare op lhs rhs => do
      let x ← lhs.number? N c.registers
      let y ← rhs.number? N c.registers
      return c.define i.name (.truth (N.compare op x y))
  | .toFloat value => do
      let b ← value.truth? N c.registers
      return c.define i.name (.number (N.ofBool b))
  | .jump target => return c.goTo target
  | .branch cond yes no => do
      let b ← cond.truth? N c.registers
      return c.goTo (if b then yes else no)
  | .phi _ incoming => do
      let (value, _) ← incoming.find? fun entry => entry.2 = c.previous
      let d ← value.eval N c.registers
      return c.define i.name d
  | _ => none

theorem exec_load
    (N : Numbers F)
    (c : Config F)
    {cells : List String}
    {cell : String}
    (hCell : cell ∈ cells)
    (name : String)
    (type : Ty) :
    exec N cells c ⟨name, .load (.register (.pointer type) cell)⟩ =
      some (c.define name (.number (c.memory cell))) := by
  simp [exec, Operand.cell?_pointer hCell]

theorem exec_store
    {N : Numbers F}
    {cells : List String}
    {c : Config F}
    {value : Operand}
    {x : F}
    (hValue : value.number? N c.registers = some x)
    {cell : String}
    (hCell : cell ∈ cells)
    (name : String)
    (type : Ty) :
    exec N cells c
        ⟨name, .store value (.register (.pointer type) cell)⟩ =
      some (c.write cell x) := by
  simp [exec, Operand.cell?_pointer hCell, hValue]

theorem exec_arithmetic
    {N : Numbers F}
    {cells : List String}
    {c : Config F}
    {lhs rhs : Operand}
    {x y : F}
    (hLhs : lhs.number? N c.registers = some x)
    (hRhs : rhs.number? N c.registers = some y)
    (name : String)
    (op : Arithmetic) :
    exec N cells c ⟨name, .arithmetic op lhs rhs⟩ =
      some (c.define name (.number (N.arithmetic op x y))) := by
  simp [exec, hLhs, hRhs]

theorem exec_compare
    {N : Numbers F}
    {cells : List String}
    {c : Config F}
    {lhs rhs : Operand}
    {x y : F}
    (hLhs : lhs.number? N c.registers = some x)
    (hRhs : rhs.number? N c.registers = some y)
    (name : String)
    (op : Comparison) :
    exec N cells c ⟨name, .compare op lhs rhs⟩ =
      some (c.define name (.truth (N.compare op x y))) := by
  simp [exec, hLhs, hRhs]

theorem exec_toFloat
    {N : Numbers F}
    {cells : List String}
    {c : Config F}
    {value : Operand}
    {b : Bool}
    (hValue : value.truth? N c.registers = some b)
    (name : String) :
    exec N cells c ⟨name, .toFloat value⟩ =
      some (c.define name (.number (N.ofBool b))) := by
  simp [exec, hValue]

theorem exec_branch
    {N : Numbers F}
    {cells : List String}
    {c : Config F}
    {cond : Operand}
    {b : Bool}
    (hCond : cond.truth? N c.registers = some b)
    (name yes no : String) :
    exec N cells c ⟨name, .branch cond yes no⟩ =
      some (c.goTo (if b then yes else no)) := by
  simp [exec, hCond]

/- An instruction does the same where more is reserved. -/
theorem exec_mono
    {N : Numbers F}
    {cells cells' : List String}
    (hSubset : cells ⊆ cells')
    {c c' : Config F}
    {i : Instruction}
    (hExec : exec N cells c i = some c') :
    exec N cells' c i = some c' := by
  unfold exec at hExec ⊢
  split at hExec
  case h_1 pointer =>
    rcases Option.bind_eq_some_iff.mp hExec with
      ⟨cell, hCell, hRest⟩
    rw [Operand.cell?_mono hSubset hCell]
    exact hRest
  case h_2 value pointer =>
    rcases Option.bind_eq_some_iff.mp hExec with
      ⟨cell, hCell, hRest⟩
    rw [Operand.cell?_mono hSubset hCell]
    exact hRest
  all_goals exact hExec

/- One step in a function. -/
def step
    (N : Numbers F)
    (f : Function)
    (c : Config F) :
    Option (Config F) :=
  (f.fetch c.point).bind (exec N f.cells c)

/- Any number of steps. -/
def Reaches
    (N : Numbers F)
    (f : Function) :
    Config F →
    Config F →
    Prop :=
  Relation.ReflTransGen fun c c' => step N f c = some c'

/- A step is made wherever its instruction is. -/
theorem step_within
    {N : Numbers F}
    {f g : Function}
    (hWithin : f.Within g)
    {c c' : Config F}
    (hStep : step N f c = some c') :
    step N g c = some c' := by
  rcases Option.bind_eq_some_iff.mp hStep with ⟨i, hFetch, hExec⟩
  rw [step, hWithin.code c.point i hFetch]
  exact exec_mono hWithin.cells hExec

namespace Reaches

variable {N : Numbers F}
variable {f : Function}

/- A run goes the same way where there is more code. -/
theorem within
    {g : Function}
    (hWithin : f.Within g)
    {c c' : Config F}
    (hRun : Reaches N f c c') :
    Reaches N g c c' :=
  Relation.ReflTransGen.mono (fun _ _ => step_within hWithin) _ _ hRun

/- An instruction that is where the machine is makes a step. -/
theorem exec
    {c c' : Config F}
    {i : Instruction}
    (hFetch : f.fetch c.point = some i)
    (hExec : IR.exec N f.cells c i = some c') :
    Reaches N f c c' := by
  refine Relation.ReflTransGen.single ?_
  rw [step, hFetch]
  exact hExec

theorem trans
    {c c' c'' : Config F}
    (hFirst : Reaches N f c c')
    (hSecond : Reaches N f c' c'') :
    Reaches N f c c'' :=
  Relation.ReflTransGen.trans hFirst hSecond

end Reaches

end Offside.IR
