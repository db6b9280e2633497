import Offside.IR.Instruction

/-
  Modules of intermediate code: functions, their blocks, and
  the names that are in use in them.

  Key definitions include:
    * `Offside.IR.Scope.register`
    * `Offside.IR.Block`
    * `Offside.IR.Function`
    * `Offside.IR.Module`
    * `Offside.IR.Cursor`

  A name that is in use gets the first free number after it.
-/

------------------------------------------------------------
-- Names in Use
------------------------------------------------------------

namespace Offside.IR

/-
  The names in use in a function, and the last number that was
  tried for each name.
-/
structure Scope where
  used : List String
  counters : List (String × Nat)
  deriving DecidableEq, Repr

namespace Scope

/- Only the empty name is in use. -/
def empty : Scope := ⟨[""], []⟩

/- A name with a number after it. -/
def numbered
    (name : String)
    (n : Nat) :
    String :=
  name ++ "." ++ toString n

/-
  The first number from `n` on that gives a free name, among as
  many as `fuel` allows.
-/
def freeFrom
    (used : List String)
    (name : String) :
    (fuel : Nat) →
    (n : Nat) →
    Nat
  | 0, n => n
  | fuel + 1, n =>
      if numbered name n ∈ used then freeFrom used name fuel (n + 1)
      else n

/-
  Takes a name into use.  Among as many numbers as there are
  used names, and one more, a free one is found.
-/
def register
    (s : Scope)
    (name : String) :
    String × Scope :=
  if name ∈ s.used then
    let last := (s.counters.lookup name).getD 0
    let n := freeFrom s.used name s.used.length (last + 1)
    let counters :=
      (name, n) :: s.counters.filter fun entry => entry.1 ≠ name
    (numbered name n, ⟨numbered name n :: s.used, counters⟩)
  else (name, { s with used := name :: s.used })

end Scope

end Offside.IR

------------------------------------------------------------
-- Blocks and Functions
------------------------------------------------------------

namespace Offside.IR

/- A label and the instructions after it. -/
structure Block where
  label : String
  body : List Instruction
  deriving Repr

namespace Block

/- Whether an instruction ends the block. -/
def isTerminated
    (b : Block) :
    Bool :=
  b.body.any fun i => i.op.isTerminator

/- Puts an instruction at a place in the block. -/
def insert
    (b : Block)
    (anchor : Nat)
    (i : Instruction) :
    Block :=
  { b with body := b.body.take anchor ++ i :: b.body.drop anchor }

end Block

/-
  A function: without blocks it is only declared.  Its
  parameters, blocks and instructions share one scope.
-/
structure Function where
  name : String
  signature : Signature
  params : List String
  blocks : List Block
  scope : Scope
  deriving Repr

namespace Function

/- Takes several names into use, one after another. -/
def registerAll
    (scope : Scope) :
    List String →
    List String × Scope
  | [] => ([], scope)
  | name :: names =>
      let (name, scope) := scope.register name
      let (names, scope) := registerAll scope names
      (name :: names, scope)

/-
  A function that is declared.  A name is registered for each
  parameter and one more for the result.
-/
def declare
    (name : String)
    (signature : Signature) :
    Function :=
  let (params, scope) :=
    registerAll .empty (signature.params.map fun _ => "")
  { name := name
    signature := signature
    params := params
    blocks := []
    scope := (scope.register "").2 }

/- The function as an operand. -/
def operand
    (f : Function) :
    Operand :=
  .function f.signature f.name

/- The parameters as operands. -/
def arguments
    (f : Function) :
    List Operand :=
  (f.signature.params.zip f.params).map fun (type, name) =>
    .register type name

/- The block of that label. -/
def block?
    (f : Function)
    (label : String) :
    Option Block :=
  f.blocks.find? fun b => b.label = label

/- Adds an empty block at the end. -/
def attach
    (f : Function)
    (label : String) :
    Function :=
  { f with blocks := f.blocks ++ [⟨label, []⟩] }

/- Takes a name into use in the function. -/
def register
    (f : Function)
    (name : String) :
    String × Function :=
  let (name, scope) := f.scope.register name
  (name, { f with scope := scope })

/- Changes the block of that label. -/
def modifyBlock
    (f : Function)
    (label : String)
    (change : Block → Block) :
    Function :=
  { f with
    blocks := f.blocks.map fun b =>
      if b.label = label then change b else b }

/- Changes the first block. -/
def modifyEntry
    (f : Function)
    (change : Block → Block) :
    Function :=
  { f with
    blocks :=
      match f.blocks with
      | [] => []
      | b :: bs => change b :: bs }

/- Gives a parameter a name. -/
def renameParam
    (f : Function)
    (index : Nat)
    (name : String) :
    Function :=
  let (name, f) := f.register name
  { f with params := f.params.set index name }

end Function

end Offside.IR

------------------------------------------------------------
-- Modules
------------------------------------------------------------

namespace Offside.IR

/- Functions in the order in which they were made. -/
structure Module where
  functions : List Function
  deriving Repr

/- A place in a block: the next instruction goes to the anchor. -/
structure Cursor where
  function : String
  block : String
  anchor : Nat
  deriving DecidableEq, Repr

namespace Module

/- The function of that name. -/
def function?
    (m : Module)
    (name : String) :
    Option Function :=
  m.functions.find? fun f => f.name = name

/- Changes the function of that name. -/
def modify
    (m : Module)
    (name : String)
    (change : Function → Function) :
    Module :=
  ⟨m.functions.map fun f => if f.name = name then change f else f⟩

/- Whether a function of that name can be added. -/
def isFree
    (m : Module)
    (name : String) :
    Bool :=
  name ≠ "" && (m.function? name).isNone

/- Adds a function. -/
def add
    (m : Module)
    (f : Function) :
    Module :=
  ⟨m.functions ++ [f]⟩

/- The block at a cursor. -/
def blockAt?
    (m : Module)
    (c : Cursor) :
    Option Block :=
  (m.function? c.function).bind fun f => f.block? c.block

/- Takes a name into use in a function. -/
def register
    (m : Module)
    (function name : String) :
    String × Module :=
  match m.function? function with
  | none => (name, m)
  | some f =>
      ((f.register name).1,
        m.modify function fun f => (f.register name).2)

/- Puts an instruction at a cursor. -/
def insert
    (m : Module)
    (c : Cursor)
    (i : Instruction) :
    Module :=
  m.modify c.function fun f =>
    f.modifyBlock c.block fun b => b.insert c.anchor i

end Module

end Offside.IR

------------------------------------------------------------
-- The Functions That Are Always There
------------------------------------------------------------

namespace Offside.IR

/- Writes a character; it is defined elsewhere. -/
def putchar : Function :=
  .declare "putchar" ⟨.int 32, .int 32, 1⟩

/- Writes the character with the number of its argument. -/
def putchard : Function :=
  let f := Function.declare "putchard" (Signature.ofArity 1)
  let (entry, f) := f.register "entry"
  let f := f.attach entry
  let (cast, f) := f.register "intcast"
  let (call, f) := f.register ""
  let (ret, f) := f.register ""
  let argument := Operand.register .float (f.params.headD "")
  let body : List Instruction :=
    [⟨cast, .toInt argument 32⟩,
     ⟨call, .call putchar.signature putchar.name
        [.register (.int 32) cast]⟩,
     ⟨ret, .ret (.zero .float)⟩]
  f.modifyBlock entry fun b => { b with body := body }

/- A module without a program. -/
def Module.new : Module := ⟨[putchar, putchard]⟩

end Offside.IR
