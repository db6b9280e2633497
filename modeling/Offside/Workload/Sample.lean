import Offside.Node.Basic

/-
  Sample programs, of any size, for workloads.

  Key definitions include:
    * `Offside.Sample.everyConstruct`
    * `Offside.Sample.outlined`
    * `Offside.Sample.characters`
    * `Offside.Sample.nodeOfEachKind`

  A sample has a fixed part and one function for each unit of
  its size.  Most of its names are long.
-/

------------------------------------------------------------
-- Names
------------------------------------------------------------

namespace Offside.Sample

/- What all long names have in common. -/
def stem : String := "very_long_identifier_name_for_bench_purposes"

/- A long name of a variable. -/
def long
    (ending : String) :
    String :=
  stem ++ "_" ++ ending

/- A long name of a function. -/
def named
    (start : String) :
    String :=
  start ++ "_" ++ stem

/- A text from its lines. -/
def ofLines
    (lines : List String) :
    String :=
  "".intercalate (lines.map (· ++ "\n"))

end Offside.Sample

------------------------------------------------------------
-- Functions
------------------------------------------------------------

namespace Offside.Sample

/- The function with a number, which a literal in it tells. -/
def addition
    (n : Nat) :
    List String :=
  ["fn " ++ named "add" ++ "_" ++ toString n
      ++ "(" ++ long "alpha" ++ ", " ++ long "beta" ++ "):",
    "  return " ++ long "alpha" ++ " + " ++ long "beta"
      ++ " + " ++ toString (1000 * n) ++ ".5 * " ++ long "alpha"
      ++ " - " ++ long "beta"]

/- The first functions, as many as the size says. -/
def additions
    (size : Nat) :
    List String :=
  (List.range size).flatMap addition

end Offside.Sample

------------------------------------------------------------
-- Programs
------------------------------------------------------------

namespace Offside.Sample

/- A program with every construct of the language. -/
def everyConstruct
    (size : Nat) :
    String :=
  ofLines
    (["extern putchard(" ++ long "arg" ++ ")",
      "extern print(" ++ alpha ++ ", " ++ beta ++ ");",
      "fn " ++ named "math" ++ "(" ++ alpha ++ ", " ++ beta ++ "):",
      "  ; return (" ++ alpha ++ " + " ++ beta ++ ") * 12345.75 - "
        ++ alpha ++ " * " ++ beta ++ " + (" ++ alpha ++ " < " ++ beta
        ++ ") + (" ++ alpha ++ " > " ++ beta ++ ")",
      "fn " ++ named "sum" ++ "(" ++ alpha ++ ", " ++ beta ++ "):",
      "  return " ++ alpha ++ " + " ++ beta,
      "fn " ++ named "bare" ++ "():",
      "  111111.5 + 222222.5",
      "fn " ++ named "cond" ++ "(" ++ x ++ "):",
      "  if " ++ x ++ " < 333333.25:",
      "    return !" ++ x,
      "  else:",
      "    return " ++ named "cond" ++ "(" ++ x ++ " - 111111) + "
        ++ named "cond" ++ "(" ++ x ++ " - 222222)",
      "fn " ++ named "only_if" ++ "(" ++ x ++ "):",
      "  if " ++ x ++ " > 0:",
      "    " ++ x ++ " + 1",
      "  0",
      "fn " ++ named "loop" ++ "(" ++ n ++ "):",
      "  for " ++ i ++ " = 1, " ++ i ++ " < " ++ n
        ++ ", 1 in putchard(424242)",
      "fn " ++ named "loop2" ++ "(" ++ n ++ "):",
      "  for " ++ i ++ " = 0, " ++ i ++ " < " ++ n
        ++ " in putchard(" ++ i ++ ")",
      "fn " ++ named "use_var" ++ "(" ++ n ++ "):",
      "  return var " ++ alpha ++ " = 111, " ++ beta ++ " = " ++ n
        ++ ", " ++ gamma ++ " in " ++ alpha ++ " + " ++ beta
        ++ " + " ++ gamma,
      named "sum" ++ "(111111.5, 222222.5)",
      named "bare" ++ "()"]
      ++ additions size)
where
  alpha : String := long "alpha"
  beta : String := long "beta"
  gamma : String := long "gamma"
  x : String := long "x"
  n : String := long "n"
  i : String := long "i"

/- A program to be outlined. -/
def outlined
    (size : Nat) :
    String :=
  ofLines
    (["fn " ++ named "math" ++ "(a, b):",
      "  return (a + b) * 0.5 - a * b + (a < b) + (a > b)",
      "fn " ++ named "cond" ++ "(x):",
      "  if x < 3:",
      "    return !x",
      "  else:",
      "    return " ++ named "cond" ++ "(x - 1) + "
        ++ named "cond" ++ "(x - 2)",
      "fn " ++ named "just_if" ++ "(x):",
      "  if x > 0:",
      "    x",
      "  0",
      "fn " ++ named "loop" ++ "(n):",
      "  for i = 1, i < n, 1 in n + 1"]
      ++ additions size)

end Offside.Sample

------------------------------------------------------------
-- Characters and Nodes
------------------------------------------------------------

namespace Offside.Sample

/- What a text of characters repeats. -/
def pattern : List Char := "abc123 _id+\n".toList

/- A text of as many characters as the size says. -/
def characters
    (size : Nat) :
    String :=
  String.ofList ((List.replicate size pattern).flatten.take size)

/- A name in a node. -/
def word
    (name : String) :
    Value :=
  .text name

/- A node of each kind, the later ones made from the earlier. -/
def nodeOfEachKind : List Node :=
  [number, x, negation, sum, call, branch, loop, declaration,
    prototype, ret, .function prototype (.block [ret]),
    .program "main" [.function prototype (.block [ret])]]
where
  number : Node := .one
  x : Node := .reference (word "x") Node.floatType ⟨0, 0⟩
  negation : Node := .unary (word "-") x
  sum : Node := .binary (word "+") x number ⟨0, 0⟩
  call : Node := .call (word "f") [sum] ⟨0, 0⟩
  branch : Node := .branch sum (.block [x]) (.block [number]) ⟨0, 0⟩
  loop : Node := .loop (word "i") number sum number (.block [call])
  declaration : Node := .declare [(word "x", number)] Node.floatType x
  prototype : Node := .prototype (word "f") Node.floatType [x] 0
  ret : Node := .ret sum

end Offside.Sample
