import Offside.Parser.State

/-
  Prototypes: a name and its parameters.

  Key definitions include:
    * `Offside.Parse.parameters`
    * `Offside.Parse.prototype`

  The parameters are names with a comma after each but the
  last, which may have one too.
-/

------------------------------------------------------------
-- Parameters
------------------------------------------------------------

namespace Offside.Parse

/- The variable that an identifier stands for. -/
def variableOf
    (t : Token) :
    Node :=
  .reference t.value Node.floatType t.location

/-
  Takes names and commas from the tokens after the opening
  parenthesis, up to the first token that fits no more.
-/
def parametersFrom
    (s : ParseState) :
    List Token →
    EStateM.Result ParseError ParseState (List Node)
  | [] => .error .endOfTokens { s with rest := [] }
  | [t] =>
      if t.kind = .identifier then
        .error .endOfTokens { s with current := t, rest := [] }
      else .ok [] { s with current := t, rest := [] }
  | t :: u :: ts =>
      if t.kind = .identifier then
        if u.isOperator "," then
          match parametersFrom { s with current := u } ts with
          | .ok nodes s => .ok (variableOf t :: nodes) s
          | .error e s => .error e s
        else .ok [variableOf t] { s with current := u, rest := ts }
      else .ok [] { s with current := t, rest := u :: ts }

/- The parameters of a prototype. -/
def parameters : Parse (List Node) := fun s =>
  parametersFrom s s.rest

end Offside.Parse

------------------------------------------------------------
-- Prototypes
------------------------------------------------------------

namespace Offside.Parse

/- A name and its parameters in parentheses. -/
def externPrototype : Parse Node := do
  let name ← current
  expectKind .identifier .functionName
  advance
  expectOperator "(" .openParameters
  let args ← parameters
  expectOperator ")" .closeParameters
  advance
  return .prototype name.value Node.floatType args name.location.line

/- A prototype with a colon after it. -/
def functionPrototype : Parse Node := do
  let proto ← externPrototype
  expectOperator ":" .functionColon
  advance
  return proto

end Offside.Parse
