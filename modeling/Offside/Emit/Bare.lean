import Offside.Emit.State
import Offside.Outline.Visit

/-
  The bare visitor, which knows the forms of the language and
  implements none of them.

  Key definitions include:
    * `Offside.Bare.visit`
    * `Offside.Bare.evaluate`
-/

------------------------------------------------------------
-- The Bare Visitor
------------------------------------------------------------

namespace Offside.Bare

/-
  Visits a node and gives what is printed.  Only a node that is
  no form of the language can be visited.
-/
def visit :
    Node →
    Except EmitError String
  | .absent | .plain _ => .ok unknownNodeLine
  | _ => .error .notImplemented

/- Evaluates a tree, which a visitor without a target cannot even try. -/
def evaluate
    (hasTarget : Bool)
    (tree : Node) :
    Except EmitError String :=
  if hasTarget then .error (.noEvaluation tree.label)
  else .error .missingPart

end Offside.Bare
