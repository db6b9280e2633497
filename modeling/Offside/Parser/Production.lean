import Offside.Parser.Precedence
import Offside.Parser.Prototype

/-
  Productions: how each form of the language is parsed, given
  parsers for the parts it is made of.

  Key definitions include:
    * `Offside.Parse.block`
    * `Offside.Parse.lines`
    * `Offside.Parse.primary`
    * `Offside.Parse.binaryRest`

  No production here calls itself; `Offside.Grammar` closes the
  recursion.
-/

------------------------------------------------------------
-- Expressions
------------------------------------------------------------

namespace Offside.Parse

/- A number. -/
def literal : Parse Node := do
  let t ← current
  advance
  return .float t.value

/- An expression in parentheses. -/
def parenthesized
    (expression : Parse Node) :
    Parse Node := do
  advance
  let e ← expression
  expectOperator ")" .closingParenthesis
  advance
  return e

/- Arguments up to the closing parenthesis. -/
def arguments
    (expression : Parse Node)
    (more : Parse (List Node)) :
    Parse (List Node) := do
  let e ← expression
  if ← atOperator ")" then
    return [e]
  expectOperator "," .argumentSeparator
  advance
  let es ← more
  return e :: es

/- A variable, or a call if a parenthesis follows. -/
def named
    (arguments : Parse (List Node)) :
    Parse Node := do
  let t ← current
  advance
  unless ← atOperator "(" do
    return variableOf t
  advance
  let args ← (do
    if ← atOperator ")" then return [] else arguments)
  advance
  return .call t.value args t.location

/- An operator before an operand, or a primary expression. -/
def unary
    (primary operand : Parse Node) :
    Parse Node := do
  let t ← current
  if t.kind ≠ .operator ∨ t.isOperator "(" ∨ t.isOperator "," then
    primary
  else do
    advance
    let e ← operand
    return .unary t.value e

/-
  Operators and operands after a left operand, as long as the
  operators bind at least as tightly as `least`.  An operand
  goes to the operator after it when that binds more tightly.
-/
def binaryRest
    (table : Precedence)
    (unary : Parse Node)
    (rest : Int → Node → Parse Node)
    (least : Int)
    (lhs : Node) :
    Parse Node := do
  let op ← current
  let precedence := table.of op.value
  if precedence < least then
    return lhs
  advance
  let operand ← unary
  let rhs ← (do
    if precedence < table.of (← current).value then
      rest (precedence + 1) operand
    else return operand)
  rest least (.binary op.value lhs rhs op.location)

/- An operand and what follows it. -/
def expression
    (unary : Parse Node)
    (rest : Int → Node → Parse Node) :
    Parse Node := do
  let lhs ← unary
  rest 0 lhs

end Offside.Parse

------------------------------------------------------------
-- Blocks
------------------------------------------------------------

namespace Offside.Parse

/- By how much a level of indentation is closed. -/
def levelWidth : Int := 2

/- The lines of a block, at the indentation `indent`. -/
def lines
    (expression : Parse Node)
    (more : Amount → Parse (List Node))
    (indent : Amount) :
    Parse (List Node) := do
  let e ← expression
  let t ← current
  if t.kind ≠ .indent then
    return [e]
  match t.value with
  | .text _ => throw (.incomparable "<" indent)
  | .amount found =>
      if found.less indent then
        return [e]
      if indent.less found then
        throw .deeperIndentation
      advance
      let es ← more indent
      return e :: es

/-
  A block, whose indentation is the value of the current token.
  A deeper one than the level opens the block, a shallower one
  leaves it empty; both close a level at the end.
-/
def block
    (lines : Amount → Parse (List Node)) :
    Parse Node := do
  let t ← current
  advance
  let level := (← get).level
  match t.value with
  | .text _ => throw (.incomparable ">" level)
  | .amount indent =>
      if indent.same level then
        throw .noNewBlock
      let nodes ← (do
        if level.less indent then
          setLevel indent
          lines indent
        else return [])
      modify fun s => { s with level := s.level.minus levelWidth }
      return .block nodes

end Offside.Parse

------------------------------------------------------------
-- Statements
------------------------------------------------------------

namespace Offside.Parse

/- The colon after a keyword or its condition. -/
def expectColon
    (keyword : String) :
    Parse Unit := do
  let t ← current
  unless t.isOperator ":" do
    throw (.missingColon keyword t.text)

/- A condition and one or two blocks. -/
def branch
    (expression block : Parse Node) :
    Parse Node := do
  let t ← current
  advance
  let cond ← expression
  expectColon "if"
  advance
  let yes ← block
  if ← atKind .indent then
    advance
  let no ← (do
    if ← atKind .kwElse then
      advance
      expectColon "else"
      advance
      block
    else return .block [])
  return .branch cond yes no t.location

/- A counter with its first value, condition and step. -/
def loop
    (expression : Parse Node) :
    Parse Node := do
  advance
  expectKind .identifier .loopCounter
  let counter ← current
  advance
  expectOperator "=" .loopAssignment
  advance
  let first ← expression
  expectOperator "," .loopSeparator
  advance
  let last ← expression
  let step ← (do
    if ← atOperator "," then
      advance
      expression
    else return Node.one)
  expectKind .kwIn .loopIn
  advance
  let body ← expression
  return .loop counter.value first last step (.block [body])

/- Names with their initial values. -/
def bindings
    (expression : Parse Node)
    (more : Parse (List (Value × Node))) :
    Parse (List (Value × Node)) := do
  let name ← current
  advance
  let value ← (do
    if ← atOperator "=" then
      advance
      expression
    else return Node.zero)
  unless ← atOperator "," do
    return [(name.value, value)]
  advance
  expectKind .identifier .declaredNames
  let others ← more
  return (name.value, value) :: others

/- A declaration and the expression it is for. -/
def declaration
    (expression : Parse Node)
    (bindings : Parse (List (Value × Node))) :
    Parse Node := do
  advance
  expectKind .identifier .declaredName
  let names ← bindings
  expectKind .kwIn .declarationIn
  advance
  let body ← expression
  return .declare names Node.floatType body

/- The value that a function gives back. -/
def returned
    (expression : Parse Node) :
    Parse Node := do
  advance
  let value ← expression
  return .ret value

/- A token that starts no expression; it is taken all the same. -/
def unknown : Parse Node := do
  let t ← current
  advance
  throw (.unknownToken t.name)

/- The parsers that a primary expression is made of. -/
structure Parts where
  expression : Parse Node
  arguments : Parse (List Node)
  bindings : Parse (List (Value × Node))
  block : Parse Node
  primary : Parse Node

/- A primary expression, by its first token. -/
def primary
    (parts : Parts) :
    Parse Node := do
  let t ← current
  match t.kind with
  | .identifier => named parts.arguments
  | .floatLiteral => literal
  | .kwIf => branch parts.expression parts.block
  | .kwFor => loop parts.expression
  | .kwVar => declaration parts.expression parts.bindings
  | .kwReturn => returned parts.expression
  | .indent => parts.block
  | .operator =>
      if t.isOperator "(" then parenthesized parts.expression
      else if t.isOperator ";" then do
        advance
        parts.primary
      else unknown
  | _ => unknown

end Offside.Parse

------------------------------------------------------------
-- Programs
------------------------------------------------------------

namespace Offside.Parse

/- A function with its body. -/
def function
    (block : Parse Node) :
    Parse Node := do
  advance
  let proto ← functionPrototype
  let body ← block
  return .function proto body

/- A function that is defined elsewhere. -/
def external : Parse Node := do
  advance
  externPrototype

/- The items of a program up to the end of the text. -/
def items
    (expression block : Parse Node)
    (more : Parse (List Node)) :
    Parse (List Node) := do
  let t ← current
  if t.kind = .endOfText then
    return []
  if t.isOperator ";" then
    advance
    more
  else do
    let item ← (match t.kind with
      | .kwFunction => function block
      | .kwExtern => external
      | _ => expression)
    let others ← more
    return item :: others

end Offside.Parse
