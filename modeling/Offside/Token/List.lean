import Offside.Token.Basic

/-
  Token lists: tokens, the position of the next one, and the
  token that was taken last.

  Key definitions include:
    * `Offside.TokenList`
    * `Offside.TokenList.get`
    * `Offside.TokenList.advance`
-/

------------------------------------------------------------
-- Token Lists
------------------------------------------------------------

namespace Offside

/- Tokens with a position and the current token. -/
structure TokenList where
  tokens : List Token
  position : Nat
  current : Token
  deriving DecidableEq, Repr

/- Why no token can be taken. -/
inductive TokenListError where
  | pastTheEnd
  | finished
  deriving DecidableEq, Repr

namespace TokenListError

/- The text of the error. -/
def message :
    TokenListError →
    String
  | pastTheEnd => "list index out of range"
  | finished => ""

end TokenListError

namespace TokenList

/- A new list, before its first token. -/
def ofTokens
    (tokens : List Token) :
    TokenList :=
  ⟨tokens, 0, Token.unset⟩

/- The tokens from the position on. -/
def rest
    (l : TokenList) :
    List Token :=
  l.tokens.drop l.position

/- Goes back to the first token. -/
def rewind
    (l : TokenList) :
    TokenList :=
  { l with position := 0 }

/- Takes the next token. -/
def get
    (l : TokenList) :
    Except TokenListError Token × TokenList :=
  match l.rest with
  | [] => (.error .pastTheEnd, l)
  | t :: _ => (.ok t, { l with position := l.position + 1 })

/- Takes the next token and makes it the current one. -/
def advance
    (l : TokenList) :
    Except TokenListError Token × TokenList :=
  match l.get with
  | (.error e, l) => (.error e, l)
  | (.ok t, l) => (.ok t, { l with current := t })

/- Takes the next token, unless all are taken. -/
def next
    (l : TokenList) :
    Except TokenListError Token × TokenList :=
  if l.position = l.tokens.length then (.error .finished, l)
  else l.get

/- Takes all tokens from the first one on. -/
def takeAll
    (l : TokenList) :
    List Token × TokenList :=
  (l.tokens, { l with position := l.tokens.length })

end TokenList

end Offside
