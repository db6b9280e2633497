import Offside.Token.Lexeme

/-
  The lexer: one character of lookahead on a text, and the
  reading of one token or of all tokens.

  Key definitions include:
    * `Offside.Lexer`
    * `Offside.Lexer.advance`
    * `Offside.Lexer.next`
    * `Offside.Lexer.tokens`
    * `Offside.Lexer.lex`

  Reading stops at the end of the text because every other
  token leaves less of it, which is
  `Offside.Lexer.view_next_lt`.
-/

------------------------------------------------------------
-- Lexers
------------------------------------------------------------

namespace Offside

/-
  A lexer: the location it has read up to, the character at
  hand (none before the first one and at the end), whether a
  line starts here, the text that is not read yet, and how many
  readings there were, those at the end included.
-/
structure Lexer where
  location : Location
  ahead : Option Char
  lineStart : Bool
  unread : List Char
  reads : Nat
  deriving DecidableEq, Repr

namespace Lexer

/- A new lexer on a text. -/
def start
    (text : List Char) :
    Lexer :=
  ⟨Location.origin, none, true, text, 0⟩

/- The lexer as new, on the text that is left. -/
def reset
    (l : Lexer) :
    Lexer :=
  { l with
    location := Location.origin
    ahead := none
    lineStart := true }

/- Reads one character. -/
def advance
    (l : Lexer) :
    Lexer :=
  { l with
    location := l.location.after l.unread.head?
    ahead := l.unread.head?
    unread := l.unread.tail
    reads := l.reads + 1 }

/- Reads several characters. -/
def advanceBy :
    Nat →
    Lexer →
    Lexer
  | 0, l => l
  | n + 1, l => advanceBy n l.advance

/- Reads the first character of a line when none is at hand. -/
def prime
    (l : Lexer) :
    Lexer :=
  if l.ahead.isNone then { l.advance with lineStart := true } else l

/- The text from the character at hand on. -/
def view
    (l : Lexer) :
    List Char :=
  l.ahead.toList ++ l.unread

end Lexer

end Offside

------------------------------------------------------------
-- One Token
------------------------------------------------------------

namespace Offside.Lexer

/-
  Reads one token, together with the character that follows it.
  The lexer moves on also when the token is malformed.
-/
def next
    (l : Lexer) :
    Except MalformedNumber Token × Lexer :=
  let l := l.prime
  let lexeme := Lexeme.scan l.lineStart l.view
  let l := { l.advanceBy lexeme.width with lineStart := false }
  (lexeme.content.map fun (kind, value) =>
    ⟨kind, value, l.location⟩, l)

/- Reading a character leaves what was not read. -/
theorem view_advance
    (l : Lexer) :
    l.advance.view = l.unread := by
  cases h : l.unread <;> simp [view, advance, h]

/- Priming keeps the text ahead. -/
theorem view_prime
    (l : Lexer) :
    l.prime.view = l.view := by
  unfold prime
  split
  · rename_i hNone
    have hAhead : l.ahead = none := by simpa using hNone
    calc l.advance.view = l.unread := view_advance l
      _ = l.view := by simp [view, hAhead]
  · rfl

/- After priming a character is at hand unless none is left. -/
theorem unread_prime_eq_nil
    {l : Lexer}
    (hAhead : l.prime.ahead = none) :
    l.prime.unread = [] := by
  unfold prime at hAhead ⊢
  split at hAhead
  · rename_i hNone
    rw [if_pos hNone]
    cases h : l.unread <;> simp_all [advance]
  · simp_all

/- Reading on drops characters from the text ahead. -/
theorem view_advanceBy
    {l : Lexer}
    (hPrimed : l.ahead = none → l.unread = [])
    (n : Nat) :
    (l.advanceBy n).view = l.view.drop n := by
  induction n generalizing l with
  | zero => rfl
  | succ n ih =>
      have hAdvance : l.advance.ahead = none →
          l.advance.unread = [] := by
        cases h : l.unread <;> simp [advance, h]
      have hDrop : l.unread = l.view.drop 1 := by
        cases h : l.ahead with
        | none => simp [view, h, hPrimed h]
        | some c => simp [view, h]
      calc (l.advance.advanceBy n).view
          = l.advance.view.drop n := ih hAdvance
        _ = l.view.drop (n + 1) := by
            rw [view_advance, hDrop, List.drop_drop, Nat.add_comm]

/- Reading a token drops its lexeme from the text ahead. -/
theorem view_next
    (l : Lexer) :
    l.next.2.view =
      l.view.drop (Lexeme.scan l.prime.lineStart l.view).width := by
  have h := view_advanceBy (l := l.prime) unread_prime_eq_nil
    (Lexeme.scan l.prime.lineStart l.prime.view).width
  rw [← view_prime l]
  exact h

/- A token other than the last one leaves less text. -/
theorem view_next_lt
    {l : Lexer}
    {t : Token}
    (hOk : l.next.1 = .ok t)
    (hKind : t.kind ≠ .endOfText) :
    l.next.2.view.length < l.view.length := by
  have hContent :
      (Lexeme.scan l.prime.lineStart l.view).shape ≠ .finish := by
    intro hFinish
    rw [← view_prime l] at hFinish
    simp only [next, Lexeme.content, hFinish, Except.map] at hOk
    injection hOk with hToken
    exact hKind (by rw [← hToken])
  have hWidth := Lexeme.width_scan_pos hContent
  have hAppend :=
    congrArg List.length (Lexeme.scan_append l.prime.lineStart l.view)
  rw [view_next, List.length_drop]
  simp only [List.length_append, Lexeme.width] at hAppend hWidth ⊢
  omega

end Offside.Lexer

------------------------------------------------------------
-- All Tokens
------------------------------------------------------------

namespace Offside.Lexer

/- Reads tokens up to the one that ends the text. -/
def tokens
    (l : Lexer) :
    Except MalformedNumber (List Token) × Lexer :=
  match h : l.next with
  | (.error e, l') => (.error e, l')
  | (.ok t, l') =>
      if hKind : t.kind = .endOfText then (.ok [t], l')
      else
        have : l'.view.length < l.view.length := by
          have hLess := view_next_lt (l := l) (t := t)
            (by rw [h]) hKind
          rwa [h] at hLess
        match tokens l' with
        | (.error e, l') => (.error e, l')
        | (.ok ts, l') => (.ok (t :: ts), l')
termination_by l.view.length

/- Reads all tokens of the text that is left, from the start. -/
def lex
    (l : Lexer) :
    Except MalformedNumber (List Token) × Lexer :=
  l.reset.tokens

end Offside.Lexer
