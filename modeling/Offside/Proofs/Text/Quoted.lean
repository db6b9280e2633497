import Mathlib
import Offside.Text.Quoted

/-
  Quoted texts are unambiguous: what stands between the quotes can
  be read back, character by character.

  Key definitions include:
    * `Offside.Text.ofHexDigits`
    * `Offside.Text.unescape`

  Main statements:
    * `Offside.Text.unescape_escapeQuoted`: an escaped character is
      read back, whatever follows it.
    * `Offside.Text.quoted_injective`: two texts have two quoted
      forms.
-/

------------------------------------------------------------
-- Reading Hexadecimal
------------------------------------------------------------

namespace Offside.Text

/- The value of a hexadecimal digit. -/
def hexValue
    (c : Char) :
    Nat :=
  ((List.range 16).map Nat.digitChar).idxOf c

/- The number that a row of hexadecimal digits stands for. -/
def ofHexDigits
    (chars : List Char) :
    Nat :=
  chars.foldl (fun n c => 16 * n + hexValue c) 0

theorem hexValue_digitChar
    {n : Nat}
    (hDigit : n < 16) :
    hexValue (Nat.digitChar n) = n := by
  have hAll : ∀ n < 16, hexValue (Nat.digitChar n) = n := by
    decide
  exact hAll n hDigit

theorem length_hexDigits
    (width n : Nat) :
    (hexDigits width n).length = width := by
  induction width generalizing n with
  | zero => rfl
  | succ width ih => simp [hexDigits, ih]

theorem ofHexDigits_hexDigits
    {width n : Nat}
    (hFits : n < 16 ^ width) :
    ofHexDigits (hexDigits width n) = n := by
  induction width generalizing n with
  | zero =>
      have hZero : n = 0 := by simpa using hFits
      rw [hZero]
      rfl
  | succ width ih =>
      have hTail : n / 16 < 16 ^ width := by
        rw [pow_succ] at hFits
        exact Nat.div_lt_of_lt_mul (by omega)
      have hRead := ih hTail
      unfold ofHexDigits at hRead ⊢
      rw [hexDigits, List.foldl_append, hRead]
      simp only [List.foldl_cons, List.foldl_nil,
        hexValue_digitChar (Nat.mod_lt n (by omega))]
      exact Nat.div_add_mod n 16

end Offside.Text

------------------------------------------------------------
-- Reading Characters
------------------------------------------------------------

namespace Offside.Text

/- The character with a number of some hexadecimal digits. -/
def unescapeHex
    (width : Nat)
    (chars : List Char) :
    Char × List Char :=
  (Char.ofNat (ofHexDigits (chars.take width)), chars.drop width)

/- Reads a character between quotes, and gives what follows it. -/
def unescape :
    List Char →
    Option (Char × List Char)
  | [] => none
  | '\\' :: 'n' :: chars => some ('\n', chars)
  | '\\' :: 'r' :: chars => some ('\r', chars)
  | '\\' :: 't' :: chars => some ('\t', chars)
  | '\\' :: 'x' :: chars => some (unescapeHex 2 chars)
  | '\\' :: 'u' :: chars => some (unescapeHex 4 chars)
  | '\\' :: 'U' :: chars => some (unescapeHex 8 chars)
  | '\\' :: c :: chars => some (c, chars)
  | c :: chars => some (c, chars)

theorem unescapeHex_hexDigits
    {width : Nat}
    {c : Char}
    (hFits : c.toNat < 16 ^ width)
    (more : List Char) :
    unescapeHex width (hexDigits width c.toNat ++ more) = (c, more) := by
  have hLength := length_hexDigits width c.toNat
  rw [unescapeHex, List.take_left' hLength, List.drop_left' hLength,
    ofHexDigits_hexDigits hFits, Char.ofNat_toNat]

theorem quoteFor_eq
    (text : List Char) :
    quoteFor text = '\'' ∨ quoteFor text = '"' := by
  unfold quoteFor
  split
  · exact .inr rfl
  · exact .inl rfl

/- A character is read back, whatever follows it. -/
theorem unescape_escapeQuoted
    {quote : Char}
    (hQuote : quote = '\'' ∨ quote = '"')
    (c : Char)
    (more : List Char) :
    unescape (escapeQuoted quote c ++ more) = some (c, more) := by
  unfold escapeQuoted
  split_ifs with hMark hLine hReturn hTab hPrintable hSmall hMiddle
  · rcases hQuote with rfl | rfl <;> rcases hMark with rfl | rfl <;> rfl
  · rw [hLine]
    rfl
  · rw [hReturn]
    rfl
  · rw [hTab]
    rfl
  · rw [not_or] at hMark
    rw [List.singleton_append, unescape]
    all_goals simp_all
  · exact congrArg some (unescapeHex_hexDigits (by omega) more)
  · exact congrArg some (unescapeHex_hexDigits (by omega) more)
  · exact congrArg some (unescapeHex_hexDigits (UInt32.toNat_lt c.val) more)

end Offside.Text

------------------------------------------------------------
-- Quoted Texts
------------------------------------------------------------

namespace Offside.Text

theorem flatMap_escapeQuoted_injective
    {quote : Char}
    (hQuote : quote = '\'' ∨ quote = '"')
    {text text' : List Char}
    (hSame :
      text.flatMap (escapeQuoted quote) =
        text'.flatMap (escapeQuoted quote)) :
    text = text' := by
  induction text generalizing text' with
  | nil =>
      cases text' with
      | nil => rfl
      | cons c' text' =>
          have hRead := congrArg unescape hSame
          rw [List.flatMap_cons, unescape_escapeQuoted hQuote] at hRead
          cases hRead
  | cons c text ih =>
      have hRead := congrArg unescape hSame
      rw [List.flatMap_cons, unescape_escapeQuoted hQuote] at hRead
      cases text' with
      | nil => cases hRead
      | cons c' text' =>
          rw [List.flatMap_cons, unescape_escapeQuoted hQuote,
            Option.some.injEq, Prod.mk.injEq] at hRead
          rw [hRead.1, ih hRead.2]

/- Two texts have two quoted forms. -/
theorem quoted_injective :
    Function.Injective quoted := by
  intro text text' hSame
  have hChars : quotedChars text.toList = quotedChars text'.toList :=
    String.ofList_injective hSame
  unfold quotedChars at hChars
  simp only [List.cons_append, List.cons.injEq] at hChars
  rcases hChars with ⟨hQuote, hInner⟩
  rw [← hQuote] at hInner
  exact String.toList_injective (flatMap_escapeQuoted_injective
    (quoteFor_eq _) (List.append_cancel_right hInner))

end Offside.Text
