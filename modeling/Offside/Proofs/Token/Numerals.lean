import Mathlib
import Offside.Proofs.Token.Piece

/-
  Numbers in a text: where they stand, which of them are
  malformed, and where reading stops at the first of these.

  Key definitions include:
    * `Offside.Zone`
    * `Offside.NumberAt`
    * `Offside.Decimal.Malformed`
    * `Offside.FirstMalformed`

  Main statements:
    * `Offside.Decimal.ofLiteral?_eq_none_iff`: the literals that
      cannot be read are the malformed ones.
    * `Offside.Lexeme.numberAt_scan`: the first lexeme of a text
      is its first number, or no number starts in it.
    * `Offside.Scanner.lex_malformed`: a text is read unless it
      has a malformed number, and else up to the first one.
-/

------------------------------------------------------------
-- Zones
------------------------------------------------------------

namespace Offside

/- What a character of a text belongs to. -/
inductive Zone where
  | between
  | word
  | number
  | comment
  deriving DecidableEq, Repr

namespace Zone

/- Whether a character belongs to what stands before it. -/
def continuedBy :
    Zone →
    Char →
    Bool
  | between, _ => false
  | word, c => Lexeme.continuesWord c
  | number, c => Lexeme.isNumeral c
  | comment, c => c ≠ '\n' && c ≠ '\r'

/- What a character starts that belongs to nothing before it. -/
def start
    (c : Char) :
    Zone :=
  if Lexeme.startsWord c then word
  else if Lexeme.isNumeral c then number
  else if c = '#' then comment
  else between

/- What a character belongs to, from what the one before it does. -/
def step
    (z : Zone)
    (c : Char) :
    Zone :=
  if z.continuedBy c then z else start c

/- What the last of several characters belongs to. -/
def after
    (z : Zone)
    (cs : List Char) :
    Zone :=
  cs.foldl step z

end Zone

/-
  That these characters of a text are a number: a run of digits
  and dots, as long as can be, that starts outside of words and
  comments.  The zone is that of what stands before the text.
-/
structure NumberAt
    (z : Zone)
    (text before cs rest : List Char) :
    Prop where
  split : text = before ++ (cs ++ rest)
  nonempty : cs ≠ []
  numerals : ∀ c ∈ cs, Lexeme.isNumeral c = true
  stop : ∀ c ∈ rest.head?, Lexeme.isNumeral c = false
  fresh : z.after before ≠ .number
  starts : ∀ c ∈ cs.head?, (z.after before).step c = .number

/-
  Whether digits and dots are no number: there is no digit, or
  more than one dot, or a digit that is not a decimal one.
-/
def Decimal.Malformed
    (cs : List Char) :
    Prop :=
  (∀ c ∈ cs, Text.isDigit c = false) ∨
  2 ≤ cs.count '.' ∨
  ∃ c ∈ cs, Text.isDigit c = true ∧ Text.decimalValue? c = none

/- That these characters are the first malformed number of a text. -/
structure FirstMalformed
    (z : Zone)
    (text before cs rest : List Char) :
    Prop where
  number : NumberAt z text before cs rest
  malformed : Decimal.Malformed cs
  first :
    ∀ before' cs' rest',
      NumberAt z text before' cs' rest' →
      Decimal.Malformed cs' →
      before.length ≤ before'.length

end Offside

------------------------------------------------------------
-- Malformed Numbers
------------------------------------------------------------

namespace Offside.Decimal

/- Some digit has no value if and only if they have none together. -/
theorem mapM_decimalValue?_eq_none_iff
    (cs : List Char) :
    cs.mapM Text.decimalValue? = none ↔
      ∃ c ∈ cs, Text.decimalValue? c = none := by
  induction cs with
  | nil => simp
  | cons c cs ih =>
      cases hValue : Text.decimalValue? c with
      | none => simp [hValue]
      | some value =>
          cases hMore : cs.mapM Text.decimalValue? with
          | none => simp_all
          | some values => simp_all

/- The digits of a literal are what is left without its first dot. -/
theorem parts_eq_erase
    (cs : List Char) :
    cs.takeWhile (· ≠ '.') ++ (cs.dropWhile (· ≠ '.')).drop 1 =
      cs.erase '.' := by
  induction cs with
  | nil => rfl
  | cons c cs ih =>
      by_cases hDot : c = '.'
      · simp [hDot]
      · simpa [hDot] using ih

theorem ofLiteral?_eq_none
    (cs : List Char) :
    ofLiteral? cs = none ↔
      cs.erase '.' = [] ∨
        ∃ c ∈ cs.erase '.', Text.decimalValue? c = none := by
  rw [← mapM_decimalValue?_eq_none_iff, ← parts_eq_erase]
  unfold ofLiteral?
  dsimp only
  generalize cs.takeWhile (· ≠ '.') = whole
  generalize (cs.dropWhile (· ≠ '.')).drop 1 = fraction
  cases hList : whole ++ fraction with
  | nil => simp
  | cons c ds =>
      cases hValues : (c :: ds).mapM Text.decimalValue? with
      | none => simp
      | some values =>
          cases values with
          | nil =>
              rw [List.mapM_cons] at hValues
              simp [Option.bind_eq_some_iff] at hValues
          | cons value values => simp

/- A dot has no value and is no digit. -/
theorem dot_plain :
    Text.decimalValue? '.' = none ∧ Text.isDigit '.' = false := by
  decide

/- Digits and dots cannot be read just when they are malformed. -/
theorem ofLiteral?_eq_none_iff
    {cs : List Char}
    (hNumerals : ∀ c ∈ cs, Lexeme.isNumeral c = true) :
    ofLiteral? cs = none ↔ Malformed cs := by
  have hDigit : ∀ c ∈ cs, c ≠ '.' → Text.isDigit c = true := by
    intro c hMem hOther
    simpa [Lexeme.isNumeral, hOther] using hNumerals c hMem
  have hDots : '.' ∈ cs.erase '.' ↔ 2 ≤ cs.count '.' := by
    rw [← List.count_pos_iff, List.count_erase_self]
    omega
  rw [ofLiteral?_eq_none]
  constructor
  · rintro (hNil | ⟨c, hMem, hNone⟩)
    · left
      intro c hMem
      by_cases hDot : c = '.'
      · rw [hDot]
        exact dot_plain.2
      · have hOther := (List.mem_erase_of_ne hDot).mpr hMem
        rw [hNil] at hOther
        cases hOther
    · right
      by_cases hDot : c = '.'
      · left
        rw [hDot] at hMem
        exact hDots.mp hMem
      · right
        have hInside := List.mem_of_mem_erase hMem
        exact ⟨c, hInside, hDigit c hInside hDot, hNone⟩
  · rintro (hDigits | hTwo | ⟨c, hMem, hIs, hNone⟩)
    · -- Where a character is left, it is a second dot.
      by_cases hNil : cs.erase '.' = []
      · exact .inl hNil
      · rcases List.exists_mem_of_ne_nil _ hNil with ⟨c, hMem⟩
        have hInside := List.mem_of_mem_erase hMem
        have hDot : c = '.' := by
          by_contra hOther
          have hIs := hDigit c hInside hOther
          rw [hDigits c hInside] at hIs
          cases hIs
        exact .inr ⟨c, hMem, hDot ▸ dot_plain.1⟩
    · exact .inr ⟨'.', hDots.mpr hTwo, dot_plain.1⟩
    · have hOther : c ≠ '.' := by
        intro hDot
        rw [hDot, dot_plain.2] at hIs
        cases hIs
      exact .inr ⟨c, (List.mem_erase_of_ne hOther).mpr hMem, hNone⟩

end Offside.Decimal

namespace Offside.Lexeme

/- The only lexemes that cannot be read are malformed numbers. -/
theorem content_eq_error_iff
    {rest : List Char}
    {lexeme : Lexeme}
    (hLexeme : IsLexeme rest lexeme.shape lexeme.chars)
    (e : MalformedNumber) :
    lexeme.content = .error e ↔
      lexeme.shape = .number ∧ Decimal.Malformed lexeme.chars ∧
        e = ⟨String.ofList lexeme.chars⟩ := by
  unfold content
  cases hShape : lexeme.shape with
  | number =>
      rw [hShape] at hLexeme
      cases hLexeme with
      | number _ hAll _ =>
          rw [← Decimal.ofLiteral?_eq_none_iff hAll]
          cases Decimal.ofLiteral? lexeme.chars with
          | none => simp [eq_comm]
          | some d => simp
  | _ => simp

end Offside.Lexeme

------------------------------------------------------------
-- Characters and Zones
------------------------------------------------------------

namespace Offside.Text

theorem blanks_apart_digits : Ranges.Apart blanks digits := by
  decide +kernel

/- White space starts nothing. -/
theorem start_of_isBlank
    {c : Char}
    (hBlank : isBlank c = true) :
    Zone.start c = .between := by
  have hWord : Lexeme.startsWord c = false := by
    by_contra hStarts
    have hNone := isBlank_of_startsWord (Bool.not_eq_false _ ▸ hStarts)
    rw [hBlank] at hNone
    cases hNone
  have hDigit : isDigit c = false :=
    blanks_apart_digits.contains_eq_false hBlank
  have hDot : c ≠ '.' := by
    rintro rfl
    revert hBlank
    decide
  have hComment : c ≠ '#' := by
    rintro rfl
    revert hBlank
    decide
  simp [Zone.start, Lexeme.isNumeral, hWord, hDigit, hDot, hComment]

end Offside.Text

namespace Offside.Zone

variable {z : Zone}
variable {c : Char}
variable {cs ds text : List Char}

/- Whether nothing of a text belongs to what stands before it. -/
def Over
    (z : Zone)
    (text : List Char) :
    Prop :=
  ∀ c ∈ text.head?, z.continuedBy c = false

/- Whether no number starts among characters. -/
def Idle :
    Zone →
    List Char →
    Prop
  | _, [] => True
  | z, c :: cs =>
      (z = .number ∨ z.step c ≠ .number) ∧ (z.step c).Idle cs

@[simp] theorem after_nil :
    z.after [] = z :=
  rfl

@[simp] theorem after_cons :
    z.after (c :: cs) = (z.step c).after cs :=
  rfl

@[simp] theorem after_append :
    z.after (cs ++ ds) = (z.after cs).after ds :=
  List.foldl_append

theorem between_over
    (text : List Char) :
    between.Over text :=
  fun _ _ => rfl

theorem step_of_over
    (hOver : z.Over (c :: text)) :
    z.step c = start c :=
  if_neg (Bool.eq_false_iff.mp (hOver c rfl))

theorem idle_append
    (hFirst : z.Idle cs)
    (hSecond : (z.after cs).Idle ds) :
    z.Idle (cs ++ ds) := by
  induction cs generalizing z with
  | nil => exact hSecond
  | cons c cs ih => exact ⟨hFirst.1, ih hFirst.2 hSecond⟩

/- Characters that all belong to what stands before them. -/
theorem after_of_continued
    (hAll : ∀ c ∈ cs, z.continuedBy c = true) :
    z.after cs = z ∧ z.Idle cs := by
  induction cs with
  | nil => exact ⟨rfl, trivial⟩
  | cons c cs ih =>
      rcases List.forall_mem_cons.mp hAll with ⟨hFirst, hMore⟩
      have hStep : z.step c = z := if_pos hFirst
      rw [after_cons, Idle, hStep]
      exact ⟨(ih hMore).1, em _, (ih hMore).2⟩

end Offside.Zone

------------------------------------------------------------
-- Numbers and Lexemes
------------------------------------------------------------

namespace Offside.NumberAt

variable {z : Zone}
variable {c : Char}
variable {text before cs rest : List Char}

/- A number after the first character. -/
theorem cons
    (hNumber : NumberAt (z.step c) text before cs rest) :
    NumberAt z (c :: text) (c :: before) cs rest :=
  { hNumber with split := congrArg (c :: ·) hNumber.split }

theorem of_cons
    {d : Char}
    (hNumber : NumberAt z (c :: text) (d :: before) cs rest) :
    d = c ∧ NumberAt (z.step c) text before cs rest := by
  have hSplit := hNumber.split
  rw [List.cons_append, List.cons.injEq] at hSplit
  rcases hSplit with ⟨rfl, hText⟩
  exact ⟨rfl, { hNumber with split := hText }⟩

/- Nothing is a number of no text. -/
theorem not_nil :
    ¬NumberAt z [] before cs rest := by
  intro hNumber
  have hSplit := hNumber.split
  simp [hNumber.nonempty] at hSplit

/- A number starts at the first character only in a fresh zone. -/
theorem before_ne_nil
    (hNone : z = .number ∨ z.step c ≠ .number)
    (hNumber : NumberAt z (c :: text) before cs rest) :
    before ≠ [] := by
  rintro rfl
  rcases List.exists_cons_of_ne_nil hNumber.nonempty with
    ⟨d, ds, hChars⟩
  have hSplit := hNumber.split
  rw [hChars, List.nil_append, List.cons_append, List.cons.injEq]
    at hSplit
  have hStarts : z.step c = .number := by
    apply hNumber.starts
    rw [hChars, hSplit.1]
    rfl
  rcases hNone with hInside | hOther
  · exact hNumber.fresh hInside
  · exact hOther hStarts

/- Characters at which no number starts can be passed over. -/
theorem append_iff
    {skipped : List Char}
    (hIdle : z.Idle skipped) :
    NumberAt z (skipped ++ text) before cs rest ↔
      ∃ before',
        before = skipped ++ before' ∧
        NumberAt (z.after skipped) text before' cs rest := by
  induction skipped generalizing z before with
  | nil => simp
  | cons c skipped ih =>
      constructor
      · intro hNumber
        rcases List.exists_cons_of_ne_nil
            (hNumber.before_ne_nil hIdle.1) with
          ⟨d, before, rfl⟩
        rcases hNumber.of_cons with ⟨rfl, hMore⟩
        rcases (ih hIdle.2).mp hMore with ⟨before', rfl, hRest⟩
        exact ⟨before', rfl, hRest⟩
      · rintro ⟨before', rfl, hRest⟩
        exact cons ((ih hIdle.2).mpr ⟨before', rfl, hRest⟩)

end Offside.NumberAt

namespace Offside

variable {z : Zone}
variable {text : List Char}

/- After a gap something new starts, and no number starts in it. -/
theorem IsGap.over_idle
    {gap : List Char}
    (hGap : IsGap text gap)
    (hOver : z.Over (gap ++ text)) :
    (z.after gap).Over text ∧ z.Idle gap := by
  induction hGap generalizing z with
  | nil => exact ⟨hOver, trivial⟩
  | @blank c cs hBlank _ ih =>
      have hStep : z.step c = .between :=
        (Zone.step_of_over hOver).trans (Text.start_of_isBlank hBlank)
      rcases ih (Zone.between_over _) with ⟨hAfter, hIdle⟩
      rw [Zone.after_cons, Zone.Idle, hStep]
      exact ⟨hAfter, .inr (by simp), hIdle⟩
  | comment body cs hBody hEnd _ ih =>
      have hStart : Zone.start '#' = .comment := by decide
      have hStep : z.step '#' = .comment :=
        (Zone.step_of_over hOver).trans hStart
      have hInside : ∀ c ∈ body, Zone.comment.continuedBy c = true := by
        intro c hMem
        simp [Zone.continuedBy, hBody c hMem]
      have hLine : Zone.comment.Over (cs ++ text) := by
        intro c hHead
        rcases hEnd c hHead with rfl | rfl
        all_goals rfl
      rcases Zone.after_of_continued hInside with ⟨hBodyAfter, hBodyIdle⟩
      rcases ih hLine with ⟨hAfter, hIdle⟩
      rw [Zone.after_cons, Zone.after_append, Zone.Idle, hStep,
        hBodyAfter]
      refine ⟨hAfter, .inr (by simp), ?_⟩
      apply Zone.idle_append hBodyIdle
      rwa [hBodyAfter]

/- After any lexeme but a number likewise. -/
theorem IsLexeme.over_idle
    {shape : Shape}
    {chars : List Char}
    (hLexeme : IsLexeme text shape chars)
    (hShape : shape ≠ .number)
    (hOver : z.Over (chars ++ text)) :
    (z.after chars).Over text ∧ z.Idle chars := by
  cases hLexeme with
  | indent _ => exact ⟨hOver, trivial⟩
  | finish _ => exact ⟨hOver, trivial⟩
  | number => exact absurd rfl hShape
  | @word c cs hFirst hMore hStop =>
      have hStep : z.step c = .word := by
        rw [Zone.step_of_over hOver, Zone.start, if_pos hFirst]
      have hWord : Zone.word.after cs = .word ∧ Zone.word.Idle cs :=
        Zone.after_of_continued hMore
      rw [Zone.after_cons, Zone.Idle, hStep, hWord.1]
      exact ⟨hStop, .inr (by simp), hWord.2⟩
  | @symbol c hBlank hWord hNumeral hComment =>
      have hStep : z.step c = .between := by
        rw [Zone.step_of_over hOver]
        simp [Zone.start, hWord, hNumeral, hComment]
      rw [Zone.after_cons, Zone.Idle, hStep]
      exact ⟨Zone.between_over text, .inr (by simp), trivial⟩

/-
  After a run of digits and dots as well, where it starts no
  word.  It is a number, and all others are after it.
-/
theorem IsLexeme.over_numberAt
    {chars : List Char}
    (hLexeme : IsLexeme text .number chars)
    (hWord : ∀ c ∈ chars.head?, Lexeme.startsWord c = false)
    (hOver : z.Over (chars ++ text)) :
    (z.after chars).Over text ∧
    ∀ before cs rest,
      NumberAt z (chars ++ text) before cs rest ↔
        (before = [] ∧ cs = chars ∧ rest = text) ∨
        ∃ before',
          before = chars ++ before' ∧
          NumberAt (z.after chars) text before' cs rest := by
  cases hLexeme with
  | number hSome hAll hStop =>
      rcases List.exists_cons_of_ne_nil hSome with ⟨c, ds, rfl⟩
      rcases List.forall_mem_cons.mp hAll with ⟨hFirst, hMore⟩
      have hStep : z.step c = .number := by
        rw [Zone.step_of_over hOver]
        simp [Zone.start, hWord c rfl, hFirst]
      have hInside :
          Zone.number.after ds = .number ∧ Zone.number.Idle ds :=
        Zone.after_of_continued hMore
      have hAfter : z.after (c :: ds) = .number := by
        rw [Zone.after_cons, hStep, hInside.1]
      have hLater : ∀ before cs rest,
          NumberAt (z.step c) (ds ++ text) before cs rest ↔
            ∃ before',
              before = ds ++ before' ∧
              NumberAt .number text before' cs rest := by
        intro before cs rest
        rw [hStep, NumberAt.append_iff hInside.2, hInside.1]
      rw [hAfter]
      refine ⟨hStop, ?_⟩
      intro before cs rest
      constructor
      · intro hAt
        cases before with
        | nil =>
            -- Both runs are as long as can be.
            left
            have hSplit : (c :: ds) ++ text = cs ++ rest := hAt.split
            rcases Piece.takeWhile_dropWhile_append hAll hStop with
              ⟨hTake, hDrop⟩
            rcases
                Piece.takeWhile_dropWhile_append hAt.numerals hAt.stop
              with ⟨hTake', hDrop'⟩
            rw [← hSplit, hTake] at hTake'
            rw [← hSplit, hDrop] at hDrop'
            exact ⟨rfl, hTake'.symm, hDrop'.symm⟩
        | cons d before =>
            right
            rcases hAt.of_cons with ⟨rfl, hTail⟩
            rcases (hLater _ _ _).mp hTail with ⟨before', rfl, hRest⟩
            exact ⟨before', rfl, hRest⟩
      · rintro (⟨rfl, rfl, rfl⟩ | ⟨before', rfl, hRest⟩)
        · have hFresh : z ≠ .number := by
            rintro rfl
            have hNone : Lexeme.isNumeral c = false := hOver c rfl
            rw [hFirst] at hNone
            cases hNone
          exact ⟨rfl, hSome, hAll, hStop, hFresh, by simpa using hStep⟩
        · exact NumberAt.cons ((hLater _ _ _).mpr ⟨before', rfl, hRest⟩)

/- What starts a word is not scanned as a number. -/
theorem Lexeme.startsWord_scan
    {lineStart : Bool}
    (hShape : (scan lineStart text).shape = .number) :
    ∀ c ∈ (scan lineStart text).chars.head?, startsWord c = false := by
  rw [scan_eq_ofGap] at hShape ⊢
  generalize Gap.skip false lineStart 0 text = gap at hShape ⊢
  unfold ofGap at hShape ⊢
  split_ifs at hShape ⊢
  cases hRest : gap.rest with
  | nil => simp
  | cons d ds =>
      rw [hRest] at hShape
      dsimp only at hShape ⊢
      split_ifs at hShape ⊢ with hWord hNumeral
      intro c hHead
      rw [List.takeWhile_cons_of_pos hNumeral] at hHead
      cases hHead
      simpa using hWord

/-
  The first lexeme of a text is its first number, or no number
  starts in it.  All others are numbers of what is left.
-/
theorem Lexeme.numberAt_scan
    (lineStart : Bool)
    (hOver : z.Over text)
    {lexeme : Lexeme}
    (hScan : scan lineStart text = lexeme) :
    (z.after (lexeme.gap ++ lexeme.chars)).Over lexeme.rest ∧
    ∀ before cs rest,
      NumberAt z text before cs rest ↔
        (lexeme.shape = .number ∧ before = lexeme.gap ∧
          cs = lexeme.chars ∧ rest = lexeme.rest) ∨
        ∃ before',
          before = lexeme.gap ++ (lexeme.chars ++ before') ∧
          NumberAt (z.after (lexeme.gap ++ lexeme.chars)) lexeme.rest
            before' cs rest := by
  have hGap := isGap_scan lineStart text
  have hLexeme := isLexeme_scan lineStart text
  have hText := scan_append lineStart text
  rw [hScan] at hGap hLexeme hText
  rw [← hText] at hOver
  rcases hGap.over_idle hOver with ⟨hOverGap, hIdleGap⟩
  have hNumbers : ∀ before cs rest,
      NumberAt z text before cs rest ↔
        ∃ before',
          before = lexeme.gap ++ before' ∧
          NumberAt (z.after lexeme.gap) (lexeme.chars ++ lexeme.rest)
            before' cs rest := by
    intro before cs rest
    rw [← hText, NumberAt.append_iff hIdleGap]
  simp only [Zone.after_append, hNumbers]
  by_cases hShape : lexeme.shape = .number
  · have hWord := startsWord_scan (hScan ▸ hShape)
    rw [hScan] at hWord
    rw [hShape] at hLexeme
    rcases hLexeme.over_numberAt hWord hOverGap with
      ⟨hOverChars, hInside⟩
    refine ⟨hOverChars, ?_⟩
    intro before cs rest
    simp only [hInside]
    constructor
    · rintro ⟨_, rfl, ⟨rfl, hRest⟩ | ⟨before', rfl, hRest⟩⟩
      · exact .inl ⟨hShape, List.append_nil _, hRest⟩
      · exact .inr ⟨before', rfl, hRest⟩
    · rintro (⟨_, rfl, hRest⟩ | ⟨before', rfl, hRest⟩)
      · exact ⟨[], (List.append_nil _).symm, .inl ⟨rfl, hRest⟩⟩
      · exact ⟨_, rfl, .inr ⟨before', rfl, hRest⟩⟩
  · rcases hLexeme.over_idle hShape hOverGap with ⟨hOverChars, hIdle⟩
    refine ⟨hOverChars, ?_⟩
    intro before cs rest
    simp only [NumberAt.append_iff hIdle, hShape, false_and, false_or]
    constructor
    · rintro ⟨_, rfl, before', rfl, hRest⟩
      exact ⟨before', rfl, hRest⟩
    · rintro ⟨before', rfl, hRest⟩
      exact ⟨_, rfl, before', rfl, hRest⟩

end Offside

------------------------------------------------------------
-- Reading up to a Malformed Number
------------------------------------------------------------

namespace Offside.FirstMalformed

variable {z : Zone}
variable {lineStart : Bool}
variable {text : List Char}

/- The lexeme of a text that is malformed is the first one. -/
theorem scan
    (hOver : z.Over text)
    {lexeme : Lexeme}
    (hScan : Lexeme.scan lineStart text = lexeme)
    (hShape : lexeme.shape = .number)
    (hMalformed : Decimal.Malformed lexeme.chars) :
    FirstMalformed z text lexeme.gap lexeme.chars lexeme.rest := by
  have hNumbers := (Lexeme.numberAt_scan lineStart hOver hScan).2
  refine ⟨?_, hMalformed, ?_⟩
  · exact (hNumbers _ _ _).mpr (.inl ⟨hShape, rfl, rfl, rfl⟩)
  · intro before cs rest hNumber _
    rcases (hNumbers _ _ _).mp hNumber with
      ⟨_, rfl, _⟩ | ⟨before', rfl, _⟩
    · exact le_refl _
    · simp

/- After a lexeme that is not, the first one is what is left. -/
theorem append
    (hOver : z.Over text)
    {lexeme : Lexeme}
    (hScan : Lexeme.scan lineStart text = lexeme)
    (hGood :
      lexeme.shape = .number → ¬Decimal.Malformed lexeme.chars)
    {before cs rest : List Char}
    (hFirst :
      FirstMalformed (z.after (lexeme.gap ++ lexeme.chars))
        lexeme.rest before cs rest) :
    FirstMalformed z text (lexeme.gap ++ (lexeme.chars ++ before))
      cs rest := by
  have hNumbers := (Lexeme.numberAt_scan lineStart hOver hScan).2
  refine ⟨?_, hFirst.malformed, ?_⟩
  · exact (hNumbers _ _ _).mpr (.inr ⟨before, rfl, hFirst.number⟩)
  · intro before' cs' rest' hNumber hMalformed
    rcases (hNumbers _ _ _).mp hNumber with
      ⟨hShape, _, rfl, _⟩ | ⟨before'', rfl, hLater⟩
    · exact absurd hMalformed (hGood hShape)
    · have hLength := hFirst.first _ _ _ hLater hMalformed
      simpa using hLength

end Offside.FirstMalformed

namespace Offside.Lexer

variable {l : Lexer}
variable {lineStart : Bool}
variable {text : List Char}

@[simp] theorem reads_advanceBy
    (n : Nat)
    (l : Lexer) :
    (l.advanceBy n).reads = l.reads + n := by
  induction n generalizing l with
  | zero => rfl
  | succ n ih =>
      rw [advanceBy, ih]
      simp only [advance]
      omega

/- How far a token is read. -/
theorem At.reads_next
    (hAt : l.At lineStart text) :
    l.next.2.reads =
      l.prime.reads + (Lexeme.scan lineStart text).width := by
  have hScan := hAt.scan
  rw [← view_prime l] at hScan
  rw [← hScan]
  exact reads_advanceBy _ _

theorem At.reads_prime_next
    (hAt : l.At lineStart text)
    (hRest : (Lexeme.scan lineStart text).rest ≠ []) :
    l.next.2.prime.reads =
      l.prime.reads + (Lexeme.scan lineStart text).width := by
  rw [prime_next (by rwa [hAt.next.view]), hAt.reads_next]

/- A malformed token is the last one that is read. -/
theorem tokens_of_error
    {e : MalformedNumber}
    (hNext : l.next.1 = .error e) :
    l.tokens = (.error e, l.next.2) := by
  rw [tokens]
  split
  · rename_i e' l' hPair
    rw [hPair] at hNext ⊢
    cases hNext
    rfl
  · rename_i t l' hPair
    rw [hPair] at hNext
    cases hNext

/- After any other token it is the next ones that matter. -/
theorem tokens_snd_of_next
    {t : Token}
    (hNext : l.next.1 = .ok t)
    (hKind : t.kind ≠ .endOfText) :
    l.tokens.2 = l.next.2.tokens.2 := by
  rw [tokens]
  split
  · rename_i e l' hPair
    rw [hPair] at hNext
    cases hNext
  · rename_i t' l' hPair
    rw [hPair] at hNext
    cases hNext
    rw [dif_neg hKind]
    dsimp only
    rw [hPair]
    dsimp only
    split
    · rename_i hTokens
      rw [hTokens]
    · rename_i hTokens
      rw [hTokens]

end Offside.Lexer

namespace Offside

variable {z : Zone}
variable {lineStart : Bool}
variable {text : List Char}

/- What is left of a text after a lexeme that is not the last one. -/
theorem Lexeme.length_rest_lt
    (hShape : (Lexeme.scan lineStart text).shape ≠ .finish) :
    (Lexeme.scan lineStart text).rest.length < text.length := by
  have hWidth := Lexeme.width_scan_pos hShape
  have hText :=
    congrArg List.length (Lexeme.scan_append lineStart text)
  simp only [List.length_append] at hText
  unfold Lexeme.width at hWidth
  omega

/- After the last one nothing is left. -/
theorem Lexeme.rest_eq_nil
    (hShape : (Lexeme.scan lineStart text).shape = .finish) :
    (Lexeme.scan lineStart text).rest = [] := by
  have hLexeme := Lexeme.isLexeme_scan lineStart text
  rw [hShape] at hLexeme
  generalize (Lexeme.scan lineStart text).chars = chars at hLexeme
  cases hLexeme with
  | finish hEnd => exact hEnd

/- A lexeme that is read is no malformed number. -/
theorem Lexeme.wellFormed_of_content
    {kind : Kind}
    {value : Value}
    (hContent :
      (Lexeme.scan lineStart text).content = .ok (kind, value))
    (hShape : (Lexeme.scan lineStart text).shape = .number) :
    ¬Decimal.Malformed (Lexeme.scan lineStart text).chars := by
  intro hMalformed
  have hError :=
    (Lexeme.content_eq_error_iff (isLexeme_scan lineStart text) _).mpr
      ⟨hShape, hMalformed, rfl⟩
  rw [hContent] at hError
  cases hError

/-
  A text that is read has at most one token for every character
  besides the last one, and no malformed number.
-/
theorem Reading.wellFormed
    {ts : List Token}
    (hReading : Reading lineStart text ts)
    (hOver : z.Over text) :
    ts.length ≤ text.length + 1 ∧
      ∀ before cs rest,
        NumberAt z text before cs rest → ¬Decimal.Malformed cs := by
  induction hReading generalizing z with
  | @finish lineStart text hShape =>
      refine ⟨by simp, ?_⟩
      intro before cs rest hNumber
      have hNumbers := (Lexeme.numberAt_scan lineStart hOver rfl).2
      rcases (hNumbers _ _ _).mp hNumber with
        ⟨hOther, _⟩ | ⟨_, _, hLater⟩
      · rw [hShape] at hOther
        cases hOther
      · rw [Lexeme.rest_eq_nil hShape] at hLater
        exact absurd hLater NumberAt.not_nil
  | @cons lineStart text kind value ts hContent hKind _ ih =>
      have hShape := Lexeme.shape_ne_finish hContent hKind
      have hLess := Lexeme.length_rest_lt hShape
      rcases Lexeme.numberAt_scan lineStart hOver rfl with
        ⟨hOverRest, hNumbers⟩
      rcases ih hOverRest with ⟨hLength, hMore⟩
      constructor
      · rw [List.length_cons]
        omega
      · intro before cs rest hNumber
        rcases (hNumbers _ _ _).mp hNumber with
          ⟨hNumberShape, _, rfl, _⟩ | ⟨before', _, hLater⟩
        · exact Lexeme.wellFormed_of_content hContent hNumberShape
        · exact hMore _ _ _ hLater

/-
  Where not all tokens are read, reading has stopped at the first
  malformed number, with the character after it at hand.  The
  induction is on the length of the text.
-/
theorem Lexer.At.malformed
    {l : Lexer}
    (hAt : l.At lineStart text)
    (hOver : z.Over text)
    {e : MalformedNumber}
    (hTokens : l.tokens.1 = .error e) :
    ∃ before cs rest,
      FirstMalformed z text before cs rest ∧
      e = ⟨String.ofList cs⟩ ∧
      l.tokens.2.reads =
        l.prime.reads + (before.length + cs.length) ∧
      l.tokens.2.ahead = rest.head? := by
  induction hLength : text.length using Nat.strong_induction_on
    generalizing l lineStart text z with
  | _ n ih =>
      have hNext := hAt.next_eq
      cases hContent : (Lexeme.scan lineStart text).content with
      | error e' =>
          rw [hContent] at hNext
          have hStop := Lexer.tokens_of_error hNext
          rw [hStop] at hTokens ⊢
          cases hTokens
          rcases
              (Lexeme.content_eq_error_iff
                (Lexeme.isLexeme_scan lineStart text) e).mp hContent
            with ⟨hShape, hMalformed, hLiteral⟩
          refine ⟨_, _, _,
            FirstMalformed.scan hOver rfl hShape hMalformed,
            hLiteral, hAt.reads_next, ?_⟩
          rw [Lexer.ahead_next, hAt.next.view]
      | ok pair =>
          rcases pair with ⟨kind, value⟩
          rw [hContent] at hNext
          by_cases hKind : kind = .endOfText
          · rw [Lexer.tokens_eq, hNext] at hTokens
            simp [Except.map, hKind] at hTokens
          · have hShape := Lexeme.shape_ne_finish hContent hKind
            have hLess := Lexeme.length_rest_lt hShape
            have hOverRest :=
              (Lexeme.numberAt_scan lineStart hOver rfl).1
            rw [Lexer.tokens_of_next hNext hKind] at hTokens
            have hMore : l.next.2.tokens.1 = .error e := by
              cases hRest : l.next.2.tokens.1 with
              | error e' => rw [hRest] at hTokens; exact hTokens
              | ok ts => rw [hRest] at hTokens; cases hTokens
            rcases
                ih _ (hLength ▸ hLess) hAt.next hOverRest hMore rfl with
              ⟨before, cs, rest, hFirst, hLiteral, hReads, hAhead⟩
            refine ⟨_, cs, rest,
              FirstMalformed.append hOver rfl
                (Lexeme.wellFormed_of_content hContent) hFirst,
              hLiteral, ?_, ?_⟩
            · have hSome : (Lexeme.scan lineStart text).rest ≠ [] := by
                intro hNil
                have hNumber := hFirst.number
                rw [hNil] at hNumber
                exact NumberAt.not_nil hNumber
              rw [Lexer.tokens_snd_of_next hNext hKind, hReads,
                hAt.reads_prime_next hSome]
              simp only [List.length_append, Lexeme.width]
              omega
            · rw [Lexer.tokens_snd_of_next hNext hKind]
              exact hAhead

end Offside

namespace Offside.Input

/- How far a text in the buffer has been read. -/
theorem position_take_loadText
    {i : Input}
    (hBuffer : i.direct = false)
    (text : String)
    (n : Nat) :
    ((i.loadText text).take n).buffer.position = n := by
  simp [take, loadText, hBuffer, Buffer.ofText, Buffer.write,
    Buffer.move]

end Offside.Input

namespace Offside.Scanner

/-
  A text is read with at most one token for every character
  besides the last one.  This fails if and only if the text has a
  malformed number.  The error then shows the first one, and the
  text has been read up to it and the one character after it.
-/
theorem lex_malformed
    {s : Scanner}
    (hBuffer : s.input.direct = false)
    (text : String) :
    ∃ result s',
      lex { s with input := s.input.loadText text } = (result, s') ∧
      (∀ ts, result = .ok ts → ts.length ≤ text.length + 1) ∧
      ((∃ e, result = .error e) ↔
        ∃ before cs rest,
          NumberAt .between text.toList before cs rest ∧
          Decimal.Malformed cs) ∧
      ∀ e, result = .error e →
        ∃ before cs rest,
          FirstMalformed .between text.toList before cs rest ∧
          e = ⟨String.ofList cs⟩ ∧
          s'.input.buffer.position = before.length + cs.length + 1 ∧
          s'.lexer.ahead = rest.head? := by
  have hUnread := Input.unread_loadText hBuffer text
  let l : Lexer :=
    Lexer.reset { s.lexer with unread := text.toList, reads := 0 }
  have hAt : l.At true text.toList := Lexer.at_reset _
  have hOver : Zone.between.Over text.toList := Zone.between_over _
  have hLex :
      lex { s with input := s.input.loadText text } =
        (l.tokens.1,
          ⟨(s.input.loadText text).take l.tokens.2.reads,
            { l.tokens.2 with unread := [], reads := 0 }⟩) := by
    unfold lex run
    dsimp only
    rw [hUnread]
    rfl
  have hRead : ∀ ts, l.tokens.1 = .ok ts →
      ts.length ≤ text.length + 1 ∧
        ∀ before cs rest,
          NumberAt .between text.toList before cs rest →
            ¬Decimal.Malformed cs := by
    intro ts hTokens
    have hReading := (hAt.reading hTokens).wellFormed hOver
    rwa [List.length_map, String.length_toList] at hReading
  refine ⟨_, _, hLex, fun ts hTokens => (hRead ts hTokens).1, ?_, ?_⟩
  · constructor
    · rintro ⟨e, hError⟩
      rcases hAt.malformed hOver hError with
        ⟨before, cs, rest, hFirst, _⟩
      exact ⟨before, cs, rest, hFirst.number, hFirst.malformed⟩
    · rintro ⟨before, cs, rest, hNumber, hMalformed⟩
      cases hTokens : l.tokens.1 with
      | error e => exact ⟨e, rfl⟩
      | ok ts =>
          exact absurd hMalformed ((hRead ts hTokens).2 _ _ _ hNumber)
  · intro e hError
    rcases hAt.malformed hOver hError with
      ⟨before, cs, rest, hFirst, hLiteral, hReads, hAhead⟩
    have hPrime : l.prime.reads = 1 := rfl
    refine ⟨before, cs, rest, hFirst, hLiteral, ?_, hAhead⟩
    rw [Input.position_take_loadText hBuffer, hReads, hPrime]
    omega

/- What looks like a number in a word or a comment does not count. -/
theorem lex_malformed_sample :
    (ofInput Input.empty).input.direct = false ∧
    ∃ s' before cs rest,
      lex
          { ofInput Input.empty with
            input := Input.empty.loadText "x1.5 # ..\n 1.2.3+." } =
        (.error ⟨"1.2.3"⟩, s') ∧
      FirstMalformed .between "x1.5 # ..\n 1.2.3+.".toList
        before cs rest ∧
      String.ofList cs = "1.2.3" ∧
      s'.input.buffer.position = before.length + cs.length + 1 ∧
      s'.lexer.ahead = rest.head? := by
  have hBuffer : (ofInput Input.empty).input.direct = false := rfl
  rcases lex_malformed hBuffer "x1.5 # ..\n 1.2.3+." with
    ⟨result, s', hLex, _, _, hError⟩
  have hFirst :
      (lex
          { ofInput Input.empty with
            input := Input.empty.loadText "x1.5 # ..\n 1.2.3+." }).1 =
        .error ⟨"1.2.3"⟩ := by
    decide +kernel
  have hResult : result = .error ⟨"1.2.3"⟩ :=
    (congrArg Prod.fst hLex).symm.trans hFirst
  rcases hError _ hResult with
    ⟨before, cs, rest, hMalformed, hLiteral, hPosition, hAhead⟩
  rw [hResult] at hLex
  exact ⟨hBuffer, s', before, cs, rest, hLex, hMalformed,
    (congrArg MalformedNumber.literal hLiteral).symm, hPosition, hAhead⟩

end Offside.Scanner
