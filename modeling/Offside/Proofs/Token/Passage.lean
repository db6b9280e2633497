import Mathlib
import Offside.Proofs.Layout.Row

/-
  Passages: pieces and indentations one after the other, with
  blanks between the pieces, and what they are read as.

  Key definitions include:
    * `Offside.Mark`
    * `Offside.Entry.MayFollow`
    * `Offside.Entry.Absorbs`
    * `Offside.Passage`

  Main statements:
    * `Offside.Reading.piece_iff`, `Offside.Reading.indented_iff`:
      how the first mark of a text is read.
    * `Offside.Scanner.lexText_passage_iff`: a passage is read as
      its marks if and only if no word in it absorbs the symbol
      after it.
-/

------------------------------------------------------------
-- Passages
------------------------------------------------------------

namespace Offside

/- Whether a piece is a symbol. -/
def Piece.isSymbol :
    Piece →
    Bool
  | symbol _ => true
  | _ => false

/- What a text is made of: pieces, and lines that are indented. -/
inductive Mark where
  | piece (p : Piece)
  | indent (width : Nat) (hWidth : width ≠ 0)

namespace Mark

/- The characters of a mark. -/
def chars :
    Mark →
    List Char
  | piece p => p.chars
  | indent width _ => '\n' :: List.replicate width ' '

/- The token that a mark stands for. -/
def token :
    Mark →
    Token
  | piece p => p.token
  | indent width _ => Token.indentation width

end Mark

/- A mark with the number of blanks before it. -/
structure Entry where
  blanks : Nat
  mark : Mark

namespace Entry

/- The characters of an entry. -/
def chars
    (e : Entry) :
    List Char :=
  List.replicate e.blanks ' ' ++ e.mark.chars

/-
  Whether an entry may stand after another one.  There are blanks
  between pieces only, and some at least where neither piece is a
  symbol.  Two indentations do not stand together.
-/
def MayFollow
    (e f : Entry) :
    Prop :=
  match e.mark, f.mark with
  | .piece p, .piece q =>
      p.isSymbol = false → q.isSymbol = false → f.blanks ≠ 0
  | .piece _, .indent _ _ => f.blanks = 0
  | .indent _ _, .piece _ => f.blanks = 0
  | .indent _ _, .indent _ _ => False

/-
  Whether a word takes the symbol right after it for a character
  of its own: some symbols continue words, although they start
  none.
-/
def Absorbs
    (e f : Entry) :
    Prop :=
  ∃ w s,
    e.mark = .piece (.word w) ∧
    f.mark = .piece (.symbol s) ∧
    f.blanks = 0 ∧
    Lexeme.continuesWord s.char = true

end Entry

/- The characters of entries in a row. -/
def Entry.row
    (entries : List Entry) :
    List Char :=
  entries.flatMap chars

/- The tokens that entries stand for. -/
def Entry.tokens
    (entries : List Entry) :
    List Token :=
  entries.map fun e => e.mark.token

/- Entries that may follow each other, with no blanks at the start. -/
structure Passage where
  entries : List Entry
  opening : ∀ e ∈ entries.head?, e.blanks = 0
  spaced : entries.IsChain Entry.MayFollow

/- The text of a passage. -/
def Passage.text
    (passage : Passage) :
    String :=
  String.ofList (Entry.row passage.entries)

end Offside

------------------------------------------------------------
-- Reading the First Mark
------------------------------------------------------------

namespace Offside.Piece

variable {text : List Char}

/- No piece stands for the end of the text. -/
theorem kind_token_ne
    (p : Piece) :
    p.token.kind ≠ .endOfText := by
  cases p with
  | word w => exact (Kind.ofWord_ne w.text).1
  | number l => simp [token, Token.number]
  | symbol s => simp [token, Token.operator]

/- What is left after a piece that does not go on. -/
theorem rest_scan
    (p : Piece)
    (hStop : ∀ c ∈ text.head?, p.continuedBy c = false)
    (lineStart : Bool) :
    (Lexeme.scan lineStart (p.chars ++ text)).rest = text := by
  cases p with
  | word w => rw [chars, scan_word w hStop]
  | number l => rw [chars, scan_number l hStop]
  | symbol s =>
      change (Lexeme.scan lineStart (s.char :: text)).rest = text
      rw [scan_symbol]

/- A word that is read as it stands does not go on. -/
theorem continuesWord_of_content
    {w : Word}
    {lineStart : Bool}
    (hContent :
      (Lexeme.scan lineStart (w.chars ++ text)).content =
        .ok ((word w).token.kind, (word w).token.value)) :
    ∀ c ∈ text.head?, Lexeme.continuesWord c = false := by
  intro c hHead
  rw [scan_word_append] at hContent
  simp only [Lexeme.content, token, Except.ok.injEq, Prod.mk.injEq,
    Value.text.injEq, Word.text] at hContent
  have hChars := String.ofList_injective hContent.2
  have hTake : text.takeWhile Lexeme.continuesWord = [] :=
    List.append_right_eq_self.mp hChars
  rw [Bool.eq_false_iff]
  intro hContinues
  rcases List.head?_eq_some_iff.mp hHead with ⟨cs, hText⟩
  rw [hText, List.takeWhile_cons_of_pos hContinues] at hTake
  cases hTake

end Offside.Piece

namespace Offside.Reading

variable {lineStart : Bool}
variable {text : List Char}
variable {ts : List Token}

/- The first token of a reading is that of the first lexeme. -/
theorem first
    {t : Token}
    (hReading : Reading lineStart text (t :: ts))
    (hKind : t.kind ≠ .endOfText) :
    (Lexeme.scan lineStart text).content = .ok (t.kind, t.value) ∧
      Reading false (Lexeme.scan lineStart text).rest ts := by
  cases hReading with
  | finish hShape => exact absurd rfl hKind
  | cons hContent _ hRest => exact ⟨hContent, hRest⟩

/-
  A piece is read as its token if and only if nothing after it
  continues it.  Of a number this is known beforehand: other
  digits could have the same value.
-/
theorem piece_iff
    (p : Piece)
    (hNumber :
      ∀ l, p = .number l →
        ∀ c ∈ text.head?, Lexeme.isNumeral c = false) :
    Reading lineStart (p.chars ++ text) (p.token :: ts) ↔
      (∀ c ∈ text.head?, p.continuedBy c = false) ∧
        Reading false text ts := by
  constructor
  · intro hReading
    rcases hReading.first p.kind_token_ne with ⟨hContent, hRest⟩
    have hStop : ∀ c ∈ text.head?, p.continuedBy c = false := by
      cases p with
      | word w => exact Piece.continuesWord_of_content hContent
      | number l => exact hNumber l rfl
      | symbol s => exact fun _ _ => rfl
    rw [p.rest_scan hStop] at hRest
    exact ⟨hStop, hRest⟩
  · rintro ⟨hStop, hRest⟩
    exact piece p hStop hRest lineStart

/- What is passed over does not matter. -/
theorem skipped_iff
    {b c : Bool}
    {text' : List Char}
    {d : Char}
    (hSkip :
      Gap.skip false c 0 text' =
        (Gap.skip false b 0 text).cons d) :
    Reading c text' ts ↔ Reading b text ts := by
  constructor
  · intro hReading
    apply hReading.congr
    all_goals rw [scan_cons hSkip]
  · intro hReading
    exact hReading.skipped hSkip

theorem lineFeed_iff :
    Reading lineStart ('\n' :: text) ts ↔ Reading true text ts := by
  have hBlank : Text.isBlank '\n' = true := by decide
  apply skipped_iff (d := '\n')
  simp [Gap.skip, hBlank]

theorem blanks_iff
    {n : Nat}
    (hInside : lineStart = true → n = 0) :
    Reading lineStart (List.replicate n ' ' ++ text) ts ↔
      Reading lineStart text ts := by
  have hBlank : Text.isBlank ' ' = true := by decide
  cases lineStart with
  | true => rw [hInside rfl, List.replicate_zero, List.nil_append]
  | false =>
      clear hInside
      induction n with
      | zero => rfl
      | succ n ih =>
          refine Iff.trans ?_ ih
          apply skipped_iff (d := ' ')
          simp [Gap.skip, hBlank, List.replicate_succ]

/- An indented line, which may be empty. -/
theorem indented_iff
    {width : Nat}
    (hWidth : width ≠ 0)
    (hBlank : ∀ c ∈ text.head?, Text.isBlank c = false) :
    Reading true (List.replicate width ' ' ++ text)
        (Token.indentation width :: ts) ↔
      Reading false text ts := by
  have hScan := scan_indented hWidth hBlank
  constructor
  · intro hReading
    have hRest := (hReading.first (by simp [Token.indentation])).2
    rwa [hScan] at hRest
  · intro hReading
    refine .cons ?_ (by simp) ?_
    · rw [hScan]
      rfl
    · rwa [hScan]

end Offside.Reading

------------------------------------------------------------
-- Reading Passages
------------------------------------------------------------

namespace Offside.Entry

@[simp] theorem row_nil :
    row [] = [] :=
  rfl

@[simp] theorem row_cons
    (e : Entry)
    (entries : List Entry) :
    row (e :: entries) =
      List.replicate e.blanks ' ' ++ (e.mark.chars ++ row entries) := by
  simp [row, chars]

/- A symbol continues a word only. -/
theorem continuedBy_symbol
    (p : Piece)
    (s : Symbol) :
    p.continuedBy s.char = true ↔
      ∃ w, p = .word w ∧ Lexeme.continuesWord s.char = true := by
  cases p with
  | word w => simp [Piece.continuedBy]
  | number l => simp [Piece.continuedBy, s.notNumeral]
  | symbol t => simp [Piece.continuedBy]

/- Of pieces with nothing between them only words run into others. -/
theorem absorbs_iff_runsInto
    {p q : Piece}
    {n : Nat}
    (hFollows : MayFollow ⟨n, .piece p⟩ ⟨0, .piece q⟩) :
    Absorbs ⟨n, .piece p⟩ ⟨0, .piece q⟩ ↔ p.RunsInto q := by
  cases q with
  | symbol s =>
      have hRuns :
          p.RunsInto (.symbol s) ↔ p.continuedBy s.char = true := by
        simp [Piece.RunsInto, Piece.chars]
      rw [hRuns, continuedBy_symbol]
      simp [Absorbs]
  | word w =>
      cases p with
      | symbol s => simp [Absorbs, Piece.RunsInto, Piece.continuedBy]
      | _ => exact absurd rfl (hFollows rfl rfl)
  | number l =>
      cases p with
      | symbol s => simp [Absorbs, Piece.RunsInto, Piece.continuedBy]
      | _ => exact absurd rfl (hFollows rfl rfl)

/-
  A piece is continued by what follows it if and only if it
  absorbs it.
-/
theorem continuedBy_row
    {p : Piece}
    {n : Nat}
    {entries : List Entry}
    (hFollows :
      ∀ f ∈ entries.head?, MayFollow ⟨n, .piece p⟩ f) :
    (∀ c ∈ (row entries).head?, p.continuedBy c = false) ↔
      ∀ f ∈ entries.head?, ¬Absorbs ⟨n, .piece p⟩ f := by
  cases entries with
  | nil => simp
  | cons f entries =>
      have hFirst : MayFollow ⟨n, .piece p⟩ f := hFollows f rfl
      rcases f with ⟨blanks, mark⟩
      cases mark with
      | indent width hWidth =>
          have hNone : blanks = 0 := hFirst
          have hFeed := p.continuedBy_gap (.inr rfl)
          simp [hNone, Mark.chars, Absorbs, hFeed]
      | piece q =>
          by_cases hNone : blanks = 0
          · subst hNone
            rcases q.exists_chars_eq with ⟨c, cs, hChars, _⟩
            have hAbsorbs := absorbs_iff_runsInto hFirst
            simp [Mark.chars, hChars, hAbsorbs, Piece.RunsInto]
          · rcases Nat.exists_eq_succ_of_ne_zero hNone with
              ⟨k, hSome⟩
            have hBlank := p.continuedBy_gap (.inl rfl)
            simp [hSome, List.replicate_succ, Absorbs, hBlank]

/- No white space stands after an indentation. -/
theorem isBlank_row
    {width n : Nat}
    {hWidth : width ≠ 0}
    {entries : List Entry}
    (hFollows :
      ∀ f ∈ entries.head?, MayFollow ⟨n, .indent width hWidth⟩ f) :
    ∀ c ∈ (row entries).head?, Text.isBlank c = false := by
  cases entries with
  | nil => simp
  | cons f entries =>
      have hFirst : MayFollow ⟨n, .indent width hWidth⟩ f :=
        hFollows f rfl
      rcases f with ⟨blanks, mark⟩
      cases mark with
      | indent => exact hFirst.elim
      | piece q =>
          have hNone : blanks = 0 := hFirst
          rcases q.exists_chars_eq with ⟨c, cs, hChars, hBlank⟩
          simp [hNone, Mark.chars, hChars, hBlank]

/- Numbers are kept apart from each other. -/
theorem isNumeral_row
    {l : Literal}
    {n : Nat}
    {entries : List Entry}
    (hFollows :
      ∀ f ∈ entries.head?, MayFollow ⟨n, .piece (.number l)⟩ f) :
    ∀ c ∈ (row entries).head?, Lexeme.isNumeral c = false := by
  refine (continuedBy_row hFollows).mpr ?_
  rintro f _ ⟨w, s, hWord, _⟩
  cases hWord

/-
  Entries are read one by one as long as no word absorbs what
  follows it.  The induction is on the entries; the first one may
  have blanks before it where no line starts.
-/
theorem reading_row_iff
    {entries : List Entry}
    (hSpaced : entries.IsChain MayFollow)
    {lineStart : Bool}
    (hOpening :
      lineStart = true → ∀ e ∈ entries.head?, e.blanks = 0) :
    Reading lineStart (row entries)
        (tokens entries ++ [Token.finish]) ↔
      entries.IsChain fun e f => ¬e.Absorbs f := by
  induction entries generalizing lineStart with
  | nil => exact iff_of_true (.finish rfl) .nil
  | cons e entries ih =>
      rcases List.isChain_cons.mp hSpaced with ⟨hFollows, hMore⟩
      have hRest :
          Reading false (row entries)
              (tokens entries ++ [Token.finish]) ↔
            entries.IsChain fun e f => ¬e.Absorbs f :=
        ih hMore (by simp)
      have hInside : lineStart = true → e.blanks = 0 :=
        fun hStart => hOpening hStart e rfl
      rw [row_cons, List.isChain_cons, ← hRest]
      refine (Reading.blanks_iff hInside).trans ?_
      rcases e with ⟨n, mark⟩
      cases mark with
      | piece p =>
          rw [← continuedBy_row hFollows]
          refine Reading.piece_iff p ?_
          rintro l rfl
          exact isNumeral_row hFollows
      | indent width hWidth =>
          have hNone :
              ∀ f ∈ entries.head?,
                ¬Absorbs ⟨n, .indent width hWidth⟩ f := by
            rintro f _ ⟨w, s, hWord, _⟩
            cases hWord
          rw [and_iff_right hNone]
          refine Reading.lineFeed_iff.trans ?_
          exact Reading.indented_iff hWidth (isBlank_row hFollows)

end Offside.Entry

namespace Offside.Scanner

/-
  A passage is read as its marks, with the end of the text after
  them, if and only if no word in it absorbs the symbol after it.
-/
theorem lexText_passage_iff
    {s : Scanner}
    (hBuffer : s.input.direct = false)
    (passage : Passage) :
    (∃ located,
      s.lexText passage.text = .ok located ∧
      located.map Token.unlocated =
        Entry.tokens passage.entries ++ [Token.finish]) ↔
    passage.entries.IsChain fun e f => ¬e.Absorbs f := by
  rw [exists_lexText_eq_ok_iff hBuffer, Passage.text,
    String.toList_ofList]
  apply Entry.reading_row_iff passage.spaced
  intro _
  exact passage.opening

end Offside.Scanner

namespace Offside.Passage

theorem half_plain :
    Text.isBlank '½' = false ∧ Lexeme.startsWord '½' = false ∧
      Lexeme.isNumeral '½' = false ∧ '½' ≠ '#' := by
  decide

/- A number that is no digit. -/
def half : Symbol :=
  ⟨'½', half_plain.1, half_plain.2.1, half_plain.2.2.1,
    half_plain.2.2.2⟩

theorem name_starts :
    Lexeme.startsWord 'x' = true := by
  decide

theorem name_continues :
    ([] : List Char).all Lexeme.continuesWord = true :=
  List.all_nil

/- A name. -/
def name : Word :=
  ⟨'x', [], name_starts, name_continues⟩

theorem keyword_starts :
    Lexeme.startsWord 'f' = true := by
  decide

theorem keyword_continues :
    ['n'].all Lexeme.continuesWord = true := by
  decide

/- A keyword. -/
def keyword : Word :=
  ⟨'f', ['n'], keyword_starts, keyword_continues⟩

theorem literal_digit :
    ([] : List (Fin 10)) ++ (some [Fin.last 9]).getD [] ≠ [] := by
  simp

/- A decimal literal without digits before its dot. -/
def literal : Literal :=
  ⟨[], some [Fin.last 9], literal_digit⟩

/- A keyword, a name and a symbol, and two indented lines. -/
def sampleEntries : List Entry :=
  [⟨0, .piece (.word keyword)⟩, ⟨2, .piece (.word name)⟩,
    ⟨1, .piece (.symbol half)⟩, ⟨0, .indent 2 (Nat.succ_ne_zero 1)⟩,
    ⟨0, .piece (.number literal)⟩, ⟨0, .piece (.symbol half)⟩,
    ⟨0, .piece (.word name)⟩, ⟨0, .indent 1 (Nat.succ_ne_zero 0)⟩]

theorem sampleEntries_spaced :
    sampleEntries.IsChain Entry.MayFollow := by
  simp [sampleEntries, Entry.MayFollow, Piece.isSymbol]

theorem sampleEntries_opening :
    ∀ e ∈ sampleEntries.head?, e.blanks = 0 := by
  simp [sampleEntries]

def sample : Passage :=
  ⟨sampleEntries, sampleEntries_opening, sampleEntries_spaced⟩

/- A name with the number right after it. -/
def runTogetherEntries : List Entry :=
  [⟨0, .piece (.word name)⟩, ⟨0, .piece (.symbol half)⟩]

theorem runTogetherEntries_spaced :
    runTogetherEntries.IsChain Entry.MayFollow := by
  simp [runTogetherEntries, Entry.MayFollow, Piece.isSymbol]

theorem runTogetherEntries_opening :
    ∀ e ∈ runTogetherEntries.head?, e.blanks = 0 := by
  simp [runTogetherEntries]

def runTogether : Passage :=
  ⟨runTogetherEntries, runTogetherEntries_opening,
    runTogetherEntries_spaced⟩

end Offside.Passage

namespace Offside.Scanner

/- Where a blank or a number stands before it, the symbol is read. -/
theorem lexText_passage_iff_sample :
    Passage.sample.text = "fn  x ½\n  .9½x\n " ∧
    ∃ located,
      (ofInput Input.empty).lexText "fn  x ½\n  .9½x\n " =
        .ok located ∧
      located.map Token.unlocated =
        Entry.tokens Passage.sampleEntries ++ [Token.finish] := by
  have hText : Passage.sample.text = "fn  x ½\n  .9½x\n " := by
    decide +kernel
  have hApart :
      Passage.sample.entries.IsChain fun e f => ¬e.Absorbs f := by
    simp [Passage.sample, Passage.sampleEntries, Entry.Absorbs]
  refine ⟨hText, ?_⟩
  rw [← hText]
  exact
    (lexText_passage_iff (s := ofInput Input.empty) rfl
      Passage.sample).mpr hApart

/-
  A number right after a name is taken for a character of the
  name, so the two marks are not read back.
-/
theorem lexText_half_absorbed :
    Passage.runTogether.text = "x½" ∧
    (ofInput Input.empty).lexText "x½" =
      .ok [⟨.identifier, .text "x½", ⟨0, 3⟩⟩,
        ⟨.endOfText, .text "", ⟨0, 4⟩⟩] ∧
    ¬∃ located,
      (ofInput Input.empty).lexText Passage.runTogether.text =
        .ok located ∧
      located.map Token.unlocated =
        Entry.tokens Passage.runTogether.entries ++
          [Token.finish] := by
  have hText : Passage.runTogether.text = "x½" := by
    decide +kernel
  have hLex :
      (ofInput Input.empty).lexText "x½" =
        .ok [⟨.identifier, .text "x½", ⟨0, 3⟩⟩,
          ⟨.endOfText, .text "", ⟨0, 4⟩⟩] := by
    decide +kernel
  refine ⟨hText, hLex, ?_⟩
  rintro ⟨located, hOther, hTokens⟩
  rw [hText, hLex] at hOther
  cases hOther
  have hLength := congrArg List.length hTokens
  revert hLength
  decide

end Offside.Scanner
