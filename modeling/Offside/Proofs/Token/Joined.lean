import Mathlib
import Offside.Proofs.Token.Reading

/-
  Joined texts: what a lexer reads of two texts with a line feed
  between them.

  Key definitions include:
    * `Offside.Text.breaks`
    * `Offside.Token.lower`
    * `Offside.Lexer.Lower`
    * `Offside.Lexer.Tracks`
    * `Offside.Closed`

  Main statements:
    * `Offside.Closed.tokens`: a lexer reads the tokens of the
      first text, and then, lower down, what it reads of the
      second text alone.
    * `Offside.Closed.reading`, `Offside.Reading.split`: readings
      of a text and of the line before it make a reading of both,
      and come from one.
    * `Offside.Scanner.lexText_joined`: two texts in the buffer,
      one below the other.
-/

------------------------------------------------------------
-- Lower Down
------------------------------------------------------------

namespace Offside

/- How many line breaks a text has. -/
def Text.breaks
    (text : List Char) :
    Nat :=
  text.countP fun c => c = '\n' || c = '\r'

/- The location so many lines lower down. -/
def Location.lower
    (n : Nat)
    (location : Location) :
    Location :=
  { location with line := location.line + n }

/- The token so many lines lower down. -/
def Token.lower
    (n : Nat)
    (t : Token) :
    Token :=
  { t with location := t.location.lower n }

theorem Location.after_lower
    (location : Location)
    (n : Nat)
    (c : Option Char) :
    (location.lower n).after c = (location.after c).lower n := by
  unfold after
  by_cases hBreak : c = some '\n' ∨ c = some '\r'
  · rw [if_pos hBreak, if_pos hBreak]
    simp only [lower, mk.injEq, and_true]
    omega
  · rw [if_neg hBreak, if_neg hBreak]
    rfl

namespace Lexer

/- Reading in two goes. -/
theorem advanceBy_add
    (l : Lexer)
    (j k : Nat) :
    l.advanceBy (j + k) = (l.advanceBy j).advanceBy k := by
  induction j generalizing l with
  | zero => rw [Nat.zero_add, advanceBy]
  | succ j ih => rw [Nat.succ_add, advanceBy, advanceBy, ih]

/-
  That a lexer has read what another one has, so many lines
  lower down.
-/
structure Lower
    (n : Nat)
    (l' l : Lexer) :
    Prop where
  location : l'.location = l.location.lower n
  ahead : l'.ahead = l.ahead
  unread : l'.unread = l.unread

namespace Lower

variable {n : Nat}
variable {l' l : Lexer}

theorem view
    (hLower : Lower n l' l) :
    l'.view = l.view := by
  rw [Lexer.view, Lexer.view, hLower.ahead, hLower.unread]

theorem advance
    (hLower : Lower n l' l) :
    Lower n l'.advance l.advance := by
  constructor
  · simp only [Lexer.advance, hLower.location, hLower.unread,
      Location.after_lower]
  · simp only [Lexer.advance, hLower.unread]
  · simp only [Lexer.advance, hLower.unread]

theorem advanceBy
    (hLower : Lower n l' l)
    (k : Nat) :
    Lower n (l'.advanceBy k) (l.advanceBy k) := by
  induction k generalizing l' l with
  | zero => exact hLower
  | succ k ih => exact ih hLower.advance

/- Both are primed in the same way. -/
theorem prime
    (hLower : Lower n l' l)
    (hStart : l'.lineStart = l.lineStart) :
    Lower n l'.prime l.prime ∧
      l'.prime.lineStart = l.prime.lineStart := by
  unfold Lexer.prime
  rw [hLower.ahead]
  split_ifs
  · have hNext := hLower.advance
    exact ⟨⟨hNext.location, hNext.ahead, hNext.unread⟩, rfl⟩
  · exact ⟨hLower, hStart⟩

end Lower

/- The lexeme that a lexer reads next. -/
def lexeme
    (l : Lexer) :
    Lexeme :=
  Lexeme.scan l.prime.lineStart l.prime.view

theorem next_eq_lexeme
    (l : Lexer) :
    l.next.1 =
      l.lexeme.content.map fun (kind, value) =>
        ⟨kind, value, l.next.2.location⟩ :=
  rfl

/-
  That the next token is the same, so many lines lower down, and
  so is the lexer after it.
-/
structure NextLower
    (n : Nat)
    (l' l : Lexer) :
    Prop where
  token : l'.next.1 = l.next.1.map (Token.lower n)
  lexer : Lower n l'.next.2 l.next.2

/-
  One lexer may have to read on for a while until it is before
  the lexeme of the other.
-/
theorem Lower.next_of_lexeme
    {n k : Nat}
    {l' l : Lexer}
    (hLower : Lower n (l'.prime.advanceBy k) l.prime)
    (hContent : l'.lexeme.content = l.lexeme.content)
    (hWidth : l'.lexeme.width = k + l.lexeme.width) :
    NextLower n l' l := by
  have hAfter := hLower.advanceBy l.lexeme.width
  rw [← advanceBy_add, ← hWidth] at hAfter
  have hLexer : Lower n l'.next.2 l.next.2 :=
    ⟨hAfter.location, hAfter.ahead, hAfter.unread⟩
  refine ⟨?_, hLexer⟩
  rw [next_eq_lexeme, next_eq_lexeme, hContent, hLexer.location]
  cases l.lexeme.content <;> rfl

/- A lexer that is lower down reads the same, lower down. -/
theorem Lower.next
    {n : Nat}
    {l' l : Lexer}
    (hLower : Lower n l' l)
    (hStart : l'.lineStart = l.lineStart) :
    NextLower n l' l := by
  rcases hLower.prime hStart with ⟨hPrime, hSame⟩
  have hLexeme : l'.lexeme = l.lexeme := by
    unfold lexeme
    rw [hSame, hPrime.view]
  apply Lower.next_of_lexeme (k := 0) hPrime
  · rw [hLexeme]
  · rw [hLexeme, Nat.zero_add]

/- From the next token on, all tokens are so many lines lower down. -/
theorem NextLower.tokens
    {n : Nat}
    {l' l : Lexer}
    (hNext : NextLower n l' l) :
    l'.tokens.1 = l.tokens.1.map (List.map (Token.lower n)) := by
  -- Each token but the last one leaves less of the text.
  induction hLength : l.view.length using Nat.strong_induction_on
    generalizing l' l with
  | _ length ih =>
      have hToken' := hNext.token
      cases hToken : l.next.1 with
      | error e =>
          rw [hToken] at hToken'
          rw [tokens_eq l', hToken', tokens_eq l, hToken]
          rfl
      | ok t =>
          rw [hToken] at hToken'
          by_cases hKind : t.kind = .endOfText
          · rw [tokens_eq l', hToken', tokens_eq l, hToken]
            simp only [Except.map, Token.lower, hKind, if_true,
              List.map_cons, List.map_nil]
          · have hLess := view_next_lt hToken hKind
            have hMore := ih _ (hLength ▸ hLess)
              (hNext.lexer.next rfl) rfl
            rw [tokens_of_next hToken' hKind,
              tokens_of_next hToken hKind, hMore]
            cases l.next.2.tokens.1 <;> rfl

end Lexer

end Offside

------------------------------------------------------------
-- Counting Lines
------------------------------------------------------------

namespace Offside.Lexer

/-
  That the line of a lexer and the line breaks that it has not
  read yet make up a number, and that its column is counted from
  the last line feed.
-/
structure Tracks
    (n : Nat)
    (l : Lexer) :
    Prop where
  lines : l.location.line + Text.breaks l.unread = n
  column : l.ahead = some '\n' → l.location.column = 0

theorem tracks_start
    (text : List Char) :
    (start text).Tracks (Text.breaks text) where
  lines := Nat.zero_add _
  column := by simp [start]

namespace Tracks

variable {n : Nat}
variable {l : Lexer}

/- Reading a character moves a line break from one count to the other. -/
theorem advance
    (hTracks : l.Tracks n) :
    l.advance.Tracks n := by
  have hLines := hTracks.lines
  constructor
  · cases hUnread : l.unread with
    | nil =>
        rw [hUnread] at hLines
        simpa [Lexer.advance, hUnread, Location.after] using hLines
    | cons c text =>
        rw [hUnread, Text.breaks, List.countP_cons] at hLines
        by_cases hBreak : c = '\n' ∨ c = '\r'
        · simp [Lexer.advance, hUnread, Location.after, hBreak]
            at hLines ⊢
          rw [Text.breaks]
          omega
        · simp [Lexer.advance, hUnread, Location.after, hBreak]
            at hLines ⊢
          exact hLines
  · intro hAhead
    have hHead : l.unread.head? = some '\n' := hAhead
    simp [Lexer.advance, hHead, Location.after]

theorem advanceBy
    (hTracks : l.Tracks n)
    (k : Nat) :
    (l.advanceBy k).Tracks n := by
  induction k generalizing l with
  | zero => exact hTracks
  | succ k ih => exact ih hTracks.advance

theorem prime
    (hTracks : l.Tracks n) :
    l.prime.Tracks n := by
  unfold Lexer.prime
  split_ifs
  · exact ⟨hTracks.advance.lines, hTracks.advance.column⟩
  · exact hTracks

theorem next
    (hTracks : l.Tracks n) :
    l.next.2.Tracks n := by
  have hAfter := hTracks.prime.advanceBy
    (Lexeme.scan l.prime.lineStart l.prime.view).width
  exact ⟨hAfter.lines, hAfter.column⟩

end Tracks

/-
  A lexer that reads the line feed after a text is, lower down,
  where a new lexer on the rest is after its first reading.
-/
theorem lower_advanceBy
    {l : Lexer}
    {a b : List Char}
    (hView : l.prime.view = a ++ '\n' :: b)
    {n : Nat}
    (hTracks : l.Tracks (n + Text.breaks b)) :
    Lower n (l.prime.advanceBy (a.length + 1)) (start b).prime := by
  have hDrop := view_advanceBy (l := l.prime) unread_prime_eq_nil
    a.length
  have hNil := unread_advanceBy_eq_nil a.length
    (unread_prime_eq_nil (l := l))
  have hTracks := hTracks.prime.advanceBy a.length
  rw [hView, List.drop_left] at hDrop
  rw [advanceBy_add]
  generalize l.prime.advanceBy a.length = m at hDrop hNil hTracks
  -- The line feed is at hand, since something is left of the text.
  obtain ⟨hAhead, hUnread⟩ : m.ahead = some '\n' ∧ m.unread = b := by
    cases hAhead : m.ahead with
    | none =>
        rw [view, hAhead, hNil hAhead] at hDrop
        cases hDrop
    | some c =>
        rw [view, hAhead] at hDrop
        simpa using hDrop
  have hLines := hTracks.lines
  have hColumn := hTracks.column hAhead
  rw [hUnread, Nat.add_right_cancel_iff] at hLines
  have hLocation : m.location = Location.origin.lower n := by
    rcases hPlace : m.location with ⟨line, column⟩
    rw [hPlace] at hLines hColumn
    simp only at hLines hColumn
    simp only [hLines, hColumn, Location.lower, Location.origin,
      Nat.zero_add]
  constructor
  · change m.location.after m.unread.head? = _
    rw [hLocation, hUnread, Location.after_lower]
    rfl
  · change m.unread.head? = _
    rw [hUnread]
    rfl
  · change m.unread.tail = _
    rw [hUnread]
    rfl

end Offside.Lexer

------------------------------------------------------------
-- Closed Texts
------------------------------------------------------------

namespace Offside

/-
  That a text is read as these tokens up to its end, and that no
  indentation is the last thing in it.
-/
inductive Closed :
    Bool →
    List Char →
    List Token →
    Prop where
  | finish
      {lineStart : Bool}
      {text : List Char}
      (hShape : (Lexeme.scan lineStart text).shape = .finish) :
      Closed lineStart text []
  | cons
      {lineStart : Bool}
      {text : List Char}
      {kind : Kind}
      {value : Value}
      {ts : List Token}
      (hContent :
        (Lexeme.scan lineStart text).content = .ok (kind, value))
      (hKind : kind ≠ .endOfText)
      (hOpen :
        (Lexeme.scan lineStart text).rest = [] →
          ∀ width, (Lexeme.scan lineStart text).shape ≠ .indent width)
      (hRest : Closed false (Lexeme.scan lineStart text).rest ts) :
      Closed lineStart text ({ kind := kind, value := value } :: ts)

namespace Closed

variable {lineStart : Bool}
variable {a b : List Char}
variable {ts us : List Token}

/- A closed text and the line after it. -/
theorem reading
    (hClosed : Closed lineStart a ts)
    (hReading : Reading true b us) :
    Reading lineStart (a ++ '\n' :: b) (ts ++ us) := by
  induction hClosed with
  | finish hShape =>
      have hScan := Lexeme.scan_line_of_finish hShape b
      apply hReading.congr
      all_goals rw [hScan]
  | cons hContent hKind hOpen _ ih =>
      have hScan := Lexeme.scan_line
        (Lexeme.shape_ne_finish hContent hKind) hOpen b
      refine .cons ?_ hKind ?_
      · rw [hScan]
        exact hContent
      · rw [hScan]
        exact ih

/-
  A lexer before a closed text and the line after it reads the
  tokens of the text, and then what a new lexer reads of the
  line, lower down.
-/
theorem tokens
    (hClosed : Closed lineStart a ts)
    {l : Lexer}
    (hAt : l.At lineStart (a ++ '\n' :: b))
    {n : Nat}
    (hTracks : l.Tracks (n + Text.breaks b)) :
    ∃ located,
      located.map Token.unlocated = ts ∧
      l.tokens.1 =
        (Lexer.start b).tokens.1.map fun us =>
          located ++ us.map (Token.lower n) := by
  induction hClosed generalizing l with
  | @finish lineStart a hShape =>
      refine ⟨[], rfl, ?_⟩
      have hScan := Lexeme.scan_line_of_finish hShape b
      have hLexeme : l.lexeme = Lexeme.scan lineStart (a ++ '\n' :: b) := by
        rw [Lexer.lexeme, Lexer.view_prime, hAt.scan]
      have hNew : (Lexer.start b).lexeme = Lexeme.scan true b := by
        rw [Lexer.lexeme, Lexer.view_prime]
        rfl
      have hLower := Lexer.lower_advanceBy
        (by rw [Lexer.view_prime, hAt.view]) hTracks
      have hNext : Lexer.NextLower n l (Lexer.start b) := by
        apply hLower.next_of_lexeme
        · rw [hLexeme, hNew, hScan]
          rfl
        · rw [hLexeme, hNew, hScan]
          simp only [Lexeme.width, List.length_append,
            List.length_cons]
          omega
      exact hNext.tokens
  | @cons lineStart a kind value ts hContent hKind hOpen _ ih =>
      have hScan := Lexeme.scan_line
        (Lexeme.shape_ne_finish hContent hKind) hOpen b
      have hNext := hAt.next_eq
      have hRest := hAt.next
      rw [hScan] at hNext hRest
      change _ = Except.map _ (Lexeme.scan lineStart a).content at hNext
      rw [hContent] at hNext
      rcases ih hRest hTracks.next with ⟨located, hSame, hTokens⟩
      refine ⟨⟨kind, value, l.next.2.location⟩ :: located, ?_, ?_⟩
      · rw [List.map_cons, hSame]
        rfl
      · rw [Lexer.tokens_of_next hNext hKind, hTokens]
        cases (Lexer.start b).tokens.1 <;> rfl

end Closed

namespace Reading

variable {lineStart : Bool}
variable {a b : List Char}
variable {ts : List Token}

/- A reading ends at the end of the text. -/
theorem ne_nil
    (hReading : Reading lineStart a ts) :
    ts ≠ [] := by
  cases hReading <;> simp

/- A text whose last token is no indentation is closed. -/
theorem closed
    (hReading : Reading lineStart a ts)
    (hLast : ∀ t ∈ ts.dropLast.getLast?, t.kind ≠ .indent) :
    Closed lineStart a ts.dropLast := by
  induction hReading with
  | finish hShape => exact .finish hShape
  | @cons lineStart a kind value ts hContent hKind hRest ih =>
      rw [List.dropLast_cons_of_ne_nil hRest.ne_nil] at hLast ⊢
      refine .cons hContent hKind ?_ (ih ?_)
      · intro hNone width hShape
        -- The indentation would be the last token.
        rw [hNone] at hRest
        have hEnd := hRest.unique (.finish rfl)
        rw [hEnd] at hLast
        rw [Lexeme.content, hShape] at hContent
        cases hContent
        exact hLast _ rfl rfl
      · intro t hMem
        apply hLast t
        rw [List.getLast?_cons, Option.mem_def.mp hMem]
        rfl

/-
  A reading of a line and of the text after it comes from one of
  each, unless the line is an indentation and nothing else.
-/
theorem split
    (hLine : '\n' ∉ a)
    (hOpen :
      (Lexeme.scan lineStart a).rest = [] →
        ∀ width, (Lexeme.scan lineStart a).shape ≠ .indent width)
    (hReading : Reading lineStart (a ++ '\n' :: b) ts) :
    ∃ us vs,
      ts = us ++ vs ∧
      Closed lineStart a us ∧
      Reading true b vs := by
  generalize hText : a ++ '\n' :: b = text at hReading
  induction hReading generalizing a with
  | @finish lineStart text hShape =>
      subst hText
      by_cases hFinish : (Lexeme.scan lineStart a).shape = .finish
      · rw [Lexeme.scan_line_of_finish hFinish] at hShape
        exact ⟨[], [Token.finish], rfl, .finish hFinish, .finish hShape⟩
      · rw [Lexeme.scan_line hFinish hOpen] at hShape
        exact absurd hShape hFinish
  | @cons lineStart text kind value ts hContent hKind hRest ih =>
      subst hText
      by_cases hFinish : (Lexeme.scan lineStart a).shape = .finish
      · rw [Lexeme.scan_line_of_finish hFinish] at hContent hRest
        exact ⟨[], _, rfl, .finish hFinish,
          .cons hContent hKind hRest⟩
      · have hScan := Lexeme.scan_line hFinish hOpen b
        have hMore : '\n' ∉ (Lexeme.scan lineStart a).rest := by
          intro hMem
          apply hLine
          rw [← Lexeme.scan_append lineStart a]
          exact List.mem_append_right _ (List.mem_append_right _ hMem)
        rcases
            ih hMore
              (fun _ => Lexeme.shape_scan_ne_indent hMore)
              (by rw [hScan]) with
          ⟨us, vs, rfl, hClosed, hReading⟩
        rw [hScan] at hContent
        exact ⟨_ :: us, vs, rfl, .cons hContent hKind hOpen hClosed,
          hReading⟩

end Reading

end Offside

------------------------------------------------------------
-- Texts in the Buffer
------------------------------------------------------------

namespace Offside.Scanner

/-
  A text that does not end with an indentation, and a second one
  on the lines after it.  The second text is malformed where both
  are, and with the same number; if it is not, its tokens follow
  those of the first text, as many lines lower down as that text
  has lines, and in the columns they have by themselves.
-/
theorem lexText_joined
    (s : Scanner)
    (hBuffer : s.input.direct = false)
    (a b : String)
    (ts : List Token)
    (hFirst : s.lexText a = .ok ts)
    (hLast : ∀ t ∈ ts.dropLast.getLast?, t.kind ≠ .indent) :
    ∃ located,
      located.map Token.unlocated =
        ts.dropLast.map Token.unlocated ∧
      s.lexText (a ++ "\n" ++ b) =
        (s.lexText b).map fun us =>
          located ++
            us.map (Token.lower (1 + Text.breaks a.toList)) := by
  have hReading : Reading true a.toList (ts.map Token.unlocated) :=
    (exists_lexText_eq_ok_iff hBuffer a _).mp ⟨ts, hFirst, rfl⟩
  have hClosed : Closed true a.toList (ts.dropLast.map Token.unlocated) := by
    rw [List.map_dropLast]
    apply hReading.closed
    intro t hMem
    rw [← List.map_dropLast, List.getLast?_map, Option.mem_def] at hMem
    rcases Option.map_eq_some_iff.mp hMem with ⟨u, hLastToken, rfl⟩
    exact hLast u hLastToken
  have hText :
      (a ++ "\n" ++ b).toList = a.toList ++ '\n' :: b.toList := by
    simp
  have hTracks := Lexer.tracks_start (a.toList ++ '\n' :: b.toList)
  have hBreaks :
      Text.breaks (a.toList ++ '\n' :: b.toList) =
        1 + Text.breaks a.toList + Text.breaks b.toList := by
    simp only [Text.breaks, List.countP_append, List.countP_cons]
    simp
    omega
  rw [hBreaks] at hTracks
  rw [lexText_eq hBuffer, lexText_eq hBuffer, hText]
  exact hClosed.tokens (Lexer.at_reset (Lexer.start _)) hTracks

/- The tokens of a line that ends with a comment and a return. -/
def commentedTokens : List Token :=
  [⟨.identifier, .text "x", ⟨0, 2⟩⟩, ⟨.endOfText, .text "", ⟨1, 1⟩⟩]

/- An indented number on the line after it. -/
theorem lexText_joined_sample :
    (ofInput Input.empty).lexText "x # a\r" = .ok commentedTokens ∧
    (∀ t ∈ commentedTokens.dropLast.getLast?, t.kind ≠ .indent) ∧
    ∃ located,
      located.map Token.unlocated =
        commentedTokens.dropLast.map Token.unlocated ∧
      (ofInput Input.empty).lexText ("x # a\r" ++ "\n" ++ "\t2") =
        ((ofInput Input.empty).lexText "\t2").map fun us =>
          located ++
            us.map (Token.lower (1 + Text.breaks "x # a\r".toList)) := by
  have hFirst :
      (ofInput Input.empty).lexText "x # a\r" =
        .ok commentedTokens := by
    decide +kernel
  have hLast :
      ∀ t ∈ commentedTokens.dropLast.getLast?, t.kind ≠ .indent := by
    decide
  exact ⟨hFirst, hLast,
    lexText_joined (ofInput Input.empty) rfl "x # a\r" "\t2"
      commentedTokens hFirst hLast⟩

end Offside.Scanner
