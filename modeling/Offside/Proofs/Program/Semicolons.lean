import Mathlib
import Offside.Proofs.Parser.Junction
import Offside.Proofs.Program.Failures
import Offside.Proofs.Token.Trailing

/-
  Trailing semicolons of a program: when they make no difference,
  and when they end an item too early.

  Key definitions include:
    * `Offside.SemicolonsEndItems`

  Main statements:
    * `Offside.Grammar.turn_of_stripped`,
      `Offside.Grammar.run_items_ne_of_past`: an item that stops at
      the first trailing semicolon is the same without it, one that
      passes it is not.
    * `Offside.Parser.parse_stripped_iff`: a text is parsed as it is
      without its trailing semicolons if and only if those before
      indentations stand between items.
-/

------------------------------------------------------------
-- Items and Their Tokens
------------------------------------------------------------

namespace Offside.Grammar

open Token (tallyAll solid stripped IsText)

variable {table : Precedence}

/- What is left when an item has been parsed. -/
theorem item_derives
    {s t : ParseState}
    {node : Node}
    (hRun : run ((Form.ofKind s.current.kind).production table) s =
      .ok node t) :
    ∃ φ, s.tokens = Role.tokens φ ++ t.tokens ∧
      Derives table (.item node) φ := by
  have hYields : ∀ c n, Parse.Yields
      (fun node φ _ => Derives table (.item node) φ) c
      ((Form.ofKind c.kind).production table n) := by
    intro c n
    have hItem := item_yields table n c
    rcases c with ⟨kind, value, location⟩
    cases kind <;> exact hItem
  exact hYields _ _ s node t rfl hRun

/- The items of a text have the tally of its tokens. -/
theorem plain_tally_items
    (hLoose : table.of (.text ";") < 0)
    {ts : List Token}
    (hText : IsText table ts)
    {level : Amount}
    {nodes : List Node}
    {s : ParseState}
    (hRun : run (items table) (.before level ts) = .ok nodes s) :
    (tallyAll ts).plain = (Node.tallyAll nodes).plain := by
  rcases hText.ends with ⟨us, e, rfl, hEnd, hInner⟩
  rcases items_derives hInner hRun with ⟨φ, rfl, hDerives⟩
  have hTally := hDerives.tally_eq hLoose fun t hMem =>
    hText.regular t (List.mem_append_left [e] hMem)
  have hLast : e.tally = 1 := by simp [Token.tally, hEnd]
  simpa [Construct.view, Construct.tally, hLast] using hTally

/-
  No item is parsed both past a trailing semicolon and, without
  it, past the indentation there, if the items after it are the
  same.  Otherwise the second one would have taken a semicolon more
  than the first, at its end, where no item has one.
-/
theorem not_past_both
    (hLoose : table.of (.text ";") < 0)
    {front more : List Token}
    {t u : Token}
    (hSemicolon : t.isOperator ";" = true)
    (hIndent : u.kind = .indent)
    (hRegular : ∀ v ∈ front ++ t :: u :: more, v.Regular table)
    {node : Node}
    {φ ψ : List Role}
    (hFirst : Derives table (.item node) φ)
    (hSecond : Derives table (.item node) ψ)
    {left right : List Token}
    (hTokens : front ++ t :: u :: more = Role.tokens φ ++ left)
    (hTokens' : front ++ u :: stripped more = Role.tokens ψ ++ right)
    (hLong : front.length ≤ (Role.tokens φ).length)
    (hLonger : front.length < (Role.tokens ψ).length)
    (hRest : (tallyAll left).plain = (tallyAll right).plain) :
    False := by
  have hThere : u.isSolid = true := by simp [Token.isSolid, hIndent]
  have hSolid : solid (front ++ t :: u :: more) =
      solid (front ++ u :: stripped more) := by
    rw [Token.solid_append, Token.solid_append,
      Token.solid_cons_of_not_isSolid
        (Token.isSolid_of_isOperator hSemicolon),
      Token.solid_cons_of_isSolid hThere,
      Token.solid_cons_of_isSolid hThere, Token.solid_stripped]
  -- the same solid tokens are left after both, so both have the same
  have hSame : solid (Role.tokens φ) = solid (Role.tokens ψ) := by
    rw [hTokens, hTokens', Token.solid_append, Token.solid_append]
      at hSolid
    have hLeft : solid left = solid right :=
      Token.solid_eq_of_suffix (hSolid ▸ List.suffix_append _ _)
        (List.suffix_append _ _) hRest
    rw [hLeft] at hSolid
    exact List.append_cancel_right hSolid
  have hCounts : (tallyAll (Role.tokens φ)).semicolons =
      (tallyAll (Role.tokens ψ)).semicolons := by
    have hTally : tallyAll (Role.tokens φ) = node.tally := by
      refine hFirst.tally_eq hLoose fun v hMem => hRegular v ?_
      rw [hTokens]
      exact List.mem_append_left _ hMem
    have hTally' : tallyAll (Role.tokens ψ) = node.tally := by
      refine hSecond.tally_eq hLoose fun v hMem => hRegular v ?_
      have hMem' : v ∈ front ++ u :: stripped more := by
        rw [hTokens']
        exact List.mem_append_left _ hMem
      have hKept : (front ++ u :: stripped more).Sublist
          (front ++ t :: u :: more) :=
        (((Token.stripped_sublist more).cons_cons u).cons t).append_left
          front
      exact hKept.subset hMem'
    rw [hTally, hTally']
  have hSealed := hSecond.isSealed hLoose (by simp)
  rcases List.prefix_of_prefix_length_le (List.prefix_append front _)
      (hTokens ▸ List.prefix_append _ left) hLong with ⟨xs, hXs⟩
  rcases List.prefix_of_prefix_length_le (List.prefix_append front _)
      (hTokens' ▸ List.prefix_append _ right) hLonger.le with ⟨ys, hYs⟩
  rw [← hXs, List.append_assoc, List.append_cancel_left_eq] at hTokens
  rw [← hYs, List.append_assoc, List.append_cancel_left_eq] at hTokens'
  rw [← hXs, ← hYs, Token.solid_append, Token.solid_append,
    List.append_cancel_left_eq] at hSame
  simp only [← hXs, ← hYs, Token.tallyAll_append, Tally.semicolons_mul,
    Nat.add_left_cancel_iff] at hCounts
  rw [← hYs] at hSealed hLonger
  refine Token.not_sealed_of_counts hSemicolon hThere hTokens hTokens'
    ?_ hSame hCounts hSealed.of_append
  rintro rfl
  simp at hLonger

end Offside.Grammar

------------------------------------------------------------
-- Semicolons Between Items
------------------------------------------------------------

namespace Offside

open Token (stripped IsText)

variable {table : Precedence}

/-
  Every semicolon before an indentation ends an item: without the
  trailing semicolons the parser comes to that indentation between
  two items.
-/
def SemicolonsEndItems
    (table : Precedence)
    (level : Amount)
    (ts : List Token) :
    Prop :=
  ∀ front t u more, ts = front ++ t :: u :: more →
    t.isOperator ";" = true → u.kind = .indent →
      ∃ s, ComesTo table (.before level (stripped ts)) s ∧
        s.tokens = stripped (u :: more)

theorem ParseState.length_tokens
    (s : ParseState) :
    s.tokens.length = s.rest.length + 1 :=
  rfl

theorem ParseState.length_before
    {level : Amount}
    {ts : List Token}
    (hSome : ts ≠ []) :
    (before level ts).rest.length + 1 = ts.length := by
  rw [← length_tokens, tokens_before hSome]

namespace SemicolonsEndItems

/- A semicolon in front is skipped. -/
theorem cons_iff
    {t : Token}
    {ts : List Token}
    (hTrails : t.trails ts = true)
    {level : Amount} :
    SemicolonsEndItems table level (t :: ts) ↔
      SemicolonsEndItems table level ts := by
  have hSame := Token.stripped_cons_of_trails hTrails
  unfold SemicolonsEndItems
  rw [hSame]
  constructor
  · intro hEnds front v u more hSplit
    exact hEnds (t :: front) v u more (by rw [hSplit, List.cons_append])
  · intro hEnds front v u more hSplit hSemicolon hIndent
    cases front with
    | nil =>
        rw [List.nil_append, List.cons.injEq] at hSplit
        refine ⟨_, .refl, ?_⟩
        rw [hSplit.2]
        apply ParseState.tokens_before
        rw [Token.stripped_cons_of_ne]
        · exact List.cons_ne_nil _ _
        · simp [Token.isOperator, hIndent]
    | cons w front =>
        rw [List.cons_append, List.cons.injEq] at hSplit
        exact hEnds front v u more hSplit.2 hSemicolon hIndent

/- After a turn the semicolons that are left are to end items. -/
theorem iff_of_turn
    {level level' : Amount}
    {front ts : List Token}
    {nodes : List Node}
    (hTurn : Turn table (.before level (stripped (front ++ ts))) nodes
      (.before level' (stripped ts)))
    (hSome : stripped ts ≠ [])
    (hLater : ∀ front' t us, front ++ ts = front' ++ t :: us →
      t.trails us = true → front <+: front') :
    SemicolonsEndItems table level (front ++ ts) ↔
      SemicolonsEndItems table level' ts := by
  constructor
  · intro hEnds front' t u more hSplit hSemicolon hIndent
    rcases hEnds (front ++ front') t u more
        (by rw [hSplit, List.append_assoc]) hSemicolon hIndent with
      ⟨s, hComes, hTokens⟩
    refine ⟨s, hComes.after_turn ?_ hTurn, hTokens⟩
    -- the state is not before the one after the turn
    refine lt_of_le_of_lt ?_ hTurn.length_lt
    rcases Token.stripped_append (front' ++ [t]) (u :: more) with
      ⟨kept, hKept, _⟩
    have hStripped : stripped ts = kept ++ s.tokens := by
      rw [hTokens, ← hKept, hSplit, List.append_assoc]
      rfl
    have hBefore : (ParseState.before level' (stripped ts)).rest.length +
        1 = (stripped ts).length :=
      ParseState.length_before hSome
    rw [hStripped, List.length_append, s.length_tokens] at hBefore
    rw [hStripped]
    omega
  · intro hEnds front' t u more hSplit hSemicolon hIndent
    have hTrails : t.trails (u :: more) = true :=
      Token.trails_eq_true_iff.mpr
        ⟨hSemicolon, u, more, rfl, .inl hIndent⟩
    rcases hLater front' t (u :: more) hSplit hTrails with ⟨late, rfl⟩
    rw [List.append_assoc, List.append_cancel_left_eq] at hSplit
    rcases hEnds late t u more hSplit hSemicolon hIndent with
      ⟨s, hComes, hTokens⟩
    exact ⟨s, .of_turn hTurn hComes, hTokens⟩

end SemicolonsEndItems

end Offside

------------------------------------------------------------
-- Items With and Without Trailing Semicolons
------------------------------------------------------------

namespace Offside.Grammar

open Token (tallyAll stripped IsText)

variable {table : Precedence}

/-
  A trailing semicolon with what follows it, and the same place
  when the trailing semicolons are stripped.
-/
def junction
    (hLoose : table.of (.text ";") < 0)
    {t u : Token}
    (hSemicolon : t.isOperator ";" = true)
    (hEnds : u.kind = .indent ∨ u.kind = .endOfText)
    (hRegular : u.Regular table)
    (more : List Token) :
    Junction table where
  semicolon := t
  next := u
  after := more
  after' := stripped more
  isSemicolon := hSemicolon
  ends := hEnds
  loose := by
    simp only [Token.isOperator, Bool.and_eq_true, decide_eq_true_eq]
      at hSemicolon
    rw [hSemicolon.2]
    exact hLoose
  looseNext := by
    by_contra hBinds
    have hKind := hRegular.binds (not_lt.mp hBinds)
    rcases hEnds with hIndent | hEnd
    · rw [hIndent] at hKind
      cases hKind
    · rw [hEnd] at hKind
      cases hKind

/- Without the semicolons the same allowance suffices. -/
theorem run_production_stripped
    (table : Precedence)
    (form : Form)
    (c t u : Token)
    (front more : List Token)
    (level : Amount) :
    run (form.production table) ⟨c, front ++ u :: stripped more, level⟩ =
      form.production table (allowance (front ++ t :: u :: more).length)
        ⟨c, front ++ u :: stripped more, level⟩ := by
  apply Form.run_production
  apply allowance_mono
  have hFewer := (Token.stripped_sublist more).length_le
  simp only [List.length_append, List.length_cons]
  omega

/-
  A turn that does not pass the place of the first trailing
  semicolon is the same when the semicolon stands there.
-/
theorem turn_of_stripped
    (hLoose : table.of (.text ";") < 0)
    {front more : List Token}
    {t u : Token}
    (hFront : front ≠ [])
    (hSemicolon : t.isOperator ";" = true)
    (hEnds : u.kind = .indent ∨ u.kind = .endOfText)
    (hRegular : u.Regular table)
    {level : Amount}
    {nodes : List Node}
    {s : ParseState}
    (hTurn : Turn table (.before level (front ++ u :: stripped more))
      nodes s)
    (hLeft : (stripped more).length ≤ s.rest.length) :
    ∃ late level',
      late <:+ front ∧
      s = .before level' (late ++ u :: stripped more) ∧
      Turn table (.before level (front ++ t :: u :: more)) nodes
        (.before level' (late ++ t :: u :: more)) := by
  rcases List.exists_cons_of_ne_nil hFront with ⟨c, front, rfl⟩
  cases hTurn with
  | semicolon hFirst hTake =>
      have hState : s = .before level (front ++ u :: stripped more) := by
        rw [List.cons_append, ParseState.before_cons,
          Parse.advance_before _ _ (by simp)] at hTake
        cases hTake
        rfl
      refine ⟨front, level, List.suffix_cons c front, hState, ?_⟩
      refine .semicolon hFirst ?_
      rw [List.cons_append, ParseState.before_cons,
        Parse.advance_before _ _ (by simp)]
  | item hInner hOther hRun =>
      rw [List.cons_append, ParseState.before_cons,
        run_production_stripped table _ c t u front more level] at hRun
      rcases (keeps_item (junction hLoose hSemicolon hEnds hRegular more)
          _ _).exists_left (s := ⟨c, front, level⟩) hRun hLeft with
        ⟨late, level', hLate, hState, hRun'⟩
      exact ⟨late, level', hLate, hState, .item hInner hOther hRun'⟩

/-
  An item that ends before a trailing semicolon ends there when the
  semicolon is left out, too.
-/
theorem length_lt_of_item
    (hLoose : table.of (.text ";") < 0)
    {c t u : Token}
    {front more : List Token}
    (hSemicolon : t.isOperator ";" = true)
    (hEnds : u.kind = .indent ∨ u.kind = .endOfText)
    (hRegular : u.Regular table)
    {level : Amount}
    {node node' : Node}
    {s s' : ParseState}
    (hRun : run ((Form.ofKind c.kind).production table)
      ⟨c, front ++ t :: u :: more, level⟩ = .ok node s)
    (hRun' : run ((Form.ofKind c.kind).production table)
      ⟨c, front ++ u :: stripped more, level⟩ = .ok node' s')
    (hBefore : (t :: u :: more).length ≤ s.rest.length) :
    (stripped more).length < s'.rest.length := by
  have hKeeps := keeps_item
    (junction hLoose hSemicolon hEnds hRegular more)
    (allowance (front ++ t :: u :: more).length) c.kind
  rcases hKeeps.frontal.isLocal.ok_of_followed
      (s := ⟨c, front, level⟩) hRun hBefore with
    ⟨v, _, hSame⟩
  have hAlike := hSame (u :: stripped more)
  rw [ParseState.followedBy] at hAlike
  rw [run_production_stripped table _ c t u front more level, hAlike]
    at hRun'
  injection hRun' with _ hState
  rw [← hState, ParseState.followedBy, List.length_append,
    List.length_cons]
  omega

/-
  An item that passes the place of a trailing semicolon is not
  parsed when the semicolon stands there: other nodes come out, or
  none.
-/
theorem run_items_ne_of_past
    (hLoose : table.of (.text ";") < 0)
    {front more : List Token}
    {t u : Token}
    (hFront : front ≠ [])
    (hSemicolon : t.isOperator ";" = true)
    (hIndent : u.kind = .indent)
    (hText : IsText table (front ++ t :: u :: more))
    (hText' : IsText table (front ++ u :: stripped more))
    {level : Amount}
    {nodes others : List Node}
    {s s' : ParseState}
    (hTurn : Turn table (.before level (front ++ u :: stripped more))
      nodes s)
    (hPast : s.rest.length < (stripped more).length)
    (hRest : run (items table) s = .ok others s')
    (r : ParseState) :
    run (items table) (.before level (front ++ t :: u :: more)) ≠
      .ok (nodes ++ others) r := by
  intro hRun
  rcases List.exists_cons_of_ne_nil hFront with ⟨c, front, rfl⟩
  have hLength : (front ++ u :: stripped more).length =
      front.length + ((stripped more).length + 1) := by
    simp
  cases hTurn with
  | semicolon _ hTake =>
      -- a semicolon of the item itself is not beyond the place
      rw [List.cons_append, ParseState.before_cons,
        Parse.advance_before _ _ (by simp)] at hTake
      injection hTake with _ hState
      rw [← hState] at hPast
      have hBefore : (ParseState.before level
          (front ++ u :: stripped more)).rest.length + 1 = _ :=
        ParseState.length_before (by simp)
      omega
  | @item node _ hInner hOther hItem =>
      rcases (run_items_eq_ok_iff table _ _ _).mp hRun with
        ⟨hEnd, _⟩ | ⟨first, s₁, others', hTurn', hRest', hNodes⟩
      · exact absurd hEnd hInner
      cases hTurn' with
      | semicolon hFirst _ => exact absurd (hFirst.symm.trans hOther) nofun
      | item _ _ hItem' =>
          rw [List.singleton_append, List.singleton_append,
            List.cons.injEq] at hNodes
          rcases hNodes with ⟨rfl, rfl⟩
          rcases item_derives hItem' with ⟨φ, hTokens, hDerives⟩
          rcases item_derives hItem with ⟨ψ, hTokens', hDerives'⟩
          rw [ParseState.tokens_before (by simp)] at hTokens hTokens'
          have hLeft : IsText table s₁.tokens :=
            (hTokens ▸ hText).of_append (List.cons_ne_nil _ _)
          have hLeft' : IsText table s.tokens :=
            (hTokens' ▸ hText').of_append (List.cons_ne_nil _ _)
          have hTally : (tallyAll s₁.tokens).plain =
              (tallyAll s.tokens).plain := by
            rw [plain_tally_items hLoose hLeft hRest',
              plain_tally_items hLoose hLeft' hRest]
          refine not_past_both hLoose hSemicolon hIndent hText.regular
            hDerives hDerives' hTokens hTokens' ?_ ?_ hTally
          · -- an item that ends before the semicolon passes nothing
            by_contra hShort
            have hCount := congrArg List.length hTokens
            rw [List.length_append, List.length_append, s₁.length_tokens]
              at hCount
            have hBefore : (t :: u :: more).length ≤ s₁.rest.length := by
              omega
            exact absurd hPast (length_lt_of_item hLoose hSemicolon
              (.inl hIndent) (hText.regular u (by simp)) hItem' hItem
              hBefore).asymm
          · have hCount := congrArg List.length hTokens'
            rw [List.cons_append, List.length_cons, hLength,
              List.length_append, s.length_tokens] at hCount
            simp only [List.length_cons]
            omega

/- Nor does the semicolon end an item then. -/
theorem not_semicolonsEndItems_of_past
    {front more : List Token}
    {t u : Token}
    (hFront : front ≠ [])
    (hSemicolon : t.isOperator ";" = true)
    (hIndent : u.kind = .indent)
    (hStripped : stripped (front ++ t :: u :: more) =
      front ++ u :: stripped more)
    {level : Amount}
    {nodes : List Node}
    {s : ParseState}
    (hTurn : Turn table (.before level (front ++ u :: stripped more))
      nodes s)
    (hPast : s.rest.length < (stripped more).length) :
    ¬SemicolonsEndItems table level (front ++ t :: u :: more) := by
  intro hEnds
  rcases hEnds front t u more rfl hSemicolon hIndent with
    ⟨r, hComes, hTokens⟩
  rw [hStripped] at hComes
  rw [Token.stripped_cons_of_ne (by simp [Token.isOperator, hIndent])]
    at hTokens
  have hRest : r.rest = stripped more := (List.cons.inj hTokens).2
  have hLater : r.rest.length <
      (ParseState.before level
        (front ++ u :: stripped more)).rest.length := by
    have hBefore : (ParseState.before level
        (front ++ u :: stripped more)).rest.length + 1 = _ :=
      ParseState.length_before (by simp)
    have hSome := List.length_pos_of_ne_nil hFront
    rw [List.length_append, List.length_cons] at hBefore
    rw [hRest]
    omega
  have hLength := (hComes.after_turn hLater hTurn).length_le
  rw [hRest] at hLength
  omega

/-
  The trailing semicolons of a text make no difference to its
  items if and only if those before indentations end items.  The
  induction is on the tokens that are left: up to the first such
  semicolon both runs take the same turns, and the next turn either
  stops there in both or passes it.
-/
theorem run_items_stripped_iff
    (hLoose : table.of (.text ";") < 0)
    {ts : List Token}
    (hText : IsText table ts)
    {level : Amount}
    {nodes : List Node}
    {s' : ParseState}
    (hRun : run (items table) (.before level (stripped ts)) =
      .ok nodes s') :
    (∃ s, run (items table) (.before level ts) = .ok nodes s) ↔
      SemicolonsEndItems table level ts := by
  induction hLength : ts.length using Nat.strong_induction_on
    generalizing ts level nodes with
  | _ n ih =>
  rcases Token.stripped_cases ts with
    ⟨hSame, hNone⟩ | ⟨front, t, us, rfl, hTrails, hLater, hLeast⟩
  · rw [hSame] at hRun
    refine iff_of_true ⟨s', hRun⟩ ?_
    intro front t u more hSplit hSemicolon hIndent
    have hOther := hNone front t (u :: more) hSplit
    rw [Token.trails_eq_true_iff.mpr
      ⟨hSemicolon, u, more, rfl, .inl hIndent⟩] at hOther
    cases hOther
  rcases Token.trails_eq_true_iff.mp hTrails with
    ⟨hSemicolon, u, more, rfl, hEnds⟩
  have hNext : stripped (u :: more) = u :: stripped more := by
    apply Token.stripped_cons_of_ne
    rcases hEnds with hKind | hKind <;> simp [Token.isOperator, hKind]
  rw [hNext] at hLater
  by_cases hFront : front = []
  · -- the semicolon is skipped, and nothing is stripped for it
    subst hFront
    rw [List.nil_append] at hText hRun hLength ⊢
    rw [Token.stripped_cons_of_trails hTrails] at hRun
    have hTurn : Turn table (.before level (t :: u :: more)) []
        (.before level (u :: more)) :=
      .semicolon hSemicolon rfl
    have hShorter : (u :: more).length < n := by
      rw [← hLength]
      exact Nat.lt_succ_self _
    have hLeft : IsText table (u :: more) :=
      (show IsText table ([t] ++ u :: more) from hText).of_append
        (List.cons_ne_nil _ _)
    rw [SemicolonsEndItems.cons_iff hTrails,
      ← ih _ hShorter hLeft hRun rfl]
    exact exists_run_items_iff hTurn nodes
  have hStripped := hLater front List.suffix_rfl
  have hText' : IsText table (front ++ u :: stripped more) :=
    hStripped ▸ hText.stripped
  rw [hStripped] at hRun
  rcases (run_items_eq_ok_iff table _ _ _).mp hRun with
    ⟨hEnd, _⟩ | ⟨first, s, others, hTurn, hRest, rfl⟩
  · -- something comes after the first token
    rcases List.exists_cons_of_ne_nil hFront with ⟨c, front, rfl⟩
    have hNone : front ++ u :: stripped more = [] :=
      (show IsText table ([] ++ c :: (front ++ u :: stripped more)) from
        hText').eq_nil_of_endOfText hEnd
    simp at hNone
  by_cases hPast : (stripped more).length ≤ s.rest.length
  · rcases turn_of_stripped hLoose hFront hSemicolon hEnds
        (hText.regular u (by simp)) hTurn hPast with
      ⟨late, level', ⟨taken, rfl⟩, rfl, hTurn'⟩
    have hLate := hLater late (List.suffix_append taken late)
    have hShorter : (late ++ t :: u :: more).length < n := by
      have hTaken := hTurn'.length_lt
      have hBefore : (ParseState.before level
          (taken ++ late ++ t :: u :: more)).rest.length + 1 = _ :=
        ParseState.length_before (by simp)
      have hAfter : (ParseState.before level'
          (late ++ t :: u :: more)).rest.length + 1 = _ :=
        ParseState.length_before (by simp)
      omega
    rw [← hLate] at hRest hTurn
    rw [← hStripped] at hTurn
    rw [List.append_assoc] at hText hTurn hTurn' hLeast ⊢
    have hEndsIff := SemicolonsEndItems.iff_of_turn hTurn
      (by simp [hLate]) fun front' t' us' hSplit hThere =>
        (List.prefix_append taken late).trans
          (hLeast front' t' us' hSplit hThere)
    rw [hEndsIff, ← ih _ hShorter (hText.of_append (by simp)) hRest rfl]
    exact exists_run_items_iff hTurn' others
  · have hIndent : u.kind = .indent := by
      rcases hEnds with hIndent | hEnd
      · exact hIndent
      · have hNone := hText'.eq_nil_of_endOfText hEnd
        simp [hNone] at hPast
    rw [not_le] at hPast
    refine iff_of_false ?_ (not_semicolonsEndItems_of_past hFront
      hSemicolon hIndent hStripped hTurn hPast)
    rintro ⟨r, hRun'⟩
    exact run_items_ne_of_past hLoose hFront hSemicolon hIndent hText
      hText' hTurn hPast hRest r hRun'

end Offside.Grammar

------------------------------------------------------------
-- Programs
------------------------------------------------------------

namespace Offside

open Token (stripped)

/- The tokens that a text is read as make up a text. -/
theorem Scanner.isText_of_lexText
    {s : Scanner}
    (hBuffer : s.input.direct = false)
    {text : String}
    {tokens : List Token}
    (hLex : s.lexText text = .ok tokens) :
    Token.IsText Precedence.default tokens := by
  rcases exists_of_lexText hBuffer hLex with
    ⟨ts, e, rfl, hFinish, hTokens⟩
  have hKind : e.kind = .endOfText := congrArg Token.kind hFinish
  have hValue : e.value = .text "" := congrArg Token.value hFinish
  have hEnd : e.Regular Precedence.default :=
    { amount := fun a hAmount => by
        rw [hValue] at hAmount
        cases hAmount
      binds := fun hBinds => by
        rw [hValue] at hBinds
        cases hBinds }
  refine ⟨fun t hMem => ?_, ts, e, rfl, hKind, fun t hMem =>
    (hTokens t hMem).1.kind⟩
  rcases List.mem_append.mp hMem with hMem | hMem
  · refine ⟨fun a hValue => (hTokens t hMem).2.mpr ⟨a, hValue⟩, ?_⟩
    intro hBinds
    by_contra hOther
    rw [(hTokens t hMem).1.loose hOther] at hBinds
    cases hBinds
  · rw [List.mem_singleton.mp hMem]
    exact hEnd

namespace Parser

/- A program is parsed if its items are. -/
theorem exists_parse_ok_iff
    (p : Parser)
    (name : String)
    {ts : List Token}
    (hSome : ts ≠ [])
    (hBegun : ∀ t ∈ ts, t.kind ≠ .unset)
    (tree : Node) :
    (∃ q, p.parse (TokenList.ofTokens ts) name = (.ok tree, q)) ↔
      ∃ nodes s,
        Grammar.run (Grammar.items p.table) (.before (.whole 0) ts) =
          .ok nodes s ∧
        tree = .program name nodes := by
  have hEnough : Grammar.allowance
      (ParseState.before (.whole 0) ts).rest.length ≤
        Grammar.allowance ts.length := by
    apply Grammar.allowance_mono
    rw [← ParseState.length_before hSome]
    exact Nat.le_succ _
  rw [Grammar.run_items p.table hEnough]
  constructor
  · rintro ⟨q, hParse⟩
    rcases (parse_eq_ok_iff p name hSome hBegun le_rfl tree q).mp hParse
      with ⟨nodes, s, hRun, hTree, _⟩
    exact ⟨nodes, s, hRun, hTree⟩
  · rintro ⟨nodes, s, hRun, hTree⟩
    exact ⟨_, (parse_eq_ok_iff p name hSome hBegun le_rfl tree _).mpr
      ⟨nodes, s, hRun, hTree, rfl⟩⟩

/-
  Let a text be parsed without its trailing semicolons.  With them
  it is parsed to the same tree if and only if every semicolon
  before an indentation stands between two items, so that the
  parser comes to that indentation when an item is complete.
  Semicolons before the end of the text never matter.
-/
theorem parse_stripped_iff
    (s : Scanner)
    (hBuffer : s.input.direct = false)
    (text : String)
    (tokens : List Token)
    (hLex : s.lexText text = .ok tokens)
    (p p' : Parser)
    (hTable : p.table = Precedence.default)
    (name : String)
    (tree : Node)
    (hParse : p.parse (TokenList.ofTokens (stripped tokens)) name =
      (.ok tree, p')) :
    (∃ q, p.parse (TokenList.ofTokens tokens) name = (.ok tree, q)) ↔
      ∀ front t u more, tokens = front ++ t :: u :: more →
        t.isOperator ";" = true → u.kind = .indent →
          ∃ r,
            ComesTo p.table (.before (.whole 0) (stripped tokens)) r ∧
            r.tokens = stripped (u :: more) := by
  have hText := Scanner.isText_of_lexText hBuffer hLex
  have hBegun := Scanner.begun_of_lexText hBuffer hLex
  have hBegun' : ∀ t ∈ stripped tokens, t.kind ≠ .unset :=
    fun t hMem => hBegun t ((Token.stripped_sublist tokens).subset hMem)
  rcases (exists_parse_ok_iff p name hText.stripped.ne_nil hBegun'
    tree).mp ⟨p', hParse⟩ with ⟨nodes, s', hRun, rfl⟩
  rw [exists_parse_ok_iff p name hText.ne_nil hBegun]
  rw [hTable] at hRun ⊢
  rw [← SemicolonsEndItems, ← Grammar.run_items_stripped_iff (by decide)
    hText hRun]
  simp

/-
  The tokens of a function of two lines, with a semicolon after the
  first.
-/
def brokenTokens :
    List Token :=
  [⟨.kwFunction, .text "fn", ⟨0, 3⟩⟩,
    ⟨.identifier, .text "f", ⟨0, 5⟩⟩,
    ⟨.operator, .text "(", ⟨0, 6⟩⟩,
    ⟨.identifier, .text "a", ⟨0, 7⟩⟩,
    ⟨.operator, .text ")", ⟨0, 8⟩⟩,
    ⟨.operator, .text ":", ⟨1, 0⟩⟩,
    ⟨.indent, .amount (.whole 2), ⟨1, 3⟩⟩,
    ⟨.identifier, .text "a", ⟨1, 4⟩⟩,
    ⟨.operator, .text ";", ⟨2, 0⟩⟩,
    ⟨.indent, .amount (.whole 2), ⟨2, 3⟩⟩,
    ⟨.identifier, .text "b", ⟨2, 4⟩⟩,
    ⟨.endOfText, .text "", ⟨2, 5⟩⟩]

/- The program with the lines of the function and what follows it. -/
def brokenTree
    (lines : List Node)
    (others : List Node) :
    Node :=
  .program "main"
    (.function
      (.prototype (.text "f") Node.floatType
        [.reference (.text "a") Node.floatType ⟨0, 7⟩] 0)
      (.block (.reference (.text "a") Node.floatType ⟨1, 4⟩ :: lines)) ::
      others)

/- The second line is part of the function only without the semicolon. -/
theorem parse_stripped_iff_broken :
    (Scanner.ofInput Input.empty).lexText "fn f(a):\n  a;\n  b" =
      .ok brokenTokens ∧
    (new.parse (TokenList.ofTokens (stripped brokenTokens)) "main").1 =
      .ok (brokenTree [.reference (.text "b") Node.floatType ⟨2, 4⟩] []) ∧
    (new.parse (TokenList.ofTokens brokenTokens) "main").1 =
      .ok (brokenTree []
        [.block [.reference (.text "b") Node.floatType ⟨2, 4⟩]]) ∧
    ¬SemicolonsEndItems Precedence.default (.whole 0) brokenTokens := by
  have hLex : (Scanner.ofInput Input.empty).lexText
      "fn f(a):\n  a;\n  b" = .ok brokenTokens := by
    decide +kernel
  have hWithout :
      (new.parse (TokenList.ofTokens (stripped brokenTokens)) "main").1 =
        .ok (brokenTree
          [.reference (.text "b") Node.floatType ⟨2, 4⟩] []) := by
    rfl
  have hWith : (new.parse (TokenList.ofTokens brokenTokens) "main").1 =
      .ok (brokenTree []
        [.block [.reference (.text "b") Node.floatType ⟨2, 4⟩]]) := by
    rfl
  refine ⟨hLex, hWithout, hWith, fun hEnds => ?_⟩
  rcases (parse_stripped_iff (Scanner.ofInput Input.empty) rfl _ _ hLex new
      _ rfl "main" _ (Prod.ext hWithout rfl)).mpr hEnds with ⟨q, hSame⟩
  rw [hSame] at hWith
  simp [brokenTree] at hWith

end Parser

end Offside
