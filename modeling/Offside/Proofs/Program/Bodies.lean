import Mathlib
import Offside.Proofs.Parser.Framing
import Offside.Proofs.Program.Failures

/-
  Bodies: which functions and branches of an accepted program have
  no line of their own.

  Main statements:
    * `Offside.Parser.parse_framed`: a program that is parsed has a
      framing that leads from the level zero to the last level.
    * `Offside.Parser.parse_filled_iff`: every function body and
      every first block of a branch has a line if and only if each
      of them is opened deeper than the level that is left of the
      blocks before it.
-/

------------------------------------------------------------
-- Programs and Their Framings
------------------------------------------------------------

namespace Offside.Parser

/- A program has a framing of its tokens up to the end. -/
theorem parse_framed
    (p : Parser)
    (name : String)
    {ts : List Token}
    {e : Token}
    (hInner : ∀ t ∈ ts, t.kind ≠ .endOfText)
    (hBegun : ∀ t ∈ ts ++ [e], t.kind ≠ .unset)
    {tree : Node}
    {p' : Parser}
    (hParse : p.parse (TokenList.ofTokens (ts ++ [e])) name =
      (.ok tree, p')) :
    ∃ nodes ω,
      tree = .program name nodes ∧
      Edge.tokens ω = ts ∧
      Framed nodes ω ∧
      Edge.Leads (.whole 0) ω p'.level := by
  rcases (parse_eq_ok_iff p name (by simp) hBegun le_rfl tree p').mp hParse
    with ⟨nodes, s, hRun, hTree, rfl⟩
  rcases Grammar.items_framed hInner hRun with
    ⟨ω, hTokens, hFramed, hLeads⟩
  exact ⟨nodes, ω, hTree, hTokens, hFramed, hLeads⟩

/-
  A program that is parsed from a text has a framing of its tokens,
  along which the level goes from zero to the one that is left in
  the end.  All function bodies and all first blocks of branches
  have a line if and only if each is opened deeper than the level
  that the tokens before it lead to.
-/
theorem parse_filled_iff
    (s : Scanner)
    (hBuffer : s.input.direct = false)
    (text : String)
    (tokens : List Token)
    (hLex : s.lexText text = .ok tokens)
    (p p' : Parser)
    (name : String)
    (tree : Node)
    (hParse : p.parse (TokenList.ofTokens tokens) name =
      (.ok tree, p')) :
    ∃ ts e nodes ω,
      tokens = ts ++ [e] ∧
      e.kind = .endOfText ∧
      tree = .program name nodes ∧
      Edge.tokens ω = ts ∧
      Framed nodes ω ∧
      Edge.Leads (.whole 0) ω p'.level ∧
      ((∀ node ∈ tree.preorder, node.IsFilled) ↔
        Edge.Descends (.whole 0) ω) := by
  have hBegun := Scanner.begun_of_lexText hBuffer hLex
  rcases Scanner.exists_of_lexText hBuffer hLex with
    ⟨ts, e, rfl, hFinish, hTokens⟩
  rcases parse_framed p name (fun t hMem => (hTokens t hMem).1.kind)
      hBegun hParse with ⟨nodes, ω, rfl, hSame, hFramed, hLeads⟩
  refine ⟨ts, e, nodes, ω, rfl, congrArg Token.kind hFinish, rfl, hSame,
    hFramed, hLeads, ?_⟩
  rw [← hLeads.allFilled_iff, ← hFramed.allFilled_iff]
  -- The root of a program is no definition.
  have hRoot := Node.allFilled_cons (.program name nodes) []
  simpa [Node.AllFilled, Node.IsFilled, Node.children] using hRoot

/- A function whose body is three levels deep, and another one. -/
def sunkenText : String := "fn f(a):\n      a\nfn g(b):\n  b\n"

/- The tokens of that text. -/
def sunkenTokens : List Token :=
  [⟨.kwFunction, .text "fn", ⟨0, 3⟩⟩,
    ⟨.identifier, .text "f", ⟨0, 5⟩⟩,
    ⟨.operator, .text "(", ⟨0, 6⟩⟩,
    ⟨.identifier, .text "a", ⟨0, 7⟩⟩,
    ⟨.operator, .text ")", ⟨0, 8⟩⟩,
    ⟨.operator, .text ":", ⟨1, 0⟩⟩,
    ⟨.indent, .amount (.whole 6), ⟨1, 7⟩⟩,
    ⟨.identifier, .text "a", ⟨2, 0⟩⟩,
    ⟨.kwFunction, .text "fn", ⟨2, 3⟩⟩,
    ⟨.identifier, .text "g", ⟨2, 5⟩⟩,
    ⟨.operator, .text "(", ⟨2, 6⟩⟩,
    ⟨.identifier, .text "b", ⟨2, 7⟩⟩,
    ⟨.operator, .text ")", ⟨2, 8⟩⟩,
    ⟨.operator, .text ":", ⟨3, 0⟩⟩,
    ⟨.indent, .amount (.whole 2), ⟨3, 3⟩⟩,
    ⟨.identifier, .text "b", ⟨4, 0⟩⟩,
    ⟨.endOfText, .text "", ⟨4, 1⟩⟩]

/- The tree that they are parsed to, where `g` has no line. -/
def sunkenTree : Node :=
  .program "main"
    [.function
      (.prototype (.text "f") Node.floatType
        [.reference (.text "a") Node.floatType ⟨0, 7⟩] 0)
      (.block [.reference (.text "a") Node.floatType ⟨2, 0⟩]),
    .function
      (.prototype (.text "g") Node.floatType
        [.reference (.text "b") Node.floatType ⟨2, 7⟩] 2)
      (.block []),
    .reference (.text "b") Node.floatType ⟨4, 0⟩]

theorem parse_filled_iff_sunken :
    (Scanner.ofInput Input.empty).lexText sunkenText = .ok sunkenTokens ∧
    (new.parse (TokenList.ofTokens sunkenTokens) "main").1 =
      .ok sunkenTree ∧
    (¬∀ node ∈ sunkenTree.preorder, node.IsFilled) ∧
    ∃ ts e nodes ω,
      sunkenTokens = ts ++ [e] ∧
      sunkenTree = .program "main" nodes ∧
      Edge.tokens ω = ts ∧
      Framed nodes ω ∧
      ¬Edge.Descends (.whole 0) ω := by
  have hLex : (Scanner.ofInput Input.empty).lexText sunkenText =
      .ok sunkenTokens := by
    decide +kernel
  have hParse : (new.parse (TokenList.ofTokens sunkenTokens) "main").1 =
      .ok sunkenTree := by
    rfl
  have hEmpty : ¬∀ node ∈ sunkenTree.preorder, node.IsFilled := by
    intro hAll
    simp [sunkenTree, Node.preorder, Node.preorderAll, Node.IsFilled]
      at hAll
  rcases parse_filled_iff (Scanner.ofInput Input.empty) rfl _ _ hLex new
      _ "main" _ (Prod.ext hParse rfl) with
    ⟨ts, e, nodes, ω, hTokens, _, hTree, hSame, hFramed, _, hFilled⟩
  exact ⟨hLex, hParse, hEmpty, ts, e, nodes, ω, hTokens, hTree, hSame,
    hFramed, fun hDescends => hEmpty (hFilled.mpr hDescends)⟩

end Offside.Parser
