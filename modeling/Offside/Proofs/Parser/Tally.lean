import Mathlib
import Offside.Proofs.Parser.Derivation

/-
  What a tree tells about the tokens it is derived from: how many
  of them are words and semicolons, and how many indentations and
  numbers come before the first word that splits what follows it.

  Key definitions include:
    * `Offside.Tally`
    * `Offside.Node.tally`
    * `Offside.Token.Sealed`

  Main statements:
    * `Offside.Derives.tally_eq`: the tally of the tokens is the
      tally of the tree.
    * `Offside.Derives.isSealed`: after a semicolon of an item
      there is more of it.
    * `Offside.Token.solid_eq_of_suffix`: a tally tells how many of
      some tokens are left.
-/

------------------------------------------------------------
-- Tallies
------------------------------------------------------------

namespace Offside

/-
  A count of words and semicolons, and of the indentations and
  numbers up to a word that splits.  Parts of a branch, a loop or
  a declaration can be missing, so that after such a word the
  indentations and numbers are not told by the tree.
-/
@[ext]
structure Tally where
  words : Nat
  amounts : Nat
  semicolons : Nat
  split : Bool
  deriving DecidableEq, Repr

namespace Tally

/- One after the other. -/
instance : Mul Tally :=
  ⟨fun a b =>
    { words := a.words + b.words
      amounts := if a.split then a.amounts else a.amounts + b.amounts
      semicolons := a.semicolons + b.semicolons
      split := a.split || b.split }⟩

instance : One Tally := ⟨⟨0, 0, 0, false⟩⟩

@[simp] theorem words_mul
    (a b : Tally) :
    (a * b).words = a.words + b.words :=
  rfl

theorem amounts_mul
    (a b : Tally) :
    (a * b).amounts =
      if a.split then a.amounts else a.amounts + b.amounts :=
  rfl

@[simp] theorem semicolons_mul
    (a b : Tally) :
    (a * b).semicolons = a.semicolons + b.semicolons :=
  rfl

@[simp] theorem split_mul
    (a b : Tally) :
    (a * b).split = (a.split || b.split) :=
  rfl

theorem one_eq :
    (1 : Tally) = ⟨0, 0, 0, false⟩ :=
  rfl

instance : Monoid Tally where
  mul_assoc a b c := by
    ext
    · exact Nat.add_assoc _ _ _
    · simp only [amounts_mul, split_mul]
      cases a.split <;> cases b.split <;> simp [Nat.add_assoc]
    · exact Nat.add_assoc _ _ _
    · exact Bool.or_assoc _ _ _
  one_mul a := by
    ext <;> simp [amounts_mul, one_eq]
  mul_one a := by
    ext <;> simp [amounts_mul, one_eq]

/- The tallies of single tokens. -/
def word : Tally := ⟨1, 0, 0, false⟩

def amount : Tally := ⟨0, 1, 0, false⟩

def splitting : Tally := ⟨1, 0, 0, true⟩

def sign
    (value : Value) :
    Tally :=
  ⟨0, 0, if value = .text ";" then 1 else 0, false⟩

@[simp] theorem sign_of_ne
    {value : Value}
    (hOther : value ≠ .text ";") :
    sign value = 1 := by
  simp [sign, hOther, one_eq]

/- The tally of what comes after a word that splits. -/
def hidden
    (a : Tally) :
    Tally :=
  ⟨a.words, 0, a.semicolons, true⟩

/- The tally without the semicolons. -/
def plain
    (a : Tally) :
    Tally :=
  { a with semicolons := 0 }

@[simp] theorem hidden_mul
    (a b : Tally) :
    (a * b).hidden = a.hidden * b.hidden :=
  rfl

@[simp] theorem hidden_amount :
    amount.hidden = hidden 1 :=
  rfl

@[simp] theorem hidden_one_mul
    (a : Tally) :
    hidden 1 * a.hidden = a.hidden := by
  ext <;> simp [hidden, amounts_mul, one_eq]

@[simp] theorem plain_mul
    (a b : Tally) :
    (a * b).plain = a.plain * b.plain :=
  rfl

@[simp] theorem plain_sign
    (value : Value) :
    (sign value).plain = 1 :=
  rfl

theorem splitting_mul
    (a : Tally) :
    splitting * a = splitting * a.hidden :=
  rfl

theorem splitting_mul_congr
    {a b : Tally}
    (hSame : a.hidden = b.hidden) :
    splitting * a = splitting * b := by
  rw [splitting_mul a, hSame, ← splitting_mul]

end Tally

end Offside

------------------------------------------------------------
-- Tallies of Tokens and Nodes
------------------------------------------------------------

namespace Offside

namespace Token

/- What one token adds. -/
def tally
    (t : Token) :
    Tally :=
  match t.kind with
  | .identifier => .word
  | .indent | .floatLiteral => .amount
  | .kwIf | .kwFor | .kwVar => .splitting
  | .operator => .sign t.value
  | _ => 1

/- What tokens add up to. -/
def tallyAll
    (ts : List Token) :
    Tally :=
  (ts.map tally).prod

@[simp] theorem tallyAll_nil :
    tallyAll [] = 1 :=
  rfl

@[simp] theorem tallyAll_cons
    (t : Token)
    (ts : List Token) :
    tallyAll (t :: ts) = t.tally * tallyAll ts := by
  simp [tallyAll]

@[simp] theorem tallyAll_append
    (ts us : List Token) :
    tallyAll (ts ++ us) = tallyAll ts * tallyAll us := by
  simp [tallyAll]

/-
  The tokens that a text is read as: an amount is an indentation
  or a number, and only operators bind.
-/
structure Regular
    (table : Precedence)
    (t : Token) :
    Prop where
  amount : ∀ a, t.value = .amount a →
    t.kind = .indent ∨ t.kind = .floatLiteral
  binds : 0 ≤ table.of t.value → t.kind = .operator

end Token

namespace Node

mutual

/- What the tokens of a node add up to. -/
def tally :
    Node →
    Tally
  | float _ => .amount
  | reference _ _ _ => .word
  | unary op operand => .sign op * tally operand
  | binary _ lhs rhs _ => tally lhs * tally rhs
  | call _ args _ => .word * tallyAll args
  | branch cond yes no _ =>
      .splitting * (tally cond * (tally yes * tally no))
  | loop _ first last step body =>
      .splitting * (.word *
        (tally first * (tally last * (tally step * tally body))))
  | declare names _ body => .splitting * (tallyNamed names * tally body)
  | prototype _ _ args _ => .word * tallyAll args
  | function proto body => tally proto * tally body
  | ret value => tally value
  | program _ nodes => tallyAll nodes
  | block [] => .amount
  | block (node :: nodes) => .amount * (tally node * tallyLines nodes)
  | absent | plain _ => 1

def tallyAll :
    List Node →
    Tally
  | [] => 1
  | node :: nodes => tally node * tallyAll nodes

/- Of lines that come after others. -/
def tallyLines :
    List Node →
    Tally
  | [] => 1
  | node :: nodes => .amount * (tally node * tallyLines nodes)

def tallyNamed :
    List (Value × Node) →
    Tally
  | [] => 1
  | (_, node) :: names => .word * (tally node * tallyNamed names)

end

end Node

namespace Construct

/- What the tokens of a construct add up to. -/
def tally :
    Construct →
    Tally
  | .node n | .suite n | .otherwise n | .step n | .initial n | .proto n
  | .item n => n.tally
  | .arguments nodes | .parameters nodes | .items nodes =>
      Node.tallyAll nodes
  | .lines [] => 1
  | .lines (n :: nodes) => n.tally * Node.tallyLines nodes
  | .names entries => Node.tallyNamed entries

/-
  How much of that is told by the tree: semicolons between items
  are not, nor are indentations and numbers where one may be
  missing.
-/
def view :
    Construct →
    Tally →
    Tally
  | .otherwise _ | .step _ | .initial _ | .names _ => Tally.hidden
  | .items _ => Tally.plain
  | _ => id

end Construct

theorem IsPassed.tally_eq
    {φ : List Role}
    (hPassed : IsPassed φ) :
    (Token.tallyAll (Role.tokens φ)).hidden = Tally.hidden 1 := by
  rcases hPassed with rfl | ⟨t, hKind, rfl⟩
  · rfl
  · simp [Token.tally, hKind]

/- The tally of the tokens is the tally of the tree. -/
theorem Derives.tally_eq
    {table : Precedence}
    (hLoose : table.of (.text ";") < 0)
    {construct : Construct}
    {φ : List Role}
    (hDerives : Derives table construct φ)
    (hRegular : ∀ t ∈ Role.tokens φ, t.Regular table) :
    construct.view (Token.tallyAll (Role.tokens φ)) =
      construct.view construct.tally := by
  induction hDerives
  case binary t lhs rhs φ ψ _ hBinds _ ihLhs ihRhs =>
    simp only [Role.tokens_append, Role.tokens_mark,
      List.forall_mem_append, List.forall_mem_cons] at hRegular
    have hSign : t.value ≠ .text ";" := by
      intro hValue
      rw [hValue] at hBinds
      omega
    have hOne : t.tally = 1 := by
      simp [Token.tally, hRegular.2.1.binds hBinds, hSign]
    have hLhs : Token.tallyAll (Role.tokens φ) = lhs.tally :=
      ihLhs hRegular.1
    have hRhs : Token.tallyAll (Role.tokens ψ) = rhs.tally :=
      ihRhs hRegular.2.2
    simp [Construct.view, Construct.tally, Node.tally, hOne, hLhs, hRhs]
  case suite t indent nodes φ hValue _ ih =>
    simp only [Role.tokens_opener, List.forall_mem_cons] at hRegular
    have hAmount : t.tally = .amount := by
      rcases hRegular.1.amount indent hValue with hKind | hKind
      · simp [Token.tally, hKind]
      · simp [Token.tally, hKind]
    have hLines : Token.tallyAll (Role.tokens φ) =
        (Construct.lines nodes).tally :=
      ih hRegular.2
    cases nodes with
    | nil => simp_all [Construct.view, Construct.tally, Node.tally]
    | cons node nodes =>
        simp_all [Construct.view, Construct.tally, Node.tally]
  case line e es t indent φ ψ _ hKind _ hSome _ ihFirst ihMore =>
    rcases List.exists_cons_of_ne_nil hSome with ⟨node, nodes, rfl⟩
    simp_all [Construct.view, Construct.tally, Node.tallyLines,
      Token.tally, or_imp, forall_and]
  case branch t c cond yes no φ ψ χ hIf _ hColon _ _ ihCond ihYes ihNo =>
    have hSame : Token.tallyAll
          (Role.tokens (.mark t :: (φ ++ .mark c :: (ψ ++ χ)))) =
        .splitting * (Token.tallyAll (Role.tokens φ) *
          (Token.tallyAll (Role.tokens ψ) *
            Token.tallyAll (Role.tokens χ))) := by
      simp_all [Token.tally, Token.isOperator]
    simp only [Construct.view, Construct.tally, id, Node.tally, hSame]
    apply Tally.splitting_mul_congr
    simp_all [Construct.view, Construct.tally, or_imp, forall_and]
  case elseless hPassed => exact hPassed.tally_eq
  case otherwise hPassed _ _ _ ih =>
    have hNone := hPassed.tally_eq
    simp_all [Construct.view, Construct.tally, Token.tally,
      Token.isOperator, or_imp, forall_and]
  case loop t counter a c i first last step body φ ψ χ ω hFor hCounter
      hAssign _ hComma _ _ hIn _ ihFirst ihLast ihStep ihBody =>
    have hSame : Token.tallyAll
          (Role.tokens (.mark t :: .mark counter :: .mark a ::
            (φ ++ .mark c :: (ψ ++ (χ ++ .mark i :: ω))))) =
        .splitting * (.word * (Token.tallyAll (Role.tokens φ) *
          (Token.tallyAll (Role.tokens ψ) *
            (Token.tallyAll (Role.tokens χ) *
              Token.tallyAll (Role.tokens ω))))) := by
      simp_all [Token.tally, Token.isOperator]
    simp only [Construct.view, Construct.tally, id, Node.tally, hSame]
    apply Tally.splitting_mul_congr
    simp_all [Construct.view, Construct.tally, Node.tallyLines, or_imp,
      forall_and]
  case declare t i names body φ ψ hVar _ hIn _ ihNames ihBody =>
    have hSame : Token.tallyAll
          (Role.tokens (.mark t :: (φ ++ .mark i :: ψ))) =
        .splitting * (Token.tallyAll (Role.tokens φ) *
          Token.tallyAll (Role.tokens ψ)) := by
      simp_all [Token.tally]
    simp only [Construct.view, Construct.tally, id, Node.tally, hSame]
    apply Tally.splitting_mul_congr
    simp_all [Construct.view, Construct.tally, or_imp, forall_and]
  case noStep => rfl
  case noInitial => rfl
  all_goals simp_all [Construct.tally, Construct.view, Node.tally,
    Node.tallyAll, Node.tallyLines, Node.tallyNamed, Token.tally,
    Token.isOperator, or_imp, forall_and, Parse.variableOf]

end Offside

------------------------------------------------------------
-- Tokens That Are Left
------------------------------------------------------------

namespace Offside.Token

/- The tokens that are counted even without semicolons. -/
def isSolid
    (t : Token) :
    Bool :=
  match t.kind with
  | .identifier | .indent | .floatLiteral
  | .kwIf | .kwFor | .kwVar => true
  | _ => false

def solid
    (ts : List Token) :
    List Token :=
  ts.filter isSolid

@[simp] theorem solid_append
    (ts us : List Token) :
    solid (ts ++ us) = solid ts ++ solid us :=
  List.filter_append ts us

theorem solid_cons_of_isSolid
    {t : Token}
    (hSolid : t.isSolid = true)
    (ts : List Token) :
    solid (t :: ts) = t :: solid ts :=
  List.filter_cons_of_pos hSolid

theorem solid_cons_of_not_isSolid
    {t : Token}
    (hOther : t.isSolid = false)
    (ts : List Token) :
    solid (t :: ts) = solid ts :=
  List.filter_cons_of_neg (by simp [hOther])

theorem isSolid_of_mem_solid
    {t : Token}
    {ts : List Token}
    (hMem : t ∈ solid ts) :
    t.isSolid = true :=
  (List.mem_filter.mp hMem).2

/- A solid token is a word, or an indentation or a number. -/
theorem tally_of_isSolid
    {t : Token}
    (hSolid : t.isSolid = true) :
    0 < t.tally.words ∨ t.tally = .amount := by
  unfold isSolid at hSolid
  unfold tally
  cases hKind : t.kind
  all_goals simp_all [Tally.word, Tally.splitting]

theorem plain_tally_of_not_isSolid
    {t : Token}
    (hOther : t.isSolid = false) :
    t.tally.plain = 1 := by
  unfold isSolid at hOther
  unfold tally
  cases hKind : t.kind
  all_goals simp_all
  all_goals rfl

theorem plain_tallyAll
    (ts : List Token) :
    (tallyAll ts).plain = (tallyAll (solid ts)).plain := by
  induction ts with
  | nil => rfl
  | cons t ts ih =>
      cases hSolid : t.isSolid with
      | true => simp [solid_cons_of_isSolid hSolid, ih]
      | false =>
          simp [solid_cons_of_not_isSolid hSolid, ih,
            plain_tally_of_not_isSolid hSolid]

/- Only words split. -/
theorem split_tally
    (t : Token)
    (hNone : t.tally.words = 0) :
    t.tally.split = false := by
  unfold tally at hNone ⊢
  cases hKind : t.kind
  all_goals simp_all [Tally.word, Tally.amount, Tally.splitting,
    Tally.sign, Tally.one_eq]

theorem split_tallyAll
    {ts : List Token}
    (hNone : (tallyAll ts).words = 0) :
    (tallyAll ts).split = false := by
  induction ts with
  | nil => rfl
  | cons t ts ih =>
      simp only [tallyAll_cons, Tally.words_mul, Nat.add_eq_zero_iff]
        at hNone
      simp [split_tally t hNone.1, ih hNone.2]

/- Solid tokens in front of others change the tally. -/
theorem eq_nil_of_tallyAll
    {ds ts : List Token}
    (hSolid : ∀ t ∈ ds, t.isSolid = true)
    (hSame : (tallyAll (ds ++ ts)).plain = (tallyAll ts).plain) :
    ds = [] := by
  have hWords : (tallyAll ds).words = 0 := by
    have hCount := congrArg Tally.words hSame
    simpa [Tally.plain] using hCount
  have hAmounts : (tallyAll ds).amounts = 0 := by
    have hCount := congrArg Tally.amounts hSame
    simpa [Tally.plain, Tally.amounts_mul, split_tallyAll hWords]
      using hCount
  cases ds with
  | nil => rfl
  | cons d ds =>
      rcases tally_of_isSolid (hSolid d List.mem_cons_self) with
        hWord | hAmount
      · simp only [tallyAll_cons, Tally.words_mul] at hWords
        omega
      · simp [Tally.amounts_mul, hAmount, Tally.amount] at hAmounts

/- A tally tells how many of some solid tokens are left. -/
theorem solid_eq_of_suffix
    {all ts us : List Token}
    (hLeft : solid ts <:+ all)
    (hRight : solid us <:+ all)
    (hSame : (tallyAll ts).plain = (tallyAll us).plain) :
    solid ts = solid us := by
  have hLonger : ∀ {xs ys : List Token},
      (tallyAll xs).plain = (tallyAll ys).plain →
      solid xs <:+ solid ys → solid xs = solid ys := by
    rintro xs ys hEqual ⟨ds, hMore⟩
    have hNone : ds = [] := by
      apply eq_nil_of_tallyAll
      · intro t hMem
        have hThere : t ∈ solid ys := by
          rw [← hMore]
          exact List.mem_append_left _ hMem
        exact isSolid_of_mem_solid hThere
      · rw [hMore, ← plain_tallyAll ys, ← hEqual, plain_tallyAll]
    rw [← hMore, hNone, List.nil_append]
  rcases List.suffix_or_suffix_of_suffix hLeft hRight with
    hSuffix | hSuffix
  · exact hLonger hSame hSuffix
  · exact (hLonger hSame.symm hSuffix).symm

end Offside.Token

------------------------------------------------------------
-- Semicolons of an Item
------------------------------------------------------------

namespace Offside

namespace Token

/- After every semicolon there is a solid token. -/
def Sealed :
    List Token →
    Prop
  | [] => True
  | t :: ts =>
      (t.isOperator ";" = true → ∃ u ∈ ts, u.isSolid = true) ∧ Sealed ts

theorem Sealed.of_append
    {ts us : List Token}
    (hSealed : Sealed (ts ++ us)) :
    Sealed us := by
  induction ts with
  | nil => exact hSealed
  | cons t ts ih => exact ih hSealed.2

theorem sealed_append
    {ts us : List Token}
    (hLeft : Sealed ts) :
    Sealed (ts ++ us) ↔ Sealed us := by
  refine ⟨Sealed.of_append, fun hRight => ?_⟩
  induction ts with
  | nil => exact hRight
  | cons t ts ih =>
      refine ⟨fun hSemicolon => ?_, ih hLeft.2⟩
      rcases hLeft.1 hSemicolon with ⟨u, hMem, hSolid⟩
      exact ⟨u, List.mem_append_left _ hMem, hSolid⟩

theorem semicolons_tally
    {t : Token}
    (hOther : t.isOperator ";" = false) :
    t.tally.semicolons = 0 := by
  unfold isOperator at hOther
  unfold tally
  cases hKind : t.kind
  all_goals simp_all [Tally.word, Tally.amount, Tally.splitting,
    Tally.one_eq]

theorem semicolons_tally_of_isOperator
    {t : Token}
    (hSemicolon : t.isOperator ";" = true) :
    t.tally.semicolons = 1 := by
  simp only [isOperator, Bool.and_eq_true, decide_eq_true_eq]
    at hSemicolon
  simp [tally, hSemicolon, Tally.sign]

/- Where no solid token is left, there is no semicolon either. -/
theorem Sealed.semicolons_eq_zero
    {ts : List Token}
    (hSealed : Sealed ts)
    (hNone : solid ts = []) :
    (tallyAll ts).semicolons = 0 := by
  induction ts with
  | nil => rfl
  | cons t ts ih =>
      have hLater : ∀ u ∈ ts, u.isSolid = false := by
        intro u hMem
        have hFalse := List.filter_eq_nil_iff.mp hNone u
          (List.mem_cons_of_mem t hMem)
        simpa using hFalse
      have hOther : t.isOperator ";" = false := by
        by_contra hSemicolon
        rw [Bool.not_eq_false] at hSemicolon
        rcases hSealed.1 hSemicolon with ⟨u, hMem, hSolid⟩
        rw [hLater u hMem] at hSolid
        cases hSolid
      have hRest : solid ts = [] :=
        List.filter_eq_nil_iff.mpr fun u hMem => by
          simp [hLater u hMem]
      simp [semicolons_tally hOther, ih hSealed.2 hRest]

end Token

/- Every operand and every expression has a solid token. -/
theorem Derives.exists_solid
    {table : Precedence}
    {construct : Construct}
    {φ : List Role}
    (hDerives : Derives table construct φ) :
    ∀ node, construct = .node node →
      ∃ t ∈ Role.tokens φ, t.isSolid = true := by
  induction hDerives
  all_goals
    rintro node hNode
    cases hNode
  all_goals simp_all [Token.isSolid, or_and_right, exists_or]

/- After a semicolon of an item there is more of it. -/
theorem Derives.isSealed
    {table : Precedence}
    (hLoose : table.of (.text ";") < 0)
    {construct : Construct}
    {φ : List Role}
    (hDerives : Derives table construct φ) :
    (∀ nodes, construct ≠ .items nodes) →
      Token.Sealed (Role.tokens φ) := by
  induction hDerives
  all_goals intro hOne
  case unary t e φ _ hOperand ih =>
    exact ⟨fun _ => hOperand.exists_solid e rfl, ih (by simp)⟩
  case binary t lhs rhs φ ψ _ hBinds _ ihLhs ihRhs =>
    rw [Role.tokens_append, Token.sealed_append (ihLhs (by simp))]
    refine ⟨fun hSemicolon => ?_, ihRhs (by simp)⟩
    simp only [Token.isOperator, Bool.and_eq_true, decide_eq_true_eq]
      at hSemicolon
    rw [hSemicolon.2] at hBinds
    omega
  case noItems => exact absurd rfl (hOne _)
  case semicolon => exact absurd rfl (hOne _)
  case item => exact absurd rfl (hOne _)
  case elseless hPassed =>
    rcases hPassed with rfl | ⟨t, hKind, rfl⟩ <;>
      simp_all [Token.Sealed, Token.isOperator]
  case otherwise hPassed _ _ _ _ =>
    rcases hPassed with rfl | ⟨t, hKind, rfl⟩ <;>
      simp_all [Token.Sealed, Token.isOperator]
  all_goals simp_all [Token.Sealed, Token.isOperator, Token.sealed_append]

end Offside
