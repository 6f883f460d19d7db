/-
  On which side of an increment its operand stands.

  The operator is the same on both sides, so `Program.isPostfix` looks at the token
  just before it.  `Program.Written` says how an operand is spelled along the chain:
  a name, an access to a member, a subscript, a call, a dereference or anything in
  parentheses, with the first and the last token of the spelling.  All tokens of the
  operand stand between these (`Written.between`), so they stand on one side of an
  operator that is next to either (`step_side`).

  What the token just before the operator says is another matter.  Behind its operand
  an operator is recognised unless the spelling ends with a bare word, the name of a
  member for one; in front of it, unless a closing bracket precedes, that of a
  conversion or of the head of a statement for one.
-/
import DivisorCheck.Proofs.Expr.Frame
import Mathlib.Logic.Relation

namespace DivisorCheck

namespace Program

variable {p : Program} {t u v : TokenId} {l r : Expr}

/-! ### The order of the chain -/

/-- The first token stands somewhere before the second one. -/
def Before (p : Program) : TokenId → TokenId → Prop :=
  Relation.TransGen fun u t => (p.token t).previous = some u

/-- The first token is the second one or stands before it. -/
def UpTo (p : Program) : TokenId → TokenId → Prop :=
  Relation.ReflTransGen fun u t => (p.token t).previous = some u

/-- The chain does not run in circles. -/
def OneWay (p : Program) : Prop := ∀ t, ¬ p.Before t t

theorem Before.of_previous (h : (p.token t).previous = some u) : p.Before u t := .single h

theorem Before.trans (huv : p.Before u v) (hvt : p.Before v t) : p.Before u t :=
  Relation.TransGen.trans huv hvt

theorem Before.upTo (h : p.Before u t) : p.UpTo u t := Relation.TransGen.to_reflTransGen h

theorem UpTo.trans (huv : p.UpTo u v) (hvt : p.UpTo v t) : p.UpTo u t :=
  Relation.ReflTransGen.trans huv hvt

/-- A stretch of the chain and a step further. -/
theorem UpTo.before_next (h : p.UpTo u v) (hnext : (p.token t).previous = some v) :
    p.Before u t :=
  Relation.TransGen.tail' h hnext

/-- A step of the chain and a stretch further. -/
theorem UpTo.before_of_previous (h : p.UpTo v t) (hstep : (p.token v).previous = some u) :
    p.Before u t :=
  Relation.TransGen.head' hstep h

/-- The chain runs through the tokens in the order of their positions. -/
def InSequence (p : Program) : Prop :=
  ∀ t < p.tokens.size, (p.token t).previous = if t = 0 then none else some (t - 1)

instance : Decidable p.InSequence :=
  inferInstanceAs (Decidable (∀ t < p.tokens.size, _))

namespace InSequence

theorem previous_iff (h : p.InSequence) :
    (p.token t).previous = some u ↔ t = u + 1 ∧ t < p.tokens.size := by
  by_cases ht : t < p.tokens.size
  · rw [h t ht]
    split_ifs with hzero
    · simp [hzero]
    · simp only [Option.some.injEq, ht, and_true]
      exact Nat.sub_eq_iff_eq_add (Nat.pos_of_ne_zero hzero)
  · have hblank : p.token t = {} := by simp [token, ht]
    simp [hblank, ht]

theorem before_iff (h : p.InSequence) : p.Before u t ↔ u < t ∧ t < p.tokens.size := by
  constructor
  · intro hut
    induction hut with
    | single hprev =>
      obtain ⟨rfl, hsize⟩ := h.previous_iff.1 hprev
      exact ⟨Nat.lt_succ_self u, hsize⟩
    | tail _ hprev ih =>
      obtain ⟨rfl, hsize⟩ := h.previous_iff.1 hprev
      exact ⟨ih.1.trans (Nat.lt_succ_self _), hsize⟩
  · rintro ⟨hut, hsize⟩
    induction t, hut using Nat.le_induction with
    | base => exact .single (h.previous_iff.2 ⟨rfl, hsize⟩)
    | succ t _ ih =>
      exact .tail (ih (Nat.lt_of_succ_lt hsize)) (h.previous_iff.2 ⟨rfl, hsize⟩)

theorem oneWay (h : p.InSequence) : p.OneWay := fun t ht => lt_irrefl t (h.before_iff.1 ht).1

end InSequence

/-! ### How an operand is spelled -/

/-- The token closes a pair of parentheses or a subscript. -/
def Closes (p : Program) (t : TokenId) : Prop := p.text t = ")" ∨ p.text t = "]"

instance : Decidable (p.Closes t) := inferInstanceAs (Decidable (_ ∨ _))

/-- The tokens open and close a pair of brackets. -/
def Brackets (p : Program) (o c : TokenId) : Prop :=
  p.Before o c ∧ (p.text o = "(" ∧ p.text c = ")" ∨ p.text o = "[" ∧ p.text c = "]")

/-- The tokens stand between the two. -/
def Inside (p : Program) (ts : List TokenId) (o c : TokenId) : Prop :=
  ∀ u ∈ ts, p.Before o u ∧ p.Before u c

/-- With what the spelling of an operand ends. -/
inductive Ending where
  /-- the operand is a single token -/
  | alone
  | bracket
  /-- a word that is not all of the operand -/
  | word
deriving DecidableEq

/-- The ending, if more stands in front. -/
def Ending.extended : Ending → Ending
  | .alone => .word
  | k => k

/-- The operand is spelled by a stretch of the chain from its first token to its last.  What stands
in brackets may be anything. -/
inductive Written (p : Program) : Ending → Expr → TokenId → TokenId → Prop where
  | name {t : TokenId} (hword : ¬ p.Closes t) : Written p .alone (.node t .absent .absent) t t
  | parentheses {e : Expr} {o c : TokenId} (hbrackets : p.Brackets o c)
    (hinside : p.Inside e.tokens o c) : Written p .bracket e o c
  /-- a subscript or a call -/
  | applied {k : Ending} {l r : Expr} {a b o c : TokenId} (hl : Written p k l a b)
    (hnext : (p.token o).previous = some b) (hbrackets : p.Brackets o c)
    (hinside : p.Inside r.tokens o c) : Written p .bracket (.node o l r) a c
  | member {k : Ending} {l : Expr} {a b m n : TokenId} (hl : Written p k l a b)
    (haccess : p.isMemberAccess m = true) (hnext : (p.token m).previous = some b)
    (hname : (p.token n).previous = some m) (hword : ¬ p.Closes n) :
    Written p .word (.node m l (.node n .absent .absent)) a n
  -- A dereference is the only operator in front: a bare name behind it is no longer all there is.
  | dereference {k : Ending} {l : Expr} {a b s : TokenId} (hl : Written p k l a b)
    (hstar : p.text s = "*") (hnext : (p.token a).previous = some s) :
    Written p k.extended (.node s l .absent) s b

namespace Written

variable {k : Ending} {first last : TokenId}

theorem upTo (h : p.Written k l first last) : p.UpTo first last := by
  induction h with
  | name => exact .refl
  | parentheses hbrackets => exact hbrackets.1.upTo
  | applied _ hnext hbrackets _ ih => exact ((ih.before_next hnext).trans hbrackets.1).upTo
  | member _ _ hnext hname _ ih => exact ((ih.before_next hnext).trans (.of_previous hname)).upTo
  | dereference _ _ hnext ih => exact (ih.before_of_previous hnext).upTo

/-- All tokens of an operand stand between the first and the last of its spelling. -/
theorem between (h : p.Written k l first last) :
    ∀ u ∈ l.tokens, p.UpTo first u ∧ p.UpTo u last := by
  -- What stands in front of an operator keeps its first token and gets a later last one.
  induction h with
  | name =>
    intro u hu
    obtain rfl : u = _ := by simpa [Expr.tokens] using hu
    exact ⟨.refl, .refl⟩
  | parentheses _ hinside => exact fun u hu => ⟨(hinside u hu).1.upTo, (hinside u hu).2.upTo⟩
  | @applied k l r a b o c hl hnext hbrackets hinside ih =>
    have hopen : p.Before a o := hl.upTo.before_next hnext
    intro u hu
    rcases List.mem_cons.1 hu with rfl | hu
    · exact ⟨hopen.upTo, hbrackets.1.upTo⟩
    rcases List.mem_append.1 hu with hleft | hright
    · have hend : p.Before b c := (Before.of_previous hnext).trans hbrackets.1
      exact ⟨(ih u hleft).1, (ih u hleft).2.trans hend.upTo⟩
    · exact ⟨(hopen.trans (hinside u hright).1).upTo, (hinside u hright).2.upTo⟩
  | @member k l a b m n hl _ hnext hname _ ih =>
    have haccess : p.Before a m := hl.upTo.before_next hnext
    intro u hu
    rcases List.mem_cons.1 hu with rfl | hu
    · exact ⟨haccess.upTo, (Before.of_previous hname).upTo⟩
    rcases List.mem_append.1 hu with hleft | hright
    · have hend : p.Before b n := (Before.of_previous hnext).trans (.of_previous hname)
      exact ⟨(ih u hleft).1, (ih u hleft).2.trans hend.upTo⟩
    · obtain rfl : u = n := by simpa [Expr.tokens] using hright
      exact ⟨(haccess.trans (.of_previous hname)).upTo, .refl⟩
  | @dereference k l a b s hl _ hnext ih =>
    intro u hu
    rcases List.mem_cons.1 hu with rfl | hu
    · exact ⟨.refl, (hl.upTo.before_of_previous hnext).upTo⟩
    · have hleft : u ∈ l.tokens := by simpa [Expr.tokens] using hu
      exact ⟨(Before.of_previous hnext).upTo.trans (ih u hleft).1, (ih u hleft).2⟩

/-- The last token of an operand that is a single token is that token, and one that ends with a
bracket has it last.  A word at the end is neither a bracket nor what the operand hangs from. -/
theorem last_of_ending (h : p.Written k l first last) :
    match k with
    | .alone => l.token? = some last ∧ ¬ p.Closes last
    | .bracket => p.Closes last
    | .word => (∃ u, l.token? = some u ∧ p.Before u last) ∧ ¬ p.Closes last := by
  have hcloses : ∀ {o c}, p.Brackets o c → p.Closes c := fun hbrackets =>
    hbrackets.2.imp And.right And.right
  induction h with
  | name hword => exact ⟨rfl, hword⟩
  | parentheses hbrackets => exact hcloses hbrackets
  | applied _ _ hbrackets => exact hcloses hbrackets
  | member _ _ _ hname hword => exact ⟨⟨_, rfl, .of_previous hname⟩, hword⟩
  | @dereference k l a b s hl _ hnext ih =>
    have hlast : p.Before s b := hl.upTo.before_of_previous hnext
    cases k with
    | alone => exact ⟨⟨s, rfl, hlast⟩, ih.2⟩
    | bracket => exact ih
    | word => exact ⟨⟨s, rfl, hlast⟩, ih.2⟩

end Written

/-! ### What the token before an increment says -/

/-- The token just before closes a bracket. -/
def FollowsBracket (p : Program) (t : TokenId) : Prop :=
  ∃ q, (p.token t).previous = some q ∧ p.Closes q

theorem isPostfix_iff :
    p.isPostfix t = true ↔
      ∃ q, (p.token t).previous = some q ∧ ((p.token t).left = some q ∨ p.Closes q) := by
  unfold isPostfix Closes
  cases (p.token t).previous with
  | none => simp
  | some q =>
    simp only [Bool.or_eq_true, beq_iff_eq, Option.some.injEq, exists_eq_left', or_assoc]
    exact or_congr_left eq_comm

theorem isPostfix_of_before (hchain : p.OneWay) {k : Ending} {first last : TokenId}
    (hleft : (p.token t).left = l.token?) (h : p.Written k l first last)
    (hnext : (p.token t).previous = some last) : p.isPostfix t = true ↔ k ≠ .word := by
  have hend := h.last_of_ending
  have hiff : p.isPostfix t = true ↔ l.token? = some last ∨ p.Closes last := by
    rw [isPostfix_iff, hnext, hleft]
    simp
  rw [hiff]
  cases k with
  | alone => simp [hend.1]
  | bracket =>
    have hclosed : p.Closes last := hend
    simp [hclosed]
  | word =>
    -- The operator links to the top of the operand, which is not the word at its end.
    obtain ⟨⟨u, htop, hbefore⟩, hword⟩ := hend
    have hne : u ≠ last := by
      rintro rfl
      exact hchain u hbefore
    simp [htop, hword, hne]

theorem isPostfix_of_after (hchain : p.OneWay) {k : Ending} {first last : TokenId}
    (hleft : (p.token t).left = l.token?) (h : p.Written k l first last)
    (hnext : (p.token first).previous = some t) : p.isPostfix t = true ↔ p.FollowsBracket t := by
  rw [isPostfix_iff]
  refine exists_congr fun q => and_congr_right fun hprev => or_iff_right ?_
  -- The operand follows, so it does not also precede.
  intro htop
  have hmem : q ∈ l.tokens := Expr.mem_tokens_of_token? (hleft ▸ htop)
  have hafter : p.Before t q := (h.between q hmem).1.before_of_previous hnext
  exact hchain t (hafter.trans (.of_previous hprev))

end Program

namespace EvalContext

variable {cx : EvalContext} {t : TokenId} {l r : Expr}

/-- What an increment or decrement yields. -/
theorem eval_step_fst (hstep : cx.program.isStep t = true) (hcast : cx.program.isCast t = false)
    (hl : l ≠ .absent) (role : CommaRole) {st : EvalState} (hst : st.store.isUnreachable = false) :
    (cx.eval (.node t l r) role st).1 = cx.withFlowValue t
      (if cx.program.isPostfix t then (cx.eval l .operator st).1
        else (cx.eval l .operator st).1.add .nonZero) := by
  have hcomma : cx.program.text t ≠ "," := by
    intro htext
    simp [Program.isStep, htext] at hstep
  have hop : cx.program.operation t l r = .increment :=
    Program.operation_of_isStep hstep hcast hl
  rw [eval_node, if_neg (fun h => hcomma h.2.1), if_neg (by simp [hst])]
  simp only [evalNode, evalOperation, hop, evalIncrement]

end EvalContext

namespace Program

variable {p : Program} {t first last : TokenId} {l : Expr} {k : Ending}

/-- **On which side the operand of an increment is taken to stand.**  Behind its operand, all of it,
an increment or decrement is taken for postfix unless the spelling of the operand ends with a bare
word; in front of it, for prefix unless a closing bracket precedes.  It yields the old tag of the
operand if it is taken for postfix, and the new one otherwise. -/
theorem step_side (hchain : p.OneWay) (hstep : p.isStep t = true) (hcast : p.isCast t = false)
    (hleft : (p.token t).left = l.token?) (h : p.Written k l first last) :
    ((p.token t).previous = some last →
      (∀ u ∈ l.tokens, p.Before u t) ∧ (p.isPostfix t = true ↔ k ≠ .word)) ∧
    ((p.token first).previous = some t →
      (∀ u ∈ l.tokens, p.Before t u) ∧ (p.isPostfix t = true ↔ p.FollowsBracket t)) ∧
    ∀ cx : EvalContext, cx.program = p → ∀ (r : Expr) (role : CommaRole) (st : EvalState),
      l ≠ .absent → st.store.isUnreachable = false →
      (cx.eval (.node t l r) role st).1 = cx.withFlowValue t
        (if p.isPostfix t then (cx.eval l .operator st).1
          else (cx.eval l .operator st).1.add .nonZero) := by
  refine ⟨fun hnext => ⟨fun u hu => ?_, isPostfix_of_before hchain hleft h hnext⟩,
    fun hnext => ⟨fun u hu => ?_, isPostfix_of_after hchain hleft h hnext⟩, ?_⟩
  · exact (h.between u hu).2.before_next hnext
  · exact (h.between u hu).1.before_of_previous hnext
  · rintro cx rfl r role st hl hst
    exact EvalContext.eval_step_fst hstep hcast hl role hst

end Program

/-! ### An operand of many parts, and two steps that are misread -/

/-- `(*q).n[i]++; --*q;` -/
def steppedElements : Program where
  tokens := #[
    { text := "(" },
    { text := "*", left := some 2, parent := some 4, previous := some 0 },
    { text := "q", parent := some 1, previous := some 1 },
    { text := ")", previous := some 2 },
    { text := ".", left := some 1, right := some 5, parent := some 6, previous := some 3 },
    { text := "n", parent := some 4, previous := some 4 },
    { text := "[", left := some 4, right := some 7, parent := some 9, previous := some 5 },
    { text := "i", parent := some 6, previous := some 6 },
    { text := "]", previous := some 7 },
    { text := "++", left := some 6, previous := some 8 },
    { text := ";", previous := some 9 },
    { text := "--", left := some 12, previous := some 10 },
    { text := "*", left := some 13, parent := some 11, previous := some 11 },
    { text := "q", parent := some 12, previous := some 12 }]

theorem inSequence_steppedElements : steppedElements.InSequence := by decide

/-- An element of a member of what `q` points to. -/
def steppedElement : Expr :=
  .node 6 (.node 4 (.node 1 (.node 2 .absent .absent) .absent) (.node 5 .absent .absent))
    (.node 7 .absent .absent)

theorem written_steppedElement : steppedElements.Written .bracket steppedElement 0 8 := by
  have hbefore : ∀ {u t}, u < t → t < 14 → steppedElements.Before u t := fun hut ht =>
    inSequence_steppedElements.before_iff.2 ⟨hut, ht⟩
  have hpointee : steppedElements.Written .bracket
      (.node 1 (.node 2 .absent .absent) .absent) 0 3 := by
    refine .parentheses ⟨hbefore (by decide) (by decide), by decide⟩ fun u hu => ?_
    obtain rfl | rfl : u = 1 ∨ u = 2 := by simpa [Expr.tokens] using hu
    · exact ⟨hbefore (by decide) (by decide), hbefore (by decide) (by decide)⟩
    · exact ⟨hbefore (by decide) (by decide), hbefore (by decide) (by decide)⟩
  refine .applied (.member hpointee (by decide) (by decide) (by decide) (by decide)) (by decide)
    ⟨hbefore (by decide) (by decide), by decide⟩ fun u hu => ?_
  obtain rfl : u = 7 := by simpa [Expr.tokens] using hu
  exact ⟨hbefore (by decide) (by decide), hbefore (by decide) (by decide)⟩

/-- What `q` points to. -/
def steppedPointee : Expr := .node 12 (.node 13 .absent .absent) .absent

theorem written_steppedPointee : steppedElements.Written .word steppedPointee 12 13 :=
  .dereference (.name (by decide)) (by decide) (by decide)

theorem step_side_steppedElements :
    (∀ u ∈ steppedElement.tokens, steppedElements.Before u 9) ∧
    steppedElements.isPostfix 9 = true ∧
    (∀ u ∈ steppedPointee.tokens, steppedElements.Before 11 u) ∧
    ¬ steppedElements.isPostfix 11 = true := by
  have hchain : steppedElements.OneWay := inSequence_steppedElements.oneWay
  obtain ⟨hbehind, -, -⟩ := Program.step_side (t := 9) hchain (by decide) (by decide) (by decide)
    written_steppedElement
  obtain ⟨-, hfront, -⟩ := Program.step_side (t := 11) hchain (by decide) (by decide) (by decide)
    written_steppedPointee
  obtain ⟨hbefore, hpostfix⟩ := hbehind (by decide)
  obtain ⟨hafter, hprefix⟩ := hfront (by decide)
  refine ⟨hbefore, hpostfix.2 (by decide), hafter, fun h => ?_⟩
  obtain ⟨q, hq, hcloses⟩ := hprefix.1 h
  obtain rfl : 10 = q := by simpa [steppedElements, Program.token] using hq
  revert hcloses
  decide

/-- `(int)++x; s.n++;` -/
def misreadSteps : Program where
  tokens := #[
    { text := "(", isCast := true, left := some 3 },
    { text := "int", previous := some 0 },
    { text := ")", previous := some 1 },
    { text := "++", left := some 4, parent := some 0, previous := some 2 },
    { text := "x", varId := 1, var := some 0, parent := some 3, previous := some 3 },
    { text := ";", previous := some 4 },
    { text := "s", parent := some 7, previous := some 5 },
    { text := ".", left := some 6, right := some 8, parent := some 9, previous := some 6 },
    { text := "n", parent := some 7, previous := some 7 },
    { text := "++", left := some 7, previous := some 8 }]
  vars := #[{ id := 1, isLocal := true }]

theorem oneWay_misreadSteps : misreadSteps.OneWay :=
  Program.InSequence.oneWay (by decide)

/-- **Not every step is taken for what it is.**  One in front of its operand is taken for postfix
after the parenthesis of a conversion, and then yields the old tag; one behind the name of a member
is taken for prefix. -/
theorem step_side_misread :
    (¬ ∀ (p : Program) (t first last : TokenId) (l : Expr) (k : Program.Ending), p.OneWay →
      p.isStep t = true → p.isCast t = false → (p.token t).left = l.token? →
      p.Written k l first last → (p.token first).previous = some t → p.isPostfix t = false) ∧
    (¬ ∀ (p : Program) (t first last : TokenId) (l : Expr) (k : Program.Ending), p.OneWay →
      p.isStep t = true → p.isCast t = false → (p.token t).left = l.token? →
      p.Written k l first last → (p.token t).previous = some last → p.isPostfix t = true) ∧
    ¬ ∀ (p : Program) (t first last : TokenId) (l : Expr) (k : Program.Ending), p.OneWay →
      p.isStep t = true → p.isCast t = false → (p.token t).left = l.token? →
      p.Written k l first last → (p.token first).previous = some t →
      ∀ (r : Expr) (st : EvalState), st.store.isUnreachable = false →
        (({ program := p } : EvalContext).evaluate (.node t l r) st).1 =
          (({ program := p } : EvalContext).evaluate l st).1.add .nonZero := by
  have hx : misreadSteps.Written .alone (.node 4 .absent .absent) 4 4 := .name (by decide)
  have hs : misreadSteps.Written .alone (.node 6 .absent .absent) 6 6 := .name (by decide)
  refine ⟨fun hclaim => ?_, fun hclaim => ?_, fun hclaim => ?_⟩
  · have hprefix := hclaim _ 3 4 4 _ _ oneWay_misreadSteps (by decide) (by decide) (by decide) hx
      (by decide)
    revert hprefix
    decide
  · have hmember : misreadSteps.Written .word
        (.node 7 (.node 6 .absent .absent) (.node 8 .absent .absent)) 6 8 :=
      .member hs (by decide) (by decide) (by decide) (by decide)
    have hpostfix := hclaim _ 9 6 8 _ _ oneWay_misreadSteps (by decide) (by decide) (by decide)
      hmember (by decide)
    revert hpostfix
    decide
  · have hyields := hclaim _ 3 4 4 _ _ oneWay_misreadSteps (by decide) (by decide) (by decide) hx
      (by decide) .absent { store := Store.top.set 1 .zero } (by decide)
    revert hyields
    decide

end DivisorCheck
