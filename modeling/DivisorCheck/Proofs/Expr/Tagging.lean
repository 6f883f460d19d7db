/-
  What evaluation does to the tags of tokens.

  Whatever the links between tokens look like, evaluating an expression is a
  sequence of two kinds of steps: a token of the expression receives a tag, or the
  store changes (`Tagging`).  What holds of both kinds of steps holds of every
  evaluation: tokens elsewhere keep their tags, no token loses the tag that it has,
  and the sites are exactly the divisions among the tokens with a tag.
-/
import DivisorCheck.Proofs.Expr.Frame
import DivisorCheck.Proofs.Analysis.Settling
import Mathlib.Data.Set.Defs

namespace DivisorCheck

/-! ### Tables of tags -/

namespace Annotations

variable {a b : Annotations} {t u : TokenId} {tag : Tag}

theorem contains_insert :
    (a.insert t tag).contains u = true ↔ u = t ∨ a.contains u = true := by
  unfold contains
  rw [get?_insert]
  split_ifs with h
  · simp [h]
  · exact ⟨.inr, fun hu => hu.resolve_left fun heq => h heq.symm⟩

theorem mem_tokens_iff : u ∈ a.tokens ↔ a.contains u = true := by
  obtain ⟨l⟩ := a
  unfold tokens contains get?
  induction l with
  | nil => simp [lookupTag?]
  | cons e l ih =>
    rw [List.map_cons, List.mem_cons, ih, lookupTag?]
    by_cases h : e.1 = u
    · simp [h]
    · rw [if_neg h]
      exact ⟨fun hu => hu.resolve_left fun heq => h heq.symm, .inr⟩

theorem contains_union : (a.union b).contains u = true ↔ a.contains u = true ∨ u ∈ b.tokens := by
  obtain ⟨l⟩ := b
  unfold union tokens
  dsimp only
  induction l generalizing a with
  | nil => simp
  | cons e l ih =>
    rw [List.foldl_cons, ih, contains_insert, List.map_cons, List.mem_cons]
    tauto

end Annotations

/-! ### Steps -/

/-- What leads from one state of evaluation to another: tags for some of the given tokens, and
changes of the store. -/
inductive Tagging (cx : EvalContext) (ts : Set TokenId) (st : EvalState) : EvalState → Prop where
  | refl : Tagging cx ts st st
  | annotate {st' : EvalState} {t : TokenId} (ht : t ∈ ts) (tag : Tag) (h : Tagging cx ts st st') :
    Tagging cx ts st (cx.annotate t tag st')
  | on {st' : EvalState} (s : Store) (h : Tagging cx ts st st') : Tagging cx ts st (st'.on s)

/-- The sites are the divisions among the tokens with a tag. -/
def EvalState.Accounts (p : Program) (st : EvalState) : Prop :=
  ∀ d, d ∈ st.sites ↔ st.annotations.contains d = true ∧ p.isDivision d = true

namespace Tagging

variable {cx : EvalContext} {ts : Set TokenId} {st st' st'' : EvalState}

theorem trans (h : Tagging cx ts st st') (h' : Tagging cx ts st' st'') : Tagging cx ts st st'' := by
  induction h' with
  | refl => exact h
  | annotate ht tag _ ih => exact ih.annotate ht tag
  | on s _ ih => exact ih.on s

/-- Tokens elsewhere get no tag. -/
theorem mem_or_contains (h : Tagging cx ts st st') {u : TokenId}
    (hu : st'.annotations.contains u = true) : u ∈ ts ∨ st.annotations.contains u = true := by
  induction h with
  | refl => exact .inr hu
  | annotate ht tag _ ih =>
    rcases Annotations.contains_insert.1 hu with rfl | hu
    · exact .inl ht
    · exact ih hu
  | on s _ ih => exact ih hu

theorem get?_eq (h : Tagging cx ts st st') {u : TokenId} (hu : u ∉ ts) :
    st'.annotations.get? u = st.annotations.get? u := by
  induction h with
  | refl => rfl
  | on s _ ih => exact ih
  | @annotate st' t ht tag _ ih =>
    have htu : t ≠ u := fun heq => hu (heq ▸ ht)
    rw [EvalContext.annotate, Annotations.get?_insert, if_neg htu]
    exact ih

theorem accounts (h : Tagging cx ts st st') (hst : st.Accounts cx.program) :
    st'.Accounts cx.program := by
  induction h with
  | refl => exact hst
  | on s _ ih => exact ih
  | @annotate st' t ht tag _ ih =>
    intro d
    unfold EvalContext.annotate
    dsimp only
    rw [Annotations.contains_insert]
    by_cases hdiv : cx.program.isDivision t = true
    · rw [if_pos hdiv, Array.mem_push, ih d]
      constructor
      · rintro (⟨hd, hdiv'⟩ | rfl)
        · exact ⟨.inr hd, hdiv'⟩
        · exact ⟨.inl rfl, hdiv⟩
      · rintro ⟨rfl | hd, hdiv'⟩
        · exact .inr rfl
        · exact .inl ⟨hd, hdiv'⟩
    · rw [if_neg hdiv, ih d]
      refine ⟨fun ⟨hd, hdiv'⟩ => ⟨.inr hd, hdiv'⟩, ?_⟩
      rintro ⟨rfl | hd, hdiv'⟩
      · exact absurd hdiv' hdiv
      · exact ⟨hd, hdiv'⟩

theorem annotateTop {e : Expr} (he : ∀ t ∈ e.tokens, t ∈ ts) (tag : Tag)
    (h : Tagging cx ts st st') : Tagging cx ts st (cx.annotateTop e tag st') := by
  cases e with
  | absent => exact h
  | node t l r => exact h.annotate (he t (List.mem_cons_self ..)) tag

theorem annotateUnreachable {e : Expr} (he : ∀ t ∈ e.tokens, t ∈ ts)
    (h : Tagging cx ts st st') : Tagging cx ts st (cx.annotateUnreachable e st') := by
  unfold EvalContext.annotateUnreachable
  revert he
  generalize e.tokens = us
  intro hus
  induction us generalizing st' with
  | nil => exact h
  | cons u us ih =>
    exact ih (h.annotate (hus u (List.mem_cons_self ..)) .bottom) fun t ht =>
      hus t (List.mem_cons_of_mem _ ht)

end Tagging

/-! ### Expressions -/

namespace EvalContext

variable {cx : EvalContext} {ts : Set TokenId} {l r : Expr}

/-- A step of evaluation tags none but the given tokens. -/
def Tags (cx : EvalContext) (ts : Set TokenId) (f : EvalStep) : Prop :=
  ∀ st, Tagging cx ts st (f st).2

section Operators

variable {evalLeft evalRight : EvalStep}

theorem Tags.binary (f : Tag → Tag → Tag) (hl : cx.Tags ts evalLeft) (hr : cx.Tags ts evalRight) :
    cx.Tags ts (evalBinary f evalLeft evalRight) := fun st => (hl st).trans (hr _)

theorem tagging_write {target : Expr} {evalTarget : EvalStep} (hts : ∀ t ∈ target.tokens, t ∈ ts)
    (hf : cx.Tags ts evalTarget) (tag : Tag) (st : EvalState) :
    Tagging cx ts st (cx.write target evalTarget tag st) := by
  unfold write
  split
  · exact (Tagging.refl.on _).annotateTop hts tag
  · split
    · exact Tagging.refl.on _
    · rename_i t _
      extract_lets st'
      have htarget : Tagging cx ts st st' := by
        unfold st'
        split
        · exact .refl
        · exact hf st
      split
      · exact htarget
      · exact htarget.on _

theorem Tags.assignment (op : String) (hts : ∀ t ∈ l.tokens, t ∈ ts) (hl : cx.Tags ts evalLeft)
    (hr : cx.Tags ts evalRight) : cx.Tags ts (cx.evalAssignment op l evalLeft evalRight) := by
  intro st
  unfold evalAssignment
  split
  · exact (hr st).trans (tagging_write hts hl _ _)
  · exact (hl st).trans ((hr _).trans (tagging_write hts hl _ _))

theorem Tags.call (call : Expr) (hts : ∀ t ∈ l.tokens, t ∈ ts) (hl : cx.Tags ts evalLeft)
    (hargs : cx.Tags ts evalRight) : cx.Tags ts (cx.evalCall call l evalLeft evalRight) := by
  intro st
  unfold evalCall
  extract_lets st₁ st₂
  have hcallee : Tagging cx ts st₁ st₂ := by
    unfold st₂
    split
    · exact .refl
    · exact hl _
  exact (((Tagging.refl.annotateTop hts .top).trans (hcallee.trans (hargs st₂))).on _).on _

theorem Tags.arms (cond : Expr) {colon : TokenId} (hcolon : colon ∈ ts)
    {evalThen evalElse : EvalStep} (hthen : cx.Tags ts evalThen) (helse : cx.Tags ts evalElse) :
    cx.Tags ts (cx.evalArms cond colon evalThen evalElse) := by
  intro st
  unfold evalArms
  extract_lets a b
  have ha : Tagging cx ts st a.2 := (Tagging.refl.on _).trans (hthen _)
  have hb : Tagging cx ts a.2 b.2 := (Tagging.refl.on _).trans (helse _)
  exact ((ha.trans hb).on _).annotate hcolon _

theorem Tags.conditional (cond : Expr) {colon : TokenId} (hcolon : colon ∈ ts)
    {evalCond evalThen evalElse : EvalStep} (hcond : cx.Tags ts evalCond)
    (hthen : cx.Tags ts evalThen) (helse : cx.Tags ts evalElse) :
    cx.Tags ts (cx.evalConditional cond colon evalCond evalThen evalElse) :=
  fun st => (hcond st).trans (Tags.arms cond hcolon hthen helse _)

theorem Tags.shortCircuit (isAnd : Bool) (first : Expr) (hl : cx.Tags ts evalLeft)
    (hr : cx.Tags ts evalRight) :
    cx.Tags ts (cx.evalShortCircuit isAnd first evalLeft evalRight) := by
  intro st
  rw [evalShortCircuit_eq]
  exact ((hl st).trans ((Tagging.refl.on _).trans (hr _))).on _

end Operators

theorem tags_evalOperation {t : TokenId} (hlts : ∀ u ∈ l.tokens, u ∈ ts)
    (hrts : ∀ u ∈ r.tokens, u ∈ ts) {evalLeft evalRight evalArguments evalChoice : EvalStep}
    (hl : cx.Tags ts evalLeft) (hr : cx.Tags ts evalRight) (hargs : cx.Tags ts evalArguments)
    (hchoice : cx.Tags ts evalChoice) :
    cx.Tags ts (cx.evalOperation t l r evalLeft evalRight evalArguments evalChoice) := by
  unfold evalOperation
  extract_lets p op
  cases p.operation t l r
  case leaf => exact fun st => .refl
  case cast => exact hl
  case assignment => exact .assignment op hlts hl hr
  case increment => exact fun st => (hl st).trans (tagging_write hlts hl _ _)
  case sizeQuery => exact fun st => (Tagging.refl.annotateTop hlts .top).annotateUnreachable hrts
  case call => exact .call _ hlts hl hargs
  case choice => exact hchoice
  case shortCircuit => exact .shortCircuit _ l hl hr
  case unary => exact hl
  case comma => exact .binary _ hl hr
  case member => exact fun st => (hl st).annotateTop hrts .top
  case binary => exact .binary _ hl hr

/-- **Evaluation tags tokens of its expression only.** -/
theorem tags_eval {e : Expr} (hts : ∀ u ∈ e.tokens, u ∈ ts) (role : CommaRole) :
    cx.Tags ts (cx.eval e role) := by
  induction e using Expr.induction_arms generalizing role with
  | habsent => exact fun st => .refl
  | hnode t l r ihl ihr iharms =>
    have htop : t ∈ ts := hts t (List.mem_cons_self ..)
    have hlts : ∀ u ∈ l.tokens, u ∈ ts := fun u hu =>
      hts u (List.mem_cons_of_mem _ (List.mem_append_left _ hu))
    have hrts : ∀ u ∈ r.tokens, u ∈ ts := fun u hu =>
      hts u (List.mem_cons_of_mem _ (List.mem_append_right _ hu))
    have hl := ihl hlts
    have hr := ihr hrts
    -- The two values of a choice hang below its colon, so the induction reaches one level deeper.
    have hchoice : cx.Tags ts (cx.evalChoice l r) := by
      cases r with
      | absent => exact hl .operator
      | node colon a b =>
        obtain ⟨iha, ihb⟩ := iharms colon a b rfl
        have hats : ∀ u ∈ a.tokens, u ∈ ts := fun u hu =>
          hrts u (List.mem_cons_of_mem _ (List.mem_append_left _ hu))
        have hbts : ∀ u ∈ b.tokens, u ∈ ts := fun u hu =>
          hrts u (List.mem_cons_of_mem _ (List.mem_append_right _ hu))
        rw [evalChoice]
        split_ifs
        · exact .conditional l (hrts colon (List.mem_cons_self ..)) (hl _) (iha hats _)
            (ihb hbts _)
        · exact .binary _ (hl _) (hr _)
    have hnode : cx.Tags ts (cx.evalNode t l r) :=
      tags_evalOperation hlts hrts (hl _) (hr _) (hr _) hchoice
    intro st
    rw [eval_node]
    split_ifs
    · exact (Tagging.refl.annotate htop _).trans (Tags.binary _ (hl _) (hr _) _)
    · exact Tagging.refl.annotateUnreachable hts
    · exact (hnode st).annotate htop _

/-! ### Blocks -/

theorem tagging_evalRoot (root : TokenId) (hts : ∀ u ∈ (cx.program.expr root).tokens, u ∈ ts)
    (st : EvalState) : Tagging cx ts st (cx.evalRoot st root) := by
  unfold evalRoot
  extract_lets p store
  split_ifs
  · exact Tagging.refl.annotateUnreachable hts
  · exact (Tagging.refl.on _).annotate (hts root (List.mem_cons_self ..)) _
  · exact tags_eval hts .operator st

theorem tagging_evalBlock (bs : List TokenId) (st : EvalState) :
    Tagging cx Set.univ st (cx.evalBlock bs st) := by
  unfold evalBlock
  generalize cx.program.expressionRoots bs = roots
  induction roots generalizing st with
  | nil => exact .refl
  | cons root roots ih =>
    exact (tagging_evalRoot root (fun _ _ => Set.mem_univ _) st).trans (ih _)

end EvalContext

/-! ### The tables of a function and of an expression -/

theorem EvalState.accounts_empty (p : Program) : EvalState.Accounts p {} := by
  intro d
  simp [Annotations.contains, Annotations.get?, Annotations.lookupTag?]

/-- **The sites of an analysed function are the divisions that have a tag.** -/
theorem FlowGraph.mem_sites_iff {p : Program} {g : FlowGraph} {settings : Settings}
    {params : List VariableId} {clock : Clock} {r : AnalysisResult}
    (h : g.analyze p settings params clock = .ok r) (d : TokenId) :
    d ∈ r.sites ↔ d ∈ r.annotations.tokens ∧ p.isDivision d = true := by
  obtain ⟨-, -, -, hannotations, hsites⟩ := run_of_analyze h
  -- The store is put in place before each block; the table of tags is kept throughout.
  have htagging : ∀ (order : List BlockId) (st : EvalState),
      Tagging (g.evalContext p settings) Set.univ st
        (order.foldl (fun st b => (g.evalContext p settings).evalBlock (g.block b).tokens
          (st.on (r.progress.storeBefore b))) st) := by
    intro order
    induction order with
    | nil => exact fun st => .refl
    | cons b order ih =>
      exact fun st =>
        ((Tagging.refl.on _).trans (EvalContext.tagging_evalBlock _ _)).trans (ih _)
  have haccounts := (htagging g.reversePostorder {}).accounts (EvalState.accounts_empty p)
  rw [hsites, hannotations, List.mem_eraseDups, Array.mem_toList_iff, Annotations.mem_tokens_iff]
  exact haccounts d

/-- An expression evaluated on its own leaves tags on no tokens but its own. -/
theorem Program.mem_tokens_of_evalStandalone {p : Program} {flow : Bool} {root u : TokenId}
    (hu : u ∈ (p.evalStandalone flow root).annotations.tokens) : u ∈ (p.expr root).tokens := by
  have htags : EvalContext.Tags ⟨p, [], flow⟩ { u | u ∈ (p.expr root).tokens }
      (EvalContext.evaluate _ (p.expr root)) :=
    EvalContext.tags_eval (fun _ h => h) .operator
  refine ((htags {}).mem_or_contains (Annotations.mem_tokens_iff.1 hu)).resolve_right ?_
  simp [Annotations.contains, Annotations.get?, Annotations.lookupTag?]

end DivisorCheck
