/-
  Expression trees drawn over the tokens of a program.

  The links between tokens promise nothing.  `Program.FormsTrees` says what it
  takes for the operand and parent links to draw finite trees: a token is an
  operand of exactly its parent, and every way up ends.  Then the two views of an
  expression agree.  Seen from the top, `Program.expr` holds each token from which
  the top can be climbed to, once; seen from below, `Program.exprRoot` gets to the
  top.  So two tokens belong to the same expression exactly if they climb to the
  same root.
-/
import DivisorCheck.Expr
import DivisorCheck.Program.Roots
import Mathlib.Data.Finset.Card
import Mathlib.Data.List.Nodup

namespace DivisorCheck.Program

variable {p : Program} {t u c q r : TokenId} {m n : Nat}

/-- The token so many steps up from another one, if there are as many. -/
def ancestor? (p : Program) : Nat → TokenId → Option TokenId
  | 0, t => some t
  | n + 1, t => (p.ancestor? n t).bind fun q => (p.token q).parent

/-- The operand and parent links draw finite trees over the tokens. -/
structure FormsTrees (p : Program) : Prop where
  parent_of_left : ∀ t c, (p.token t).left = some c → (p.token c).parent = some t
  parent_of_right : ∀ t c, (p.token t).right = some c → (p.token c).parent = some t
  operand_of_parent : ∀ c t, (p.token c).parent = some t →
    (p.token t).left = some c ∨ (p.token t).right = some c
  apart : ∀ t c, (p.token t).left = some c → (p.token t).right ≠ some c
  ends : ∀ t, ∃ n, p.ancestor? n t = none

/-! ### Climbing -/

theorem ancestor?_add (m n : Nat) (t : TokenId) :
    p.ancestor? (m + n) t = (p.ancestor? m t).bind (p.ancestor? n) := by
  induction n with
  | zero => cases p.ancestor? m t <;> rfl
  | succ n ih =>
    rw [← Nat.add_assoc, ancestor?, ih, Option.bind_assoc]
    rfl

theorem ancestor?_one (t : TokenId) : p.ancestor? 1 t = (p.token t).parent := rfl

/-- The first step up comes first. -/
theorem ancestor?_of_parent (h : (p.token t).parent = some q) (n : Nat) :
    p.ancestor? (n + 1) t = p.ancestor? n q := by
  rw [Nat.add_comm, ancestor?_add, ancestor?_one, h]
  rfl

theorem ancestor?_eq_none_of_le (h : p.ancestor? m t = none) (hmn : m ≤ n) :
    p.ancestor? n t = none := by
  obtain ⟨k, rfl⟩ := Nat.exists_eq_add_of_le hmn
  rw [ancestor?_add, h]
  rfl

/-- On the way up to one token, the rest of the way up to another. -/
theorem ancestor?_sub (hm : p.ancestor? m t = some q) (hn : p.ancestor? n t = some r)
    (hmn : m ≤ n) : p.ancestor? (n - m) q = some r := by
  have hsplit := ancestor?_add (p := p) m (n - m) t
  rw [Nat.add_sub_cancel' hmn, hn, hm] at hsplit
  exact hsplit.symm

/-- A token beyond the end of the program is blank. -/
theorem token_of_le (h : p.tokens.size ≤ t) : p.token t = {} := by
  unfold token
  rw [Array.getD_eq_getD_getElem?, Array.getElem?_eq_none h]
  rfl

theorem lt_size_of_parent (h : (p.token t).parent = some q) : t < p.tokens.size := by
  by_contra hlt
  rw [token_of_le (Nat.le_of_not_lt hlt)] at h
  cases h

namespace FormsTrees

variable (h : p.FormsTrees)

include h

/-- No token is above itself. -/
theorem ancestor?_ne (n : Nat) (t : TokenId) : p.ancestor? (n + 1) t ≠ some t := by
  intro hcircle
  -- A circle could be gone round for ever, and no way up is that long.
  have hround : ∀ k, p.ancestor? (k * (n + 1)) t = some t := by
    intro k
    induction k with
    | zero => rw [Nat.zero_mul]; rfl
    | succ k ih =>
      rw [Nat.succ_mul, ancestor?_add, ih]
      exact hcircle
  obtain ⟨k, hk⟩ := h.ends t
  have hnone := ancestor?_eq_none_of_le hk (Nat.le_mul_of_pos_right k (Nat.succ_pos n))
  rw [hround k] at hnone
  cases hnone

/-- Different numbers of steps lead to different tokens. -/
theorem ancestor?_injective (hm : p.ancestor? m t = some q) (hn : p.ancestor? n t = some q) :
    m = n := by
  rcases Nat.lt_trichotomy m n with hlt | heq | hlt
  · have hback := ancestor?_sub hm hn (Nat.le_of_lt hlt)
    obtain ⟨k, hk⟩ := Nat.exists_eq_succ_of_ne_zero (Nat.sub_ne_zero_of_lt hlt)
    rw [hk] at hback
    exact absurd hback (h.ancestor?_ne k q)
  · exact heq
  · have hback := ancestor?_sub hn hm (Nat.le_of_lt hlt)
    obtain ⟨k, hk⟩ := Nat.exists_eq_succ_of_ne_zero (Nat.sub_ne_zero_of_lt hlt)
    rw [hk] at hback
    exact absurd hback (h.ancestor?_ne k q)

/-- A way up has at most as many steps as there are tokens. -/
theorem ancestor?_size (t : TokenId) : p.ancestor? (p.tokens.size + 1) t = none := by
  by_contra hsome
  -- All tokens below the last one of such a way have a parent, so they are tokens of the program,
  -- and there are too many of them to be different.
  have hstep : ∀ i ≤ p.tokens.size, ∃ c < p.tokens.size, p.ancestor? i t = some c := by
    intro i hi
    cases hc : p.ancestor? i t with
    | none => exact absurd (ancestor?_eq_none_of_le hc (Nat.le_succ_of_le hi)) hsome
    | some c =>
      refine ⟨c, ?_, rfl⟩
      cases hq : (p.token c).parent with
      | none =>
        refine absurd (ancestor?_eq_none_of_le (m := i + 1) ?_ (Nat.succ_le_succ hi)) hsome
        rw [ancestor?, hc]
        exact hq
      | some q => exact lt_size_of_parent hq
  obtain ⟨i, hi, j, hj, hne, heq⟩ := Finset.exists_ne_map_eq_of_card_lt_of_maps_to
    (s := Finset.range (p.tokens.size + 1)) (t := Finset.range p.tokens.size)
    (f := fun i => (p.ancestor? i t).getD 0) (by simp) (by
      intro i hi
      obtain ⟨c, hlt, hc⟩ := hstep i (Nat.le_of_lt_succ (Finset.mem_range.1 hi))
      simpa [hc] using hlt)
  obtain ⟨a, -, ha⟩ := hstep i (Nat.le_of_lt_succ (Finset.mem_range.1 hi))
  obtain ⟨b, -, hb⟩ := hstep j (Nat.le_of_lt_succ (Finset.mem_range.1 hj))
  rw [ha, hb] at heq
  obtain rfl : a = b := heq
  exact hne (h.ancestor?_injective ha hb)

theorem le_size_of_ancestor? (hn : p.ancestor? n t = some q) : n ≤ p.tokens.size := by
  by_contra hlt
  rw [ancestor?_eq_none_of_le (h.ancestor?_size t) (by omega)] at hn
  cases hn

/-! ### The top of an expression -/

theorem climb_spec (seen : List TokenId) {fuel : Nat} (hfuel : p.ancestor? fuel t = none)
    (hseen : ∀ s ∈ seen, ∃ k, p.ancestor? (k + 1) s = some t) :
    ∃ n, p.ancestor? n t = some (p.climb seen fuel t) ∧
      (p.token (p.climb seen fuel t)).parent = none := by
  induction fuel generalizing seen t with
  | zero => cases hfuel
  | succ fuel ih =>
    unfold climb
    cases hparent : (p.token t).parent with
    | none => exact ⟨0, rfl, hparent⟩
    | some q =>
      have hnew : t ∉ seen := fun hmem => by
        obtain ⟨k, hk⟩ := hseen t hmem
        exact h.ancestor?_ne k t hk
      simp only [if_neg hnew]
      rw [ancestor?_of_parent hparent] at hfuel
      obtain ⟨n, hn, htop⟩ := ih (t :: seen) hfuel (by
        intro s hs
        rcases List.mem_cons.1 hs with rfl | hs
        · exact ⟨0, hparent⟩
        · obtain ⟨k, hk⟩ := hseen s hs
          refine ⟨k + 1, ?_⟩
          rw [ancestor?, hk]
          exact hparent)
      exact ⟨n + 1, (ancestor?_of_parent hparent n).trans hn, htop⟩

theorem exists_ancestor?_exprRoot (t : TokenId) : ∃ n, p.ancestor? n t = some (p.exprRoot t) :=
  (h.climb_spec [] (h.ancestor?_size t) (by simp)).imp fun _ => And.left

theorem parent_exprRoot (t : TokenId) : (p.token (p.exprRoot t)).parent = none := by
  obtain ⟨-, -, htop⟩ := h.climb_spec [] (h.ancestor?_size t) (by simp)
  exact htop

/-- There is only one top above a token. -/
theorem exprRoot_eq (hn : p.ancestor? n t = some r) (hr : (p.token r).parent = none) :
    p.exprRoot t = r := by
  obtain ⟨m, hm⟩ := h.exists_ancestor?_exprRoot t
  have hend : ∀ {i j : Nat} {a b : TokenId}, p.ancestor? i t = some a → p.ancestor? j t = some b →
      (p.token a).parent = none → i ≤ j → a = b := by
    intro i j a b ha hb hparent hij
    have hrest := ancestor?_sub ha hb hij
    cases hk : j - i with
    | zero => rw [hk] at hrest; exact Option.some.inj hrest
    | succ k =>
      have hnone : p.ancestor? (k + 1) a = none :=
        ancestor?_eq_none_of_le (m := 1) hparent (Nat.le_add_left 1 k)
      rw [hk, hnone] at hrest
      cases hrest
  rcases Nat.le_total m n with hmn | hnm
  · exact hend hm hn (h.parent_exprRoot t) hmn
  · exact (hend hn hm hr hnm).symm

/-! ### The tree below a token -/

theorem mem_tokens_exprWithin {depth : Nat} :
    u ∈ (p.exprWithin depth (some t)).tokens ↔ ∃ n < depth, p.ancestor? n u = some t := by
  induction depth generalizing t with
  | zero => simp [exprWithin, Expr.tokens]
  | succ depth ih =>
    have hside : ∀ o : Option TokenId, u ∈ (p.exprWithin depth o).tokens ↔
        ∃ c, o = some c ∧ ∃ n < depth, p.ancestor? n u = some c := by
      rintro (_ | c)
      · cases depth <;> simp [exprWithin, Expr.tokens]
      · simpa using ih
    rw [exprWithin, Expr.tokens, List.mem_cons, List.mem_append, hside, hside]
    constructor
    · rintro (rfl | ⟨c, hc, n, hn, hup⟩ | ⟨c, hc, n, hn, hup⟩)
      · exact ⟨0, Nat.succ_pos depth, rfl⟩
      · refine ⟨n + 1, Nat.succ_lt_succ hn, ?_⟩
        rw [ancestor?, hup]
        exact h.parent_of_left t c hc
      · refine ⟨n + 1, Nat.succ_lt_succ hn, ?_⟩
        rw [ancestor?, hup]
        exact h.parent_of_right t c hc
    · rintro ⟨n, hn, hup⟩
      cases n with
      | zero => exact .inl (Option.some.inj hup)
      | succ n =>
        obtain ⟨c, hc, hparent⟩ := Option.bind_eq_some_iff.1 hup
        have hbelow : ∃ n < depth, p.ancestor? n u = some c := ⟨n, Nat.lt_of_succ_lt_succ hn, hc⟩
        rcases h.operand_of_parent c t hparent with hleft | hright
        · exact .inr (.inl ⟨c, hleft, hbelow⟩)
        · exact .inr (.inr ⟨c, hright, hbelow⟩)

/-- **An expression holds the tokens below its top,** and no others. -/
theorem mem_tokens_expr_iff : u ∈ (p.expr t).tokens ↔ ∃ n, p.ancestor? n u = some t := by
  unfold expr exprOf
  rw [h.mem_tokens_exprWithin]
  constructor
  · rintro ⟨n, -, hn⟩
    exact ⟨n, hn⟩
  · rintro ⟨n, hn⟩
    exact ⟨n, Nat.lt_succ_of_le (h.le_size_of_ancestor? hn), hn⟩

/-- Two tokens belong to the same whole expression exactly if they climb to the same top. -/
theorem mem_tokens_exprRoot_iff :
    u ∈ (p.expr (p.exprRoot t)).tokens ↔ p.exprRoot u = p.exprRoot t := by
  constructor
  · intro hu
    obtain ⟨n, hn⟩ := h.mem_tokens_expr_iff.1 hu
    exact h.exprRoot_eq hn (h.parent_exprRoot t)
  · intro heq
    rw [← heq]
    exact h.mem_tokens_expr_iff.2 (h.exists_ancestor?_exprRoot u)

/-- No token occurs twice in an expression. -/
theorem tokens_exprWithin_nodup (depth : Nat) (o : Option TokenId) :
    (p.exprWithin depth o).tokens.Nodup := by
  induction depth generalizing o with
  | zero => exact List.nodup_nil
  | succ depth ih =>
    cases o with
    | none => exact List.nodup_nil
    | some t =>
      have hbelow : ∀ {o : Option TokenId} {u}, u ∈ (p.exprWithin depth o).tokens →
          ∃ c, o = some c ∧ ∃ n, p.ancestor? n u = some c := by
        rintro (_ | c) u hu
        · cases depth <;> simp [exprWithin, Expr.tokens] at hu
        · obtain ⟨n, -, hn⟩ := h.mem_tokens_exprWithin.1 hu
          exact ⟨c, rfl, n, hn⟩
      have hup : ∀ {c u n}, p.ancestor? n u = some c → (p.token c).parent = some t →
          p.ancestor? (n + 1) u = some t := by
        intro c u n hn hc
        rw [ancestor?, hn]
        exact hc
      rw [exprWithin, Expr.tokens, List.nodup_cons, List.nodup_append]
      refine ⟨fun hmem => ?_, ih _, ih _, ?_⟩
      · -- A token among its own operands would be above itself.
        rcases List.mem_append.1 hmem with hmem | hmem
        · obtain ⟨c, hc, n, hn⟩ := hbelow hmem
          exact h.ancestor?_ne n t (hup hn (h.parent_of_left t c hc))
        · obtain ⟨c, hc, n, hn⟩ := hbelow hmem
          exact h.ancestor?_ne n t (hup hn (h.parent_of_right t c hc))
      · -- A token below both operands would be as far from one as from the other.
        rintro u hleft v hright rfl
        obtain ⟨a, ha, m, hm⟩ := hbelow hleft
        obtain ⟨b, hb, n, hn⟩ := hbelow hright
        have hmn := h.ancestor?_injective (hup hm (h.parent_of_left t a ha))
          (hup hn (h.parent_of_right t b hb))
        obtain rfl := Nat.succ.inj hmn
        rw [hm] at hn
        obtain rfl := Option.some.inj hn
        exact h.apart t a ha hb

theorem tokens_expr_nodup (t : TokenId) : (p.expr t).tokens.Nodup := h.tokens_exprWithin_nodup _ _

end FormsTrees

/-! ### Checking the links -/

/-- What a token must keep to for the links to draw trees. -/
def formsTreesAt (p : Program) (t : TokenId) : Bool :=
  let tok := p.token t
  (tok.left.all fun c => (p.token c).parent == some t) &&
  (tok.right.all fun c => (p.token c).parent == some t && tok.left != some c) &&
  (tok.parent.all fun q => (p.token q).left == some t || (p.token q).right == some t) &&
  (p.ancestor? (p.tokens.size + 1) t).isNone

/-- A token beyond the end of the program has no links. -/
theorem formsTreesAt_of_le (h : p.tokens.size ≤ t) : p.formsTreesAt t = true := by
  have hup : p.ancestor? (p.tokens.size + 1) t = none :=
    ancestor?_eq_none_of_le (m := 1) (by rw [ancestor?_one, token_of_le h]) (Nat.le_add_left 1 _)
  simp [formsTreesAt, token_of_le h, hup]

/-- The links draw trees if they do so at every token of the program. -/
theorem formsTrees_iff : p.FormsTrees ↔ ∀ t ∈ p.tokenIds, p.formsTreesAt t = true := by
  constructor
  · intro h t _
    simp only [formsTreesAt, Bool.and_eq_true, Option.all_eq_true, beq_iff_eq, bne_iff_ne,
      Bool.or_eq_true, Option.isNone_iff_eq_none]
    exact ⟨⟨⟨h.parent_of_left t, fun c hc => ⟨h.parent_of_right t c hc, fun hleft =>
      h.apart t c hleft hc⟩⟩, h.operand_of_parent t⟩, h.ancestor?_size t⟩
  · intro h
    have hall : ∀ t, p.formsTreesAt t = true := fun t => by
      by_cases ht : t < p.tokens.size
      · exact h t (List.mem_range.2 ht)
      · exact formsTreesAt_of_le (Nat.le_of_not_lt ht)
    simp only [formsTreesAt, Bool.and_eq_true, Option.all_eq_true, beq_iff_eq, bne_iff_ne,
      Bool.or_eq_true, Option.isNone_iff_eq_none] at hall
    exact {
      parent_of_left := fun t => (hall t).1.1.1
      parent_of_right := fun t c hc => ((hall t).1.1.2 c hc).1
      operand_of_parent := fun c t hc => (hall c).1.2 t hc
      apart := fun t c hleft hright => ((hall t).1.1.2 c hright).2 hleft
      ends := fun t => ⟨_, (hall t).2⟩ }

instance (p : Program) : Decidable p.FormsTrees :=
  decidable_of_iff (∀ t ∈ p.tokenIds, p.formsTreesAt t = true) formsTrees_iff.symm

end DivisorCheck.Program
