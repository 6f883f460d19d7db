/-
  Which tokens an expression reaches.

  These are the tokens that evaluating the expression is to tag, read off the
  expression alone (`Expr.reached`).  Nearly all tokens are.  Evaluation passes over
  the second operand of a conversion, of an increment and of a decrement, and it
  takes the keyword of a question about sizes, the name of a member and the target
  of a plain assignment to a tracked variable for single tokens, whatever hangs
  below them.

  Seen from below, a token is `Program.Concealed` if one of these steps lies on its
  way up to the top of its expression.  Every token that is not is reached from
  there (`Program.mem_reached_of_not_concealed`).
-/
import DivisorCheck.Proofs.Expr.Soundness
import DivisorCheck.Proofs.Program.Trees

namespace DivisorCheck

/-! ### Which tokens are reached -/

/-- The tokens below the top that evaluation tags, given those that it tags in the operands; of the
second one also as a list of arguments, and of the two as a choice. -/
def Program.reachedWith (p : Program) (t : TokenId) (l r : Expr)
    (left right arguments choice : List TokenId) : List TokenId :=
  match p.operation t l r with
  | .leaf => []
  | .cast => left
  | .assignment =>
    (if p.text t = "=" ∧ (l.trackedVar? p).isSome then l.token?.toList else left) ++ right
  | .increment => left
  | .sizeQuery => l.token?.toList ++ r.tokens
  | .call => left ++ arguments
  | .choice => choice
  | .shortCircuit => left ++ right
  | .unary => left
  | .comma => left ++ right
  | .member => left ++ r.token?.toList
  | .binary => left ++ right

namespace Expr

/-- The tokens that evaluation tags. -/
def reached (p : Program) : Expr → CommaRole → List TokenId
  | absent, _ => []
  | node t l r, role =>
    if role = .separator ∧ p.text t = "," ∧ !l.isAbsent ∧ !r.isAbsent then
      t :: (reached p l .separator ++ reached p r .separator)
    else
      let left := reached p l .operator
      let right := reached p r .operator
      let choice :=
        match r with
        | absent => left
        | node colon a b =>
          if p.text colon = ":" then
            left ++ colon :: (reached p a .operator ++ reached p b .operator)
          else left ++ right
      t :: p.reachedWith t l r left right (reached p r .separator) choice
termination_by structural e => e

variable {p : Program} {t u : TokenId} {l r e : Expr}

/-- The tokens of a choice that evaluation tags, given as the two operands. -/
def reachedChoice (p : Program) (l : Expr) : Expr → List TokenId
  | absent => l.reached p .operator
  | node colon a b =>
    if p.text colon = ":" then
      l.reached p .operator ++ colon :: (a.reached p .operator ++ b.reached p .operator)
    else l.reached p .operator ++ (node colon a b).reached p .operator

/-- The tokens below a node that evaluation tags. -/
def reachedBelow (p : Program) (t : TokenId) (l r : Expr) : List TokenId :=
  p.reachedWith t l r (l.reached p .operator) (r.reached p .operator) (r.reached p .separator)
    (reachedChoice p l r)

theorem reached_node (t : TokenId) (l r : Expr) (role : CommaRole) :
    (node t l r).reached p role =
      if role = .separator ∧ p.text t = "," ∧ !l.isAbsent ∧ !r.isAbsent then
        t :: (l.reached p .separator ++ r.reached p .separator)
      else t :: reachedBelow p t l r := by
  cases r <;> rfl

theorem mem_reached_of_token? (hu : e.token? = some u) (role : CommaRole) :
    u ∈ e.reached p role := by
  cases e with
  | absent => cases hu
  | node t l r =>
    cases hu
    rw [reached_node]
    split_ifs <;> exact List.mem_cons_self ..

theorem reached_leaf (t : TokenId) : (node t absent absent).reached p .operator = [t] := by
  simp [reached_node, reachedBelow, Program.reachedWith, Program.operation, isAbsent]

/-- All tokens that a node reaches lie where those lie that its operands reach. -/
theorem of_mem_reachedWith {P : TokenId → Prop} {left right arguments choice : List TokenId}
    (htop : ∀ u ∈ l.token?, P u) (hname : ∀ u ∈ r.token?, P u) (hr : ∀ u ∈ r.tokens, P u)
    (hleft : ∀ u ∈ left, P u) (hright : ∀ u ∈ right, P u) (harguments : ∀ u ∈ arguments, P u)
    (hchoice : ∀ u ∈ choice, P u) (hu : u ∈ p.reachedWith t l r left right arguments choice) :
    P u := by
  have hboth : ∀ {us vs : List TokenId}, (∀ u ∈ us, P u) → (∀ v ∈ vs, P v) → u ∈ us ++ vs → P u :=
    fun hus hvs hmem => (List.mem_append.1 hmem).elim (hus u) (hvs u)
  unfold Program.reachedWith at hu
  cases hop : p.operation t l r <;> rw [hop] at hu
  case leaf => cases hu
  case cast => exact hleft u hu
  case assignment =>
    refine hboth (fun v hv => ?_) hright hu
    split_ifs at hv
    · exact htop v (Option.mem_toList.1 hv)
    · exact hleft v hv
  case increment => exact hleft u hu
  case sizeQuery => exact hboth (fun v hv => htop v (Option.mem_toList.1 hv)) hr hu
  case call => exact hboth hleft harguments hu
  case choice => exact hchoice u hu
  case shortCircuit => exact hboth hleft hright hu
  case unary => exact hleft u hu
  case comma => exact hboth hleft hright hu
  case member => exact hboth hleft (fun v hv => hname v (Option.mem_toList.1 hv)) hu
  case binary => exact hboth hleft hright hu

/-- Evaluation tags tokens of the expression only. -/
theorem mem_tokens_of_mem_reached {role : CommaRole} (hu : u ∈ e.reached p role) :
    u ∈ e.tokens := by
  induction e using induction_arms generalizing u role with
  | habsent => cases hu
  | hnode t l r ihl ihr iharms =>
    have hleft : ∀ {role : CommaRole}, ∀ u ∈ l.reached p role, u ∈ l.tokens ++ r.tokens :=
      fun u h => List.mem_append_left _ (ihl h)
    have hright : ∀ {role : CommaRole}, ∀ u ∈ r.reached p role, u ∈ l.tokens ++ r.tokens :=
      fun u h => List.mem_append_right _ (ihr h)
    have hchoice : ∀ u ∈ reachedChoice p l r, u ∈ l.tokens ++ r.tokens := by
      intro u hmem
      cases r with
      | absent => exact hleft u hmem
      | node colon a b =>
        obtain ⟨iha, ihb⟩ := iharms colon a b rfl
        have harms : u ∈ colon :: (a.reached p .operator ++ b.reached p .operator) →
            u ∈ (node colon a b).tokens := by
          intro harm
          rcases List.mem_cons.1 harm with rfl | harm
          · exact List.mem_cons_self ..
          · refine List.mem_cons_of_mem _ (List.mem_append.2 ?_)
            exact (List.mem_append.1 harm).imp (fun h => iha h) fun h => ihb h
        rw [reachedChoice] at hmem
        split_ifs at hmem
        · exact (List.mem_append.1 hmem).elim (hleft u) fun h => List.mem_append_right _ (harms h)
        · exact (List.mem_append.1 hmem).elim (hleft u) (hright u)
    rw [reached_node] at hu
    rw [tokens, List.mem_cons]
    split_ifs at hu
    · exact (List.mem_cons.1 hu).imp_right fun h => (List.mem_append.1 h).elim (hleft u) (hright u)
    · refine (List.mem_cons.1 hu).imp_right
        (of_mem_reachedWith ?_ ?_ ?_ hleft hright hright hchoice)
      · exact fun u h => List.mem_append_left _ (mem_tokens_of_token? h)
      · exact fun u h => List.mem_append_right _ (mem_tokens_of_token? h)
      · exact fun u h => List.mem_append_right _ h

end Expr

/-! ### Seen from below -/

namespace Program

/-- Evaluating `q` passes over its operand `c`. -/
def PassesOver (p : Program) (q c : TokenId) : Prop :=
  (p.token q).right = some c ∧ (p.isCast q = true ∨ p.isStep q = true)

/-- Evaluating `q` takes its operand `c` for a single token, whatever hangs below it. -/
def TakesAsName (p : Program) (q c : TokenId) : Prop :=
  ((p.token q).left = some c ∧
    (p.isSizeQuery q = true ∨ p.text q = "=" ∧ (p.trackedVar? c).isSome = true)) ∨
  ((p.token q).right = some c ∧ p.isMemberAccess q = true)

/-- On the way up from the token lies an operand that evaluation passes over, or strictly above the
token one that it takes for a single token. -/
def Concealed (p : Program) (u : TokenId) : Prop :=
  ∃ n c q, p.ancestor? n u = some c ∧ (p.token c).parent = some q ∧
    (p.PassesOver q c ∨ 0 < n ∧ p.TakesAsName q c)

variable {p : Program} {t u : TokenId} {l r : Expr}

/-- A colon reaches at most what its operands reach. -/
theorem mem_arms_of_mem_reached {colon : TokenId} {a b : Expr} (hcolon : p.text colon = ":")
    (hu : u ∈ (Expr.node colon a b).reached p .operator) :
    u ∈ colon :: (a.reached p .operator ++ b.reached p .operator) := by
  have hno : ∀ {op : String}, op ≠ ":" → p.text colon ≠ op := fun hop heq =>
    hop (heq.symm.trans hcolon)
  have hcall : p.isCall colon = false := isCall_eq_false_of_text (hno (by decide))
  rw [Expr.reached_node, if_neg (fun h => nomatch h.1)] at hu
  refine (List.mem_cons.1 hu).elim (fun h => h ▸ List.mem_cons_self ..) fun hu => ?_
  refine List.mem_cons_of_mem _ (List.mem_append.2 ?_)
  have hop := operation_cases p colon a b
  unfold Expr.reachedBelow reachedWith at hu
  cases hkind : p.operation colon a b <;> rw [hkind] at hop hu
  case leaf => cases hu
  case cast => exact .inl hu
  case assignment => exact absurd hcolon (text_ne_of_isAssignment hop.1 (by decide))
  case increment => simp [isStep, hcolon] at hop
  case sizeQuery => simp [isSizeQuery, hcall] at hop
  case call => simp [hcall] at hop
  case choice => exact absurd hop (hno (by decide))
  case shortCircuit => exact hop.elim (absurd · (hno (by decide))) (absurd · (hno (by decide)))
  case unary => exact .inl hu
  case comma => exact absurd hop.1 (hno (by decide))
  case member => simp [isMemberAccess, hcolon] at hop
  case binary => exact List.mem_append.1 hu

/-- What a first operand reaches, the node reaches, unless it takes the operand for a name. -/
theorem mem_reached_left (hu : ∀ role, u ∈ l.reached p role)
    (hname : l.token? = some u ∨ ¬ (p.isSizeQuery t = true ∨
      p.text t = "=" ∧ (l.trackedVar? p).isSome = true)) (role : CommaRole) :
    u ∈ (Expr.node t l r).reached p role := by
  rw [Expr.reached_node]
  split_ifs with hsep
  · exact List.mem_cons_of_mem _ (List.mem_append_left _ (hu _))
  · refine List.mem_cons_of_mem _ ?_
    have hop := operation_cases p t l r
    unfold Expr.reachedBelow reachedWith
    cases hkind : p.operation t l r <;> rw [hkind] at hop <;> dsimp only
    case leaf =>
      have hnone := hu .operator
      rw [hop.1] at hnone
      cases hnone
    case cast => exact hu _
    case assignment =>
      refine List.mem_append_left _ ?_
      split_ifs with htracked
      · exact Option.mem_toList.2 (hname.resolve_right fun h => h (.inr htracked))
      · exact hu _
    case increment => exact hu _
    case sizeQuery =>
      exact List.mem_append_left _ (Option.mem_toList.2 (hname.resolve_right fun h => h (.inl hop)))
    case call => exact List.mem_append_left _ (hu _)
    case choice =>
      cases r with
      | absent => exact hu _
      | node colon a b =>
        rw [Expr.reachedChoice]
        split_ifs <;> exact List.mem_append_left _ (hu _)
    case shortCircuit => exact List.mem_append_left _ (hu _)
    case unary => exact hu _
    case comma => exact List.mem_append_left _ (hu _)
    case member => exact List.mem_append_left _ (hu _)
    case binary => exact List.mem_append_left _ (hu _)

/-- What a second operand reaches, the node reaches, unless it passes over the operand or takes it
for a name. -/
theorem mem_reached_right (hu : ∀ role, u ∈ r.reached p role)
    (hover : ¬ (p.isCast t = true ∨ p.isStep t = true))
    (hname : r.token? = some u ∨ ¬ p.isMemberAccess t = true) (role : CommaRole) :
    u ∈ (Expr.node t l r).reached p role := by
  have hpresent : r ≠ .absent := by
    rintro rfl
    exact nomatch hu .operator
  rw [Expr.reached_node]
  split_ifs with hsep
  · exact List.mem_cons_of_mem _ (List.mem_append_right _ (hu _))
  · refine List.mem_cons_of_mem _ ?_
    have hop := operation_cases p t l r
    unfold Expr.reachedBelow reachedWith
    cases hkind : p.operation t l r <;> rw [hkind] at hop <;> dsimp only
    case leaf => exact absurd hop.2 hpresent
    case cast => exact absurd (.inl hop) hover
    case assignment => exact List.mem_append_right _ (hu _)
    case increment => exact absurd (.inr hop.1) hover
    case sizeQuery =>
      exact List.mem_append_right _ (Expr.mem_tokens_of_mem_reached (hu .operator))
    case call => exact List.mem_append_right _ (hu _)
    case choice =>
      cases r with
      | absent => exact absurd rfl hpresent
      | node colon a b =>
        rw [Expr.reachedChoice]
        split_ifs with hcolon
        · exact List.mem_append_right _ (mem_arms_of_mem_reached hcolon (hu _))
        · exact List.mem_append_right _ (hu _)
    case shortCircuit => exact List.mem_append_right _ (hu _)
    case unary => exact absurd hop.1 hpresent
    case comma => exact List.mem_append_right _ (hu _)
    case member =>
      exact List.mem_append_right _
        (Option.mem_toList.2 (hname.resolve_right fun h => h hop.1))
    case binary => exact List.mem_append_right _ (hu _)

theorem mem_reached_of_path {n depth : Nat} (hn : p.ancestor? n u = some t) (hdepth : n < depth)
    (h : p.FormsTrees) (hclear : ∀ m < n, ∀ c q, p.ancestor? m u = some c →
      (p.token c).parent = some q → ¬ p.PassesOver q c ∧ (0 < m → ¬ p.TakesAsName q c))
    (role : CommaRole) : u ∈ (p.exprWithin depth (some t)).reached p role := by
  induction n generalizing t depth role with
  | zero =>
    obtain ⟨d, rfl⟩ := Nat.exists_eq_add_one_of_ne_zero (Nat.ne_zero_of_lt hdepth)
    obtain rfl : u = t := Option.some.inj hn
    exact Expr.mem_reached_of_token? rfl role
  | succ n ih =>
    obtain ⟨c, hc, hparent⟩ := Option.bind_eq_some_iff.1 hn
    obtain ⟨d, rfl⟩ := Nat.exists_eq_add_one_of_ne_zero (Nat.ne_zero_of_lt hdepth)
    have hd : n < d := Nat.lt_of_succ_lt_succ hdepth
    obtain ⟨d, rfl⟩ := Nat.exists_eq_add_one_of_ne_zero (Nat.ne_zero_of_lt hd)
    have hu := ih hc hd fun m hm => hclear m (Nat.lt_succ_of_lt hm)
    obtain ⟨hover, hname⟩ := hclear n (Nat.lt_succ_self n) c t hc hparent
    -- The operand itself is reached whatever it is taken for.
    have htop : 0 < n ∨ u = c := by
      rcases Nat.eq_zero_or_pos n with rfl | hpos
      · exact .inr (Option.some.inj hc)
      · exact .inl hpos
    rw [exprWithin]
    rcases h.operand_of_parent c t hparent with hleft | hright
    · rw [hleft]
      refine mem_reached_left hu ?_ role
      rcases htop with hpos | rfl
      · exact .inr fun hsingle => hname hpos (.inl ⟨hleft, hsingle⟩)
      · exact .inl rfl
    · rw [hright]
      refine mem_reached_right hu (fun hskip => hover ⟨hright, hskip⟩) ?_ role
      rcases htop with hpos | rfl
      · exact .inr fun hmember => hname hpos (.inr ⟨hright, hmember⟩)
      · exact .inl rfl

/-- **Evaluating an expression tags every token that is not concealed.** -/
theorem mem_reached_of_not_concealed (h : p.FormsTrees) (hu : ¬ p.Concealed u) :
    u ∈ (p.expr (p.exprRoot u)).reached p .operator := by
  obtain ⟨n, hn⟩ := h.exists_ancestor?_exprRoot u
  refine mem_reached_of_path hn (Nat.lt_succ_of_le (h.le_size_of_ancestor? hn)) h ?_ _
  exact fun m _ c q hc hparent => ⟨fun hover => hu ⟨m, c, q, hc, hparent, .inl hover⟩,
    fun hpos hname => hu ⟨m, c, q, hc, hparent, .inr ⟨hpos, hname⟩⟩⟩

end Program

end DivisorCheck
