/-
  Which aliases of a variable are seen.

  An lvalue may denote a tracked variable without being its name: through a
  conversion, a member, a subscript, either arm of a choice, the last operand of a
  comma, or the target of a write (`Program.Denotes`).  Taking its address or binding
  a reference to it makes the variable escape, and passing it for a reference
  parameter lends the variable to the call.

  `Program.RestsOn` is the part of `Denotes` that the search for the variable follows,
  with the number of its steps.  What is found is exactly what rests on a name within
  64 steps, and for an argument within none (`aliases_seen`).  On lvalues that are
  nothing but conversions, members and subscripts of a name, it is all there is to
  find (`Straight.restsOn`); on the others it is not (`aliases_missed`).
-/
import DivisorCheck.Expr.Effects
import Mathlib.Data.List.Basic
import Mathlib.Tactic.SplitIfs

namespace DivisorCheck

namespace Program

variable {p : Program} {t e l : TokenId} {v : VarId} {m n : Nat}

/-! ### What an lvalue denotes -/

/-- The operator passes on what its first operand denotes. -/
def PassesOn (p : Program) (t : TokenId) : Prop :=
  p.isMemberAccess t = true ∨ p.isSubscript t = true ∨ p.isCast t = true

/-- The operator writes to its first operand and stands for it afterwards. -/
def YieldsTarget (p : Program) (t : TokenId) : Prop :=
  p.isAssignment t = true ∨ p.isStep t = true ∧ p.isPostfix t = false

/-- The tracked variables that an lvalue may denote. -/
inductive Denotes (p : Program) : TokenId → VarId → Prop where
  | name {t : TokenId} {v : VarId} (hv : p.trackedVar? t = some v) : Denotes p t v
  | base {t l : TokenId} {v : VarId} (ht : p.PassesOn t) (hl : (p.token t).left = some l)
    (h : Denotes p l v) : Denotes p t v
  | arm {t colon a : TokenId} {v : VarId} (ht : p.text t = "?")
    (hcolon : (p.token t).right = some colon) (htext : p.text colon = ":")
    (ha : (p.token colon).left = some a ∨ (p.token colon).right = some a)
    (h : Denotes p a v) : Denotes p t v
  | comma {t r : TokenId} {v : VarId} (ht : p.text t = ",") (hr : (p.token t).right = some r)
    (h : Denotes p r v) : Denotes p t v
  | target {t l : TokenId} {v : VarId} (ht : p.YieldsTarget t) (hl : (p.token t).left = some l)
    (h : Denotes p l v) : Denotes p t v

/-- The lvalue comes down to the name of a tracked variable by so many first operands. -/
inductive RestsOn (p : Program) : Nat → TokenId → VarId → Prop where
  | name {t : TokenId} {v : VarId} (hv : p.trackedVar? t = some v) : RestsOn p 0 t v
  | step {n : Nat} {t l : TokenId} {v : VarId} (hid : (p.token t).varId = 0) (ht : p.PassesOn t)
    (hl : (p.token t).left = some l) (h : RestsOn p n l v) : RestsOn p (n + 1) t v

/-- The lvalue consists of so many conversions, members and subscripts around a name. -/
inductive Straight (p : Program) : Nat → TokenId → Prop where
  | name {t : TokenId} (hleft : (p.token t).left = none) (hright : (p.token t).right = none) :
    Straight p 0 t
  | step {n : Nat} {t l : TokenId} (hid : (p.token t).varId = 0) (ht : p.PassesOn t)
    (hplain : p.text t ∉ "?" :: "," :: "++" :: "--" :: assignmentOperators)
    (hl : (p.token t).left = some l) (h : Straight p n l) : Straight p (n + 1) t

theorem trackedVar?_of_varId (h : (p.token t).varId = 0) : p.trackedVar? t = none := by
  simp [trackedVar?, h]

theorem RestsOn.denotes (h : p.RestsOn n e v) : p.Denotes e v := by
  induction h with
  | name hv => exact .name hv
  | step _ ht hl _ ih => exact .base ht hl ih

theorem YieldsTarget.text_mem (h : p.YieldsTarget t) :
    p.text t ∈ "?" :: "," :: "++" :: "--" :: assignmentOperators := by
  rcases h with hassign | ⟨hstep, -⟩
  · have hop : p.text t ∈ assignmentOperators := by
      simpa using (Bool.and_eq_true_iff.1 hassign).1
    simp [hop]
  · have hop : p.text t = "++" ∨ p.text t = "--" := by simpa [isStep] using hstep
    rcases hop with hop | hop
    · simp [hop]
    · simp [hop]

/-- A straight lvalue denotes nothing but the variable that it rests on. -/
theorem Straight.restsOn (h : p.Straight n e) (hv : p.Denotes e v) : p.RestsOn n e v := by
  induction h with
  | name hleft hright =>
    -- A name has no operands, so nothing but itself can be denoted through it.
    cases hv with
    | name hv => exact .name hv
    | base _ hl => simp [hleft] at hl
    | arm _ hcolon => simp [hright] at hcolon
    | comma _ hr => simp [hright] at hr
    | target _ hl => simp [hleft] at hl
  | @step n t l hid ht hplain hl _ ih =>
    cases hv with
    | name hv => simp [trackedVar?_of_varId hid] at hv
    | base _ hl' hv =>
      obtain rfl : l = _ := Option.some.inj (hl.symm.trans hl')
      exact .step hid ht hl (ih hv)
    | arm htext => exact absurd (by simp [htext]) hplain
    | comma htext => exact absurd (by simp [htext]) hplain
    | target hyields => exact absurd hyields.text_mem hplain

/-! ### The search for the variable -/

/-- Within `m` levels the search finds what takes fewer than `m` steps. -/
theorem bind_baseWithin_iff :
    (p.baseWithin m (some e)).bind p.trackedVar? = some v ↔ ∃ n < m, p.RestsOn n e v := by
  induction m generalizing e with
  | zero => simp [baseWithin]
  | succ m ih =>
    constructor
    -- A token with a variable ends the search, tracked or not.
    · intro h
      unfold baseWithin at h
      split_ifs at h with hid hpass
      · exact ⟨0, Nat.succ_pos m, .name h⟩
      · cases hl : (p.token e).left with
        | none =>
          rw [hl] at h
          cases m <;> cases h
        | some l =>
          rw [hl] at h
          obtain ⟨n, hn, hrests⟩ := ih.1 h
          have ht : p.PassesOn e := by simpa [PassesOn, or_assoc] using hpass
          exact ⟨n + 1, Nat.succ_lt_succ hn, .step (not_not.1 hid) ht hl hrests⟩
      · cases h
    · rintro ⟨n, hn, hrests⟩
      cases hrests with
      | name hv =>
        have hid : (p.token e).varId ≠ 0 := fun hid => by simp [trackedVar?_of_varId hid] at hv
        simp [baseWithin, hid, hv]
      | @step n _ l _ hid ht hl hrests =>
        have hpass : (p.isMemberAccess e || p.isSubscript e || p.isCast e) = true := by
          simpa [PassesOn, or_assoc] using ht
        rw [baseWithin, if_neg (not_not.2 hid), if_pos hpass, hl]
        exact ih.2 ⟨n, Nat.lt_of_succ_lt_succ hn, hrests⟩

/-- The search of the analysis, which goes down at most 64 levels. -/
theorem bind_baseVariable?_iff {o : Option TokenId} :
    (p.baseVariable? o).bind p.trackedVar? = some v ↔
      ∃ e, o = some e ∧ ∃ n < 64, p.RestsOn n e v := by
  cases o with
  | none => simp [baseVariable?, baseWithin]
  | some e => simp only [baseVariable?, bind_baseWithin_iff, Option.some.injEq, exists_eq_left']

/-! ### Escaping -/

/-- The token names a reference. -/
def NamesReference (p : Program) (l : TokenId) : Prop :=
  ∃ w, p.varOf? l = some w ∧ w.isReference = true

/-- The token takes the address of the lvalue, or binds a reference to it. -/
def Binds (p : Program) (t e : TokenId) : Prop :=
  p.isAddressOf t = true ∧ (p.token t).left = some e ∨
  p.text t = "=" ∧ (∃ l, (p.token t).left = some l ∧ p.NamesReference l) ∧
    (p.token t).right = some e

/-- The token names the variable in the body of a lambda. -/
def Captures (p : Program) (t : TokenId) (v : VarId) : Prop :=
  p.isAddressOf t = false ∧ ¬ (p.text t = "=" ∧ (p.token t).left.isSome) ∧
    p.scopeKind t = "Lambda" ∧ p.trackedVar? t = some v

/-- What a token lets escape. -/
theorem escapesAt_iff :
    p.escapesAt t = some v ↔
      (∃ e, p.Binds t e ∧ ∃ n < 64, p.RestsOn n e v) ∨ p.Captures t v := by
  unfold escapesAt
  extract_lets tok
  by_cases haddress : p.isAddressOf t = true
  · have htext : p.text t ≠ "=" := by
      intro htext
      simp [isAddressOf, htext] at haddress
    rw [if_pos haddress, bind_baseVariable?_iff]
    simp [Binds, Captures, haddress, htext, tok]
  rw [if_neg haddress]
  by_cases hassign : p.text t = "=" ∧ (p.token t).left.isSome
  · obtain ⟨htext, hsome⟩ := hassign
    obtain ⟨l, hl⟩ := Option.isSome_iff_exists.1 hsome
    have hif : tok.text = "=" ∧ tok.left.isSome := ⟨htext, hsome⟩
    have hbinds : ∀ e, p.Binds t e ↔ p.NamesReference l ∧ (p.token t).right = some e := by
      intro e
      simp [Binds, haddress, htext, hl]
    have hcaptures : ¬ p.Captures t v := fun h => h.2.1 ⟨htext, hsome⟩
    rw [if_pos hif, show tok.left = some l from hl]
    simp only [Option.bind_some, hbinds, hcaptures, or_false]
    unfold NamesReference
    cases hw : p.varOf? l with
    | none => simp
    | some w =>
      by_cases hreference : w.isReference = true
      · simp [hreference, bind_baseVariable?_iff, tok]
      · simp [hreference]
  -- Only tokens that bind nothing are asked for the lambda that they stand in.
  · have hif : ¬ (tok.text = "=" ∧ tok.left.isSome) := hassign
    have hbinds : ∀ e, ¬ p.Binds t e := by
      rintro e (⟨h, -⟩ | ⟨htext, ⟨l, hl, -⟩, -⟩)
      · exact haddress h
      · exact hassign ⟨htext, by rw [hl]; rfl⟩
    rw [if_neg hif]
    simp [hbinds, Captures, haddress, hassign]

theorem mem_escaped_iff {ts : List TokenId} :
    v ∈ p.escaped ts ↔
      (∃ t ∈ ts, ∃ e, p.Binds t e ∧ ∃ n < 64, p.RestsOn n e v) ∨ ∃ t ∈ ts, p.Captures t v := by
  simp only [escaped, List.mem_eraseDups, List.mem_filterMap, escapesAt_iff, and_or_left,
    exists_or]

/-! ### Lending to calls -/

/-- The function that a callee names. -/
def calleeFunction? (p : Program) (callee : Expr) : Option FunctionId :=
  callee.token?.bind fun c => (p.token c).function

/-- The call may change the argument at the place, counted from zero: its parameter is a reference,
or could be one because the function is not known. -/
def Lends (p : Program) (call : TokenId) (callee : Expr) (i : Nat) : Prop :=
  (∃ f param, p.calleeFunction? callee = some f ∧ (p.function f).param? (i + 1) = some param ∧
    (p.varAt param).isReference = true) ∨
  p.calleeFunction? callee = none ∧ p.inReferenceSource call = true

theorem lentVar?_iff {call : TokenId} {callee arg : Expr} {i : Nat} :
    Expr.lentVar? p call (p.calleeFunction? callee) (i + 1) arg = some v ↔
      p.Lends call callee i ∧ arg.trackedVar? p = some v := by
  unfold Expr.lentVar? Lends
  cases arg.trackedVar? p with
  | none => simp
  | some w =>
    cases hf : p.calleeFunction? callee with
    | none => simp
    | some f =>
      cases hparam : (p.function f).param? (i + 1) with
      | none => simp [hparam]
      | some param => simp [hparam]

theorem mem_lentVars_iff {call : TokenId} {callee args : Expr} :
    v ∈ (Expr.node call callee args).lentVars p ↔
      ∃ i arg, (args.commaParts p)[i]? = some arg ∧ p.Lends call callee i ∧
        arg.trackedVar? p = some v := by
  have hlent : (Expr.node call callee args).lentVars p =
      ((args.commaParts p).zipIdx.filterMap fun a =>
        Expr.lentVar? p call (p.calleeFunction? callee) (a.2 + 1) a.1).eraseDups := rfl
  rw [hlent, List.mem_eraseDups, List.mem_filterMap, Prod.exists]
  simp only [List.mk_mem_zipIdx_iff_getElem?, lentVar?_iff]
  rw [exists_comm]

/-- **Which aliases of a variable are seen.**  Let an lvalue consist of conversions, members and
subscripts around a name.  If its address is taken or a reference bound to it, and there are fewer
than 64 of them, what it denotes escapes; if it is an argument that a call may change and there are
none, what it denotes is lent to the call.  Nothing else is found: besides what lambdas mention,
exactly those variables escape that a bound lvalue rests on within 64 steps, and exactly those are
lent that an argument names.  All of these are denoted. -/
theorem aliases_seen (p : Program) :
    (∀ ts t e n v, t ∈ ts → p.Binds t e → p.Straight n e → n < 64 → p.Denotes e v →
      v ∈ p.escaped ts) ∧
    (∀ call callee args i arg e v, (args.commaParts p)[i]? = some arg → p.Lends call callee i →
      arg.token? = some e → p.Straight 0 e → p.Denotes e v →
      v ∈ (Expr.node call callee args).lentVars p) ∧
    (∀ ts v, v ∈ p.escaped ts ↔
      (∃ t ∈ ts, ∃ e, p.Binds t e ∧ ∃ n < 64, p.RestsOn n e v) ∨ ∃ t ∈ ts, p.Captures t v) ∧
    (∀ call callee args v, v ∈ (Expr.node call callee args).lentVars p ↔
      ∃ i arg, (args.commaParts p)[i]? = some arg ∧ p.Lends call callee i ∧
        ∃ e, arg.token? = some e ∧ p.RestsOn 0 e v) ∧
    ∀ n e v, p.RestsOn n e v → p.Denotes e v := by
  have hnamed : ∀ {arg : Expr} {v : VarId}, arg.trackedVar? p = some v ↔
      ∃ e, arg.token? = some e ∧ p.RestsOn 0 e v := by
    intro arg v
    have hzero : ∀ {e}, p.RestsOn 0 e v ↔ p.trackedVar? e = some v :=
      ⟨fun h => by cases h; assumption, .name⟩
    cases htop : arg.token? with
    | none => simp [Expr.trackedVar?, trackedVarOf?, htop]
    | some e => simp [Expr.trackedVar?, trackedVarOf?, htop, hzero]
  refine ⟨?_, ?_, fun ts v => mem_escaped_iff, ?_, fun n e v h => h.denotes⟩
  · intro ts t e n v ht hbinds hstraight hn hv
    exact mem_escaped_iff.2 (.inl ⟨t, ht, e, hbinds, n, hn, hstraight.restsOn hv⟩)
  · intro call callee args i arg e v harg hlends htop hstraight hv
    exact mem_lentVars_iff.2 ⟨i, arg, harg, hlends, hnamed.2 ⟨e, htop, hstraight.restsOn hv⟩⟩
  · intro call callee args v
    simp only [mem_lentVars_iff, hnamed]

end Program

/-! ### Aliases that are seen, and others that are not -/

/-- `&s[2].f; set(x);`, where `set` takes a reference. -/
def seenAliases : Program where
  tokens := #[
    { text := "&", left := some 5, next := some 1 },
    { text := "s", varId := 1, var := some 0, parent := some 2, next := some 2,
      previous := some 0 },
    { text := "[", left := some 1, right := some 3, parent := some 5, next := some 3,
      previous := some 1, link := some 4 },
    { text := "2", isNumber := true, parent := some 2, next := some 4, previous := some 2 },
    { text := "]", next := some 5, previous := some 3, link := some 2 },
    { text := ".", left := some 2, right := some 6, parent := some 0, next := some 6,
      previous := some 4 },
    { text := "f", parent := some 5, next := some 7, previous := some 5 },
    { text := ";", next := some 8, previous := some 6 },
    { text := "set", function := some 0, parent := some 9, next := some 9, previous := some 7 },
    { text := "(", left := some 8, right := some 10, next := some 10, previous := some 8,
      link := some 11 },
    { text := "x", varId := 2, var := some 1, parent := some 9, next := some 11,
      previous := some 9 },
    { text := ")", previous := some 10, link := some 9 }]
  vars := #[{ id := 1, isLocal := true }, { id := 2, isLocal := true },
    { id := 3, isArgument := true, isReference := true }]
  functions := #[{ name := some "set", params := [(1, 2)] }]

theorem aliases_seen_seenAliases :
    1 ∈ seenAliases.escaped seenAliases.tokenIds ∧
    2 ∈ (Expr.node 9 (.node 8 .absent .absent) (.node 10 .absent .absent)).lentVars
      seenAliases := by
  obtain ⟨hescapes, hlends, -⟩ := Program.aliases_seen seenAliases
  have hsubscript : seenAliases.PassesOn 2 := .inr (.inl (by decide))
  have hmember : seenAliases.PassesOn 5 := .inl (by decide)
  constructor
  · have hstraight : seenAliases.Straight 2 5 :=
      .step (by decide) hmember (by decide) rfl
        (.step (by decide) hsubscript (by decide) rfl (.name rfl rfl))
    have hdenotes : seenAliases.Denotes 5 1 :=
      .base hmember rfl (.base hsubscript rfl (.name (by decide)))
    exact hescapes _ 0 5 2 1 (by decide) (.inl (by decide)) hstraight (by decide) hdenotes
  · exact hlends 9 _ _ 0 (.node 10 .absent .absent) 10 2 (by decide)
      (.inl ⟨0, 2, by decide, by decide, by decide⟩) rfl (.name (by decide) (by decide))
      (.name (by decide))

/-- `&(c ? x : y); set((int &)x);`, where `set` takes a reference. -/
def missedAliases : Program where
  tokens := #[
    { text := "&", left := some 3, next := some 1 },
    { text := "(", next := some 2, previous := some 0, link := some 7 },
    { text := "c", parent := some 3, next := some 3, previous := some 1 },
    { text := "?", left := some 2, right := some 5, parent := some 0, next := some 4,
      previous := some 2 },
    { text := "x", varId := 1, var := some 0, parent := some 5, next := some 5,
      previous := some 3 },
    { text := ":", left := some 4, right := some 6, parent := some 3, next := some 6,
      previous := some 4 },
    { text := "y", varId := 2, var := some 1, parent := some 5, next := some 7,
      previous := some 5 },
    { text := ")", next := some 8, previous := some 6, link := some 1 },
    { text := ";", next := some 9, previous := some 7 },
    { text := "set", function := some 0, parent := some 10, next := some 10, previous := some 8 },
    { text := "(", left := some 9, right := some 11, next := some 11, previous := some 9,
      link := some 16 },
    { text := "(", isCast := true, left := some 15, parent := some 10, next := some 12,
      previous := some 10, link := some 14 },
    { text := "int", next := some 13, previous := some 11 },
    { text := "&", next := some 14, previous := some 12 },
    { text := ")", next := some 15, previous := some 13, link := some 11 },
    { text := "x", varId := 1, var := some 0, parent := some 11, next := some 16,
      previous := some 14 },
    { text := ")", previous := some 15, link := some 10 }]
  vars := #[{ id := 1, isLocal := true }, { id := 2, isLocal := true },
    { id := 3, isArgument := true, isReference := true }]
  functions := #[{ name := some "set", params := [(1, 2)] }]

/-- The address of `x` behind 64 conversions. -/
def deepAlias : Program where
  tokens := #[{ text := "&", left := some 1 }] ++
    Array.ofFn (fun i : Fin 64 => { text := "(", isCast := true, left := some (i.val + 2) }) ++
    #[{ text := "x", varId := 1, var := some 0 }]
  vars := #[{ id := 1, isLocal := true }]

theorem straight_deepAlias : deepAlias.Straight 64 1 ∧ deepAlias.Denotes 1 1 := by
  have hcasts : ∀ t : Nat, t < 64 →
      (deepAlias.token (t + 1)).varId = 0 ∧ deepAlias.isCast (t + 1) = true ∧
      deepAlias.text (t + 1) = "(" ∧ (deepAlias.token (t + 1)).left = some (t + 2) := by
    decide +kernel
  -- From the name outwards: behind `n` conversions is the token `65 - n`.
  have hdown : ∀ n ≤ 64, deepAlias.Straight n (65 - n) ∧ deepAlias.Denotes (65 - n) 1 := by
    intro n hn
    induction n with
    | zero => exact ⟨.name (by decide +kernel) (by decide +kernel), .name (by decide +kernel)⟩
    | succ n ih =>
      obtain ⟨hstraight, hdenotes⟩ := ih (Nat.le_of_succ_le hn)
      obtain ⟨hid, hcast, htext, hleft⟩ := hcasts (63 - n) (by omega)
      have hnode : 63 - n + 1 = 65 - (n + 1) := by omega
      have hnext : 63 - n + 2 = 65 - n := by omega
      rw [hnode] at hid hcast htext hleft
      rw [hnext] at hleft
      have hpass : deepAlias.PassesOn (65 - (n + 1)) := .inr (.inr hcast)
      exact ⟨.step hid hpass (by rw [htext]; decide) hleft hstraight, .base hpass hleft hdenotes⟩
  exact hdown 64 (Nat.le_refl 64)

/-- **Not all aliases are seen.**  Neither arm of a choice escapes when its address is taken, no
variable is lent through a conversion, and 64 conversions around a variable hide it. -/
theorem aliases_missed :
    (¬ ∀ (p : Program) (ts : List TokenId) (t e : TokenId) (v : VarId), t ∈ ts → p.Binds t e →
      p.Denotes e v → v ∈ p.escaped ts) ∧
    (¬ ∀ (p : Program) (call : TokenId) (callee args : Expr) (i : Nat) (arg : Expr) (e : TokenId)
      (v : VarId), (args.commaParts p)[i]? = some arg → p.Lends call callee i →
      arg.token? = some e → p.Denotes e v → v ∈ (Expr.node call callee args).lentVars p) ∧
    ¬ ∀ (p : Program) (ts : List TokenId) (t e : TokenId) (n : Nat) (v : VarId), t ∈ ts →
      p.Binds t e → p.Straight n e → p.Denotes e v → v ∈ p.escaped ts := by
  refine ⟨fun hclaim => ?_, fun hclaim => ?_, fun hclaim => ?_⟩
  · have hescapes := hclaim missedAliases missedAliases.tokenIds 0 3 1 (by decide)
      (.inl (by decide))
      (.arm (by decide) rfl (by decide) (.inl rfl) (.name (by decide)))
    revert hescapes
    decide
  · have hlent := hclaim missedAliases 10 (.node 9 .absent .absent)
      (.node 11 (.node 15 .absent .absent) .absent) 0
      (.node 11 (.node 15 .absent .absent) .absent) 11 1 (by decide)
      (.inl ⟨0, 2, by decide, by decide, by decide⟩) rfl
      (.base (.inr (.inr (by decide))) rfl (.name (by decide)))
    revert hlent
    decide
  · obtain ⟨hstraight, hdenotes⟩ := straight_deepAlias
    have hescapes := hclaim deepAlias deepAlias.tokenIds 0 1 64 1 (by decide)
      (.inl (by decide)) hstraight hdenotes
    revert hescapes
    decide +kernel

end DivisorCheck
