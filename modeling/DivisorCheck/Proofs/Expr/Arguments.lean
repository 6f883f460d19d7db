/-
  Arguments and parameters.

  The arguments of a call hang from commas that lean to the left: the first operand
  of each comma holds the arguments before it, the second is the next argument
  (`commaSpine`).  `Expr.arguments` undoes this, but it cuts at the commas within
  the arguments too, and so reads an argument that is a comma expression in
  brackets as several (`commaParts_commaSpine`).  From there on arguments and
  parameters do not match any more: up to there, and for calls without such an
  argument, they do (`arguments_commaSpine`).
-/
import DivisorCheck.Proofs.Expr.Aliases

namespace DivisorCheck

namespace Expr

variable {p : Program} {e first : Expr} {rest : List (TokenId × Expr)}

/-- Arguments joined by commas from the left, each but the first with the comma before it. -/
def commaSpine (first : Expr) (rest : List (TokenId × Expr)) : Expr :=
  rest.foldl (fun e a => node a.1 e a.2) first

/-- The arguments of a spine. -/
def spineArguments (first : Expr) (rest : List (TokenId × Expr)) : List Expr :=
  first :: rest.map Prod.snd

/-- Is there a comma at the top? -/
def IsComma (p : Program) : Expr → Prop
  | absent => False
  | node t _ _ => p.text t = ","

/-! ### Cutting at commas -/

theorem commaParts_of_not_isComma (he : e ≠ absent) (hcomma : ¬ e.IsComma p) :
    e.commaParts p = [e] := by
  cases e with
  | absent => exact absurd rfl he
  | node t l r => exact if_neg hcomma

/-- No part has a comma at the top. -/
theorem not_isComma_of_mem_commaParts {part : Expr} (h : part ∈ e.commaParts p) :
    ¬ part.IsComma p := by
  induction e with
  | absent => exact absurd h List.not_mem_nil
  | node t l r ihl ihr =>
    unfold commaParts at h
    split at h
    · rcases List.mem_append.1 h with h | h
      · exact ihl h
      · exact ihr h
    · rename_i hcomma
      obtain rfl := List.mem_singleton.1 h
      exact hcomma

/-- Every argument of a spine is cut on its own. -/
theorem commaParts_commaSpine (hcommas : ∀ a ∈ rest, p.text a.1 = ",") :
    (commaSpine first rest).commaParts p =
      (spineArguments first rest).flatMap (commaParts p) := by
  induction rest generalizing first with
  | nil => simp [commaSpine, spineArguments]
  | cons a rest ih =>
    obtain ⟨hcomma, hrest⟩ := List.forall_mem_cons.1 hcommas
    have hjoined : (node a.1 first a.2).commaParts p = first.commaParts p ++ a.2.commaParts p :=
      if_pos hcomma
    show (commaSpine (node a.1 first a.2) rest).commaParts p = _
    rw [ih hrest]
    simp [spineArguments, hjoined]

/-- Arguments that are no comma expressions stay whole. -/
theorem flatMap_commaParts_eq_self {args : List Expr} (hpresent : ∀ a ∈ args, a ≠ absent)
    (hcommas : ∀ a ∈ args, ¬ a.IsComma p) : args.flatMap (commaParts p) = args := by
  have hsingle : ∀ a ∈ args, a.commaParts p = [a] := fun a ha =>
    commaParts_of_not_isComma (hpresent a ha) (hcommas a ha)
  rw [List.flatMap_congr hsingle, List.flatMap_singleton']

/-- Up to the first comma expression, arguments are found at their places. -/
theorem getElem?_flatMap_commaParts {args : List Expr} (hpresent : ∀ a ∈ args, a ≠ absent) {k : Nat}
    (hcommas : ∀ a ∈ args.take (k + 1), ¬ a.IsComma p) :
    (args.flatMap (commaParts p))[k]? = args[k]? := by
  have hfirst : (args.take (k + 1)).flatMap (commaParts p) = args.take (k + 1) :=
    flatMap_commaParts_eq_self (fun a ha => hpresent a (List.mem_of_mem_take ha)) hcommas
  have hsplit : args.flatMap (commaParts p) =
      args.take (k + 1) ++ (args.drop (k + 1)).flatMap (commaParts p) := by
    conv_lhs => rw [← List.take_append_drop (k + 1) args, List.flatMap_append, hfirst]
  rcases Nat.lt_or_ge k args.length with hk | hk
  · have hlength : k < (args.take (k + 1)).length := by
      rw [List.length_take]
      omega
    rw [hsplit, List.getElem?_append_left hlength, List.getElem?_take_of_lt (Nat.lt_succ_self k)]
  · rw [hsplit, List.take_of_length_le (by omega), List.drop_eq_nil_of_le (by omega),
      List.flatMap_nil, List.append_nil]

/-! ### Calls -/

/-- **Arguments match parameters as long as none of them is a comma expression.**  The arguments
found for a call are those that its commas join exactly if no argument has a comma at the top.
Every argument up to the first that has one is found at its own place, so if its parameter may be
a reference, the variable that it names is lent; and if there is none, exactly these variables
are. -/
theorem arguments_commaSpine (p : Program) (call : TokenId) (callee first : Expr)
    (rest : List (TokenId × Expr)) (hcommas : ∀ a ∈ rest, p.text a.1 = ",")
    (hpresent : ∀ a ∈ spineArguments first rest, a ≠ absent) :
    ((node call callee (commaSpine first rest)).arguments p = spineArguments first rest ↔
      ∀ a ∈ spineArguments first rest, ¬ a.IsComma p) ∧
    (∀ k, (∀ a ∈ (spineArguments first rest).take (k + 1), ¬ a.IsComma p) →
      ((node call callee (commaSpine first rest)).arguments p)[k]? =
          (spineArguments first rest)[k]? ∧
        ∀ a v, (spineArguments first rest)[k]? = some a → p.Lends call callee k →
          a.trackedVar? p = some v →
          v ∈ (node call callee (commaSpine first rest)).lentVars p) ∧
    ((∀ a ∈ spineArguments first rest, ¬ a.IsComma p) → ∀ v,
      v ∈ (node call callee (commaSpine first rest)).lentVars p ↔
        ∃ k a, (spineArguments first rest)[k]? = some a ∧ p.Lends call callee k ∧
          a.trackedVar? p = some v) := by
  have hparts : (commaSpine first rest).commaParts p =
      (spineArguments first rest).flatMap (commaParts p) := commaParts_commaSpine hcommas
  have harguments : (node call callee (commaSpine first rest)).arguments p =
      (spineArguments first rest).flatMap (commaParts p) := hparts
  refine ⟨⟨fun heq a ha => ?_, fun hnone => ?_⟩, fun k hnone => ?_, fun hnone v => ?_⟩
  · rw [← heq] at ha
    exact not_isComma_of_mem_commaParts ha
  · rw [harguments]
    exact flatMap_commaParts_eq_self hpresent hnone
  · have hplace := getElem?_flatMap_commaParts hpresent hnone
    refine ⟨by rw [harguments, hplace], fun a v ha hlends hv => ?_⟩
    refine Program.mem_lentVars_iff.2 ⟨k, a, ?_, hlends, hv⟩
    rw [hparts, hplace, ha]
  · rw [Program.mem_lentVars_iff, hparts, flatMap_commaParts_eq_self hpresent hnone]

end Expr

/-! ### Commas in brackets, of a call and of an expression -/

/-- `g(x, h(a, b), y);`, where the third parameter of `g` is a reference.  The variables are 1 to
4. -/
def callInCall : Program where
  tokens := #[
    { text := "g", isName := true, function := some 0, parent := some 1 },
    { text := "(", left := some 0, right := some 10, link := some 12 },
    { text := "x", isName := true, varId := 1, var := some 0, parent := some 3 },
    { text := ",", left := some 2, right := some 5, parent := some 10 },
    { text := "h", isName := true, parent := some 5 },
    { text := "(", left := some 4, right := some 7, parent := some 3, link := some 9 },
    { text := "a", isName := true, varId := 2, var := some 1, parent := some 7 },
    { text := ",", left := some 6, right := some 8, parent := some 5 },
    { text := "b", isName := true, varId := 3, var := some 2, parent := some 7 },
    { text := ")", link := some 5 },
    { text := ",", left := some 3, right := some 11, parent := some 1 },
    { text := "y", isName := true, varId := 4, var := some 3, parent := some 10 },
    { text := ")", link := some 1 },
    { text := ";" }]
  vars := #[{ id := 1, isLocal := true }, { id := 2, isLocal := true }, { id := 3, isLocal := true },
    { id := 4, isLocal := true }, { id := 5, isArgument := true }, { id := 6, isArgument := true },
    { id := 7, isArgument := true, isReference := true }]
  functions := #[{ name := some "g", params := [(1, 4), (2, 5), (3, 6)] }]

/-- The call of `h`. -/
def innerCall : Expr :=
  .node 5 (.node 4 .absent .absent)
    (.node 7 (.node 6 .absent .absent) (.node 8 .absent .absent))

theorem arguments_commaSpine_callInCall :
    callInCall.expr 1 = .node 1 (.node 0 .absent .absent)
      (Expr.commaSpine (.node 2 .absent .absent) [(3, innerCall), (10, .node 11 .absent .absent)]) ∧
    (callInCall.expr 1).arguments callInCall =
      [.node 2 .absent .absent, innerCall, .node 11 .absent .absent] ∧
    4 ∈ (callInCall.expr 1).lentVars callInCall := by
  have hexpr : callInCall.expr 1 = .node 1 (.node 0 .absent .absent)
      (Expr.commaSpine (.node 2 .absent .absent)
        [(3, innerCall), (10, .node 11 .absent .absent)]) := by decide +kernel
  have hplain : ∀ a ∈ Expr.spineArguments (.node 2 .absent .absent)
      [(3, innerCall), (10, .node 11 .absent .absent)], ¬ a.IsComma callInCall := by
    simp [Expr.spineArguments, Expr.IsComma, innerCall, callInCall, Program.text, Program.token]
  obtain ⟨harguments, -, hlent⟩ := Expr.arguments_commaSpine callInCall 1 (.node 0 .absent .absent)
    (.node 2 .absent .absent) [(3, innerCall), (10, .node 11 .absent .absent)] (by decide)
    (by decide)
  rw [hexpr]
  refine ⟨rfl, harguments.2 hplain, (hlent hplain 4).2 ?_⟩
  exact ⟨2, .node 11 .absent .absent, rfl, .inl ⟨0, 6, by decide, by decide, by decide⟩, by decide⟩

/-- `g(x, (a, b), y);`, where the third parameter of `g` is a reference.  The variables are 1 to
4. -/
def commaInCall : Program where
  tokens := #[
    { text := "g", isName := true, function := some 0, parent := some 1 },
    { text := "(", left := some 0, right := some 9, link := some 11 },
    { text := "x", isName := true, varId := 1, var := some 0, parent := some 3 },
    { text := ",", left := some 2, right := some 6, parent := some 9 },
    { text := "(", link := some 8 },
    { text := "a", isName := true, varId := 2, var := some 1, parent := some 6 },
    { text := ",", left := some 5, right := some 7, parent := some 3 },
    { text := "b", isName := true, varId := 3, var := some 2, parent := some 6 },
    { text := ")", link := some 4 },
    { text := ",", left := some 3, right := some 10, parent := some 1 },
    { text := "y", isName := true, varId := 4, var := some 3, parent := some 9 },
    { text := ")", link := some 1 },
    { text := ";" }]
  vars := callInCall.vars
  functions := callInCall.functions

/-- **An argument is split.**  The comma expression `(a, b)` counts as two arguments, and `y`, which
the third parameter of `g` refers to, is not lent. -/
theorem argument_split :
    (¬ ∀ (p : Program) (call : TokenId) (callee first : Expr) (rest : List (TokenId × Expr)),
      (∀ a ∈ rest, p.text a.1 = ",") → (∀ a ∈ Expr.spineArguments first rest, a ≠ .absent) →
      ¬ first.IsComma p →
      (Expr.node call callee (Expr.commaSpine first rest)).arguments p =
        Expr.spineArguments first rest) ∧
    ¬ ∀ (p : Program) (call : TokenId) (callee first : Expr) (rest : List (TokenId × Expr))
      (k : Nat) (a : Expr) (v : VarId),
      (∀ a ∈ rest, p.text a.1 = ",") → (∀ a ∈ Expr.spineArguments first rest, a ≠ .absent) →
      ¬ first.IsComma p → (Expr.spineArguments first rest)[k]? = some a → p.Lends call callee k →
      a.trackedVar? p = some v →
      v ∈ (Expr.node call callee (Expr.commaSpine first rest)).lentVars p := by
  have hfirst : ¬ (Expr.node 2 .absent .absent).IsComma commaInCall :=
    show commaInCall.text 2 ≠ "," by decide
  constructor
  · intro hclaim
    have harguments := hclaim commaInCall 1 (.node 0 .absent .absent) (.node 2 .absent .absent)
      [(3, .node 6 (.node 5 .absent .absent) (.node 7 .absent .absent)),
        (9, .node 10 .absent .absent)] (by decide) (by decide) hfirst
    revert harguments
    decide
  · intro hclaim
    have hlent := hclaim commaInCall 1 (.node 0 .absent .absent) (.node 2 .absent .absent)
      [(3, .node 6 (.node 5 .absent .absent) (.node 7 .absent .absent)),
        (9, .node 10 .absent .absent)] 2 (.node 10 .absent .absent) 4 (by decide) (by decide)
      hfirst rfl (.inl ⟨0, 6, by decide, by decide, by decide⟩) (by decide)
    revert hlent
    decide

end DivisorCheck
