/-
  Scanning never leaves the brackets that it started in.

  The tokens that are left before a limit may begin anywhere, also inside brackets:
  the search for the end of a case label stops at the first colon that it meets.
  What can be relied on is that each opening bracket among them has its partner among
  them, with brackets nested in between (`Program.Closed`).

  `Program.Site` says where a scan stands: which tokens are behind it, and which are
  left.  From a site every scanning function gets to another one, and the tokens that
  it takes are those in between, in order.
-/
import DivisorCheck.Proofs.Code.Scanning

namespace DivisorCheck.Program

variable {p : Program} {limit t close : TokenId} {start : Option TokenId}
  {ts us rest : List TokenId}

/-! ### Partners ahead -/

/-- Each opening bracket has its partner among the tokens after it, and what is between them is
nested. -/
def Closed (p : Program) : List TokenId → Prop
  | [] => True
  | t :: ts => (p.depthChange t = 1 → ∃ inner close rest, ts = inner ++ close :: rest ∧
      (p.token t).link = some close ∧ p.depthChange close = -1 ∧ p.Bracketed true inner) ∧
    Closed p ts

theorem Closed.of_append (h : p.Closed (us ++ ts)) : p.Closed ts := by
  induction us with
  | nil => exact h
  | cons u us ih => exact ih h.2

theorem Bracketed.closed_append {semicolons : Bool} (h : p.Bracketed semicolons ts)
    (hus : p.Closed us) : p.Closed (ts ++ us) := by
  induction h generalizing us with
  | nil => exact hus
  | token hdepth _ _ ih =>
    exact ⟨fun hopen => absurd (hdepth.symm.trans hopen) (by decide), ih hus⟩
  | @group semicolons opening close inner rest hopen hlink hclose hinner _ ihInner ih =>
    have hrest : p.Closed (close :: (rest ++ us)) :=
      ⟨fun hopen => absurd (hclose.symm.trans hopen) (by decide), ih hus⟩
    -- What follows the group is closed, so the group is closed in front of it.
    have hassoc : inner ++ close :: rest ++ us = inner ++ close :: (rest ++ us) := by simp
    refine ⟨fun _ => ⟨inner, close, rest ++ us, hassoc, hlink, hclose, hinner⟩, ?_⟩
    show p.Closed (inner ++ close :: rest ++ us)
    rw [hassoc]
    exact ihInner hrest

theorem Bracketed.closed {semicolons : Bool} (h : p.Bracketed semicolons ts) : p.Closed ts := by
  have hall : p.Closed (ts ++ []) := h.closed_append trivial
  rwa [List.append_nil] at hall

/-- A partner is looked for at opening brackets only. -/
theorem of_partner? (h : p.partner? t = some close) :
    p.depthChange t = 1 ∧ (p.token t).link = some close := by
  unfold partner? at h
  unfold depthChange
  split_ifs at h ⊢ with hopen
  exact ⟨rfl, h⟩

/-! ### Sites -/

/-- A scan stands at `start`: the tokens `us` are behind it, and `rest` is left before the limit,
which is a closing bracket.  No closing bracket is a label. -/
structure Site (p : Program) (limit : TokenId) (start : Option TokenId) (us rest : List TokenId) :
    Prop where
  placed : p.Placed limit start rest (some limit)
  nodup : (us ++ rest).Nodup
  closed : p.Closed rest
  bracket : p.depthChange limit = -1
  unlabelled : ∀ t ∈ limit :: rest, p.depthChange t = -1 → p.Unlabelled t

namespace Site

theorem append (h : p.Site limit start us (ts ++ rest)) :
    ∃ mid, p.Placed limit start ts mid ∧ p.Site limit mid (us ++ ts) rest := by
  obtain ⟨mid, hts, hrest⟩ := h.placed.append
  refine ⟨mid, hts, hrest, ?_, h.closed.of_append, h.bracket, fun t ht => h.unlabelled t ?_⟩
  · rw [List.append_assoc]
    exact h.nodup
  · rcases List.mem_cons.1 ht with rfl | ht
    · exact List.mem_cons_self ..
    · exact List.mem_cons_of_mem _ (List.mem_append_right _ ht)

theorem cons (h : p.Site limit start us (t :: rest)) :
    start = some t ∧ t ≠ limit ∧ p.Site limit (p.nextOf t) (us ++ [t]) rest := by
  obtain ⟨hstart, hne, -⟩ := h.placed.cons
  have hsingle : p.Site limit start us ([t] ++ rest) := h
  obtain ⟨mid, ht, hrest⟩ := hsingle.append
  obtain rfl : p.nextOf t = mid := ht.spells.2
  exact ⟨hstart, hne, hrest⟩

/-- At the limit nothing is left. -/
theorem nil (h : p.Site limit (some limit) us rest) : rest = [] := by
  cases rest with
  | nil => rfl
  | cons t rest =>
    obtain ⟨hstart, hne, -⟩ := h.cons
    exact absurd (Option.some.inj hstart).symm hne

/-- A site is at a token or at the limit. -/
theorem exists_some (h : p.Site limit start us rest) : ∃ t, start = some t := by
  cases rest with
  | nil => exact ⟨limit, h.placed.spells⟩
  | cons t rest => exact ⟨t, h.cons.1⟩

/-- Unless it is at the limit, it is at the first token that is left. -/
theorem exists_cons (h : p.Site limit (some t) us rest) (hne : t ≠ limit) :
    ∃ rest', rest = t :: rest' := by
  cases rest with
  | nil => exact absurd (Option.some.inj h.placed.spells) hne
  | cons t' rest =>
    obtain rfl := Option.some.inj h.cons.1
    exact ⟨rest, rfl⟩

/-- The limit is none of the words that tell statements apart. -/
theorem text_limit (h : p.Site limit start us rest) : p.text limit ∈ [")", "]", "\x7d"] := by
  have hclosing := h.bracket
  unfold depthChange at hclosing
  split_ifs at hclosing with hopen hclose
  exact hclose

theorem ne_limit (h : p.Site limit start us rest) (htext : p.text t ∉ [")", "]", "\x7d"]) :
    t ≠ limit := by
  rintro rfl
  exact htext h.text_limit

/-- From an opening bracket, there is a site behind its partner, and one inside for which the partner
is the limit. -/
theorem group (h : p.Site limit start us (t :: rest)) (hopen : p.depthChange t = 1)
    (hlink : (p.token t).link = some close) :
    ∃ inner more, rest = inner ++ close :: more ∧
      p.between (p.nextOf t) (some close) = inner ∧
      p.Site close (p.nextOf t) (us ++ [t]) inner ∧
      p.Site limit (p.nextOf close) (us ++ t :: (inner ++ [close])) more := by
  obtain ⟨inner, partner, more, rfl, hpartner, hclosing, hinner⟩ := h.closed.1 hopen
  obtain rfl : partner = close := Option.some.inj (hpartner.symm.trans hlink)
  obtain ⟨-, -, hnext⟩ := h.cons
  obtain ⟨hinside, -⟩ := hnext.placed.inside
  refine ⟨inner, more, rfl, between_eq hinside, ⟨hinside, ?_, hinner.closed, hclosing, ?_⟩, ?_⟩
  · have hnodup := hnext.nodup
    rw [← List.append_assoc] at hnodup
    exact hnodup.of_append_left
  · intro u hu
    refine hnext.unlabelled u (List.mem_cons_of_mem _ ?_)
    rcases List.mem_cons.1 hu with rfl | hu
    · exact List.mem_append_right _ (List.mem_cons_self ..)
    · exact List.mem_append_left _ hu
  · obtain ⟨_, -, hclose⟩ := hnext.append
    obtain ⟨-, -, hmore⟩ := hclose.cons
    have hassoc : us ++ [t] ++ inner ++ [partner] = us ++ t :: (inner ++ [partner]) := by simp
    rwa [hassoc] at hmore

end Site

/-! ### Scans -/

/-- A statement is taken from where it starts to a site. -/
theorem Site.statementTokens (fuel : Nat) (h : p.Site limit start us rest) :
    ∃ rest', rest = (p.statementTokens limit fuel start).1 ++ rest' ∧
      p.Site limit (p.statementTokens limit fuel start).2
        (us ++ (p.statementTokens limit fuel start).1) rest' := by
  induction fuel generalizing start us rest with
  | zero => exact ⟨rest, rfl, by rwa [Program.statementTokens, List.append_nil]⟩
  | succ fuel ih =>
    obtain ⟨t, rfl⟩ := h.exists_some
    rw [Program.statementTokens]
    by_cases hlimit : t = limit
    · rw [if_pos hlimit]
      exact ⟨rest, rfl, by rwa [List.append_nil]⟩
    rw [if_neg hlimit]
    obtain ⟨rest, rfl⟩ := h.exists_cons hlimit
    split
    · -- Brackets are taken whole, and the scan goes on behind the partner.
      rename_i close hclose
      obtain ⟨hopen, hlink⟩ := of_partner? hclose
      obtain ⟨inner, more, rfl, hinner, -, hmore⟩ := h.group hopen hlink
      obtain ⟨rest', hrest, hsite⟩ := ih hmore
      refine ⟨rest', ?_, ?_⟩
      · simp only [hinner]
        rw [List.append_assoc, List.cons_append, List.cons_append, ← hrest]
      · simp only [hinner]
        rw [List.append_assoc] at hsite
        simpa using hsite
    · obtain ⟨-, -, hnext⟩ := h.cons
      split_ifs
      · exact ⟨rest, rfl, hnext⟩
      · obtain ⟨rest', hrest, hsite⟩ := ih hnext
        refine ⟨rest', congrArg _ hrest, ?_⟩
        simpa using hsite

/-- Unless nothing is left, a statement takes something. -/
theorem statementTokens_ne_nil (fuel : Nat) (hne : t ≠ limit) :
    (p.statementTokens limit (fuel + 1) (some t)).1 ≠ [] := by
  rw [Program.statementTokens, if_neg hne]
  split
  · exact List.cons_ne_nil _ _
  · split_ifs
    · exact List.cons_ne_nil _ _
    · exact List.cons_ne_nil _ _

/-- The search for the end of a label stops at a site. -/
theorem Site.labelTokens (fuel pending : Nat) (h : p.Site limit start us rest) :
    ∃ skipped rest', rest = skipped ++ rest' ∧
      p.Site limit (p.labelTokens limit fuel pending start).2 (us ++ skipped) rest' := by
  induction fuel generalizing start us rest pending with
  | zero => exact ⟨[], rest, rfl, by rwa [Program.labelTokens, List.append_nil]⟩
  | succ fuel ih =>
    obtain ⟨t, rfl⟩ := h.exists_some
    rw [Program.labelTokens]
    by_cases hlimit : t = limit
    · rw [if_pos hlimit]
      exact ⟨[], rest, rfl, by rwa [List.append_nil]⟩
    rw [if_neg hlimit]
    obtain ⟨rest, rfl⟩ := h.exists_cons hlimit
    split_ifs
    · exact ⟨[], t :: rest, rfl, by rwa [List.append_nil]⟩
    all_goals
      obtain ⟨-, -, hnext⟩ := h.cons
      obtain ⟨skipped, rest', hrest, hsite⟩ := ih _ hnext
      refine ⟨t :: skipped, rest', congrArg _ hrest, ?_⟩
      rwa [List.append_assoc] at hsite

/-- The parts of a header hold tokens of the header, in order. -/
theorem headerParts_sublist (depth : Int) (ts : List TokenId) :
    ((p.headerParts depth ts).1 ++ (p.headerParts depth ts).2.flatten).Sublist ts := by
  induction ts generalizing depth with
  | nil => exact .slnil
  | cons t ts ih =>
    rw [headerParts]
    have hrest := ih (depth + p.depthChange t)
    simp only
    split_ifs
    · exact hrest.cons t
    · exact hrest.cons_cons t

end DivisorCheck.Program
