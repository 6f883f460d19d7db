/-
  What the scanning functions find in a chain of tokens.

  `Program.Placed` says that a list of tokens is the part of the chain between two
  tokens, without repetition, before the token that limits the scan, and no longer
  than the program; the last is what the fuel of the scanning functions is
  measured against.  Each of them then finds the piece that it is meant to find.
-/
import DivisorCheck.Proofs.Code.Syntax
import Mathlib.Data.List.Nodup
import Mathlib.Data.List.Perm.Subperm

namespace DivisorCheck.Program

variable {p : Program} {limit t : TokenId} {start after : Option TokenId} {ts us : List TokenId}

/-- The chain runs from one token through the given ones to another. -/
def Spells (p : Program) : Option TokenId → List TokenId → Option TokenId → Prop
  | start, [], after => start = after
  | start, t :: ts, after => start = some t ∧ Spells p (p.nextOf t) ts after

theorem spells_append :
    p.Spells start (ts ++ us) after ↔ ∃ mid, p.Spells start ts mid ∧ p.Spells mid us after := by
  induction ts generalizing start with
  | nil => simp [Spells]
  | cons t ts ih =>
    rw [List.cons_append]
    constructor
    · rintro ⟨hstart, hrest⟩
      obtain ⟨mid, hts, hus⟩ := ih.1 hrest
      exact ⟨mid, ⟨hstart, hts⟩, hus⟩
    · rintro ⟨mid, ⟨hstart, hts⟩, hus⟩
      exact ⟨hstart, ih.2 ⟨mid, hts, hus⟩⟩

theorem Spells.unique {last : TokenId}
    (hts : p.Spells start ts (some last)) (hus : p.Spells start us (some last)) (ht : last ∉ ts)
    (hu : last ∉ us) : ts = us := by
  induction ts generalizing start us with
  | nil =>
    obtain rfl : start = some last := hts
    cases us with
    | nil => rfl
    | cons u us => exact absurd (List.mem_cons_self ..) (Option.some.inj hus.1 ▸ hu)
  | cons t ts ih =>
    obtain ⟨rfl, hrest⟩ := hts
    cases us with
    | nil => exact absurd (List.mem_cons_self ..) (Option.some.inj hus ▸ ht)
    | cons u us =>
      obtain ⟨heq, husRest⟩ := hus
      obtain rfl := Option.some.inj heq
      rw [List.mem_cons, not_or] at ht hu
      rw [ih hrest husRest ht.2 hu.2]

/-- A chain that gets to its last token passes each other only once. -/
theorem Spells.nodup {last : TokenId}
    (hts : p.Spells start ts (some last)) (hlast : last ∉ ts) : ts.Nodup := by
  induction ts generalizing start with
  | nil => exact List.nodup_nil
  | cons t ts ih =>
    have hnot : last ∉ ts := fun hmem => hlast (List.mem_cons_of_mem t hmem)
    refine List.nodup_cons.2 ⟨fun hmem => ?_, ih hts.2 hnot⟩
    obtain ⟨us, vs, rfl⟩ := List.append_of_mem hmem
    obtain ⟨mid, -, hagain⟩ := spells_append.1 hts.2
    obtain rfl := hagain.1
    have hstart : p.Spells (some t) (t :: (us ++ t :: vs)) (some last) := ⟨rfl, hts.2⟩
    have hshort : last ∉ t :: vs := fun hmem => hnot (List.mem_append_right us hmem)
    have hlength := congrArg List.length (hstart.unique hagain hlast hshort)
    simp only [List.length_cons, List.length_append] at hlength
    omega

/-- Tokens that a chain leads on from are held by the program. -/
theorem Spells.lt_size {last : TokenId} (h : p.Spells start ts (some last)) (ht : t ∈ ts) :
    t < p.tokens.size := by
  obtain ⟨us, vs, rfl⟩ := List.append_of_mem ht
  obtain ⟨mid, -, -, hnext⟩ := spells_append.1 h
  by_contra hnot
  have hnone : p.nextOf t = none := by
    unfold nextOf token
    rw [Array.getD_eq_getD_getElem?, Array.getElem?_eq_none (Nat.le_of_not_lt hnot)]
    rfl
  rw [hnone] at hnext
  cases vs with
  | nil => cases hnext
  | cons v vs => cases hnext.1

/-- Without repetition there are no more tokens than the program has. -/
theorem length_le_size (hnodup : ts.Nodup) (hheld : ∀ t ∈ ts, t < p.tokens.size) :
    ts.length ≤ p.tokens.size := by
  have hsub : ts ⊆ List.range p.tokens.size := fun t ht => List.mem_range.2 (hheld t ht)
  have hlength := (hnodup.subperm hsub).length_le
  rwa [List.length_range] at hlength

/-- The tokens stand in the chain between `start` and `after`, before the limit. -/
structure Placed (p : Program) (limit : TokenId) (start : Option TokenId) (ts : List TokenId)
    (after : Option TokenId) : Prop where
  spells : p.Spells start ts after
  nodup : ts.Nodup
  before : limit ∉ ts
  length : ts.length ≤ p.tokens.size

namespace Placed

theorem append (h : p.Placed limit start (ts ++ us) after) :
    ∃ mid, p.Placed limit start ts mid ∧ p.Placed limit mid us after := by
  obtain ⟨mid, hts, hus⟩ := spells_append.1 h.spells
  obtain ⟨hleft, hright, -⟩ := List.nodup_append.1 h.nodup
  have hlength := h.length
  rw [List.length_append] at hlength
  have hbefore := h.before
  rw [List.mem_append, not_or] at hbefore
  exact ⟨mid, ⟨hts, hleft, hbefore.1, by omega⟩, ⟨hus, hright, hbefore.2, by omega⟩⟩

theorem cons (h : p.Placed limit start (t :: ts) after) :
    start = some t ∧ t ≠ limit ∧ p.Placed limit (p.nextOf t) ts after := by
  obtain ⟨hstart, hspells⟩ := h.spells
  have hlength := h.length
  rw [List.length_cons] at hlength
  have hbefore := h.before
  rw [List.mem_cons, not_or] at hbefore
  exact ⟨hstart, Ne.symm hbefore.1,
    ⟨hspells, (List.nodup_cons.1 h.nodup).2, hbefore.2, by omega⟩⟩

/-- What stands between two brackets has the closing one as its limit. -/
theorem inside {close : TokenId} (h : p.Placed limit start (ts ++ close :: us) after) :
    p.Placed close start ts (some close) ∧ p.Placed limit (p.nextOf close) us after := by
  obtain ⟨mid, hts, hrest⟩ := h.append
  obtain ⟨rfl, -, hus⟩ := hrest.cons
  refine ⟨⟨hts.spells, hts.nodup, fun hmem => ?_, hts.length⟩, hus⟩
  exact (List.nodup_append.1 h.nodup).2.2 close hmem close (List.mem_cons_self ..) rfl

end Placed

/-! ### What stands between two tokens -/

theorem between_go_eq {close : TokenId} {fuel : Nat} (h : p.Spells start ts (some close))
    (hclose : close ∉ ts) (hfuel : ts.length ≤ fuel) :
    between.go p (some close) fuel start = ts := by
  induction ts generalizing start fuel with
  | nil =>
    obtain rfl : start = some close := h
    cases fuel with
    | zero => rfl
    | succ fuel => simp [between.go]
  | cons t ts ih =>
    obtain ⟨rfl, hrest⟩ := h
    rw [List.mem_cons, not_or] at hclose
    cases fuel with
    | zero => simp at hfuel
    | succ fuel =>
      have htail := ih hrest hclose.2 (by simpa using hfuel)
      have hne : ¬ some t = some close := fun heq => hclose.1 (Option.some.inj heq).symm
      rw [between.go, if_neg hne]
      exact congrArg _ htail

theorem between_eq {close : TokenId} (h : p.Placed close start ts (some close)) :
    p.between start (some close) = ts :=
  between_go_eq h.spells h.before h.length

/-! ### Brackets -/

theorem not_semicolon_of_depthChange (h : p.depthChange t ≠ 0) : p.text t ≠ ";" := by
  intro htext
  simp [depthChange, htext] at h

theorem partner?_of_text (h : p.text t ∈ ["(", "[", "\x7b"]) : p.partner? t = (p.token t).link :=
  if_pos h

theorem partner?_of_depthChange_zero (h : p.depthChange t = 0) : p.partner? t = none := by
  unfold depthChange at h
  unfold partner?
  split_ifs at h ⊢
  · exact absurd h (by decide)
  · rfl

theorem partner?_of_depthChange_one (h : p.depthChange t = 1) :
    p.partner? t = (p.token t).link := by
  unfold depthChange at h
  unfold partner?
  split_ifs at h ⊢
  · rfl
  · exact absurd h (by decide)

/-- **A statement is found up to its semicolon.** -/
theorem statementTokens_eq {semicolon : TokenId} {fuel : Nat} (hts : p.Bracketed false ts)
    (hsemicolon : p.text semicolon = ";") (h : p.Placed limit start (ts ++ [semicolon]) after)
    (hfuel : ts.length < fuel) :
    p.statementTokens limit fuel start = (ts ++ [semicolon], after) := by
  obtain ⟨fuel, rfl⟩ : ∃ n, fuel = n + 1 := ⟨fuel - 1, by omega⟩
  generalize hsemis : false = semicolons at hts
  induction hts generalizing start fuel with
  | nil =>
    obtain ⟨rfl, hlimit, hrest⟩ := h.cons
    obtain rfl : p.nextOf semicolon = after := hrest.spells
    have hpartner : p.partner? semicolon = none := by simp [partner?, hsemicolon]
    rw [statementTokens, if_neg hlimit, hpartner]
    simp [hsemicolon]
  | @token semicolons t rest hdepth htext _ ih =>
    obtain ⟨rfl, hlimit, hrest⟩ := h.cons
    have hnot : p.text t ≠ ";" := fun heq => absurd (hsemis.trans (htext heq)) (by decide)
    rw [List.length_cons] at hfuel
    obtain ⟨fuel, rfl⟩ : ∃ n, fuel = n + 1 := ⟨fuel - 1, by omega⟩
    have htail := ih hrest fuel (by omega) hsemis
    rw [statementTokens, if_neg hlimit, partner?_of_depthChange_zero hdepth]
    simp only [if_neg hnot]
    rw [htail]
    rfl
  | @group semicolons opening close inner rest hopen hlink hclose _ _ _ ih =>
    have hassoc : opening :: (inner ++ close :: rest) ++ [semicolon] =
        opening :: (inner ++ close :: (rest ++ [semicolon])) := by simp
    rw [hassoc] at h
    obtain ⟨rfl, hlimit, hrest⟩ := h.cons
    obtain ⟨hinner, hlast⟩ := hrest.inside
    rw [List.length_cons, List.length_append, List.length_cons] at hfuel
    obtain ⟨fuel, rfl⟩ : ∃ n, fuel = n + 1 := ⟨fuel - 1, by omega⟩
    have htail := ih hlast fuel (by omega) hsemis
    rw [statementTokens, if_neg hlimit, partner?_of_depthChange_one hopen, hlink]
    simp only
    rw [htail, between_eq hinner]
    simp

/-! ### Loop headers -/

/-- Tokens that are bracketed stay together in one part of a header. -/
theorem headerParts_append {semicolons : Bool} (hts : p.Bracketed semicolons ts) {depth : Int}
    (hdepth : 0 ≤ depth) (hinside : semicolons = true → 1 ≤ depth) (rest : List TokenId) :
    p.headerParts depth (ts ++ rest) =
      (ts ++ (p.headerParts depth rest).1, (p.headerParts depth rest).2) := by
  induction hts generalizing depth rest with
  | nil => rfl
  | @token semicolons t ts hzero htext _ ih =>
    have hsplit : ¬ (p.text t = ";" ∧ depth + p.depthChange t = 0) := by
      rintro ⟨hsemicolon, hsum⟩
      have := hinside (htext hsemicolon)
      omega
    rw [List.cons_append, headerParts]
    simp only [if_neg hsplit]
    rw [hzero, Int.add_zero, ih hdepth hinside]
    rfl
  | @group semicolons opening close inner ts hopen hlink hclose _ _ ihinner ih =>
    have hsemicolonOpen := not_semicolon_of_depthChange (p := p) (t := opening) (by omega)
    have hsemicolonClose := not_semicolon_of_depthChange (p := p) (t := close) (by omega)
    have hassoc : opening :: (inner ++ close :: ts) ++ rest =
        opening :: (inner ++ close :: (ts ++ rest)) := by simp
    have hback : depth + 1 + -1 = depth := by omega
    rw [hassoc, headerParts]
    simp only [hsemicolonOpen, false_and, if_false]
    rw [hopen, ihinner (by omega) (fun _ => by omega), headerParts]
    simp only [hsemicolonClose, false_and, if_false]
    rw [hclose, hback, ih hdepth hinside]
    simp

theorem headerParts_semicolon {depth : Int} {semicolon : TokenId} (htext : p.text semicolon = ";")
    (hdepth : depth = 0) (rest : List TokenId) :
    p.headerParts depth (semicolon :: rest) =
      ([], (p.headerParts depth rest).1 :: (p.headerParts depth rest).2) := by
  have hzero : p.depthChange semicolon = 0 := by simp [depthChange, htext]
  rw [headerParts, hzero, Int.add_zero]
  simp only [htext, hdepth, true_and, if_true]

/-- **The header of a loop with three parts is found to have them.** -/
theorem headerParts_eq {h : ForHeader} (hrendered : h.Rendered p) :
    p.headerParts 0 h.header.inside = (h.init, [h.cond, h.step]) := by
  have hlast : p.headerParts 0 h.step = (h.step, []) := by
    have hstep := headerParts_append hrendered.step (Int.le_refl 0) (by simp) []
    rw [List.append_nil] at hstep
    rw [hstep]
    simp [headerParts]
  show p.headerParts 0 (h.init ++ h.firstSemicolon :: (h.cond ++ h.secondSemicolon :: h.step)) = _
  rw [headerParts_append hrendered.init (Int.le_refl 0) (by simp),
    headerParts_semicolon hrendered.firstSemicolon rfl,
    headerParts_append hrendered.cond (Int.le_refl 0) (by simp),
    headerParts_semicolon hrendered.secondSemicolon rfl, hlast]
  simp

/-! ### Case labels -/

/-- **The value of a label is found up to its colon.** -/
theorem labelTokens_eq {colon : TokenId} {fuel pending : Nat} (hts : p.Paired pending ts)
    (hcolon : p.text colon = ":") (h : p.Placed limit start (ts ++ colon :: us) after)
    (hfuel : ts.length < fuel) :
    p.labelTokens limit fuel pending start = (ts, some colon) := by
  induction ts generalizing start fuel pending with
  | nil =>
    obtain ⟨rfl, hlimit, -⟩ := h.cons
    obtain ⟨fuel, rfl⟩ : ∃ n, fuel = n + 1 := ⟨fuel - 1, by omega⟩
    obtain rfl : pending = 0 := hts
    rw [labelTokens, if_neg hlimit, if_pos ⟨hcolon, rfl⟩]
  | cons t ts ih =>
    obtain ⟨rfl, hlimit, hrest⟩ := h.cons
    rw [List.length_cons] at hfuel
    obtain ⟨fuel, rfl⟩ : ∃ n, fuel = n + 1 := ⟨fuel - 1, by omega⟩
    unfold Paired at hts
    have hstay : ¬ (p.text t = ":" ∧ pending = 0) := by
      rintro ⟨htext, rfl⟩
      simp [htext] at hts
    rw [labelTokens, if_neg hlimit, if_neg hstay]
    have htail : p.labelTokens limit fuel
        (if p.text t = "?" then pending + 1 else if p.text t = ":" then pending - 1 else pending)
        (p.nextOf t) = (ts, some colon) := by
      refine ih ?_ hrest (by omega)
      split_ifs at hts ⊢
      · exact hts
      · exact hts.2
      · exact hts
    simp only
    rw [htail]

end DivisorCheck.Program
