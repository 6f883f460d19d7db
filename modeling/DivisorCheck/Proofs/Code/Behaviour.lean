/-
  What structured programs do, as languages of traces.

  A trace lists the tokens that have been executed and the decisions that have
  been taken, in order.  Nothing is said about values, so a condition may come out
  either way and a `switch` may choose any of its labels.  A statement has one
  language for each way in which it may be left (`Exits`), and the languages of
  compound statements are built from those of their parts with the operations of
  Kleene algebra: a loop is a star.
-/
import DivisorCheck.Proofs.Code.Syntax
import Mathlib.Computability.Language
import Mathlib.Tactic.Abel

namespace DivisorCheck

open scoped Computability

/-- Something that a run leaves in its trace. -/
inductive Event where
  | token (t : TokenId)
  /-- a condition, and how it came out -/
  | decide (cond : List TokenId) (holds : Bool)
  /-- the subject of a `switch`, and the text of the label chosen, if it is not the default -/
  | choose (subject : List TokenId) (label : Option String)

/-- The trace of executing some tokens. -/
def emitted (ts : List TokenId) : Language Event := {ts.map Event.token}

/-- The trace of a decision. -/
def decided (cond : List TokenId) (holds : Bool) : Language Event := {[Event.decide cond holds]}

/-- The trace of the choice of a label. -/
def chosen (subject : List TokenId) (label : Option String) : Language Event :=
  {[Event.choose subject label]}

/-- A language for each way in which a statement may be left. -/
@[ext]
structure Exits where
  normal : Language Event := 0
  broke : Language Event := 0
  continued : Language Event := 0
  returned : Language Event := 0

namespace Exits

instance : Zero Exits := ⟨{}⟩

instance : Add Exits where
  add R S :=
    { normal := R.normal + S.normal
      broke := R.broke + S.broke
      continued := R.continued + S.continued
      returned := R.returned + S.returned }

/-- First a trace of the given language. -/
def after (L : Language Event) (R : Exits) : Exits where
  normal := L * R.normal
  broke := L * R.broke
  continued := L * R.continued
  returned := L * R.returned

/-- One statement after another. -/
def seq (R S : Exits) : Exits where
  normal := R.normal * S.normal
  broke := R.broke + R.normal * S.broke
  continued := R.continued + R.normal * S.continued
  returned := R.returned + R.normal * S.returned

/-- A loop that goes round with `again` and ends with `done`, and after each round takes `step`. -/
def loop (again done step : Language Event) (body : Exits) : Exits :=
  let round := again * ((body.normal + body.continued) * step)
  { normal := round∗ * (done + again * body.broke)
    returned := round∗ * (again * body.returned) }

/-- A loop whose body runs once before the first decision. -/
def loopOnce (again done : Language Event) (body : Exits) : Exits :=
  let rest := loop again done 1 body
  { normal := (body.normal + body.continued) * rest.normal + body.broke
    returned := (body.normal + body.continued) * rest.returned + body.returned }

/-- What a `break` has left goes on after the statement. -/
def catchBreak (R : Exits) : Exits where
  normal := R.normal + R.broke
  continued := R.continued
  returned := R.returned

/-- All traces of a statement and what follows it, given what follows in each case. -/
def lead (R K : Exits) : Language Event :=
  R.normal * K.normal + R.broke * K.broke + R.continued * K.continued + R.returned * K.returned

end Exits

/-- How a jump is left. -/
def Jump.exits (kind : Jump) (L : Language Event) : Exits :=
  match kind with
  | breakOut => { broke := L }
  | continueLoop => { continued := L }
  | returnOut => { returned := L }

/-- What follows a jump, given what follows in each case. -/
def Jump.follow (kind : Jump) (K : Exits) : Language Event :=
  match kind with
  | breakOut => K.broke
  | continueLoop => K.continued
  | returnOut => K.returned

mutual

/-- What a statement does. -/
def Stmt.runs (p : Program) : Stmt → Exits
  | .empty _ => { normal := 1 }
  | .plain ts semicolon => { normal := emitted (ts ++ [semicolon]) }
  | .jump kind keyword value semicolon => kind.exits (emitted (keyword :: (value ++ [semicolon])))
  | .braces _ body _ => body.runs p
  | .ifThen h body =>
    (body.runs p).after (decided h.inside true) + { normal := decided h.inside false }
  | .ifElse h body _ other =>
    (body.runs p).after (decided h.inside true) + (other.runs p).after (decided h.inside false)
  | .whileLoop h body =>
    .loop (decided h.inside true) (decided h.inside false) 1 (body.runs p)
  | .forLoop h body =>
    (Exits.loop (decided h.cond true) (if h.cond = [] then 0 else decided h.cond false)
      (emitted h.step) (body.runs p)).after (emitted h.init)
  | .doLoop _ body h _ =>
    .loopOnce (decided h.inside true) (decided h.inside false) (body.runs p)
  | .switch h _ body _ =>
    (body.entries p h.inside +
      if body.hasDefault then 0 else { normal := chosen h.inside none }).catchBreak

/-- What statements in a row do, from the first one on. -/
def Stmts.runs (p : Program) : Stmts → Exits
  | .nil => { normal := 1 }
  | .cons first rest => (first.runs p).seq (rest.runs p)
  | .label _ rest => rest.runs p

/-- What statements in a row do, from any label on. -/
def Stmts.entries (p : Program) (subject : List TokenId) : Stmts → Exits
  | .nil => 0
  | .cons _ rest => rest.entries p subject
  | .label l rest => (rest.runs p).after (chosen subject (l.text p)) + rest.entries p subject

end

/-- The traces of the executions of a body that come to an end. -/
def Stmts.executions (p : Program) (body : Stmts) : Language Event :=
  (body.runs p).normal + (body.runs p).returned

/-! ### Where a run may lead -/

namespace Exits

variable {R S K : Exits} {L : Language Event}

@[simp] theorem add_normal : (R + S).normal = R.normal + S.normal := rfl

@[simp] theorem add_broke : (R + S).broke = R.broke + S.broke := rfl

@[simp] theorem add_continued : (R + S).continued = R.continued + S.continued := rfl

@[simp] theorem add_returned : (R + S).returned = R.returned + S.returned := rfl

@[simp] theorem zero_lead : lead 0 K = 0 := by
  show 0 * K.normal + 0 * K.broke + 0 * K.continued + 0 * K.returned = 0
  simp only [zero_mul, add_zero]

theorem add_lead : (R + S).lead K = R.lead K + S.lead K := by
  unfold lead
  rw [add_normal, add_broke, add_continued, add_returned, add_mul, add_mul, add_mul, add_mul]
  abel

theorem after_lead : (R.after L).lead K = L * R.lead K := by
  unfold lead after
  simp only [mul_add, mul_assoc]

/-- What comes after the first statement is where the second one leads. -/
theorem seq_lead : (R.seq S).lead K = R.lead { K with normal := S.lead K } := by
  unfold lead seq
  simp only [mul_add, add_mul, mul_assoc]
  abel

theorem catchBreak_lead : R.catchBreak.lead K = R.lead { K with broke := K.normal } := by
  unfold lead catchBreak
  simp only [add_mul, zero_mul, add_zero]

theorem normal_lead (L : Language Event) : lead { normal := L } K = L * K.normal := by
  unfold lead
  simp only [zero_mul, add_zero]

/-- **The equation of a loop has only one solution.**  If a decision leads on as one that begins a
round does, it leads where the loop leads. -/
theorem loop_lead {C again done step : Language Event} (hagain : [] ∉ again)
    (hC : C = again * R.lead { K with normal := step * C, broke := K.normal, continued := step * C }
      + done * K.normal) :
    C = (loop again done step R).lead K := by
  have hround : [] ∉ again * ((R.normal + R.continued) * step) := by
    intro hnil
    obtain ⟨x, hx, y, -, hxy⟩ := Language.mem_mul.1 hnil
    rw [(List.append_eq_nil_iff.1 hxy).1] at hx
    exact hagain hx
  have harden : C = again * ((R.normal + R.continued) * step) * C +
      ((done + again * R.broke) * K.normal + again * R.returned * K.returned) := by
    nth_rewrite 1 [hC]
    unfold lead
    simp only [mul_add, add_mul, mul_assoc]
    abel
  rw [Language.self_eq_mul_add_iff hround] at harden
  rw [harden]
  unfold lead loop
  simp only [mul_add, add_mul, mul_assoc, zero_mul, add_zero]

theorem loopOnce_lead {again done : Language Event} :
    (loopOnce again done R).lead K =
      R.lead { K with
        normal := (loop again done 1 R).lead K
        broke := K.normal
        continued := (loop again done 1 R).lead K } := by
  have hloop : ∀ K, (loop again done 1 R).lead K =
      (loop again done 1 R).normal * K.normal + (loop again done 1 R).returned * K.returned := by
    intro K
    unfold lead loop
    simp only [zero_mul, add_zero]
  simp only [hloop]
  unfold lead loopOnce
  simp only [mul_add, add_mul, mul_assoc, zero_mul, add_zero]
  abel

end Exits

theorem Jump.exits_lead (kind : Jump) (L : Language Event) (K : Exits) :
    (kind.exits L).lead K = L * kind.follow K := by
  cases kind
  all_goals
    unfold exits follow Exits.lead
    simp only [zero_mul, add_zero, zero_add]

/-! ### Jumps that stand where they may -/

namespace Exits

variable {mayBreak mayContinue : Bool} {R S : Exits} {L : Language Event}

/-- No run is left by a jump that may not be there. -/
structure Within (mayBreak mayContinue : Bool) (R : Exits) : Prop where
  broke : mayBreak = false → R.broke = 0
  continued : mayContinue = false → R.continued = 0

theorem Within.after (h : R.Within mayBreak mayContinue) :
    (R.after L).Within mayBreak mayContinue := by
  constructor
  · intro hb
    show L * R.broke = 0
    rw [h.broke hb, mul_zero]
  · intro hc
    show L * R.continued = 0
    rw [h.continued hc, mul_zero]

theorem Within.add (hR : R.Within mayBreak mayContinue) (hS : S.Within mayBreak mayContinue) :
    (R + S).Within mayBreak mayContinue := by
  constructor
  · intro hb
    rw [add_broke, hR.broke hb, hS.broke hb, add_zero]
  · intro hc
    rw [add_continued, hR.continued hc, hS.continued hc, add_zero]

theorem Within.seq (hR : R.Within mayBreak mayContinue) (hS : S.Within mayBreak mayContinue) :
    (R.seq S).Within mayBreak mayContinue := by
  constructor
  · intro hb
    show R.broke + R.normal * S.broke = 0
    rw [hR.broke hb, hS.broke hb, mul_zero, add_zero]
  · intro hc
    show R.continued + R.normal * S.continued = 0
    rw [hR.continued hc, hS.continued hc, mul_zero, add_zero]

theorem within_of_eq_zero (hb : R.broke = 0) (hc : R.continued = 0) :
    R.Within mayBreak mayContinue :=
  ⟨fun _ => hb, fun _ => hc⟩

end Exits

theorem Jump.within {mayBreak mayContinue : Bool} {kind : Jump} {L : Language Event}
    (h : match kind with
      | breakOut => mayBreak = true
      | continueLoop => mayContinue = true
      | returnOut => True) : (kind.exits L).Within mayBreak mayContinue := by
  cases kind with
  | breakOut => exact ⟨fun hb => absurd (h.symm.trans hb) (by decide), fun _ => rfl⟩
  | continueLoop => exact ⟨fun _ => rfl, fun hc => absurd (h.symm.trans hc) (by decide)⟩
  | returnOut => exact ⟨fun _ => rfl, fun _ => rfl⟩

mutual

theorem Stmt.Legal.within {p : Program} {mayBreak mayContinue : Bool} :
    (s : Stmt) → s.Legal mayBreak mayContinue → (s.runs p).Within mayBreak mayContinue
  | .empty _, _ => Exits.within_of_eq_zero rfl rfl
  | .plain _ _, _ => Exits.within_of_eq_zero rfl rfl
  | .jump _ _ _ _, h => Jump.within h
  | .braces _ body _, h => Stmts.Legal.within body h
  | .ifThen _ body, h =>
    (Stmt.Legal.within body h).after.add (Exits.within_of_eq_zero rfl rfl)
  | .ifElse _ body _ other, h =>
    (Stmt.Legal.within body h.1).after.add (Stmt.Legal.within other h.2).after
  | .whileLoop _ _, _ => Exits.within_of_eq_zero rfl rfl
  | .forLoop _ _, _ => Exits.Within.after (Exits.within_of_eq_zero rfl rfl)
  | .doLoop _ _ _ _, _ => Exits.within_of_eq_zero rfl rfl
  | .switch h _ body _, hlegal => by
    have hentries : (body.entries p h.inside).Within true mayContinue :=
      Stmts.Legal.entries_within h.inside body hlegal
    refine ⟨fun _ => rfl, fun hc => ?_⟩
    show ((body.entries p h.inside).continued + Exits.continued (if body.hasDefault then 0 else
      { normal := chosen h.inside none })) = 0
    rw [hentries.continued hc, zero_add]
    split_ifs <;> rfl

theorem Stmts.Legal.within {p : Program} {mayBreak mayContinue : Bool} :
    (body : Stmts) → body.Legal mayBreak mayContinue → (body.runs p).Within mayBreak mayContinue
  | .nil, _ => Exits.within_of_eq_zero rfl rfl
  | .cons first rest, h => (Stmt.Legal.within first h.1).seq (Stmts.Legal.within rest h.2)
  | .label _ rest, h => Stmts.Legal.within rest h

theorem Stmts.Legal.entries_within {p : Program} {mayBreak mayContinue : Bool}
    (subject : List TokenId) :
    (body : Stmts) → body.Legal mayBreak mayContinue →
      (body.entries p subject).Within mayBreak mayContinue
  | .nil, _ => Exits.within_of_eq_zero rfl rfl
  | .cons _ rest, h => Stmts.Legal.entries_within subject rest h.2
  | .label _ rest, h =>
    (Stmts.Legal.within rest h).after.add (Stmts.Legal.entries_within subject rest h)

end

/-- Where jumps stand only where they may, a body is left at its end or by a `return`. -/
theorem Stmts.lead_of_legal {p : Program} {body : Stmts} (h : body.Legal false false) {K : Exits}
    (hnormal : K.normal = 1) (hreturned : K.returned = 1) :
    (body.runs p).lead K = body.executions p := by
  obtain ⟨hbroke, hcontinued⟩ := Stmts.Legal.within (p := p) body h
  unfold Exits.lead Stmts.executions
  rw [hbroke rfl, hcontinued rfl, hnormal, hreturned, zero_mul, zero_mul, add_zero, add_zero,
    mul_one, mul_one]

end DivisorCheck
