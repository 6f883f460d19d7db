/-
  The statements that are read in the course of a reading.

  Reading a statement takes a reader for those inside it.  A statement is visited if
  a reader that stops at it makes the whole reading stop (`Build.Visits`), and the
  statements of a body are those visited while its row is read, those visited while
  one of these is read, and so on (`Body.Reaches`).

  `Build.Gives` is what a step of building promises if it ends well.  `Build.Tells`
  adds what it promises about the statements that it visits, so that one walk
  through the reading of a statement answers for both.
-/
import DivisorCheck.Flow.Body

namespace DivisorCheck

/-! ### Steps that end well -/

namespace Build

variable {α β : Type} {m : Build α} {s s' : BodyBuilder} {a : α} {P Q : α → BodyBuilder → Prop}
  {R : β → BodyBuilder → Prop}

/-- If the step ends well, its answer and the builder that it leaves satisfy `Q`. -/
def Gives (m : Build α) (s : BodyBuilder) (Q : α → BodyBuilder → Prop) : Prop :=
  ∀ a s', m s = .ok (a, s') → Q a s'

/-- A sequence of steps ends well where both parts do. -/
theorem bind_ok {f : α → Build β} {b : β} :
    (m >>= f) s = .ok (b, s') ↔ ∃ a s₁, m s = .ok (a, s₁) ∧ f a s₁ = .ok (b, s') := by
  change (m s >>= fun r => f r.1 r.2) = .ok (b, s') ↔ _
  cases hrun : m s with
  | error e =>
    constructor
    · exact nofun
    · rintro ⟨a, s₁, h, -⟩
      cases h
  | ok r =>
    constructor
    · exact fun h => ⟨r.1, r.2, rfl, h⟩
    · rintro ⟨a, s₁, h, hrest⟩
      cases h
      exact hrest

theorem Gives.bind {f : α → Build β} (hm : Gives m s P) (hf : ∀ a s₁, P a s₁ → Gives (f a) s₁ R) :
    Gives (m >>= f) s R := by
  intro b s' h
  obtain ⟨a, s₁, hfirst, hrest⟩ := bind_ok.1 h
  exact hf a s₁ (hm a s₁ hfirst) b s' hrest

theorem Gives.mono (h : Gives m s P) (hPQ : ∀ a s', P a s' → Q a s') : Gives m s Q :=
  fun a s' hrun => hPQ a s' (h a s' hrun)

theorem gives_pure (h : Q a s) : Gives (pure a : Build α) s Q := by
  intro a' s' hrun
  cases hrun
  exact h

theorem gives_throw {e : BodyError} : Gives (throw e : Build α) s Q := nofun

theorem gives_get : Gives get s (fun t t' => s = t ∧ s = t') := gives_pure ⟨rfl, rfl⟩

theorem gives_modify {f : BodyBuilder → BodyBuilder} {Q : Unit → BodyBuilder → Prop}
    (h : Q () (f s)) : Gives (modify f) s Q := by
  intro a s' hrun
  cases hrun
  exact h

end Build

/-! ### Visits -/

/-- A statement that is to be read: inside which others, up to which token, from which token, with
which live block, and what has been built so far. -/
structure Visit where
  targets : JumpTargets
  limit : TokenId
  start : Option TokenId
  current : Option BlockId
  builder : BodyBuilder

namespace StatementReader

/-- What the reader makes of a statement. -/
def answer (read : StatementReader) (v : Visit) : Except BodyError (AfterStatement × BodyBuilder) :=
  read v.targets v.limit v.start v.current v.builder

open Classical in
/-- The reader that stops at one statement with an error. -/
noncomputable def stopping (read : StatementReader) (v : Visit) (e : BodyError) : StatementReader :=
  fun targets limit start current builder =>
    if v = ⟨targets, limit, start, current, builder⟩ then .error e
    else read targets limit start current builder

end StatementReader

namespace Build

variable {α β : Type} {read : StatementReader} {s : BodyBuilder} {v : Visit}

/-- The statement is read in the course of a step: stopping there stops the step. -/
def Visits (F : StatementReader → Build α) (read : StatementReader) (s : BodyBuilder) (v : Visit) :
    Prop :=
  ∀ e, F (read.stopping v e) s = .error e

/-- If the step ends well, its answer and the builder that it leaves satisfy `Q`, and for each
statement that it visits, what the reader makes of it satisfies `T` together with them. -/
def Tells (F : StatementReader → Build α) (read : StatementReader) (s : BodyBuilder)
    (T : Visit → AfterStatement × BodyBuilder → α → BodyBuilder → Prop)
    (Q : α → BodyBuilder → Prop) : Prop :=
  ∀ a s', F read s = .ok (a, s') → Q a s' ∧
    ∀ v, (∃ r, read.answer v = .ok r ∧ T v r a s') ∨ ∀ e, F (read.stopping v e) s = .ok (a, s')

variable {F : StatementReader → Build α}
  {T : Visit → AfterStatement × BodyBuilder → α → BodyBuilder → Prop}
  {Q : α → BodyBuilder → Prop}

theorem Tells.gives (h : Tells F read s T Q) : Gives (F read) s Q := fun a s' hrun => (h a s' hrun).1

theorem Tells.of_visits (h : Tells F read s T Q) {a : α} {s' : BodyBuilder}
    (hrun : F read s = .ok (a, s')) (hv : Visits F read s v) :
    ∃ r, read.answer v = .ok r ∧ T v r a s' := by
  rcases (h a s' hrun).2 v with htold | hmissed
  · exact htold
  · -- The reader cannot have stopped with every error, and ended well.
    have hstop := (hmissed .endless).symm.trans (hv .endless)
    cases hstop

/-- A step that reads nothing visits nothing. -/
theorem Gives.tells {m : Build α} (h : Gives m s Q) : Tells (fun _ => m) read s T Q :=
  fun a s' hrun => ⟨h a s' hrun, fun _ => .inr fun _ => hrun⟩

theorem Tells.mono {P : α → BodyBuilder → Prop} (h : Tells F read s T P)
    (hPQ : ∀ a s', P a s' → Q a s') : Tells F read s T Q :=
  fun a s' hrun => ⟨hPQ a s' (h a s' hrun).1, (h a s' hrun).2⟩

/-- What the step promises anyway. -/
theorem Tells.and_gives {P : α → BodyBuilder → Prop} (h : Tells F read s T Q)
    (hP : Gives (F read) s P) : Tells F read s T (fun a s' => Q a s' ∧ P a s') :=
  fun a s' hrun => ⟨⟨(h a s' hrun).1, hP a s' hrun⟩, (h a s' hrun).2⟩

/-- The statements visited by two parts in a row. -/
theorem Tells.bind {G : StatementReader → Build β} {f : β → StatementReader → Build α}
    {T' : Visit → AfterStatement × BodyBuilder → β → BodyBuilder → Prop}
    {P : β → BodyBuilder → Prop} (hG : Tells G read s T' P)
    (hf : ∀ b s₁, P b s₁ → Tells (f b) read s₁ T
      (fun a s' => Q a s' ∧ ∀ v r, T' v r b s₁ → T v r a s')) :
    Tells (fun read => G read >>= fun b => f b read) read s T Q := by
  intro a s' hrun
  obtain ⟨b, s₁, hfirst, hrest⟩ := bind_ok.1 hrun
  obtain ⟨hP, hvisits⟩ := hG b s₁ hfirst
  obtain ⟨⟨hQ, hpassed⟩, hlater⟩ := hf b s₁ hP a s' hrest
  refine ⟨hQ, fun v => ?_⟩
  -- A statement that neither part visits is not visited: a reader that stops there changes nothing.
  rcases hvisits v with ⟨r, hanswer, htold⟩ | hmissed
  · exact .inl ⟨r, hanswer, hpassed v r htold⟩
  · rcases hlater v with htold | hmissed'
    · exact .inl htold
    · exact .inr fun e => bind_ok.2 ⟨b, s₁, hmissed e, hmissed' e⟩

/-- A step that reads nothing, and then others. -/
theorem Gives.bind_tells {m : Build β} {f : β → StatementReader → Build α}
    {P : β → BodyBuilder → Prop} (hm : Gives m s P)
    (hf : ∀ b s₁, P b s₁ → Tells (f b) read s₁ T Q) :
    Tells (fun read => m >>= fun b => f b read) read s T Q := by
  have hnone : Tells (fun _ => m) read s (fun _ _ _ _ => False) P := hm.tells
  refine hnone.bind fun b s₁ hP => ?_
  exact (hf b s₁ hP).mono fun a s' hQ => ⟨hQ, fun _ _ => False.elim⟩

/-- One statement is read. -/
theorem tells_read (v : Visit)
    {T : Visit → AfterStatement × BodyBuilder → AfterStatement → BodyBuilder → Prop}
    {Q : AfterStatement → BodyBuilder → Prop}
    (h : ∀ a s', read.answer v = .ok (a, s') → T v (a, s') a s' ∧ Q a s') :
    Tells (fun read => read v.targets v.limit v.start v.current) read v.builder T Q := by
  intro a s' hrun
  obtain ⟨hT, hQ⟩ := h a s' hrun
  refine ⟨hQ, fun w => ?_⟩
  by_cases hw : w = v
  · subst hw
    exact .inl ⟨(a, s'), hrun, hT⟩
  · refine .inr fun e => ?_
    exact (if_neg hw).trans hrun

/-- One statement is read, and what comes after it may rely on the answer. -/
theorem tells_read_bind {f : AfterStatement → StatementReader → Build α} (v : Visit)
    (hf : ∀ a s₁, read.answer v = .ok (a, s₁) →
      Tells (f a) read s₁ T (fun b s' => Q b s' ∧ T v (a, s₁) b s')) :
    Tells (fun read => read v.targets v.limit v.start v.current >>= fun a => f a read) read
      v.builder T Q := by
  have hread : Tells (fun read => read v.targets v.limit v.start v.current) read v.builder
      (fun w r a s₁ => w = v ∧ r = (a, s₁)) (fun a s₁ => read.answer v = .ok (a, s₁)) :=
    tells_read v fun a s₁ h => ⟨⟨rfl, rfl⟩, h⟩
  refine hread.bind fun a s₁ hanswer => (hf a s₁ hanswer).mono ?_
  rintro b s' ⟨hQ, hT⟩
  refine ⟨hQ, ?_⟩
  rintro w r ⟨rfl, rfl⟩
  exact hT

end Build

/-! ### The statements of a body -/

namespace Body

open Build

/-- The builder before the row of statements of a body is read, and the block that is live then. -/
def begun (name : Option String) : BodyBuilder :=
  let (first, g) := (FlowGraph.init name).newBlock .body
  { graph := (g.addEdge { src := g.entry, dst := first }).2 }

/-- The statement is read in the course of reading a body, `depth` being how deep the reader for it
may still go. -/
inductive Reaches (p : Program) (name : Option String) (first last : TokenId) : Nat → Visit → Prop
  | row {v : Visit}
      (h : Visits (fun read => statements read {} last (p.tokens.size + 1) (p.nextOf first) (some 2))
        (statement p (depthLimit p)) (begun name) v) : Reaches p name first last (depthLimit p) v
  | inside {depth : Nat} {v w : Visit} (hv : Reaches p name first last (depth + 1) v)
      (h : Visits (fun read => statementWith p read v.targets v.limit v.start v.current)
        (statement p depth) v.builder w) : Reaches p name first last depth w

end Body

end DivisorCheck
