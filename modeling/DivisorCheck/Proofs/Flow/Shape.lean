/-
  What a block looks like when nothing more happens to it.

  A block that is finished holds a condition, or the header of a `switch`, or a part
  of a loop header, or a row of statements that ends in a jump or goes on to the
  next block; and the edges that leave it are those that belong to what it holds
  (`Program.Finished`).

  `Board.Grows` says of a stretch of building which blocks it has finished.  It
  starts with some blocks on which work goes on, which it may change, and ends with
  others, which it leaves to what follows.  Every other block is left alone, apart
  from the edges to labels that may be added to one dispatch block, and every new
  block is finished.  Stretches compose, also one inside another.
-/
import DivisorCheck.Proofs.Flow.Ending
import DivisorCheck.Proofs.Flow.Stage
import Mathlib.Data.Set.Insert

namespace DivisorCheck

/-! ### Finished blocks -/

namespace Program

variable (p : Program)

/-- The tokens are those between the parentheses of a header. -/
def InHeader (keyword : String) (ts : List TokenId) : Prop :=
  ∃ k paren close, p.text k = keyword ∧ p.HeaderAt k (some paren) ∧ p.text paren = "(" ∧
    (p.token paren).link = some close ∧ ts = p.between (p.nextOf paren) (some close)

/-- The three parts of a loop header. -/
def InParts (init cond step : List TokenId) : Prop :=
  ∃ inside, p.InHeader "for" inside ∧ p.headerParts 0 inside = (init, [cond, step])

/-- The tokens are those of a condition: a whole header, or the part in the middle of one. -/
def IsCondition (ts : List TokenId) : Prop :=
  (∃ keyword ∈ ["if", "while", "for"], p.InHeader keyword ts) ∨ ∃ init step, p.InParts init ts step

/-- The tokens of one statement, as far as the reader takes it, up to a token that limits it. -/
def taken (limit t : TokenId) : List TokenId :=
  (p.statementTokens limit (p.tokens.size + 1) (some t)).1

/-- Statements in a row, none of which begins with a word that starts a jump. -/
inductive Row : List TokenId → Prop
  | nil : Row []
  | snoc {us : List TokenId} (limit t : TokenId) (hus : Row us)
      (ht : Body.isJump (p.text t) = false) : Row (us ++ p.taken limit t)

/-- The edge along which a jump leaves its block; a `throw` leaves it by exceptions only. -/
def jumpExits (word : String) : List EdgeKind :=
  match word with
  | "return" => [.returnOut]
  | "throw" => []
  | "break" => [.breakOut]
  | "continue" => [.continueLoop]
  | _ => [.goto]

/-- Nothing more happens to the block. -/
inductive Finished : Look → Prop
  /-- a condition, which is true or false -/
  | decides {ts : List TokenId} {kind : BlockKind} (h : p.IsCondition ts) :
      Finished { tokens := ts, kind, exits := [.branchTrue, .branchFalse] }
  /-- an empty condition, which is true -/
  | always {kind : BlockKind} {init step : List TokenId} (h : p.InParts init [] step) :
      Finished { tokens := [], kind, exits := [.branchTrue] }
  /-- the header of a `switch` -/
  | dispatches {ts : List TokenId} {kind : BlockKind} {cases : List EdgeKind}
      (h : p.InHeader "switch" ts) (hdefault : .switchDefault ∈ cases) :
      Finished { tokens := ts, kind, cases }
  /-- a part of a loop header that is no condition -/
  | prepares {ts : List TokenId} {kind : BlockKind} {exit : EdgeKind}
      (h : (∃ cond step, p.InParts ts cond step) ∨ ∃ init cond, p.InParts init cond ts)
      (hexit : exit = .fallThrough ∨ exit = .backEdge) :
      Finished { tokens := ts, kind, exits := [exit] }
  /-- statements, after which another block follows -/
  | passes {ts : List TokenId} {kind : BlockKind} {exit : EdgeKind} (h : p.Row ts)
      (hexit : exit = .fallThrough ∨ exit = .backEdge) :
      Finished { tokens := ts, kind, exits := [exit] }
  /-- statements, the last of which is a jump -/
  | leaves {us : List TokenId} {kind : BlockKind} (limit t : TokenId) (h : p.Row us)
      (ht : Body.isJump (p.text t) = true) :
      Finished { tokens := us ++ p.taken limit t, kind, exits := jumpExits (p.text t) }

/-- More statements may be added to the block. -/
structure Live (l : Look) : Prop where
  row : p.Row l.tokens
  exits : l.exits = []
  cases : l.cases = []

variable {p} {l : Look}

theorem Live.of_empty {kind : BlockKind} : p.Live { tokens := [], kind } :=
  ⟨.nil, rfl, rfl⟩

/-- A live block is finished once another block follows. -/
theorem Live.finished (h : p.Live l) {kind : EdgeKind}
    (hkind : kind = .fallThrough ∨ kind = .backEdge) :
    p.Finished (l.leave kind) := by
  obtain ⟨ts, part, exits, cases⟩ := l
  obtain ⟨hrow, hexits, hcases⟩ := h
  dsimp only at hexits hcases
  subst hexits hcases
  have hleave : ({ tokens := ts, kind := part } : Look).leave kind =
      { tokens := ts, kind := part, exits := [kind] } := by
    rcases hkind with rfl | rfl
    all_goals rfl
  rw [hleave]
  exact .passes hrow hkind

end Program

/-! ### Stretches of building -/

namespace Board

/-- The blocks on which work goes on: the one that is live, if there is one. -/
def pending (current : Option BlockId) : Set BlockId := { b | current = some b }

@[simp] theorem mem_pending {current : Option BlockId} {b : BlockId} :
    b ∈ pending current ↔ current = some b := Iff.rfl

/-- The block has not changed, unless it is the dispatch block of a `switch`, to which labels have
been added. -/
def Kept (dispatch : Option BlockId) (K K' : Board) (b : BlockId) : Prop :=
  K'.look b = K.look b ∨ dispatch = some b ∧
    ∃ more, K'.look b = { K.look b with cases := (K.look b).cases ++ more }

/-- What a stretch of building has done, that has begun with work on some blocks and leaves the work
on others to what follows: the other old blocks are kept, and the other new ones are finished. -/
structure Grows (p : Program) (dispatch : Option BlockId) (K : Board) (A : Set BlockId) (K' : Board)
    (B : Set BlockId) : Prop where
  size : K.size ≤ K'.size
  kept : ∀ b < K.size, b ∉ A → Kept dispatch K K' b
  finished : ∀ b < K'.size, K.size ≤ b ∨ b ∈ A → b ∉ B → p.Finished (K'.look b)
  open_lt : ∀ b ∈ B, b < K'.size
  open_mem : ∀ b ∈ B, K.size ≤ b ∨ b ∈ A

namespace Kept

variable {dispatch : Option BlockId} {K K₁ K' : Board} {b : BlockId}

theorem refl (dispatch : Option BlockId) (K : Board) (b : BlockId) : Kept dispatch K K b := .inl rfl

theorem eq (h : Kept dispatch K K' b) (hb : dispatch ≠ some b) : K'.look b = K.look b :=
  h.resolve_right fun hn => hb hn.1

theorem kind (h : Kept dispatch K K' b) : (K'.look b).kind = (K.look b).kind := by
  rcases h with heq | ⟨-, more, heq⟩
  · rw [heq]
  · rw [heq]

theorem trans (h₁ : Kept dispatch K K₁ b) (h₂ : Kept dispatch K₁ K' b) : Kept dispatch K K' b := by
  rcases h₁ with h₁ | ⟨hb, more, h₁⟩
  · rcases h₂ with h₂ | ⟨hb, more, h₂⟩
    · exact .inl (h₂.trans h₁)
    · exact .inr ⟨hb, more, by rw [h₂, h₁]⟩
  · rcases h₂ with h₂ | ⟨-, rest, h₂⟩
    · exact .inr ⟨hb, more, h₂.trans h₁⟩
    · exact .inr ⟨hb, more ++ rest, by rw [h₂, h₁, List.append_assoc]⟩

end Kept

namespace Grows

variable {p : Program} {dispatch dispatch' : Option BlockId} {K K₁ K₂ K' : Board}
  {A B C D E : Set BlockId} {b : BlockId}

theorem refl (hA : ∀ b ∈ A, b < K.size) : Grows p dispatch K A K A where
  size := Nat.le_refl _
  kept b _ _ := .refl dispatch K b
  finished _ hb hin hout := absurd (hin.resolve_left (Nat.not_le.2 hb)) hout
  open_lt := hA
  open_mem _ hb := .inr hb

/-- An old block that was not worked on is not worked on now. -/
theorem not_mem (h : Grows p dispatch K A K' B) (hb : b < K.size) (hA : b ∉ A) : b ∉ B := by
  intro hB
  exact (h.open_mem b hB).elim (Nat.not_le.2 hb) hA

theorem look_eq (h : Grows p dispatch K A K' B) (hb : b < K.size) (hA : b ∉ A)
    (hd : dispatch ≠ some b) : K'.look b = K.look b :=
  (h.kept b hb hA).eq hd

theorem add (h : Grows p dispatch K A K₁ B) (kind : BlockKind) (ts : List TokenId) :
    Grows p dispatch K A (K₁.add kind ts) (insert K₁.size B) where
  size := Nat.le_succ_of_le h.size
  kept b hb hA := by
    unfold Kept
    rw [add_look, if_neg (Nat.ne_of_lt (Nat.lt_of_lt_of_le hb h.size))]
    exact h.kept b hb hA
  finished b hb hin hout := by
    rw [Set.mem_insert_iff, not_or] at hout
    rw [add_look, if_neg hout.1]
    exact h.finished b (Nat.lt_of_le_of_ne (Nat.le_of_lt_succ hb) hout.1) hin hout.2
  open_lt b hb := by
    rcases hb with rfl | hb
    · exact Nat.lt_succ_self _
    · exact Nat.lt_succ_of_lt (h.open_lt b hb)
  open_mem b hb := by
    rcases hb with rfl | hb
    · exact .inl h.size
    · exact h.open_mem b hb

theorem change (h : Grows p dispatch K A K₁ B) (hb : b ∈ B) (f : Look → Look) :
    Grows p dispatch K A (K₁.change b f) B where
  size := h.size
  kept c hc hA := by
    have hne : c ≠ b := by
      rintro rfl
      exact h.not_mem hc hA hb
    unfold Kept
    rw [change_look, if_neg hne]
    exact h.kept c hc hA
  finished c hc hin hout := by
    have hne : c ≠ b := by
      rintro rfl
      exact hout hb
    rw [change_look, if_neg hne]
    exact h.finished c hc hin hout
  open_lt := h.open_lt
  open_mem := h.open_mem

/-- A label is added to the dispatch block. -/
theorem label (h : Grows p dispatch K A K₁ B) (hd : dispatch = some b) (hb : b < K.size) (hA : b ∉ A)
    {kind : EdgeKind} (hkind : kind.isCase = true) : Grows p dispatch K A (K₁.leave b kind) B where
  size := h.size
  kept c hc hcA := by
    have hleave : ∀ l : Look, l.leave kind = { l with cases := l.cases ++ [kind] } := by
      intro l
      have hne : kind ≠ .exception := by
        rintro rfl
        cases hkind
      unfold Look.leave
      rw [if_neg hne, if_pos hkind]
    refine (h.kept c hc hcA).trans ?_
    unfold Kept
    rw [leave_look]
    split_ifs with heq
    · subst heq
      exact .inr ⟨hd, [kind], hleave _⟩
    · exact .inl rfl
  finished c hc hin hout := by
    -- A dispatch block is neither new nor worked on, so it is not among those that are finished.
    have hne : c ≠ b := by
      rintro rfl
      exact hin.elim (Nat.not_le.2 hb) hA
    rw [leave_look, if_neg hne]
    exact h.finished c hc hin hout
  open_lt := h.open_lt
  open_mem := h.open_mem

/-- A stretch goes on with work on some of the blocks that are left to it.  Labels are added to the
same dispatch block as before, or to one that is still being worked on. -/
theorem trans (h₁ : Grows p dispatch K A K₁ B) (h₂ : Grows p dispatch' K₁ C K₂ D) (hC : C ⊆ B)
    (hd : dispatch' = dispatch ∧ (∀ b, dispatch = some b → b < K.size ∧ b ∉ A) ∨
      ∀ b, dispatch' = some b → b ∈ B \ C) :
    Grows p dispatch K A K₂ (B \ C ∪ D) where
  size := Nat.le_trans h₁.size h₂.size
  kept b hb hA := by
    have hB : b ∉ B := h₁.not_mem hb hA
    have hsecond := h₂.kept b (Nat.lt_of_lt_of_le hb h₁.size) fun hbC => hB (hC hbC)
    rcases hd with ⟨rfl, -⟩ | hd
    · exact (h₁.kept b hb hA).trans hsecond
    · have hsame := hsecond.eq fun heq => hB (hd b heq).1
      unfold Kept
      rw [hsame]
      exact h₁.kept b hb hA
  finished b hb hin hout := by
    rw [Set.mem_union, not_or, Set.mem_sdiff, not_and, not_not] at hout
    by_cases hpart : K₁.size ≤ b ∨ b ∈ C
    · exact h₂.finished b hb hpart hout.2
    · rw [not_or, Nat.not_le] at hpart
      have hB : b ∉ B := fun hbB => hpart.2 (hout.1 hbB)
      have hne : dispatch' ≠ some b := by
        rintro heq
        rcases hd with ⟨rfl, hd⟩ | hd
        · exact hin.elim (Nat.not_le.2 (hd b heq).1) (hd b heq).2
        · exact hB (hd b heq).1
      rw [h₂.look_eq hpart.1 hpart.2 hne]
      exact h₁.finished b hpart.1 hin hB
  open_lt b hb := by
    rcases hb with hb | hb
    · exact Nat.lt_of_lt_of_le (h₁.open_lt b hb.1) h₂.size
    · exact h₂.open_lt b hb
  open_mem b hb := by
    rcases hb with hb | hb
    · exact h₁.open_mem b hb.1
    · rcases h₂.open_mem b hb with hsize | hbC
      · exact .inl (Nat.le_trans h₁.size hsize)
      · exact h₁.open_mem b (hC hbC)

/-- Some blocks have been finished as well. -/
theorem close (h : Grows p dispatch K A K' B) (hC : C ⊆ B)
    (hfinished : ∀ b ∈ B, b ∉ C → p.Finished (K'.look b)) : Grows p dispatch K A K' C where
  size := h.size
  kept := h.kept
  finished b hb hin hout := by
    by_cases hB : b ∈ B
    · exact hfinished b hB hout
    · exact h.finished b hb hin hB
  open_lt b hb := h.open_lt b (hC hb)
  open_mem b hb := h.open_mem b (hC hb)

end Grows

end Board

end DivisorCheck
