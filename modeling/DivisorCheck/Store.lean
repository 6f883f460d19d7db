/-
  `Store` — what the analysis knows about every variable at one point of a
  program.

  A store is either `unreachable`, when no execution gets to the point, or
  `reachable` with `Facts`: finitely many variables with a tag other than `top`.
  A variable without a fact is `top`.  The facts are kept sorted by variable and
  free of `top`, as an invariant of the type, so two stores are equal exactly
  when they know the same about every variable (`Store.ext_get`).

  `Store.get` is the view through which the operations are described: `get_set`,
  `get_forget`, `get_havoc` and `get_join` say what each of them does to it.
  A reachable store may hold a `bottom` fact; that does not make it unreachable.
-/
import DivisorCheck.Tag

namespace DivisorCheck

/-- A variable of the analysed program. -/
abbrev VarId := Int

/-! ### Facts -/

/-- The tag that a list of facts gives to a variable: the first one, `top` if there is none. -/
def factIn (v : VarId) : List (VarId × Tag) → Tag
  | [] => .top
  | (w, t) :: rest => if w = v then t else factIn v rest

/-- Puts a fact into a sorted list in place of any former one about that variable. -/
def insertFact (v : VarId) (t : Tag) : List (VarId × Tag) → List (VarId × Tag)
  | [] => [(v, t)]
  | (w, u) :: rest =>
    if v < w then (v, t) :: (w, u) :: rest
    else if v = w then (v, t) :: rest
    else (w, u) :: insertFact v t rest

/-- Finitely many variables with a tag other than `top`, in increasing order. -/
structure Facts where
  entries : List (VarId × Tag)
  sorted : entries.Pairwise (fun a b => a.1 < b.1) := by simp
  definite : ∀ e ∈ entries, e.2 ≠ .top := by simp
deriving DecidableEq

namespace Facts

/-- No facts. -/
def empty : Facts where
  entries := []

theorem mem_insertFact {v : VarId} {t : Tag} {l : List (VarId × Tag)} {e : VarId × Tag} :
    e ∈ insertFact v t l → e = (v, t) ∨ e ∈ l := by
  induction l with
  | nil => simp [insertFact]
  | cons a l ih =>
    obtain ⟨w, u⟩ := a
    unfold insertFact
    split
    · simp
    · split
      · simp only [List.mem_cons]; rintro (h | h) <;> simp [h]
      · simp only [List.mem_cons]
        rintro (h | h)
        · simp [h]
        · rcases ih h with h | h <;> simp [h]

theorem sorted_insertFact {v : VarId} {t : Tag} {l : List (VarId × Tag)}
    (h : l.Pairwise (fun a b => a.1 < b.1)) :
    (insertFact v t l).Pairwise (fun a b => a.1 < b.1) := by
  induction l with
  | nil => simp [insertFact]
  | cons a l ih =>
    obtain ⟨w, u⟩ := a
    rw [List.pairwise_cons] at h
    unfold insertFact
    split
    · -- The new variable comes first.
      rename_i hv
      refine List.pairwise_cons.2 ⟨?_, List.pairwise_cons.2 h⟩
      intro e he
      rcases List.mem_cons.1 he with rfl | he
      · exact hv
      · exact Int.lt_trans hv (h.1 e he)
    · split
      · rename_i hvw
        subst hvw
        exact List.pairwise_cons.2 h
      · -- The new variable belongs further down.
        rename_i hlt hne
        refine List.pairwise_cons.2 ⟨?_, ih h.2⟩
        intro e he
        rcases mem_insertFact he with rfl | he
        · exact (Int.lt_or_gt_of_ne hne).resolve_left hlt
        · exact h.1 e he

/-- Replaces what is known about `v` by a tag other than `top`. -/
def insert (f : Facts) (v : VarId) (t : Tag) (h : t ≠ .top) : Facts where
  entries := insertFact v t f.entries
  sorted := sorted_insertFact f.sorted
  definite e he := by
    rcases mem_insertFact he with rfl | he
    · exact h
    · exact f.definite e he

/-- Keeps the facts about variables that pass the test. -/
def keep (f : Facts) (p : VarId → Bool) : Facts where
  entries := f.entries.filter (fun e => p e.1)
  sorted := f.sorted.sublist List.filter_sublist
  definite e he := f.definite e (List.mem_filter.1 he).1

/-- What the join of two sets of facts says about a variable of the first. -/
def joinEntry (g : List (VarId × Tag)) (e : VarId × Tag) : Option (VarId × Tag) :=
  let t := e.2.join (factIn e.1 g)
  if t = .top then none else some (e.1, t)

/-- The facts that both sides agree on, each weakened to cover both. -/
def join (f g : Facts) : Facts where
  entries := f.entries.filterMap (joinEntry g.entries)
  sorted := by
    refine List.Pairwise.filterMap _ ?_ f.sorted
    intro a a' hlt b hb b' hb'
    simp only [joinEntry, Option.ite_none_left_eq_some, Option.some.injEq] at hb hb'
    rw [← hb.2, ← hb'.2]
    exact hlt
  definite e he := by
    obtain ⟨a, -, ha⟩ := List.mem_filterMap.1 he
    simp only [joinEntry, Option.ite_none_left_eq_some, Option.some.injEq] at ha
    rw [← ha.2]
    exact ha.1

end Facts

/-! ### Stores -/

/-- What is known about every variable at one point of a program. -/
inductive Store where
  | unreachable
  | reachable (facts : Facts)
deriving DecidableEq

namespace Store

/-- The reachable store that knows nothing. -/
def top : Store := reachable .empty

instance : Inhabited Store := ⟨unreachable⟩

/-- Does no execution get here? -/
def isUnreachable : Store → Bool
  | unreachable => true
  | reachable _ => false

/-- What is known about one variable. -/
def get : Store → VarId → Tag
  | unreachable, _ => .bottom
  | reachable f, v => factIn v f.entries

/-- The variables with a fact, in increasing order, each with its tag. -/
def items : Store → List (VarId × Tag)
  | unreachable => []
  | reachable f => f.entries

/-- The variables with a fact, in increasing order. -/
def tracked (s : Store) : List VarId := s.items.map (·.1)

/-- The number of facts. -/
def size (s : Store) : Nat := s.items.length

/-! ### Updates -/

/-- Replaces what is known about a variable; an unreachable store stays so. -/
def set (s : Store) (v : VarId) (t : Tag) : Store :=
  match s with
  | unreachable => unreachable
  | reachable f =>
    if h : t = .top then reachable (f.keep (· ≠ v)) else reachable (f.insert v t h)

/-- Drops what is known about one variable. -/
def forget (s : Store) (v : VarId) : Store := s.set v .top

/-- Drops what is known about each of the variables. -/
def havoc (s : Store) (vs : List VarId) : Store :=
  match s with
  | unreachable => unreachable
  | reachable f => reachable (f.keep (· ∉ vs))

/-- The first variable with a fact that a list names a second time. -/
def namedTwice? (s : Store) (vs : List VarId) : Option VarId :=
  go [] (vs.filter (· ∈ s.tracked))
where
  go (seen : List VarId) : List VarId → Option VarId
    | [] => none
    | v :: rest => if v ∈ seen then some v else go (v :: seen) rest

/-- Like `havoc`, for a list that must name no variable with a fact twice; the answer is otherwise
the first variable that it does so name. -/
def havocEach (s : Store) (vs : List VarId) : Except VarId Store :=
  match s.namedTwice? vs with
  | some v => .error v
  | none => .ok (s.havoc vs)

/-- Refines what is known about a variable by a tag that a branch condition asserts. -/
def narrow (s : Store) (v : VarId) (asserted : Tag) : Store := s.set v ((s.get v).narrow asserted)

/-- The store with the given facts, the later ones overriding the earlier. -/
def ofList (facts : List (VarId × Tag)) : Store := facts.foldl (fun s e => s.set e.1 e.2) top

/-! ### Order and bounds -/

/-- Least upper bound. -/
def join : Store → Store → Store
  | unreachable, b => b
  | a, unreachable => a
  | reachable f, reachable g => reachable (f.join g)

/-- The least upper bound of a list; the unreachable store for the empty one. -/
def joinAll (stores : List Store) : Store := stores.foldl join unreachable

/-- Does `a` know at least what `b` knows?  The unreachable store is below all others. -/
def le (a b : Store) : Bool :=
  match a, b with
  | unreachable, _ => true
  | reachable _, unreachable => false
  | reachable _, reachable g => g.entries.all (fun e => (a.get e.1).le e.2)

/-! ### Text -/

/-- The listing of a store: its facts by variable, or the mark of the unreachable one. -/
def text : Store → String
  | unreachable => "RefinementStore(⊥)"
  | reachable f =>
    let facts := f.entries.map (fun e => toString e.1 ++ ": " ++ e.2.name)
    "RefinementStore(\x7b" ++ ", ".intercalate facts ++ "\x7d)"

instance : ToString Store := ⟨text⟩

/-! ### What each update does to the view -/

theorem factIn_insertFact (v w : VarId) (t : Tag) (l : List (VarId × Tag))
    (h : l.Pairwise (fun a b => a.1 < b.1)) :
    factIn w (insertFact v t l) = if v = w then t else factIn w l := by
  induction l with
  | nil => simp [insertFact, factIn]
  | cons a l ih =>
    obtain ⟨x, u⟩ := a
    rw [List.pairwise_cons] at h
    unfold insertFact
    split
    · by_cases hvw : v = w <;> simp [factIn, hvw]
    · split
      · rename_i hvx
        subst hvx
        by_cases hvw : v = w <;> simp [factIn, hvw]
      · simp only [factIn, ih h.2]
        by_cases hxw : x = w <;> by_cases hvw : v = w <;> simp_all

theorem factIn_filter (w : VarId) (p : VarId → Bool) (l : List (VarId × Tag)) :
    factIn w (l.filter (fun e => p e.1)) = if p w then factIn w l else .top := by
  induction l with
  | nil => simp [factIn]
  | cons a l ih =>
    obtain ⟨x, u⟩ := a
    by_cases hxw : x = w
    · subst hxw
      by_cases hp : p x = true <;> simp [factIn, hp, ih]
    · by_cases hp : p x = true <;> simp [factIn, hp, ih, hxw]

@[simp] theorem get_unreachable (w : VarId) : unreachable.get w = .bottom := rfl

@[simp] theorem get_top (w : VarId) : top.get w = .top := rfl

theorem get_set {s : Store} (hs : s ≠ unreachable) (v w : VarId) (t : Tag) :
    (s.set v t).get w = if v = w then t else s.get w := by
  cases s with
  | unreachable => exact absurd rfl hs
  | reachable f =>
    by_cases ht : t = .top
    · subst ht
      simp only [set, ↓reduceDIte, get, Facts.keep]
      rw [factIn_filter w (fun x => decide (x ≠ v))]
      by_cases hvw : v = w <;> simp [hvw, eq_comm]
    · simp only [set, ht, ↓reduceDIte, get, Facts.insert]
      exact factIn_insertFact v w t f.entries f.sorted

theorem get_forget {s : Store} (hs : s ≠ unreachable) (v w : VarId) :
    (s.forget v).get w = if v = w then .top else s.get w := get_set hs v w .top

theorem get_havoc {s : Store} (hs : s ≠ unreachable) (vs : List VarId) (w : VarId) :
    (s.havoc vs).get w = if w ∈ vs then .top else s.get w := by
  cases s with
  | unreachable => exact absurd rfl hs
  | reachable f =>
    simp only [havoc, get, Facts.keep]
    rw [factIn_filter w (fun x => decide (x ∉ vs))]
    by_cases hw : w ∈ vs <;> simp [hw]

theorem factIn_eq_top {w : VarId} {l : List (VarId × Tag)} (h : ∀ e ∈ l, e.1 ≠ w) :
    factIn w l = .top := by
  induction l with
  | nil => rfl
  | cons a l ih =>
    rw [factIn, if_neg (h a (List.mem_cons_self ..))]
    exact ih (fun e he => h e (List.mem_cons_of_mem _ he))

theorem factIn_filterMap_joinEntry (w : VarId) (l g : List (VarId × Tag))
    (h : l.Pairwise (fun a b => a.1 < b.1)) :
    factIn w (l.filterMap (Facts.joinEntry g)) = (factIn w l).join (factIn w g) := by
  induction l with
  | nil => simp [factIn]
  | cons a l ih =>
    obtain ⟨x, u⟩ := a
    rw [List.pairwise_cons] at h
    have rest : x = w → factIn w l = .top := fun hx =>
      factIn_eq_top (fun e he hew => Int.lt_irrefl w (by simpa [hx, hew] using h.1 e he))
    by_cases htop : u.join (factIn x g) = .top
    · -- The fact is lost: nothing later speaks of the same variable.
      rw [List.filterMap_cons_none (by simp [Facts.joinEntry, htop]), ih h.2]
      by_cases hx : x = w
      · rw [rest hx]; subst hx; simp [factIn, htop]
      · simp [factIn, hx]
    · rw [List.filterMap_cons_some (b := (x, u.join (factIn x g)))
        (by simp [Facts.joinEntry, htop])]
      by_cases hx : x = w
      · subst hx; simp [factIn]
      · simp [factIn, hx, ih h.2]

theorem get_join (a b : Store) (w : VarId) : (a.join b).get w = (a.get w).join (b.get w) := by
  cases a with
  | unreachable => cases b <;> rfl
  | reachable f =>
    cases b with
    | unreachable => cases h : factIn w f.entries <;> simp [join, get, Tag.join, h]
    | reachable g => exact factIn_filterMap_joinEntry w f.entries g.entries f.sorted

/-- Lists of facts without `top` in increasing order are equal when they answer alike. -/
theorem eq_of_factIn {l m : List (VarId × Tag)}
    (hl : l.Pairwise (fun a b => a.1 < b.1)) (hm : m.Pairwise (fun a b => a.1 < b.1))
    (dl : ∀ e ∈ l, e.2 ≠ .top) (dm : ∀ e ∈ m, e.2 ≠ .top)
    (h : ∀ w, factIn w l = factIn w m) : l = m := by
  induction l generalizing m with
  | nil =>
    cases m with
    | nil => rfl
    | cons b m => exact absurd (by simpa [factIn] using (h b.1).symm) (dm b (List.mem_cons_self ..))
  | cons a l ih =>
    cases m with
    | nil => exact absurd (by simpa [factIn] using h a.1) (dl a (List.mem_cons_self ..))
    | cons b m =>
      obtain ⟨x, t⟩ := a
      obtain ⟨y, u⟩ := b
      rw [List.pairwise_cons] at hl hm
      have belowL : ∀ w, w ≤ x → factIn w l = .top := fun w hw =>
        factIn_eq_top (fun e he hew => Int.lt_irrefl w
          (Int.lt_of_le_of_lt hw (by simpa [hew] using hl.1 e he)))
      have belowM : ∀ w, w ≤ y → factIn w m = .top := fun w hw =>
        factIn_eq_top (fun e he hew => Int.lt_irrefl w
          (Int.lt_of_le_of_lt hw (by simpa [hew] using hm.1 e he)))
      have ht : t ≠ .top := dl (x, t) (List.mem_cons_self ..)
      have hu : u ≠ .top := dm (y, u) (List.mem_cons_self ..)
      have hxy : x = y := by
        rcases Int.lt_trichotomy x y with hlt | heq | hgt
        · have := h x
          simp [factIn, Int.ne_of_gt hlt, belowM x (Int.le_of_lt hlt)] at this
          exact absurd this ht
        · exact heq
        · have := h y
          simp [factIn, Int.ne_of_gt hgt, belowL y (Int.le_of_lt hgt)] at this
          exact absurd this.symm hu
      subst hxy
      have htu : t = u := by simpa [factIn] using h x
      subst htu
      rw [ih hl.2 hm.2 (fun e he => dl e (List.mem_cons_of_mem _ he))
        (fun e he => dm e (List.mem_cons_of_mem _ he))]
      intro w
      by_cases hw : x = w
      · rw [belowL w (Int.le_of_eq hw.symm), belowM w (Int.le_of_eq hw.symm)]
      · simpa [factIn, hw] using h w

/-- **Reachable stores have one form.**  Two of them that know the same are the same. -/
theorem ext_get {f g : Facts} (h : ∀ w, (reachable f).get w = (reachable g).get w) :
    reachable f = reachable g := by
  obtain ⟨l, hl, dl⟩ := f
  obtain ⟨m, hm, dm⟩ := g
  obtain rfl : l = m := eq_of_factIn hl hm dl dm h
  rfl

end Store

end DivisorCheck
