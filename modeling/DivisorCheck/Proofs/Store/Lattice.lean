/-
  The lattice of stores, and the calls that make them.

  Stores are made by calls, each of which works on stores made before.  What such a
  call means can be said without stores: with `Knowledge`, a function from variables
  to tags, which an update changes at some variables and a join takes variable by
  variable.  `knowledge_results` runs the same calls on both and finds the same.

  Of that knowledge a store holds the tags other than `top`, one for each variable, and
  nothing else (`mem_items_iff`, `tracked_sorted`).  So what is known at a point has one
  form, and stores that know the same are the same, however they were made.  With the
  laws of the order (`Store.le_iff`, `Store.join_le_iff`, `Store.joinAll_congr`) this
  makes the stores a lattice.
-/
import DivisorCheck.Proofs.Store.Order
import Mathlib.Logic.Function.Basic

namespace DivisorCheck

/-! ### Calls -/

/-- A call that makes a store.  The stores that it works on are named by their positions among
those made before it. -/
inductive StoreCall where
  | given (facts : List (VarId × Tag)) (reachable : Bool)
  | set (i : Nat) (v : VarId) (t : Tag)
  | forget (i : Nat) (v : VarId)
  | havoc (i : Nat) (vs : List VarId)
  | narrow (i : Nat) (v : VarId) (asserted : Tag)
  | join (i j : Nat)
  | joinAll (is : List Nat)

/-- What the calls do with one kind of stores.  Dropping facts can fail. -/
structure StoreOperations (α : Type) where
  given : List (VarId × Tag) → Bool → α
  set : α → VarId → Tag → α
  forget : α → VarId → α
  havoc : α → List VarId → Option α
  narrow : α → VarId → Tag → α
  join : α → α → α
  joinAll : List α → α

namespace StoreCall

variable {α : Type} (ops : StoreOperations α)

/-- What a call makes of the stores made before it: nothing if it fails, or if it works on a store
that there is not. -/
def result? (made : List α) : StoreCall → Option α
  | given facts reachable => some (ops.given facts reachable)
  | set i v t => made[i]?.map (ops.set · v t)
  | forget i v => made[i]?.map (ops.forget · v)
  | havoc i vs => made[i]?.bind (ops.havoc · vs)
  | narrow i v asserted => made[i]?.map (ops.narrow · v asserted)
  | join i j => made[i]?.bind fun a => made[j]?.map (ops.join a)
  | joinAll is => some (ops.joinAll (is.filterMap (made[·]?)))

/-- The stores that a sequence of calls makes, in order. -/
def results (calls : List StoreCall) : List α :=
  calls.foldl (fun made call => made ++ (call.result? ops made).toList) []

theorem results_concat (calls : List StoreCall) (call : StoreCall) :
    results ops (calls ++ [call]) =
      results ops calls ++ (call.result? ops (results ops calls)).toList := by
  rw [results, List.foldl_append]
  rfl

end StoreCall

/-! ### Knowledge without stores -/

/-- What is known at one point of a program, as a function from variables to tags.  Where no
execution gets, there is no such function. -/
abbrev Knowledge := Option (VarId → Tag)

namespace Knowledge

/-- What is known about one variable. -/
def tagOf (k : Knowledge) (v : VarId) : Tag := k.elim .bottom (· v)

/-- The knowledge given by a list of facts, the later ones overriding the earlier. -/
def given (facts : List (VarId × Tag)) (reachable : Bool) : Knowledge :=
  if reachable then some (facts.foldl (fun m e => Function.update m e.1 e.2) fun _ => .top)
  else none

/-- Replaces what is known about one variable. -/
def set (k : Knowledge) (v : VarId) (t : Tag) : Knowledge := k.map (Function.update · v t)

/-- Drops what is known about each of the variables, of which none that something is known about
may be named twice. -/
def havoc (k : Knowledge) (vs : List VarId) : Option Knowledge :=
  match k with
  | none => some none
  | some m =>
    if (vs.filter (m · ≠ .top)).Nodup then some (some fun v => if v ∈ vs then .top else m v)
    else none

/-- Refines what is known about one variable. -/
def narrow (k : Knowledge) (v : VarId) (asserted : Tag) : Knowledge :=
  k.map fun m => Function.update m v ((m v).narrow asserted)

/-- What is known at a point that is reached from two others. -/
def join : Knowledge → Knowledge → Knowledge
  | none, l => l
  | k, none => k
  | some m, some n => some fun v => (m v).join (n v)

/-- What is known at a point that is reached from many others. -/
def joinAll (ks : List Knowledge) : Knowledge :=
  if ks.all Option.isNone then none else some fun v => Tag.joinAll (ks.map (tagOf · v))

/-- The calls, on knowledge. -/
def operations : StoreOperations Knowledge where
  given
  set
  forget k v := set k v .top
  havoc
  narrow
  join
  joinAll

end Knowledge

namespace Store

variable {s : Store} {v : VarId} {t : Tag}

/-- The calls, on stores. -/
def operations : StoreOperations Store where
  given facts reachable := if reachable then ofList facts else unreachable
  set
  forget
  havoc s vs := (s.havocEach vs).toOption
  narrow
  join
  joinAll

/-- What a store knows. -/
def knowledge : Store → Knowledge
  | unreachable => none
  | reachable f => some (reachable f).get

/-! ### What is stored -/

/-- **A store holds the definite facts and no others**: no `top` is ever among them. -/
theorem mem_items_iff : (v, t) ∈ s.items ↔ s ≠ unreachable ∧ s.get v = t ∧ t ≠ .top := by
  cases s with
  | unreachable => simp [items]
  | reachable f =>
    constructor
    · intro hmem
      exact ⟨by simp, get_of_mem_entries hmem, f.definite _ hmem⟩
    · rintro ⟨-, rfl, htop⟩
      exact mem_entries_of_get_ne_top htop

theorem tracked_sorted (s : Store) : s.tracked.Pairwise (· < ·) := by
  cases s with
  | unreachable => exact .nil
  | reachable f => exact List.pairwise_map.2 f.sorted

/-! ### What a store knows -/

theorem knowledge_of_ne (hs : s ≠ unreachable) : s.knowledge = some s.get := by
  cases s with
  | unreachable => exact absurd rfl hs
  | reachable f => rfl

theorem knowledge_eq_none_iff : s.knowledge = none ↔ s = unreachable := by
  cases s <;> simp [knowledge]

@[simp] theorem tagOf_knowledge (s : Store) (v : VarId) : s.knowledge.tagOf v = s.get v := by
  cases s <;> rfl

/-- **What is known has one form**: stores that know the same are the same. -/
theorem knowledge_injective : Function.Injective knowledge := by
  intro a b h
  apply eq_of_get
  intro v
  rw [← tagOf_knowledge, h, tagOf_knowledge]

/-! ### What each call makes a store know -/

theorem knowledge_set (s : Store) (v : VarId) (t : Tag) :
    (s.set v t).knowledge = s.knowledge.set v t := by
  by_cases hs : s = unreachable
  · subst hs
    rfl
  · rw [knowledge_of_ne (set_ne_unreachable hs v t), knowledge_of_ne hs]
    apply congrArg some
    ext w
    show _ = Function.update s.get v t w
    rw [get_set hs, Function.update_apply]
    exact if_congr eq_comm rfl rfl

theorem knowledge_ofList (facts : List (VarId × Tag)) :
    (ofList facts).knowledge = Knowledge.given facts true := by
  -- One fact after another, from any store that knows a function.
  have hstep : ∀ (s : Store) (m : VarId → Tag), s.knowledge = some m →
      (facts.foldl (fun s e => s.set e.1 e.2) s).knowledge =
        some (facts.foldl (fun m e => Function.update m e.1 e.2) m) := by
    induction facts with
    | nil => exact fun _ _ h => h
    | cons e facts ih =>
      intro s m h
      apply ih
      rw [knowledge_set, h]
      rfl
  exact hstep top _ rfl

theorem knowledge_narrow (s : Store) (v : VarId) (asserted : Tag) :
    (s.narrow v asserted).knowledge = s.knowledge.narrow v asserted := by
  rw [narrow, knowledge_set]
  cases s <;> rfl

theorem mem_tracked_iff {f : Facts} :
    v ∈ (reachable f).tracked ↔ (reachable f).get v ≠ .top := by
  constructor
  · intro hmem
    obtain ⟨⟨w, t⟩, he, rfl⟩ := List.mem_map.1 hmem
    obtain ⟨-, rfl, htop⟩ := mem_items_iff.1 he
    exact htop
  · intro htop
    exact List.mem_map.2 ⟨_, mem_items_iff.2 ⟨by simp, rfl, htop⟩, rfl⟩

/-- The search for a second mention finds none exactly if each variable has one mention, here or
before. -/
theorem namedTwice?_go_eq_none_iff (seen vs : List VarId) :
    namedTwice?.go seen vs = none ↔ vs.Nodup ∧ ∀ v ∈ vs, v ∉ seen := by
  induction vs generalizing seen with
  | nil => simp [namedTwice?.go]
  | cons v vs ih =>
    rw [namedTwice?.go]
    by_cases hv : v ∈ seen
    · simp [hv]
    · rw [if_neg hv, ih, List.nodup_cons, List.forall_mem_cons]
      simp only [List.mem_cons, not_or]
      constructor
      · rintro ⟨hnodup, hnew⟩
        exact ⟨⟨fun hmem => (hnew v hmem).1 rfl, hnodup⟩, hv, fun w hw => (hnew w hw).2⟩
      · rintro ⟨⟨hmem, hnodup⟩, -, hnew⟩
        exact ⟨hnodup, fun w hw => ⟨fun heq => hmem (heq ▸ hw), hnew w hw⟩⟩

theorem namedTwice?_eq_none_iff {f : Facts} {vs : List VarId} :
    (reachable f).namedTwice? vs = none ↔
      (vs.filter ((reachable f).get · ≠ .top)).Nodup := by
  have hfilter : vs.filter (· ∈ (reachable f).tracked) =
      vs.filter ((reachable f).get · ≠ .top) :=
    List.filter_congr fun v _ => decide_eq_decide.2 mem_tracked_iff
  rw [namedTwice?, namedTwice?_go_eq_none_iff, hfilter]
  simp

theorem knowledge_havocEach (s : Store) (vs : List VarId) :
    (s.havocEach vs).toOption.map knowledge = s.knowledge.havoc vs := by
  cases s with
  | unreachable =>
    -- No variable has a fact, so none is named twice.
    have hnone : unreachable.namedTwice? vs = none := by
      simp [namedTwice?, tracked, items, namedTwice?.go]
    rw [havocEach, hnone]
    rfl
  | reachable f =>
    show _ = if (vs.filter ((reachable f).get · ≠ .top)).Nodup then _ else _
    rw [havocEach]
    cases htwice : (reachable f).namedTwice? vs with
    | some v =>
      rw [if_neg (mt namedTwice?_eq_none_iff.2 (by simp [htwice]))]
      rfl
    | none =>
      rw [if_pos (namedTwice?_eq_none_iff.1 htwice)]
      show some ((reachable f).havoc vs).knowledge = _
      rw [knowledge_of_ne (havoc_ne_unreachable (by simp) vs)]
      apply congrArg (some ∘ some)
      ext v
      exact get_havoc (by simp) vs v

theorem knowledge_join (a b : Store) :
    (a.join b).knowledge = a.knowledge.join b.knowledge := by
  cases a with
  | unreachable => rfl
  | reachable f =>
    cases b with
    | unreachable => rfl
    | reachable g =>
      rw [knowledge_of_ne (join_ne_unreachable (by simp) _)]
      apply congrArg some
      ext v
      exact get_join _ _ v

theorem knowledge_joinAll (ss : List Store) :
    (joinAll ss).knowledge = Knowledge.joinAll (ss.map knowledge) := by
  -- A join is unreachable exactly if it is below the unreachable store, and so are all its parts.
  have hnone : (ss.map knowledge).all Option.isNone = true ↔ joinAll ss = unreachable := by
    simp [← le_unreachable_iff, joinAll_le_iff, knowledge_eq_none_iff]
  rw [Knowledge.joinAll]
  by_cases hdead : joinAll ss = unreachable
  · rw [if_pos (hnone.2 hdead), hdead]
    rfl
  · rw [if_neg (mt hnone.1 hdead), knowledge_of_ne hdead]
    apply congrArg some
    ext v
    rw [get_joinAll, List.map_map]
    simp [Function.comp_def]

/-! ### Sequences of calls -/

/-- An update that does to a store what another one does to its knowledge does so to each store
made before. -/
theorem map_knowledge_update {f : Store → Store} {g : Knowledge → Knowledge}
    (h : ∀ s, (f s).knowledge = g s.knowledge) (made : List Store) (i : Nat) :
    (made[i]?.map f).map knowledge = (made.map knowledge)[i]?.map g := by
  rw [List.getElem?_map, Option.map_map, Option.map_map]
  exact congrArg (made[i]?.map ·) (funext h)

/-- A call makes the store that knows what the call means. -/
theorem knowledge_result? (made : List Store) (call : StoreCall) :
    (call.result? operations made).map knowledge =
      call.result? Knowledge.operations (made.map knowledge) := by
  cases call with
  | given facts reachable =>
    cases reachable with
    | false => rfl
    | true => exact congrArg some (knowledge_ofList facts)
  | set i v t => exact map_knowledge_update (knowledge_set · v t) made i
  | forget i v => exact map_knowledge_update (knowledge_set · v .top) made i
  | narrow i v asserted => exact map_knowledge_update (knowledge_narrow · v asserted) made i
  | havoc i vs =>
    rw [StoreCall.result?, StoreCall.result?, List.getElem?_map, Option.map_bind, Option.bind_map]
    exact congrArg (made[i]?.bind ·) (funext (knowledge_havocEach · vs))
  | join i j =>
    rw [StoreCall.result?, StoreCall.result?, List.getElem?_map (i := i), Option.map_bind,
      Option.bind_map]
    exact congrArg (made[i]?.bind ·)
      (funext fun a => map_knowledge_update (knowledge_join a) made j)
  | joinAll is =>
    simp only [StoreCall.result?, Option.map_some, List.getElem?_map, ← List.map_filterMap]
    exact congrArg some (knowledge_joinAll _)

/-- **A sequence of calls makes the stores that know what the calls mean.** -/
theorem knowledge_results (calls : List StoreCall) :
    (StoreCall.results operations calls).map knowledge =
      StoreCall.results Knowledge.operations calls := by
  induction calls using List.reverseRecOn with
  | nil => rfl
  | append_singleton calls call ih =>
    rw [StoreCall.results_concat, StoreCall.results_concat, ← ih, ← knowledge_result?,
      List.map_append, Option.toList_map]

/-! ### The lattice -/

/-- **Stores are a lattice in canonical form.**  The stores that a sequence of calls makes know what
the calls mean, and no two stores know the same; each holds its facts other than `top`, and no
others, in the order of the variables.  One store is below another exactly if it is at every
variable, and the unreachable store is below all; this is a partial order, and stores are equal
exactly if they are below each other.  The join of two stores is above both and below whatever is
above both.  The join of a list depends only on which stores occur in it. -/
theorem canonical_lattice (calls : List StoreCall) (a b c : Store) (ss ts : List Store) :
    ((StoreCall.results operations calls).map knowledge =
        StoreCall.results Knowledge.operations calls ∧ Function.Injective knowledge ∧
      ∀ s ∈ StoreCall.results operations calls, s.tracked.Pairwise (· < ·) ∧
        ∀ v t, (v, t) ∈ s.items ↔ s ≠ unreachable ∧ s.get v = t ∧ t ≠ .top) ∧
    ((a.le b = true ↔ ∀ v, (a.get v).le (b.get v) = true) ∧ unreachable.le a = true) ∧
    (a.le a = true ∧ (a.le b = true → b.le c = true → a.le c = true) ∧
      (a == b) = (a.le b && b.le a)) ∧
    (a.le (a.join b) = true ∧ b.le (a.join b) = true ∧
      (a.join b).le c = (a.le c && b.le c)) ∧
    ((∀ s, s ∈ ss ↔ s ∈ ts) → joinAll ss = joinAll ts) := by
  refine ⟨⟨knowledge_results calls, knowledge_injective, ?_⟩, ⟨le_iff, rfl⟩,
    ⟨le_refl a, le_trans, ?_⟩, ⟨le_join_left a b, le_join_right a b, ?_⟩, joinAll_congr⟩
  · intro s _
    exact ⟨tracked_sorted s, fun v t => mem_items_iff⟩
  · apply Bool.eq_iff_iff.2
    rw [beq_iff_eq, Bool.and_eq_true]
    constructor
    · rintro rfl
      exact ⟨le_refl a, le_refl a⟩
    · rintro ⟨hab, hba⟩
      exact le_antisymm hab hba
  · apply Bool.eq_iff_iff.2
    rw [join_le_iff, Bool.and_eq_true]

/-- Two stores given, one of them with facts of every kind, an update of the first, its join with
the third, what a condition leaves of that, and the join of all.  The calls that drop a fact twice
or name a store that there is not make nothing. -/
def mixedCalls : List StoreCall :=
  [.given [(1, .zero), (2, .top), (4, .bottom), (3, .nonZero)] true, .given [(1, .zero)] false,
    .set 0 3 .zero, .havoc 2 [3, 3], .join 0 2, .forget 7 1, .narrow 3 3 .nonZero, .havoc 4 [1, 5],
    .joinAll [1, 5, 0, 5]]

theorem canonical_lattice_mixedCalls :
    (StoreCall.results operations mixedCalls).map items =
      [[(1, .zero), (3, .nonZero), (4, .bottom)], [], [(1, .zero), (3, .zero), (4, .bottom)],
        [(1, .zero), (4, .bottom)], [(1, .zero), (3, .nonZero), (4, .bottom)],
        [(3, .nonZero), (4, .bottom)], [(3, .nonZero), (4, .bottom)]] ∧
    (∀ s ∈ StoreCall.results operations mixedCalls, ∀ v, (v, .top) ∉ s.items) ∧
    (ofList [(1, .zero), (2, .zero)]).le (ofList [(1, .zero)]) = true ∧
    (ofList [(1, .zero)]).le top = true ∧
    (ofList [(1, .zero), (2, .zero)]).le top = true ∧
    joinAll [ofList [(1, .zero)], unreachable, ofList [(1, .bottom), (2, .zero)]] =
      joinAll [ofList [(1, .bottom), (2, .zero)], ofList [(1, .zero)], unreachable,
        ofList [(1, .zero)]] := by
  obtain ⟨⟨-, -, hitems⟩, -, ⟨-, htrans, -⟩, -, hjoin⟩ := canonical_lattice mixedCalls
    (ofList [(1, .zero), (2, .zero)]) (ofList [(1, .zero)]) top
    [ofList [(1, .zero)], unreachable, ofList [(1, .bottom), (2, .zero)]]
    [ofList [(1, .bottom), (2, .zero)], ofList [(1, .zero)], unreachable, ofList [(1, .zero)]]
  have hab : (ofList [(1, .zero), (2, .zero)]).le (ofList [(1, .zero)]) = true := by decide
  have hbc : (ofList [(1, .zero)]).le top = true := by decide
  refine ⟨by decide, fun s hs v hmem => ?_, hab, hbc, htrans hab hbc, hjoin fun s => ?_⟩
  · exact (((hitems s hs).2 v .top).1 hmem).2.2 rfl
  · simp only [List.mem_cons, List.not_mem_nil, or_false]
    tauto

end Store

end DivisorCheck
