import Mathlib.Data.List.Sort
import Mathlib.Data.List.TakeWhile

/-!
Keyed data under a sequence of changes. A map gives each key at most one value;
changes put a value under its key or drop a key. Only the last change of a key
counts. A log that keeps the puts and the drops apart forgets which came last.
-/
namespace NovaRocks.Store
open List
open Function (update update_of_ne update_self)

inductive Change (K V : Type) where
  | put (value : V)
  | drop (key : K)
  deriving DecidableEq

section
variable {K V : Type} [DecidableEq K] (key : V → K)

def Change.keyOf : Change K V → K
  | put v => key v
  | drop k => k

section
variable (m : K → Option V)

def put (v : V) : K → Option V :=
  update m (key v) (some v)

def dropKey (k : K) : K → Option V :=
  update m k none

def apply : Change K V → K → Option V
  | .put v => put key m v
  | .drop k => dropKey m k

def putAll (values : List V) : K → Option V :=
  values.foldl (put key) m

def dropAll (keys : List K) : K → Option V :=
  keys.foldl dropKey m

def applyAll (changes : List (Change K V)) : K → Option V :=
  changes.foldl (apply key) m

end

def puts : List (Change K V) → List V
  | [] => []
  | .put v :: rest => v :: puts rest
  | .drop _ :: rest => puts rest

def drops : List (Change K V) → List K
  | [] => []
  | .put _ :: rest => drops rest
  | .drop k :: rest => k :: drops rest

def lastChange (changes : List (Change K V)) (k : K) : Option (Change K V) :=
  (changes.filter fun c => c.keyOf key = k).getLast?

def lastValue (values : List V) (k : K) : Option V :=
  (values.filter fun v => key v = k).getLast?

end

theorem mem_drops_iff {changes : List (Change K V)} : k ∈ drops changes ↔ .drop k ∈ changes := by
  induction changes with
  | nil => simp [drops]
  | cons c rest ih => cases c <;> simp [drops, ih]

@[simp] theorem puts_of_puts (values : List V) : puts (values.map (Change.put (K := K))) = values := by
  induction values with
  | nil => rfl
  | cons v rest ih => simp [puts, ih]

@[simp] theorem drops_of_puts (values : List V) : drops (values.map (Change.put (K := K))) = [] := by
  induction values with
  | nil => rfl
  | cons v rest ih => simp [drops, ih]

@[simp] theorem puts_of_drops (f : V → K) (values : List V) :
    puts (values.map fun v => (Change.drop (f v) : Change K V)) = [] := by
  induction values with
  | nil => rfl
  | cons v rest ih => simp [puts, ih]

@[simp] theorem drops_of_drops (f : V → K) (values : List V) :
    drops (values.map fun v => (Change.drop (f v) : Change K V)) = values.map f := by
  induction values with
  | nil => rfl
  | cons v rest ih => simp [drops, ih]

theorem puts_append (first second : List (Change K V)) :
    puts (first ++ second) = puts first ++ puts second := by
  induction first with
  | nil => rfl
  | cons c rest ih => cases c <;> simp [puts, ih]

theorem drops_append (first second : List (Change K V)) :
    drops (first ++ second) = drops first ++ drops second := by
  induction first with
  | nil => rfl
  | cons c rest ih => cases c <;> simp [drops, ih]

section
variable {K V : Type} [DecidableEq K] {key : V → K} {m : K → Option V} {k : K}

theorem lastValue_append (key : V → K) (first second : List V) :
    lastValue key (first ++ second) k = (lastValue key second k).or (lastValue key first k) := by
  rw [lastValue, filter_append, getLast?_append]
  rfl

theorem lastValue_cons (key : V → K) (v : V) (values : List V) :
    lastValue key (v :: values) k = (lastValue key values k).or (if key v = k then some v else none) := by
  rw [← singleton_append, lastValue_append]
  by_cases same : key v = k <;> simp [lastValue, same]

theorem lastChange_cons (c : Change K V) (changes : List (Change K V)) :
    lastChange key (c :: changes) k =
      (lastChange key changes k).or (if c.keyOf key = k then some c else none) :=
  lastValue_cons (Change.keyOf key) c changes

theorem lastValue_mem (last : lastValue key values k = some v) : v ∈ values ∧ key v = k := by
  simpa using mem_filter.mp (mem_of_getLast? last)

theorem lastValue_isSome (key : V → K) (member : v ∈ values) (same : key v = k) :
    ∃ last, lastValue key values k = some last := by
  rw [← Option.isSome_iff_exists, lastValue, getLast?_isSome]
  exact ne_nil_of_mem (mem_filter.mpr ⟨member,by simpa using same⟩)

theorem lastValue_map {K' W : Type} [DecidableEq K'] {key' : W → K'} {f : V → W} {h : K → K'}
    (injective : Function.Injective h) (own : ∀ v, key' (f v) = h (key v)) (values : List V) :
    lastValue key' (values.map f) (h k) = (lastValue key values k).map f := by
  induction values with
  | nil => rfl
  | cons v rest ih =>
    rw [map_cons, lastValue_cons, ih, lastValue_cons, own]
    by_cases same : key v = k
    · cases lastValue key rest k <;> simp [same]
    · cases lastValue key rest k <;> simp [same, injective.ne same]

theorem lastValue_named {N : Type} [DecidableEq N] {f : N → V} {h : N → K}
    {names : List N} {n : N} (injective : ∀ name ∈ names, h name = h n → name = n) (own : ∀ n, key (f n) = h n) :
    lastValue key (names.map f) (h n) = if n ∈ names then some (f n) else none := by
  induction names with
  | nil => rfl
  | cons first rest ih =>
    rw [forall_mem_cons] at injective
    rw [map_cons, lastValue_cons, ih injective.2, own]
    by_cases later : n ∈ rest
    · simp [later]
    · by_cases same : first = n
      · simp [later, same]
      · simp [mt injective.1 same, Ne.symm same]

theorem putAll_apply (values : List V) : putAll key m values k = (lastValue key values k).or (m k) := by
  induction values generalizing m with
  | nil => rfl
  | cons v rest ih =>
    have step : putAll key m (v :: rest) k = putAll key (put key m v) rest k := rfl
    rw [step, ih, lastValue_cons, Option.or_assoc]
    by_cases same : key v = k
    · rw [if_pos same, put, same, update_self]
      rfl
    · rw [if_neg same, put, update_of_ne (Ne.symm same)]
      rfl

theorem dropAll_apply (keys : List K) : dropAll m keys k = if k ∈ keys then none else m k := by
  induction keys generalizing m with
  | nil => rfl
  | cons d rest ih =>
    have step : dropAll m (d :: rest) k = dropAll (dropKey m d) rest k := rfl
    rw [step, ih, dropKey]
    by_cases same : k = d <;> simp [same]

theorem applyAll_apply (changes : List (Change K V)) :
    applyAll key m changes k = match lastChange key changes k with
      | none => m k
      | some (.put v) => some v
      | some (.drop _) => none := by
  induction changes generalizing m with
  | nil => rfl
  | cons c rest ih =>
    have step : applyAll key m (c :: rest) k = applyAll key (apply key m c) rest k := rfl
    rw [step, ih, lastChange_cons]
    cases lastChange key rest k with
    | some d => cases d <;> rfl
    | none =>
      by_cases same : c.keyOf key = k
      · rw [if_pos same]
        cases c with
        | put | drop =>
          subst same
          exact update_self _ _ _
      · rw [if_neg same]
        cases c with
        | put | drop => exact update_of_ne (Ne.symm same) _ _

theorem lastChange_of_undropped (never : .drop k ∉ changes) :
    lastChange key changes k = (lastValue key (puts changes) k).map .put := by
  induction changes with
  | nil => rfl
  | cons c rest ih =>
    have later := ih fun member => never (mem_cons_of_mem _ member)
    rw [lastChange_cons, later]
    cases c with
    | put v =>
      rw [puts, lastValue_cons]
      cases lastValue key (puts rest) k with
      | some w => rfl
      | none =>
        by_cases same : key v = k <;> simp [Change.keyOf, same]
    | drop d =>
      have other : d ≠ k := fun same => never (by rw [same]; exact mem_cons_self)
      simp [Change.keyOf, other, puts]

end

/-! A stable sort of the values, and which value of a key comes last in it. -/

section
variable {K V : Type} [DecidableEq K] {key : V → K} {le : V → V → Prop} [DecidableRel le]

theorem lastValue_orderedInsert (w : V)
    (before : ∀ last, lastValue key values k = some last → key w = k → le w last) :
    lastValue key (values.orderedInsert le w) k = lastValue key (w :: values) k := by
  have parts := takeWhile_append_dropWhile (p := fun b => decide (¬ le w b)) (l := values)
  have early := fun x => mem_takeWhile_imp (p := fun b => decide (¬ le w b)) (l := values) (x := x)
  rw [orderedInsert_eq_take_drop]
  generalize values.takeWhile (fun b => decide (¬ le w b)) = first at *
  generalize values.dropWhile (fun b => decide (¬ le w b)) = second at *
  rw [← parts, lastValue_append] at before
  rw [← parts, lastValue_append, lastValue_cons, lastValue_cons, lastValue_append]
  cases later : lastValue key second k with
  | some u => rfl
  | none =>
    rw [later, Option.none_or] at before
    by_cases same : key w = k
    · cases skipped : lastValue key first k with
      | none => simp
      | some e =>
        have passed := early e (lastValue_mem skipped).1
        simp [before e skipped same] at passed
    · simp [same]

/-- A stable sort leaves the last value of a key last where no other value of the
key sorts after it. -/
theorem lastValue_insertionSort
    (greatest : ∀ v, lastValue key values k = some v → ∀ w ∈ values, key w = k → le w v) :
    lastValue key (values.insertionSort le) k = lastValue key values k := by
  induction values with
  | nil => rfl
  | cons w rest ih =>
    have sorted : lastValue key (rest.insertionSort le) k = lastValue key rest k := by
      apply ih
      intro v last x member same
      exact greatest v (by rw [lastValue_cons, last]; rfl) x (mem_cons_of_mem _ member) same
    rw [insertionSort_cons, lastValue_orderedInsert, lastValue_cons, sorted, lastValue_cons]
    intro last found same
    rw [sorted] at found
    exact greatest last (by rw [lastValue_cons, found]; rfl) w mem_cons_self same

theorem lastValue_insertionSort_iff (total : ∀ a b, le a b ∨ le b a)
    (trans : ∀ a b c, le a b → le b c → le a c) (last : lastValue key values k = some v) :
    lastValue key (values.insertionSort le) k = some v ↔ ∀ w ∈ values, key w = k → le w v := by
  constructor
  · intro stays w member same
    have : Std.Total le := ⟨total⟩
    have : IsTrans V le := ⟨trans⟩
    have pairwise := (pairwise_insertionSort le values).filter fun x => decide (key x = k)
    have inside : w ∈ (values.insertionSort le).filter fun x => decide (key x = k) :=
      mem_filter.mpr ⟨(mem_insertionSort le).mpr member,by simpa using same⟩
    obtain ⟨front,ends⟩ := getLast?_eq_some_iff.mp stays
    rw [ends] at inside pairwise
    rcases mem_append.mp inside with earlier | itself
    · exact (pairwise_append.mp pairwise).2.2 w earlier v (mem_singleton_self v)
    · rw [mem_singleton.mp itself]
      exact (total v v).elim id id
  · intro greatest
    rw [lastValue_insertionSort, last]
    intro u found
    cases last.symm.trans found
    exact greatest

theorem lastValue_none (none' : lastValue key values k = none) : ∀ w ∈ values, key w ≠ k := by
  intro w member same
  obtain ⟨last,found⟩ := lastValue_isSome key member same
  cases none'.symm.trans found

/-- Batches that are sorted one by one: the last value of a key stays last where, in
the last batch with the key, no other value of the key sorts after it. -/
theorem lastValue_sorted_batches_iff {B : Type} (f : B → List V) (total : ∀ a b, le a b ∨ le b a)
    (trans : ∀ a b c, le a b → le b c → le a c) {batches : List B}
    (last : lastValue key (batches.flatMap f) k = some v) :
    lastValue key (batches.flatMap fun b => (f b).insertionSort le) k = some v ↔
      ∀ earlier b later, batches = earlier ++ b :: later → (∀ w ∈ later.flatMap f, key w ≠ k) →
        ∀ w ∈ f b, key w = k → le w v := by
  induction batches with
  | nil => cases last
  | cons first rest ih =>
    rw [flatMap_cons, lastValue_append] at last ⊢
    cases inRest : lastValue key (rest.flatMap f) k with
    | some u =>
      rw [inRest] at last
      cases last
      obtain ⟨member,own⟩ := lastValue_mem inRest
      obtain ⟨b,inside,listed⟩ := mem_flatMap.mp member
      obtain ⟨u',found⟩ : ∃ u', lastValue key (rest.flatMap fun b => (f b).insertionSort le) k =
          some u' := by
        apply lastValue_isSome key _ own
        exact mem_flatMap.mpr ⟨b,inside,(mem_insertionSort le).mpr listed⟩
      rw [found, Option.some_or, ← found, ih inRest]
      constructor
      · intro inOrder earlier b' later split' absent
        cases earlier with
        | nil =>
          cases split'
          exact (absent v member own).elim
        | cons e earlier =>
          cases split'
          exact inOrder earlier b' later rfl absent
      · rintro inOrder earlier b' later rfl absent
        exact inOrder (first :: earlier) b' later rfl absent
    | none =>
      have absent := lastValue_none inRest
      rw [inRest, Option.none_or] at last
      have sortedAbsent : lastValue key (rest.flatMap fun b => (f b).insertionSort le) k = none := by
        rw [Option.eq_none_iff_forall_ne_some]
        intro u found
        obtain ⟨member,own⟩ := lastValue_mem found
        obtain ⟨b,inside,listed⟩ := mem_flatMap.mp member
        exact absent u (mem_flatMap.mpr ⟨b,inside,(mem_insertionSort le).mp listed⟩) own
      rw [sortedAbsent, Option.none_or, lastValue_insertionSort_iff total trans last]
      constructor
      · intro greatest earlier b later split' _ w member own
        cases earlier with
        | nil =>
          cases split'
          exact greatest w member own
        | cons e earlier =>
          cases split'
          exact (absent w (mem_flatMap.mpr ⟨b,by simp,member⟩) own).elim
      · intro inOrder
        exact inOrder [] first rest rfl absent

end

end NovaRocks.Store
