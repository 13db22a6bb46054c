import Mathlib.Data.List.Basic

/-!
Chains of parents. Each node has at most one parent; a walk from a root follows
parents and stops at the first node it has already seen, so a cycle ends it too.
The walk is counted down by fuel, and the nodes that have a parent bound the fuel
it needs.
-/
namespace NovaRocks.Graph
open List
variable {α : Type} (parent : α → Option α)

inductive Ancestor : α → α → Prop
  | self (a : α) : Ancestor a a
  | above {a p b : α} (step : parent a = some p) (rest : Ancestor p b) : Ancestor a b

def Closed (seen : List α) : Prop :=
  ∀ a ∈ seen, ∀ p, parent a = some p → p ∈ seen

variable {parent}

theorem Ancestor.extend (chain : Ancestor parent a b) (step : parent b = some p) : Ancestor parent a p := by
  induction chain with
  | self a => exact .above step (.self p)
  | above edge _ ih => exact .above edge (ih step)

theorem Ancestor.stays {keep : α → Prop} (step : ∀ a, keep a → ∀ p, parent a = some p → keep p)
    {a b : α} (chain : Ancestor parent a b) (start : keep a) : keep b := by
  induction chain with
  | self a => exact start
  | above edge _ ih => exact ih (step _ start _ edge)

variable [DecidableEq α] (parent)

def walk : Nat → Option α → List α → List α
  | 0, _, seen => seen
  | _ + 1, none, seen => seen
  | fuel + 1, some a, seen =>
    if a ∈ seen then seen else walk fuel (parent a) (a :: seen)

def reached (fuel : Nat) (roots : List α) : List α :=
  roots.foldl (fun seen a => walk parent fuel (some a) seen) []

variable {parent}

theorem walk_none (fuel : Nat) (seen : List α) : walk parent fuel none seen = seen := by
  cases fuel with
  | zero | succ => rfl

theorem subset_walk (fuel : Nat) (start : Option α) (seen : List α) : seen ⊆ walk parent fuel start seen := by
  induction fuel generalizing start seen with
  | zero => exact Subset.refl _
  | succ fuel ih =>
    cases start with
    | none => exact Subset.refl _
    | some a =>
      rw [walk]
      split
      · exact Subset.refl _
      · exact Subset.trans (subset_cons_self a seen) (ih (parent a) (a :: seen))

theorem walk_sound (member : b ∈ walk parent fuel start seen) :
    b ∈ seen ∨ ∃ a, start = some a ∧ Ancestor parent a b := by
  induction fuel generalizing start seen with
  | zero => exact .inl member
  | succ fuel ih =>
    cases start with
    | none => exact .inl member
    | some a =>
      rw [walk] at member
      split at member
      · exact .inl member
      · rcases ih member with old | ⟨p,step,chain⟩
        · rcases mem_cons.mp old with rfl | older
          · exact .inr ⟨b,rfl,.self b⟩
          · exact .inl older
        · exact .inr ⟨a,rfl,.above step chain⟩

def unseen (known seen : List α) : Nat :=
  (known.filter fun a => a ∉ seen).length

theorem unseen_cons_lt {known seen : List α} (inside : a ∈ known) (fresh : a ∉ seen) :
    unseen known (a :: seen) < unseen known seen := by
  have split : (known.filter fun b => b ∉ a :: seen) =
      (known.filter fun b => b ∉ seen).filter fun b => b ≠ a := by
    simp
  rw [unseen, unseen, split]
  apply length_filter_lt_length_iff_exists.mpr
  exact ⟨a,mem_filter.mpr ⟨inside,by simpa using fresh⟩,by simp⟩

/-- With fuel for every unseen node the walk closes what it has seen. -/
theorem walk_closed (hasParent : ∀ a p, parent a = some p → a ∈ known) (enough : unseen known seen < fuel)
    (pending : ∀ a ∈ seen, ∀ p, parent a = some p → p ∈ seen ∨ start = some p) :
    Closed parent (walk parent fuel start seen) ∧
      ∀ a, start = some a → a ∈ walk parent fuel start seen := by
  induction fuel generalizing start seen with
  | zero => omega
  | succ fuel ih =>
    cases start with
    | none =>
      refine ⟨fun a member p step => ?_,by simp⟩
      exact (pending a member p step).resolve_right (by simp)
    | some a =>
      rw [walk]
      split
      · rename_i old
        refine ⟨fun b member p step => ?_,fun b same => Option.some_inj.mp same ▸ old⟩
        rcases pending b member p step with inside | same
        · exact inside
        · exact Option.some_inj.mp same ▸ old
      · rename_i fresh
        have next : ∀ b ∈ a :: seen, ∀ p, parent b = some p → p ∈ a :: seen ∨ parent a = some p := by
          intro b member p step
          rcases mem_cons.mp member with rfl | older
          · exact .inr step
          · rcases pending b older p step with inside | same
            · exact .inl (mem_cons_of_mem _ inside)
            · exact .inl (Option.some_inj.mp same ▸ mem_cons_self)
        have start : a ∈ walk parent fuel (parent a) (a :: seen) :=
          subset_walk fuel (parent a) (a :: seen) mem_cons_self
        refine ⟨?_,fun b same => Option.some_inj.mp same ▸ start⟩
        cases step : parent a with
        | none =>
          rw [step] at next
          rw [walk_none]
          intro b member p edge
          exact (next b member p edge).resolve_right (by simp)
        | some p =>
          have fewer := unseen_cons_lt (hasParent a p step) fresh
          exact (ih (by omega) (step ▸ next)).1

/-- With fuel for every node that has a parent, exactly the ancestors are reached. -/
theorem mem_reached_iff {known : List α} (hasParent : ∀ a p, parent a = some p → a ∈ known) :
    b ∈ reached parent (known.length + 1) roots ↔ ∃ a ∈ roots, Ancestor parent a b := by
  have enough : ∀ seen, unseen known seen < known.length + 1 := fun seen =>
    Nat.lt_succ_of_le (length_filter_le _ _)
  have fold : ∀ (roots seen : List α), Closed parent seen →
      (b ∈ roots.foldl (fun seen a => walk parent (known.length + 1) (some a) seen) seen ↔
        b ∈ seen ∨ ∃ a ∈ roots, Ancestor parent a b) := by
    intro roots
    induction roots with
    | nil => simp
    | cons a roots ih =>
      intro seen closed
      have pending : ∀ b ∈ seen, ∀ p, parent b = some p → p ∈ seen ∨ some a = some p :=
        fun b member p edge => .inl (closed b member p edge)
      have step := walk_closed hasParent (enough seen) pending
      rw [foldl_cons, ih _ step.1]
      constructor
      · rintro (member | ⟨r,inside,chain⟩)
        · rcases walk_sound member with old | ⟨r,same,chain⟩
          · exact .inl old
          · exact .inr ⟨a,mem_cons_self,Option.some_inj.mp same ▸ chain⟩
        · exact .inr ⟨r,mem_cons_of_mem _ inside,chain⟩
      · rintro (old | ⟨r,inside,chain⟩)
        · exact .inl (subset_walk _ _ _ old)
        · rcases mem_cons.mp inside with rfl | later
          · exact .inl (chain.stays step.1 (step.2 r rfl))
          · exact .inr ⟨r,later,chain⟩
  rw [reached, fold roots [] (by simp [Closed])]
  simp

end NovaRocks.Graph
