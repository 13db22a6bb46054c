import Mathlib.Data.List.Nodup
import Mathlib.Data.List.Range

/-!
Chains of slots linked by an array of next pointers, ended by a sentinel. A new slot
is linked before the head of its chain; a loop follows the chain from its head. Under
a chain the loop is a fold over the slots of the chain, as long as the fuel is no less
than the number of pointers. The second part is an array that is filled from several
lists, each at its own offset.
-/
namespace NovaRocks.Store
open List

inductive Chain (next : List Nat) (stop : Nat) : Nat → List Nat → Prop where
  | done : Chain next stop stop []
  | link {slot after : Nat} {rest : List Nat} (live : slot ≠ stop) (points : next[slot]? = some after)
      (chain : Chain next stop after rest) : Chain next stop slot (slot :: rest)

section
variable {next : List Nat} {stop : Nat} {slots : List Nat}

theorem Chain.set {head slot after : Nat} (chain : Chain next stop head slots)
    (outside : slot ∉ slots) : Chain (next.set slot after) stop head slots := by
  induction chain with
  | done => exact .done
  | link live points chain ih =>
    obtain ⟨different,away⟩ := not_or.mp fun inside => outside (mem_cons.mpr inside)
    refine .link live ?_ (ih away)
    rw [getElem?_set_ne different]
    exact points

theorem Chain.append {head : Nat} (chain : Chain next stop head slots) :
    Chain (next ++ more) stop head slots := by
  induction chain with
  | done => exact .done
  | link live points chain ih =>
    refine .link live ?_ ih
    rw [getElem?_append_left (List.getElem?_eq_some_iff.mp points).1]
    exact points

theorem Chain.push {head slot : Nat} (chain : Chain next stop head slots)
    (inside : slot < next.length) (live : slot ≠ stop) (outside : slot ∉ slots) :
    Chain (next.set slot head) stop slot (slot :: slots) := by
  refine .link live ?_ (chain.set outside)
  simp [inside]

theorem length_le_of_nodup (distinct : slots.Nodup)
    (below : ∀ slot ∈ slots, slot < bound) : slots.length ≤ bound := by
  have subset : slots ⊆ range bound := by
    intro slot member
    exact mem_range.mpr (below slot member)
  have fits := distinct.length_le_of_subset subset
  rwa [length_range] at fits

def foldChain {σ ε : Type} (next : List Nat) (stop : Nat) (outside unending : ε)
    (visit : σ → Nat → Except ε σ) : Nat → Nat → σ → Except ε σ
  | 0, slot, state => if slot = stop then .ok state else .error unending
  | fuel + 1, slot, state =>
    if slot = stop then .ok state
    else do
      let visited ← visit state slot
      match next[slot]? with
      | none => .error outside
      | some after => foldChain next stop outside unending visit fuel after visited

theorem foldChain_eq {outside unending : ε} {visit : σ → Nat → Except ε σ} {head : Nat}
    (chain : Chain next stop head slots) (fuel : Nat) (state : σ) (enough : slots.length ≤ fuel) :
    foldChain next stop outside unending visit fuel head state = slots.foldlM visit state := by
  induction chain generalizing fuel state with
  | done => cases fuel <;> simp [foldChain] <;> rfl
  | link live points chain ih =>
    cases fuel with
    | zero => simp at enough
    | succ fuel =>
      simp only [length_cons, Nat.add_le_add_iff_right] at enough
      simp only [foldChain, if_neg live, points]
      apply bind_congr
      intro visited
      exact ih fuel visited enough

end

/-! ### Filling an array from several lists -/

section
variable {α : Type}

def place {ε : Type} (full : ε) (state : Nat × List α) (value : α) : Except ε (Nat × List α) :=
  if state.1 < state.2.length then .ok (state.1 + 1, state.2.set state.1 value) else .error full

theorem foldlM_place {full : ε} (values : List α) (before old after : List α)
    (same : old.length = values.length) :
    values.foldlM (place full) (before.length, before ++ old ++ after) =
      .ok (before.length + values.length, before ++ values ++ after) := by
  induction values generalizing before old after with
  | nil =>
    rw [length_eq_zero_iff.mp same]
    rfl
  | cons value values ih =>
    cases old with
    | nil => simp at same
    | cons first old =>
      simp only [length_cons, Nat.add_right_cancel_iff] at same
      have room : before.length < (before ++ first :: old ++ after).length := by
        simp only [length_append, length_cons]
        omega
      have written : (before ++ first :: old ++ after).set before.length value =
          (before ++ [value]) ++ old ++ after := by
        simp
      have next := ih (before ++ [value]) old after same
      rw [foldlM_cons]
      rw [place, if_pos room, written]
      have size : (before ++ [value]).length = before.length + 1 := by simp
      rw [size] at next
      change values.foldlM (place full) (before.length + 1, _) = _
      rw [next]
      simp [Nat.add_comm, Nat.add_left_comm]

/-- The offsets at which lists of these lengths start, and the end of the last. -/
def offsetsFrom (start : Nat) : List Nat → List Nat
  | [] => [start]
  | length :: lengths => start :: offsetsFrom (start + length) lengths

theorem length_offsetsFrom (lengths : List Nat) :
    ∀ start, (offsetsFrom start lengths).length = lengths.length + 1 := by
  induction lengths with
  | nil => intro start; rfl
  | cons length lengths ih =>
    simp [offsetsFrom, ih]

theorem slice_flatten (lists : List (List α)) :
    ∀ (start index : Nat) (list : List α), lists[index]? = some list →
      ∃ low, (offsetsFrom start (lists.map length))[index]? = some (start + low) ∧
        (offsetsFrom start (lists.map length))[index + 1]? = some (start + low + list.length) ∧
        (lists.flatten.drop low).take list.length = list := by
  induction lists with
  | nil => simp
  | cons first lists ih =>
    intro start index list found
    cases index with
    | zero =>
      have same : first = list := by simpa using found
      subst same
      refine ⟨0,rfl,?_,?_⟩
      · cases lists <;> simp [offsetsFrom]
      · simp
    | succ index =>
      have later : lists[index]? = some list := by simpa using found
      obtain ⟨low,starts,ends,slice⟩ := ih (start + first.length) index list later
      refine ⟨first.length + low,?_,?_,?_⟩
      · simp only [map_cons, offsetsFrom, getElem?_cons_succ, starts]
        congr 1
        omega
      · simp only [map_cons, offsetsFrom, getElem?_cons_succ, ends]
        congr 1
        omega
      · rw [flatten_cons, ← drop_drop, drop_left]
        exact slice

end

end NovaRocks.Store
