import Mathlib.Data.List.Basic

/-!
Loops that fill a buffer. Each turn writes one place; a write beyond the end, or of a value that
is not there, stops the program. What the places hold afterwards does not depend on the order of
the turns when turns that write the same place write the same value.
-/
namespace NovaRocks.Store
open List

def store (out : List α) (place : Nat) (value : Option α) : Option (List α) :=
  if place < out.length then value.map (out.set place) else none

def storeAll (place : ι → Nat) (value : ι → Option α) (turns : List ι) (out : List α) : Option (List α) :=
  turns.foldlM (fun out t => store out (place t) (value t)) out

theorem storeAll_ok (place : ι → Nat) (value : ι → Option α) (turns : List ι) (out : List α)
    (inside : ∀ t ∈ turns, place t < out.length ∧ (value t).isSome)
    (agree : ∀ t ∈ turns, ∀ u ∈ turns, place t = place u → value t = value u) :
    ∃ result, storeAll place value turns out = some result ∧ result.length = out.length ∧
      (∀ t ∈ turns, result[place t]? = value t) ∧
      ∀ p, (∀ t ∈ turns, place t ≠ p) → result[p]? = out[p]? := by
  induction turns generalizing out with
  | nil => exact ⟨out,rfl,rfl,by simp,fun _ _ => rfl⟩
  | cons t rest ih =>
    obtain ⟨below,some'⟩ := inside t mem_cons_self
    obtain ⟨a,known⟩ := Option.isSome_iff_exists.mp some'
    obtain ⟨result,run,length,filled,kept⟩ := ih (out.set (place t) a)
      (by simpa using fun u member => inside u (mem_cons_of_mem _ member))
      fun u member u' member' => agree u (mem_cons_of_mem _ member) u' (mem_cons_of_mem _ member')
    refine ⟨result,?_,by rw [length, length_set],?_,?_⟩
    · simpa [storeAll, store, below, known] using run
    · intro u member
      rcases mem_cons.mp member with rfl | later
      · by_cases again : ∃ v ∈ rest, place v = place u
        · obtain ⟨v,inRest,same⟩ := again
          rw [← same, filled v inRest]
          exact agree v (mem_cons_of_mem _ inRest) u mem_cons_self same
        · rw [kept (place u) fun v inRest same => again ⟨v,inRest,same⟩, known]
          simp [below]
      · exact filled u later
    · intro p away
      rw [kept p fun u later => away u (mem_cons_of_mem _ later)]
      exact getElem?_set_ne (away t mem_cons_self)

end NovaRocks.Store
