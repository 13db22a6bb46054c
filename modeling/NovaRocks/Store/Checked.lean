import Mathlib.Init

/-!
Computations that may fail with a message: what is known when they do not.
-/
namespace NovaRocks

def guardThat (condition : Bool) (message : String) : Except String Unit :=
  if condition then .ok () else .error message

theorem guardThat_ok {condition : Bool} {message : String} {u : Unit}
    (passed : guardThat condition message = .ok u) : condition = true := by
  cases condition with
  | true => rfl
  | false => cases passed

theorem guardThat_of {p : Prop} [Decidable p] (holds : p) (message : String) : guardThat p message = .ok () :=
  if_pos (decide_eq_true holds)

theorem bind_ok {ε α β : Type} {x : Except ε α} {f : α → Except ε β} {b : β}
    (done : (x >>= f) = .ok b) : ∃ a, x = .ok a ∧ f a = .ok b := by
  cases x with
  | error message => cases done
  | ok a => exact ⟨a,rfl,done⟩

theorem mapM_ok {ε α β : Type} {f : α → Except ε β} {g : α → β} {items : List α}
    (done : ∀ item ∈ items, f item = .ok (g item)) : items.mapM f = .ok (items.map g) := by
  induction items with
  | nil => rfl
  | cons item items ih =>
    rw [List.mapM_cons, done item List.mem_cons_self,
      ih fun other member => done other (List.mem_cons_of_mem _ member)]
    rfl

end NovaRocks
