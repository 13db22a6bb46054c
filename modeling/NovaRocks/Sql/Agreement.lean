import NovaRocks.Sql.JoinScope

/-!
Expressions and join conditions over rows that correspond. Two scopes that answer
the same ones of a set of references, and two rows with the same values there, give the
same value to every expression that reads nothing else.
-/
namespace NovaRocks
open Relational List

def RowsAgree (keep : QualifiedRef → Prop) (a b : Row) : Prop :=
  ∀ r, keep r → a.look r = b.look r

/-- The rows agree on the references that the first one's scope answers. -/
def Alike (keep : QualifiedRef → Prop) (s : Scope) (a b : Row) : Prop :=
  ∀ r, keep r → s.resolves r = true → a.look r = b.look r

theorem RowsAgree.alike (same : RowsAgree keep a b) (s : Scope) : Alike keep s a b :=
  fun r kept _ => same r kept

def Answers (keep : QualifiedRef → Prop) (s s' : Scope) : Prop :=
  ∀ r, keep r → s'.resolves r = s.resolves r

/-- In a join both of whose inputs are seen, the input the reference is taken from keeps it, and one
that comes before it still does not answer. -/
def TakenKept (ls rs : Scope) (keepL keepR : QualifiedRef → Prop) (r : QualifiedRef) : Prop :=
  match r.1 with
  | none => keepL r ∧ (ls.resolves r = true ∨ keepR r)
  | some _ => keepR r ∧ (rs.resolves r = true ∨ keepL r)

theorem TakenKept.of_both (ls rs : Scope) (kept : keepL r ∧ keepR r) : TakenKept ls rs keepL keepR r := by
  obtain ⟨q,c⟩ := r
  cases q with
  | none => exact ⟨kept.1,.inr kept.2⟩
  | some => exact ⟨kept.2,.inr kept.1⟩

section
variable {ls ls' rs rs' : Scope} (lefts : Answers keepL ls ls') (rights : Answers keepR rs rs')
include lefts rights

theorem mergeLook_agrees (first : RowsAgree keepL l l') (second : RowsAgree keepR m m')
    (kept : TakenKept ls rs keepL keepR r) :
    mergeLook ls rs l.look m.look r = mergeLook ls' rs' l'.look m'.look r := by
  obtain ⟨q,c⟩ := r
  cases q with
  | none =>
    obtain ⟨mine,other⟩ := kept
    simp only [mergeLook, lefts _ mine]
    by_cases inLeft : ls.resolves (none, c) = true
    · rw [if_pos inLeft, if_pos inLeft, first _ mine]
    · rw [if_neg inLeft, if_neg inLeft, second _ (other.resolve_left inLeft)]
  | some q =>
    obtain ⟨mine,other⟩ := kept
    simp only [mergeLook, rights _ mine]
    by_cases inRight : rs.resolves (some q, c) = true
    · rw [if_pos inRight, if_pos inRight, second _ mine]
    · rw [if_neg inRight, if_neg inRight, first _ (other.resolve_left inRight)]

theorem resolves_merge_agrees (n n' : Nat) (kept : TakenKept ls rs keepL keepR r) :
    (Scope.merge n' ls' rs').resolves r = (Scope.merge n ls rs).resolves r := by
  rw [Scope.resolves_merge, Scope.resolves_merge]
  obtain ⟨q,c⟩ := r
  cases q with
  | none =>
    rw [lefts _ kept.1]
    rcases kept.2 with inLeft | mine
    · rw [inLeft, Bool.true_or, Bool.true_or]
    · rw [rights _ mine]
  | some q =>
    rw [rights _ kept.1]
    rcases kept.2 with inRight | mine
    · rw [inRight, Bool.or_true, Bool.or_true]
    · rw [lefts _ mine]

theorem Alike.merge (first : Alike keepL ls l l') (second : Alike keepR rs m m') (n : Nat) :
    Alike (fun r => keepL r ∧ keepR r) (.merge n ls rs) (mergeRow ls rs l m) (mergeRow ls' rs' l' m') := by
  rintro ⟨_ | q,c⟩ ⟨mine,other⟩ found
  · rw [Scope.resolves_merge, Bool.or_eq_true] at found
    simp only [mergeRow, mergeLook, lefts _ mine]
    split
    · exact first _ mine ‹_›
    · exact second _ other (found.resolve_left ‹_›)
  · rw [Scope.resolves_merge, Bool.or_eq_true] at found
    simp only [mergeRow, mergeLook, rights _ other]
    split
    · exact second _ other ‹_›
    · exact first _ mine (found.resolve_right ‹_›)

end

variable [CaseFolding]

section
variable {s s' : Scope} (answers : Answers keep s s') (o : Outer) (same : Alike keep s a b)
include answers same

theorem eval_agree (seen : ∀ r ∈ reads i e, keep r) :
    eval i (envOf s o a.look) e = eval i (envOf s' o b.look) e := by
  apply eval_congr
  · rfl
  · intro r read
    simp only [envOf, answers r (seen r read)]
    split
    · exact same r (seen r read) ‹_›
    · rfl

theorem accepts_agree (seen : ∀ r ∈ reads i e, keep r) : accepts i s o e a = accepts i s' o e b := by
  rw [accepts, accepts, truthOf, truthOf, eval_agree answers o same seen]

theorem evalList_agree (seen : ∀ e ∈ es, ∀ r ∈ reads i e, keep r) :
    evalList i (envOf s o a.look) es = evalList i (envOf s' o b.look) es := by
  induction es with
  | nil => rfl
  | cons e rest ih =>
    rw [evalList, evalList, eval_agree answers o same (seen e (by simp)),
      ih fun d member => seen d (by simp [member])]

end

section
variable {ls ls' rs rs' : Scope} (lefts : Answers keepL ls ls') (rights : Answers keepR rs rs')
include lefts rights

theorem conjunctMatches_agrees (o : Outer) (first : Alike keepL ls l l') (second : Alike keepR rs m m')
    (kept : ∀ r ∈ reads i e, keepL r ∧ keepR r) :
    conjunctMatches i ls rs o e l.look m.look = conjunctMatches i ls' rs' o e l'.look m'.look := by
  have answers : Answers (fun r => keepL r ∧ keepR r) (.merge 0 ls rs) (.merge 0 ls' rs') :=
    fun r both => resolves_merge_agrees lefts rights 0 0 (.of_both ls rs both)
  have joined := eval_agree answers o (first.merge lefts rights second 0) kept
  simp only [mergeRow] at joined
  unfold conjunctMatches
  simp only [truthOf, joined]
  split
  · rename_i a b eq
    obtain ⟨leftA,rightA⟩ := kept a (by rw [reads_columnEq eq]; simp)
    obtain ⟨leftB,rightB⟩ := kept b (by rw [reads_columnEq eq]; simp)
    simp only [lefts a leftA, rights b rightB, lefts b leftB, rights a rightA]
    split
    · rename_i sides
      rw [Bool.and_eq_true] at sides
      rw [first a leftA sides.1, second b rightB sides.2]
    · split
      · rename_i sides
        rw [Bool.and_eq_true] at sides
        rw [first b leftB sides.1, second a rightA sides.2]
      · rfl
  · rfl

theorem conditionMatches_agrees (o : Outer) (first : Alike keepL ls l l') (second : Alike keepR rs m m')
    (kept : ∀ e ∈ condition.toList, ∀ r ∈ reads i e, keepL r ∧ keepR r) :
    conditionMatches i ls rs o condition l m = conditionMatches i ls' rs' o condition l' m' := by
  cases condition with
  | none => rfl
  | some e =>
    refine all_congr_mem fun c member => ?_
    apply conjunctMatches_agrees lefts rights o first second
    intro r read
    apply kept e (by simp) r
    rw [reads, refsWith_joinConjuncts, mem_flatMap]
    exact ⟨c,member,read⟩

end

end NovaRocks
