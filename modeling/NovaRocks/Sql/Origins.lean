import NovaRocks.Sql.JoinScope

/-!
Where the columns of a join condition come from. Every column of a join tree is a
column of one of its inputs; which one a name means depends on how the tree is put
together. A conjunct that takes its columns from the same inputs in two trees has the
same truth value in both.
-/
namespace NovaRocks
open Relational List

section
variable {ι : Type}

/-- The input a scope has a column from. -/
abbrev Origin (ι : Type) := QualifiedRef → Option ι

namespace Origin

def ofInput (input : ι) (s : Scope) : Origin ι :=
  fun r => if s.resolves r then some input else none

def merge (left right : Origin ι) : Origin ι := fun r =>
  match r.1 with
  | none => (left r).or (right r)
  | some _ => (right r).or (left r)

theorem isSome_merge (left right : Origin ι) (r : QualifiedRef) :
    (left.merge right r).isSome = ((left r).isSome || (right r).isSome) := by
  unfold merge
  split
  · exact Option.isSome_or
  · rw [Option.isSome_or, Bool.or_comm]

/-- The row shows the values the inputs have, and only columns that come from one. -/
structure Shows (values : ι → QualifiedRef → Value) (origin : Origin ι) (s : Scope)
    (look : QualifiedRef → Value) : Prop where
  resolves : ∀ r, s.resolves r = (origin r).isSome
  looks : ∀ r input, origin r = some input → look r = values input r

def valueOf (values : ι → QualifiedRef → Value) (o : Outer) (input : Option ι) (r : QualifiedRef) : Value :=
  input.elim (o r) (values · r)

variable {values : ι → QualifiedRef → Value} {left right left' right' : Origin ι}

theorem shows_ofInput (values : ι → QualifiedRef → Value) (input : ι) (s : Scope) : Shows values (ofInput input s) s (values input) := by
  refine ⟨fun r => ?_,fun r input' origin => ?_⟩
  · unfold ofInput
    split <;> simp_all
  · unfold ofInput at origin
    split at origin <;> cases origin
    rfl

theorem Shows.merge (first : Shows values left ls l) (second : Shows values right rs r) (n : Nat) :
    Shows values (left.merge right) (.merge n ls rs) (mergeLook ls rs l r) := by
  refine ⟨fun ref => ?_,fun ref input origin => ?_⟩
  · obtain ⟨_ | q,name⟩ := ref
    · simp [first.resolves, second.resolves, Origin.merge]
    · simp [first.resolves, second.resolves, Origin.merge, Bool.or_comm]
  · obtain ⟨_ | q,name⟩ := ref
    · cases found : left (none, name) <;>
        simp_all [Origin.merge, mergeLook, first.resolves, first.looks, second.looks]
    · cases found : right (some q, name) <;>
        simp_all [Origin.merge, mergeLook, second.resolves, first.looks, second.looks]

theorem Shows.col (shows' : Shows values origin s look) (o : Outer) (r : QualifiedRef) :
    (envOf s o look).col r = valueOf values o (origin r) r := by
  cases found : origin r with
  | none => simp [envOf, shows'.resolves, found, valueOf]
  | some input => simp [envOf, shows'.resolves, found, valueOf, shows'.looks r input found]

variable [CaseFolding]

/-- The inputs a conjunct of a join condition takes its columns from, a hash key
each from its own side. -/
def taken (i : Interp) (left right : Origin ι) (e : TypedExpr) : List (Option ι) :=
  match columnEq e with
  | some (x, y) =>
    if (left x).isSome && (right y).isSome then [left x, right y]
    else if (left y).isSome && (right x).isSome then [right x, left y]
    else [left.merge right x, left.merge right y]
  | none => (reads i e).map (left.merge right)

theorem taken_isSome (left right : Origin ι) : (∀ input ∈ taken i left right e, input.isSome = true) ↔
    ∀ r ∈ reads i e, ((left r).isSome || (right r).isSome) = true := by
  unfold taken
  split
  · rename_i x y eq
    rw [reads_columnEq eq]
    split
    · simp_all
    · split
      · simp_all
      · simp [isSome_merge]
  · rw [forall_mem_map]
    simp only [isSome_merge]

theorem mem_taken {left right : Origin ι} (member : input ∈ taken i left right e) :
    ∃ r, input = left r ∨ input = right r := by
  have merged : ∀ r, ∃ r', left.merge right r = left r' ∨ left.merge right r = right r' := by
    intro r
    unfold merge
    split
    · cases found : left r <;> exact ⟨r,by simp [found]⟩
    · cases found : right r <;> exact ⟨r,by simp [found]⟩
  unfold taken at member
  split at member
  · split at member
    · rcases mem_pair.mp member with rfl | rfl
      · exact ⟨_,.inl rfl⟩
      · exact ⟨_,.inr rfl⟩
    · split at member
      · rcases mem_pair.mp member with rfl | rfl
        · exact ⟨_,.inr rfl⟩
        · exact ⟨_,.inl rfl⟩
      · rcases mem_pair.mp member with rfl | rfl
        · exact merged _
        · exact merged _
  · obtain ⟨r,-,rfl⟩ := mem_map.mp member
    exact merged r

/-- A hash key compares the values of the two columns it takes. -/
theorem Shows.key (first : Shows values left ls l) (second : Shows values right rs r)
    (o : Outer) (eq : columnEq e = some (x, y)) :
    ∃ inX inY, taken i left right e = [inX, inY] ∧ conjunctMatches i ls rs o e l r =
      ((valueOf values o inX x).equals (valueOf values o inY y)).holds := by
  have looked : ∀ {origin : Origin ι} {s look}, Shows values origin s look → ∀ ref,
      (origin ref).isSome = true → look ref = valueOf values o (origin ref) ref := by
    intro origin s look shows' ref found
    obtain ⟨input,origin'⟩ := Option.isSome_iff_exists.mp found
    rw [shows'.looks ref input origin', origin']
    rfl
  unfold taken conjunctMatches
  simp only [eq, first.resolves, second.resolves]
  split
  · rename_i sides
    rw [Bool.and_eq_true] at sides
    exact ⟨_,_,rfl,by rw [looked first x sides.1, looked second y sides.2]⟩
  · split
    · rename_i sides
      rw [Bool.and_eq_true] at sides
      exact ⟨_,_,rfl,by rw [looked first y sides.1, looked second x sides.2]⟩
    · refine ⟨_,_,rfl,?_⟩
      rw [truthOf_columnEq eq, (first.merge second 0).col, (first.merge second 0).col]

/-- A conjunct that takes its columns from the same inputs in two joins holds in both
or in none. -/
theorem Shows.same (first : Shows values left ls l) (second : Shows values right rs r)
    (first' : Shows values left' ls' l') (second' : Shows values right' rs' r') (o : Outer)
    (same : taken i left right e = taken i left' right' e) :
    conjunctMatches i ls rs o e l r = conjunctMatches i ls' rs' o e l' r' := by
  cases eq : columnEq e with
  | some key =>
    obtain ⟨x,y⟩ := key
    obtain ⟨inX,inY,took,value⟩ := first.key second o eq
    obtain ⟨inX',inY',took',value'⟩ := first'.key second' o eq
    rw [took, took'] at same
    cases same
    rw [value, value']
  | none =>
    simp only [taken, conjunctMatches, eq] at same ⊢
    refine congrArg _ (truthOf_congr rfl fun ref read => ?_)
    rw [(first.merge second 0).col, (first'.merge second' 0).col, map_inj_left.mp same ref read]

end Origin

end

/-- Joins keep the left column for a bare name and the right one for a
qualified name, from whichever side three inputs are put together. -/
theorem mergeLook_assoc (A B C : Scope) (m n : Nat) (a b c : QualifiedRef → Value) :
    mergeLook (.merge m A B) C (mergeLook A B a b) c =
      mergeLook A (.merge n B C) a (mergeLook B C b c) := by
  funext r
  obtain ⟨q,name⟩ := r
  cases q with
  | none =>
    simp only [mergeLook]
    by_cases inA : A.resolves (none, name) = true
    · simp [inA]
    · simp [inA]
  | some q =>
    simp only [mergeLook]
    by_cases inC : C.resolves (some q, name) = true
    · simp [inC]
    · simp [inC]

end NovaRocks
