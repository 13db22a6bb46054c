import NovaRocks.Sql.Conjuncts

/-!
Which input of a join a column is read from. The joined row has a bare name that
both inputs answer from the left one and a qualified name from the right one; a
hash key looks each of its columns up on its own side. A predicate whose columns
the joined row has from one input has on a joined row the truth value it has on
that input's row alone, whatever the other row is, padding included. A predicate
whose hash keys agree with the joined row means the same in the join condition as
in a filter above the join.
-/
namespace NovaRocks
open Relational List

section
variable (ls rs : Scope)

def fromLeft (r : QualifiedRef) : Bool :=
  ls.resolves r && (r.1.isNone || !rs.resolves r)

def fromRight (r : QualifiedRef) : Bool :=
  rs.resolves r && (r.1.isSome || !ls.resolves r)

/-- A hash key takes its two columns from where the joined row has them. -/
def keyAligned [CaseFolding] (e : TypedExpr) : Bool :=
  match columnEq e with
  | some (a, b) =>
    if ls.resolves a && rs.resolves b then fromLeft ls rs a && fromRight ls rs b
    else if ls.resolves b && rs.resolves a then fromLeft ls rs b && fromRight ls rs a
    else true
  | none => true

end

theorem fromLeft_resolves (mine : fromLeft ls rs r = true) : ls.resolves r = true :=
  (Bool.and_eq_true_iff.mp mine).1

theorem fromRight_resolves (mine : fromRight ls rs r = true) : rs.resolves r = true :=
  (Bool.and_eq_true_iff.mp mine).1

theorem mergeLook_left (l l' : QualifiedRef → Value) (mine : fromLeft ls rs r = true) :
    mergeLook ls rs l l' r = l r := by
  obtain ⟨q,c⟩ := r
  cases q <;> simp_all [fromLeft, mergeLook]

theorem mergeLook_right (l l' : QualifiedRef → Value) (mine : fromRight ls rs r = true) :
    mergeLook ls rs l l' r = l' r := by
  obtain ⟨q,c⟩ := r
  cases q <;> simp_all [fromRight, mergeLook]

variable [CaseFolding]

section
variable (o : Outer) (n : Nat) (l r : Row)

theorem accepts_congr (same : ∀ ref ∈ reads i e,
      (envOf s o row.look).col ref = (envOf s' o row'.look).col ref) :
    accepts i s o e row = accepts i s' o e row' := by
  have sub : (envOf s o row.look).sub = (envOf s' o row'.look).sub := rfl
  rw [accepts, accepts, truthOf_congr sub same]

theorem accepts_pair_left (mine : ∀ ref ∈ reads i e, fromLeft ls rs ref = true) :
    accepts i (.merge n ls rs) o e (mergeRow ls rs l r) = accepts i ls o e l := by
  refine accepts_congr o fun ref read => ?_
  simp [envOf, mergeRow, fromLeft_resolves (mine ref read), mergeLook_left _ _ (mine ref read)]

theorem accepts_pair_right (mine : ∀ ref ∈ reads i e, fromRight ls rs ref = true) :
    accepts i (.merge n ls rs) o e (mergeRow ls rs l r) = accepts i rs o e r := by
  refine accepts_congr o fun ref read => ?_
  simp [envOf, mergeRow, fromRight_resolves (mine ref read), mergeLook_right _ _ (mine ref read)]

theorem accepts_merge_width (m : Nat) (row : Row) :
    accepts i (.merge m ls rs) o e row = accepts i (.merge n ls rs) o e row := by
  refine accepts_congr o fun ref _ => ?_
  simp [envOf]

theorem reads_columnEq (eq : columnEq e = some (a, b)) : reads i e = [a, b] := by
  obtain ⟨q,c,t,k,q',c',t',k',kind,rfl,rfl⟩ := columnEq_kind eq
  obtain ⟨_,_,_⟩ := e
  subst kind
  simp [reads, refsWith]

theorem joinConjuncts_columnEq (eq : columnEq e = some (a, b)) : joinConjuncts e = [e] := by
  obtain ⟨q,c,t,k,q',c',t',k',kind,-⟩ := columnEq_kind eq
  obtain ⟨_,_,_⟩ := e
  subst kind
  simp [joinConjuncts]

theorem truthOf_columnEq (eq : columnEq e = some (a, b)) (env : Env) :
    truthOf i env e = (env.col a).equals (env.col b) := by
  obtain ⟨q,c,t,k,q',c',t',k',kind,rfl,rfl⟩ := columnEq_kind eq
  obtain ⟨_,_,_⟩ := e
  subst kind
  simp [truthOf, eval, binary, comparison]

/-- Columns that only one input answers to are found there. -/
theorem keyAligned_apart (apart : ∀ ref ∈ reads i e, ¬ (ls.resolves ref = true ∧ rs.resolves ref = true)) :
    keyAligned ls rs e = true := by
  unfold keyAligned
  split
  · rename_i a b eq
    rw [reads_columnEq eq] at apart
    have apartA := apart a (by simp)
    have apartB := apart b (by simp)
    split
    · simp_all [fromLeft, fromRight]
    · split
      · simp_all [fromLeft, fromRight]
      · rfl
  · rfl

theorem conjunctMatches_eq_accepts (aligned : keyAligned ls rs e = true) :
    conjunctMatches i ls rs o e l.look r.look = accepts i (.merge n ls rs) o e (mergeRow ls rs l r) := by
  have joined : (truthOf i (envOf (Scope.merge 0 ls rs) o (mergeLook ls rs l.look r.look)) e).holds
      = accepts i (.merge n ls rs) o e (mergeRow ls rs l r) :=
    accepts_merge_width o n 0 (mergeRow ls rs l r)
  rw [← joined]
  cases eq : columnEq e with
  | none => simp only [conjunctMatches, eq]
  | some key =>
    obtain ⟨a,b⟩ := key
    simp only [keyAligned, eq] at aligned
    simp only [conjunctMatches, eq, truthOf_columnEq eq]
    split at aligned
    · rename_i sides
      rw [if_pos sides]
      rw [Bool.and_eq_true] at sides aligned
      simp [envOf, sides.1, sides.2, mergeLook_left _ _ aligned.1, mergeLook_right _ _ aligned.2]
    · rename_i notSides
      rw [if_neg notSides]
      split at aligned
      · rename_i sides
        rw [if_pos sides]
        rw [Bool.and_eq_true] at sides aligned
        simp [envOf, sides.1, sides.2, mergeLook_left _ _ aligned.1, mergeLook_right _ _ aligned.2]
      · rename_i notSwapped
        rw [if_neg notSwapped]

theorem conjunctsMatch_eq_accepts (aligned : ∀ c ∈ joinConjuncts e, keyAligned ls rs c = true) :
    ((joinConjuncts e).all fun c => conjunctMatches i ls rs o c l.look r.look) =
      accepts i (.merge n ls rs) o e (mergeRow ls rs l r) := by
  unfold accepts
  rw [holds_joinConjuncts]
  exact all_congr_mem fun c member => conjunctMatches_eq_accepts o n l r (aligned c member)

end

end NovaRocks
