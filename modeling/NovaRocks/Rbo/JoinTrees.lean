import NovaRocks.Rbo.JoinGraph
import NovaRocks.Rbo.Kept
import NovaRocks.Relational.Choices

/-!
What a tree of inner and cross joins over a list of relations returns: the combinations
of one row of each relation that meet the predicates of the tree. A predicate means the
same in every tree if one relation answers to each of its columns, or if it is the
equality a USING clause makes and the two relations that answer to its name are on the
two sides of its join.
-/
namespace NovaRocks
open Relational List
variable [CaseFolding]

/-- A database, the relations to be joined and the conjuncts between them. -/
structure JoinInputs extends Database where
  relations : List LogicalPlan
  conjuncts : List TypedExpr

namespace JoinInputs
variable (c : JoinInputs)

def homes (r : QualifiedRef) : List Nat :=
  (c.relations.zipIdx.filter fun entry => (scopeOf c.interp entry.1).resolves r).map Prod.snd

def combinations (ks : List Nat) : List (Nat → Row) :=
  choices (fun k => c.relations[k]?.elim [] (c.rows)) (nullRow 0) ks

/-- A predicate on one row of each relation. The first relation that answers to a name
gives the value; the right operand of an equality of columns is taken from the last. -/
def meets (f : Nat → Row) (e : TypedExpr) : Bool :=
  match columnEq e with
  | some (x, y) => (((f ((c.homes x).head?.getD 0)).look x).equals ((f ((c.homes y).getLast?.getD 0)).look y)).holds
  | none => (truthOf c.interp ⟨fun r => (f ((c.homes r).head?.getD 0)).look r, fun _ => .null⟩ e).holds

/-- One relation answers to each column the predicate reads, and it is listed. -/
def ReadOnce (ks : List Nat) (e : TypedExpr) : Prop :=
  ∀ r ∈ reads c.interp e, ∃ k ∈ ks, c.homes r = [k]

/-- The equality of a USING clause: two relations answer to its name. -/
def UsingKey (e : TypedExpr) (a b : Nat) : Prop :=
  ∃ x, columnEq e = some (x, x) ∧ c.homes x = [a, b]

/-- The predicate has its meaning in a join of these two sides. -/
def Placed (ks ls : List Nat) (e : TypedExpr) : Prop :=
  c.ReadOnce (ks ++ ls) e ∨ ∃ a b, c.UsingKey e a b ∧ (a ∈ ks ∧ b ∈ ls ∨ b ∈ ks ∧ a ∈ ls)

/-- The predicate has its meaning in a join of all these relations. -/
def Fits (ks : List Nat) (e : TypedExpr) : Prop :=
  c.ReadOnce ks e ∨ ∃ a b, c.UsingKey e a b ∧ a ∈ ks ∧ b ∈ ks

/-- Each name of interest has the value that one of the listed relations gives it. -/
def ShownBy (keep : QualifiedRef → Prop) (ks : List Nat) (s : Scope) (row : Row) (f : Nat → Row) : Prop :=
  ∀ r, keep r → s.resolves r = true → ∃ k ∈ c.homes r, k ∈ ks ∧ row.look r = (f k).look r

/-- The plan joins the listed relations under the predicates `on`. -/
structure Combines (keep : QualifiedRef → Prop) (ks : List Nat) (on : List TypedExpr)
    (plan : LogicalPlan) : Prop where
  nodup : ks.Nodup
  answers : ∀ r, (scopeOf c.interp plan).resolves r = true ↔ ∃ k ∈ c.homes r, k ∈ ks
  fits : ∀ e ∈ on, c.Fits ks e
  rows : Similar (c.ShownBy keep ks (scopeOf c.interp plan)) (c.rows plan)
    ((c.combinations ks).filter fun f => on.all (c.meets f))

variable {c} {f g : Nat → Row} {keep : QualifiedRef → Prop} {ks ls : List Nat} {s ls' rs' : Scope}
  {on on' es : List TypedExpr} {relation : LogicalPlan}

theorem mem_homes : k ∈ c.homes r ↔
    ∃ relation, c.relations[k]? = some relation ∧ (scopeOf c.interp relation).resolves r = true := by
  simp only [homes, mem_map, mem_filter, Prod.exists, mem_zipIdx_iff_getElem?, exists_eq_right]

theorem Fits.mono (fits : c.Fits ks e) (sub : ks ⊆ ls) : c.Fits ls e := by
  rcases fits with once | ⟨a,b,key,left,right⟩
  · exact .inl fun r read => (once r read).imp fun k home => ⟨sub home.1,home.2⟩
  · exact .inr ⟨a,b,key,sub left,sub right⟩

theorem Placed.fits (placed : c.Placed ks ls e) : c.Fits (ks ++ ls) e :=
  placed.imp_right fun ⟨a,b,key,sides⟩ => ⟨a,b,key,by grind⟩

theorem Placed.symm (placed : c.Placed ks ls e) : c.Placed ls ks e := by
  unfold Placed ReadOnce at *
  grind

theorem meets_congr (fits : c.Fits ks e) (same : ∀ k ∈ ks, f k = g k) : c.meets f e = c.meets g e := by
  have values : ∀ r ∈ reads c.interp e, f ((c.homes r).head?.getD 0) = g ((c.homes r).head?.getD 0) ∧
      f ((c.homes r).getLast?.getD 0) = g ((c.homes r).getLast?.getD 0) := by
    intro r read
    rcases fits with once | ⟨a,b,⟨x,key,pair⟩,left,right⟩
    · obtain ⟨k,listed,single⟩ := once r read
      simp [single, same k listed]
    · have only : r = x := by simpa [reads_columnEq key] using read
      simp [only, pair, same a left, same b right]
  unfold meets
  split
  · rename_i x y eq
    rw [reads_columnEq eq] at values
    rw [(values x (by simp)).1, (values y (by simp)).2]
  · exact congrArg _ (truthOf_congr rfl fun r read => by simp only [(values r read).1])

/-- Where each column has one relation, a predicate is evaluated on their values. -/
theorem meets_once (once : c.ReadOnce ks e) : c.meets f e =
    (truthOf c.interp ⟨fun r => (f ((c.homes r).head?.getD 0)).look r, fun _ => .null⟩ e).holds := by
  unfold meets
  split
  · rename_i x y eq
    obtain ⟨k,-,single⟩ := once y (by simp [reads_columnEq eq])
    simp [truthOf_columnEq eq, single]
  · rfl

theorem accepts_meets (answers : ∀ r, s.resolves r = true ↔ ∃ k ∈ c.homes r, k ∈ ks)
    (shown : c.ShownBy keep ks s row f) (once : c.ReadOnce ks e) (seen : ∀ r ∈ reads c.interp e, keep r) :
    accepts c.interp s c.outer e row = c.meets f e := by
  rw [accepts, meets_once once]
  refine congrArg _ (truthOf_congr rfl fun r read => ?_)
  obtain ⟨k,listed,single⟩ := once r read
  have found := (answers r).mpr ⟨k,by simp [single],listed⟩
  obtain ⟨j,home,-,look⟩ := shown r (seen r read) found
  rw [single, mem_singleton] at home
  simp [envOf, found, look, home, single]

theorem ShownBy.congr (shown : c.ShownBy keep ks s row f) (same : ∀ k ∈ ks, g k = f k) :
    c.ShownBy keep ks s row g := by
  intro r mine found
  obtain ⟨k,home,listed,look⟩ := shown r mine found
  exact ⟨k,home,listed,by rw [look, same k listed]⟩

section
variable (shown : c.ShownBy keep ks ls' a f) (shown' : c.ShownBy keep ls rs' b f)
include shown shown'

theorem ShownBy.merge (n : Nat) : c.ShownBy keep (ks ++ ls) (.merge n ls' rs') (mergeRow ls' rs' a b) f := by
  rintro ⟨q,name⟩ mine found
  have fromLeft := shown _ mine
  have fromRight := shown' _ mine
  rw [Scope.resolves_merge, Bool.or_eq_true] at found
  cases q <;> simp only [mergeRow, mergeLook] <;> split <;> grind

variable (answers : ∀ r, ls'.resolves r = true ↔ ∃ k ∈ c.homes r, k ∈ ks)
  (answers' : ∀ r, rs'.resolves r = true ↔ ∃ k ∈ c.homes r, k ∈ ls) (apart : ∀ k ∈ ks, k ∉ ls)
include answers answers' apart

/-- A hash key of a USING clause compares the values of the two relations. -/
theorem conjunctMatches_using (key : columnEq e = some (x, x)) (pair : c.homes x = [p, q])
    (sides : p ∈ ks ∧ q ∈ ls ∨ q ∈ ks ∧ p ∈ ls) (seen : keep x) :
    conjunctMatches c.interp ls' rs' c.outer e a.look b.look = c.meets f e := by
  have found := (answers x).mpr (by grind)
  have found' := (answers' x).mpr (by grind)
  obtain ⟨j,home,inLeft,look⟩ := shown x seen found
  obtain ⟨k,home',inRight,look'⟩ := shown' x seen found'
  have one : j = p ∧ k = q ∨ j = q ∧ k = p := by grind
  simp only [conjunctMatches, meets, key, found, found', Bool.and_self, if_true, look, look', pair]
  rcases one with ⟨rfl,rfl⟩ | ⟨rfl,rfl⟩
  · rfl
  · rw [Value.equals_comm]
    rfl

theorem conjuncts_meet (placed : c.Placed ks ls e) (seen : ∀ r ∈ reads c.interp e, keep r) :
    ((joinConjuncts e).all fun d => conjunctMatches c.interp ls' rs' c.outer d a.look b.look) =
      c.meets f e := by
  rcases placed with once | ⟨p,q,⟨x,key,pair⟩,sides⟩
  · rw [conjunctsMatch_eq_accepts c.outer 0 a b]
    · refine accepts_meets (fun r => ?_) (shown.merge shown' 0) once seen
      simp [Scope.resolves_merge, answers, answers', and_or_left, exists_or]
    · intro d member
      refine keyAligned_apart (i := c.interp) fun r read both => ?_
      have single := once r (by rw [reads, refsWith_joinConjuncts]; exact mem_flatMap.mpr ⟨d,member,read⟩)
      rw [answers, answers'] at both
      grind
  · rw [joinConjuncts_columnEq key, all_cons, all_nil, Bool.and_true]
    refine conjunctMatches_using shown shown' answers answers' apart key pair sides (seen x ?_)
    simp [reads_columnEq key]

end

theorem Combines.congr (tree : c.Combines keep ks on plan) (nodup : ls.Nodup) (places : ∀ k, k ∈ ks ↔ k ∈ ls)
    (same : ∀ e, e ∈ on ↔ e ∈ on') : c.Combines keep ls on' plan where
  nodup := nodup
  answers r := by simp only [tree.answers, places]
  fits e member := (tree.fits e ((same e).mpr member)).mono fun k => (places k).mp
  rows := by
    have perm := (perm_ext_iff_of_nodup tree.nodup nodup).mpr places
    have all : (fun f => on.all (c.meets f)) = fun f => on'.all (c.meets f) := by simp only [List.all_eq, same]
    rw [← all]
    refine (tree.rows.perm ((choices_perm _ _ perm tree.nodup).filter _)).imp fun row f _ shown r mine found => ?_
    simpa only [places] using shown r mine found

theorem Combines.leaf (here : c.relations[k]? = some relation)
    (kept : Kept c.toDatabase keep plan relation) : c.Combines keep [k] [] plan where
  nodup := nodup_singleton k
  answers r := by simp [kept.answers, mem_homes, here]
  fits := by simp
  rows := by
    have rows := similar_map (f := id) kept.rows (g := fun row => Function.update (fun _ => nullRow 0) k row)
      (T := c.ShownBy keep [k] (scopeOf c.interp plan)) fun row row' alike r mine found => ?_
    · simpa [combinations, choices, matched, here, map_eq_flatMap] using rows
    · have home : k ∈ c.homes r := mem_homes.mpr ⟨relation,here,by rwa [kept.answers] at found⟩
      exact ⟨k,home,by simp,by simpa using alike r mine found⟩

theorem Combines.filter (tree : c.Combines keep ks on plan)
    (once : ∀ d ∈ splitAnd e, c.ReadOnce ks d ∧ ∀ r ∈ reads c.interp d, keep r) :
    c.Combines keep ks (splitAnd e ++ on) (.filter plan e) where
  nodup := tree.nodup
  answers := tree.answers
  fits := forall_mem_append.mpr ⟨fun d member => .inl (once d member).1,tree.fits⟩
  rows := by
    simp only [all_append, ← filter_filter]
    refine similar_filter tree.rows fun row f shown => ?_
    rw [accepts, holds_splitAnd]
    exact all_congr_mem fun d member => accepts_meets tree.answers shown (once d member).1 (once d member).2

theorem Combines.join (first : c.Combines keep ks on l) (second : c.Combines keep ls on' r)
    (apart : ∀ k ∈ ks, k ∉ ls) (reorders : kind.reorders = true)
    (conjuncts : condition.toList.flatMap joinConjuncts = es.flatMap joinConjuncts)
    (placed : ∀ e ∈ es, c.Placed ks ls e ∧ ∀ ref ∈ reads c.interp e, keep ref) :
    c.Combines keep (ks ++ ls) (on ++ on' ++ es) (.join l r kind condition) := by
  suffices inner : c.Combines keep (ks ++ ls) (on ++ on' ++ es) (.join l r .inner condition) by
    cases kind <;> first | exact inner | exact { inner with } | cases reorders
  have fromLeft : ∀ f g : Nat → Row, ∀ k ∈ ks, combine ks f g k = f k := fun f g k listed => if_pos listed
  have fromRight : ∀ f g : Nat → Row, ∀ k ∈ ls, combine ks f g k = g k :=
    fun f g k listed => if_neg fun both => apart k both listed
  refine ⟨nodup_append'.mpr ⟨first.nodup,second.nodup,fun k => apart k⟩,fun ref => ?_,?_,?_⟩
  · rw [scopeOf_join_both _ _ _ _ rfl]
    simp [Scope.resolves_merge, first.answers, second.answers, and_or_left, exists_or]
  · refine forall_mem_append.mpr ⟨forall_mem_append.mpr ⟨fun e member => ?_,fun e member => ?_⟩,
      fun e member => (placed e member).1.fits⟩
    · exact (first.fits e member).mono (subset_append_left _ _)
    · exact (second.fits e member).mono (subset_append_right _ _)
  · have parts := matched_pushed (combine ks) (fun _ _ => true) (fun f g => es.all (c.meets (combine ks f g)))
      (fun f => on.all (c.meets f)) (fun f => on'.all (c.meets f)) (fun _ => true)
      (fun f => (on ++ on' ++ es).all (c.meets f)) (c.combinations ks) (c.combinations ls) fun f _ g _ => by
        simp only [all_append, Bool.and_true]
        rw [all_congr_mem fun e member => meets_congr (first.fits e member) (fromLeft f g),
          all_congr_mem fun e member => meets_congr (second.fits e member) (fromRight f g)]
    rw [filter_true] at parts
    rw [combinations, choices_append]
    refine parts ▸ similar_matched (fun a f b g shown shown' => ?_) first.rows second.rows fun a f b g shown shown' => ?_
    · rw [Bool.true_and]
      have each : conditionMatches c.interp (scopeOf c.interp l) (scopeOf c.interp r) c.outer
          condition a b = (condition.toList.flatMap joinConjuncts).all fun d =>
            conjunctMatches c.interp (scopeOf c.interp l) (scopeOf c.interp r) c.outer d
              a.look b.look := by
        cases condition <;> simp [conditionMatches]
      rw [each, conjuncts, all_flatMap]
      exact all_congr_mem fun e member => conjuncts_meet (shown.congr (fromLeft f g))
        (shown'.congr (fromRight f g)) first.answers second.answers apart
        (placed e member).1 (placed e member).2
    · exact (shown.congr (fromLeft f g)).merge
        (shown'.congr (fromRight f g)) _

end JoinInputs

end NovaRocks
