import Mathlib.Data.List.Basic

/-!
The parts every two-input join is put together from: the matched pairs and, on
each side, the rows that found no partner. An outer join adds the lonely rows
of a side in padded form, a semi join keeps the rows of a side that have a
partner, an anti join those that have none. The laws move a selection between
the output, the two inputs and the match condition.
-/
namespace Relational
open List

variable {α β γ : Type}

def matched (pair : α → β → γ) (on : α → β → Bool) (left : List α) (right : List β) : List γ :=
  left.flatMap fun a => (right.filter (on a)).map (pair a)

def hasPartner (on : α → β → Bool) (right : List β) (a : α) : Bool :=
  right.any (on a)

def lonely (on : α → β → Bool) (left : List α) (right : List β) : List α :=
  left.filter fun a => !hasPartner on right a

def paired (on : α → β → Bool) (left : List α) (right : List β) : List α :=
  left.filter (hasPartner on right)

variable {xs : List α}

theorem all_congr_mem (same : ∀ x ∈ xs, f x = g x) : xs.all f = xs.all g := by
  rw [Bool.eq_iff_iff, all_eq_true, all_eq_true]
  exact forall₂_congr fun x member => by rw [same x member]

theorem any_congr_mem (same : ∀ x ∈ xs, f x = g x) : xs.any f = xs.any g := by
  rw [any_eq_not_all_not, any_eq_not_all_not, all_congr_mem fun x member => by rw [same x member]]

theorem all_filter_split (test p : α → Bool) :
    xs.all test = ((xs.filter p).all test && (xs.filter fun x => !p x).all test) := by
  induction xs with
  | nil => rfl
  | cons x rest ih => cases chosen : p x <;> simp [chosen, ih, Bool.and_assoc, Bool.and_left_comm]

theorem hasPartner_iff (on : α → β → Bool) (right : List β) (a : α) :
    hasPartner on right a = true ↔ ∃ b ∈ right, on a b = true := by
  simp [hasPartner]

theorem hasPartner_filter (on : α → β → Bool) (keep : β → Bool) (right : List β) :
    hasPartner on (right.filter keep) = hasPartner (fun a b => keep b && on a b) right := by
  funext a
  exact any_filter

theorem hasPartner_flip_and (on : α → β → Bool) (keep : β → Bool) (left : List α) :
    hasPartner (flip fun a b => keep b && on a b) left = fun b => keep b && hasPartner (flip on) left b := by
  funext b
  cases kept : keep b <;> simp [hasPartner, Function.flip_def, kept]

theorem matched_congr {pair pair' : α → β → γ}
    (samePair : ∀ a ∈ left, ∀ b ∈ right, on a b = true → pair a b = pair' a b)
    (same : ∀ a ∈ left, ∀ b ∈ right, on a b = on' a b) :
    matched pair on left right = matched pair' on' left right := by
  refine flatMap_congr fun a ha => ?_
  rw [filter_congr fun b hb => same a ha b hb]
  refine map_congr_left fun b hb => ?_
  rw [mem_filter] at hb
  exact samePair a ha b hb.1 (by rw [same a ha b hb.1]; exact hb.2)

section
variable (pair : α → β → γ)

theorem filter_matched (on : α → β → Bool) (keep : γ → Bool) (left : List α) (right : List β) :
    (matched pair on left right).filter keep =
      matched pair (fun a b => on a b && keep (pair a b)) left right := by
  unfold matched
  rw [filter_flatMap]
  refine flatMap_congr fun a _ => ?_
  rw [filter_map, filter_filter]
  simp [Bool.and_comm]

/-- Three inputs can be joined from the left or from the right, row for row,
when the two ways of pairing and of matching come to the same. -/
theorem matched_assoc {pairAB : α → β → δ} {pairABC : δ → γ → ζ}
    {pairBC : β → γ → ε} {pairABC' : α → ε → ζ} {onABC : δ → γ → Bool} {onABC' : α → ε → Bool}
    (as : List α) (bs : List β) (cs : List γ)
    (pairs : ∀ a b c, pairABC (pairAB a b) c = pairABC' a (pairBC b c))
    (same : ∀ a b c, (onAB a b && onABC (pairAB a b) c) = (onBC b c && onABC' a (pairBC b c))) :
    matched pairABC onABC (matched pairAB onAB as bs) cs =
      matched pairABC' onABC' as (matched pairBC onBC bs cs) := by
  unfold matched
  rw [flatMap_assoc]
  apply flatMap_congr
  intro a _
  rw [filter_flatMap, map_flatMap, flatMap_map]
  induction bs with
  | nil => rfl
  | cons b bs ih =>
    have triples : (cs.filter fun c => onAB a b && onABC (pairAB a b) c).map (pairABC (pairAB a b)) =
        (((cs.filter (onBC b)).map (pairBC b)).filter (onABC' a)).map (pairABC' a) := by
      rw [filter_map, filter_filter, map_map]
      have keeps : ∀ c ∈ cs, (onAB a b && onABC (pairAB a b) c) =
          ((onABC' a ∘ pairBC b) c && onBC b c) := by
        intro c _
        rw [same a b c, Bool.and_comm]
        rfl
      rw [filter_congr keeps]
      apply map_congr_left
      intro c _
      exact pairs a b c
    rw [flatMap_cons, ← triples, ← ih]
    by_cases match' : onAB a b = true
    · rw [filter_cons_of_pos match', flatMap_cons, match']
      rfl
    · rw [filter_cons_of_neg match']
      simp [match']

theorem matched_filter_left (on : α → β → Bool) (keep : α → Bool) (left : List α) (right : List β) :
    matched pair on (left.filter keep) right = matched pair (fun a b => keep a && on a b) left right := by
  unfold matched
  induction left with
  | nil => rfl
  | cons a left ih =>
    cases kept : keep a with
    | true | false => simp [kept, ih]

theorem matched_filter_right (on : α → β → Bool) (keep : β → Bool) (left : List α) (right : List β) :
    matched pair on left (right.filter keep) = matched pair (fun a b => keep b && on a b) left right := by
  refine flatMap_congr fun a _ => ?_
  rw [filter_filter]
  simp only [Bool.and_comm]

theorem matched_pushed (on extra : α → β → Bool) (keepLeft : α → Bool) (keepRight : β → Bool)
    (rest whole : γ → Bool) (left : List α) (right : List β)
    (split : ∀ a ∈ left, ∀ b ∈ right, whole (pair a b) = (keepLeft a && keepRight b && extra a b && rest (pair a b)))
    :
    (matched pair (fun a b => on a b && extra a b) (left.filter keepLeft)
        (right.filter keepRight)).filter rest =
      (matched pair on left right).filter whole := by
  rw [filter_matched, filter_matched, matched_filter_left, matched_filter_right]
  refine matched_congr (fun _ _ _ _ _ => rfl) fun a ha b hb => ?_
  rw [split a ha b hb]
  ac_rfl

end

theorem filter_lonely_map (on : α → β → Bool) (pad : α → γ) (whole : γ → Bool)
    (left : List α) (right : List β) :
    ((lonely on left right).map pad).filter whole =
      (left.filter fun a => !hasPartner on right a && whole (pad a)).map pad := by
  rw [lonely, filter_map, filter_filter]
  refine congrArg _ (filter_congr fun a _ => ?_)
  exact Bool.and_comm _ _

theorem filter_sublist_filter (sub : ∀ x ∈ xs, p x = true → q x = true) :
    (xs.filter p).Sublist (xs.filter q) := by
  have both : (xs.filter q).filter p = xs.filter p := by
    rw [filter_filter]
    refine filter_congr fun x member => ?_
    cases holds : p x with
    | true => exact sub x member holds
    | false => rfl
  rw [← both]
  exact filter_sublist

/-- The classes under some keys are a part of the list, in another order. -/
theorem flatMap_filter_perm {κ : Type} [DecidableEq κ] {key : α → κ} {keys : List κ} (nodup : keys.Nodup) :
    (keys.flatMap fun k => xs.filter fun x => key x = k).Perm (xs.filter fun x => key x ∈ keys) := by
  induction keys with
  | nil => simp
  | cons k keys ih =>
    rw [nodup_cons] at nodup
    have split := filter_append_perm (fun x => decide (key x = k)) (xs.filter fun x => key x ∈ k :: keys)
    rw [filter_filter, filter_filter] at split
    refine Perm.trans ?_ split
    rw [flatMap_cons]
    refine Perm.append (.of_eq (filter_congr fun x _ => ?_)) ((ih nodup.2).trans
      (.of_eq (filter_congr fun x _ => ?_)))
    · by_cases same : key x = k <;> simp [same]
    · by_cases same : key x = k <;> simp [same, nodup.1]

theorem filter_agrees_of_length_le (sub : ∀ x ∈ xs, p x = true → q x = true)
    (length : (xs.filter q).length ≤ (xs.filter p).length) : ∀ x ∈ xs, q x = true → p x = true := by
  intro x member holds
  have inside := mem_filter.mpr ⟨member,holds⟩
  rw [← (filter_sublist_filter sub).eq_of_length_le length] at inside
  exact (mem_filter.mp inside).2

theorem filter_eq_of_agrees
    (sub : ∀ x ∈ xs, p x = true → q x = true) (back : ∀ x ∈ xs, q x = true → p x = true) :
    xs.filter q = xs.filter p := by
  refine filter_congr fun x member => ?_
  rw [Bool.eq_iff_iff]
  exact ⟨back x member,sub x member⟩

theorem perm_filter_iff {p q : α → Bool} : (xs.filter p).Perm (xs.filter q) ↔ ∀ x ∈ xs, p x = q x := by
  constructor
  · intro same x member
    have kept := same.mem_iff (a := x)
    rw [mem_filter, mem_filter, and_iff_right member, and_iff_right member] at kept
    exact Bool.eq_iff_iff.mpr kept
  · intro same
    rw [filter_congr same]

/-- Two outer joins with the same matched pairs, where one keeps at least the
padded rows of the other, agree exactly when it gains none. -/
theorem perm_padded_iff (common : List γ) (pad : α → γ) (sub : ∀ x ∈ xs, p x = true → q x = true) :
    (common ++ (xs.filter q).map pad).Perm (common ++ (xs.filter p).map pad) ↔
      ∀ x ∈ xs, q x = true → p x = true := by
  constructor
  · intro perm
    have length := perm.length_eq
    simp only [length_append, length_map] at length
    exact filter_agrees_of_length_le sub (by omega)
  · intro back
    rw [filter_eq_of_agrees sub back]

theorem perm_padded_both_iff (common : List γ)
    (padLeft : α → γ) (padRight : β → γ) {left : List α} {right : List β}
    (sub : ∀ x ∈ left, p x = true → q x = true) (sub' : ∀ x ∈ right, p' x = true → q' x = true) :
    (common ++ (left.filter q).map padLeft ++ (right.filter q').map padRight).Perm
        (common ++ (left.filter p).map padLeft ++ (right.filter p').map padRight) ↔
      (∀ x ∈ left, q x = true → p x = true) ∧ ∀ x ∈ right, q' x = true → p' x = true := by
  constructor
  · intro perm
    have length := perm.length_eq
    simp only [length_append, length_map] at length
    have le := (filter_sublist_filter sub).length_le
    have le' := (filter_sublist_filter sub').length_le
    exact ⟨filter_agrees_of_length_le sub (by omega),filter_agrees_of_length_le sub' (by omega)⟩
  · rintro ⟨back,back'⟩
    rw [filter_eq_of_agrees sub back, filter_eq_of_agrees sub' back']

end Relational
