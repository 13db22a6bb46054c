import Mathlib.Data.List.Sublists
import Mathlib.Data.Nat.Bitwise
import Mathlib.Data.Finset.Card

/-!
Sets of small numbers kept as the bits of a machine word, and two enumerations
over them: the nonempty proper subsets of a set, by counting down and masking,
and the subsets of a given size, in lexicographic order of their members.
-/
namespace Relational.Mask
open List
open BitVec (eq_of_getLsbD_eq eq_of_toNat_eq getLsbD_and getLsbD_not getLsbD_or lt_of_getLsbD
  toNat_and toNat_ofNat twoPow_eq)

variable {w : Nat}

def bit (i : Nat) : BitVec w :=
  1#w <<< i

theorem getLsbD_bit (i j : Nat) (small : i < w) : (bit i : BitVec w).getLsbD j = decide (j = i) := by
  rw [bit, ← twoPow_eq, BitVec.getLsbD_twoPow]
  simp [small, eq_comm]

variable {i : Nat}

def members (m : BitVec w) : List Nat :=
  (List.range w).filter fun i => m.getLsbD i

@[simp] theorem mem_members {m : BitVec w} {i : Nat} : i ∈ members m ↔ m.getLsbD i = true := by
  simp only [members, mem_filter, mem_range, and_iff_right_iff_imp]
  exact lt_of_getLsbD

def size (m : BitVec w) : Nat :=
  (members m).length

def Within (m s : BitVec w) : Prop :=
  ∀ i, m.getLsbD i = true → s.getLsbD i = true

variable {m s : BitVec w}

theorem exists_of_ne_zero (nonzero : m ≠ 0#w) : ∃ i, m.getLsbD i = true := by
  by_contra none
  apply nonzero
  apply eq_of_getLsbD_eq
  intro i _
  simpa using fun found => none ⟨i,found⟩

theorem touches_iff : (m &&& s != 0#w) = true ↔ ∃ i, m.getLsbD i = true ∧ s.getLsbD i = true := by
  rw [bne_iff_ne]
  constructor
  · intro nonzero
    obtain ⟨i,found⟩ := exists_of_ne_zero nonzero
    rw [getLsbD_and, Bool.and_eq_true] at found
    exact ⟨i,found⟩
  · rintro ⟨i,here,there⟩ zero
    have found : (m &&& s).getLsbD i = true := by rw [getLsbD_and, here, there]; rfl
    rw [zero] at found
    simp at found

theorem within_iff : (m &&& ~~~s == 0#w) = true ↔ Within m s := by
  rw [beq_iff_eq]
  constructor
  · intro zero i found
    have lost : (m &&& ~~~s).getLsbD i = false := by rw [zero]; simp
    have small := lt_of_getLsbD found
    simpa [found, small] using lost
  · intro sub
    apply eq_of_getLsbD_eq
    intro i small
    cases found : m.getLsbD i with
    | false => simp [found]
    | true => simp [sub i found]

section
variable {left right subset : BitVec w}

theorem disjoint_bits (apart : left &&& right = 0#w) (inLeft : left.getLsbD i = true) :
    right.getLsbD i = false := by
  have none : (left &&& right).getLsbD i = false := by rw [apart]; simp
  simpa [inLeft] using none

theorem complement_apart (subset left : BitVec w) : left &&& (subset &&& ~~~left) = 0#w := by
  apply eq_of_getLsbD_eq
  intro i small
  cases found : left.getLsbD i <;> simp [found]

theorem complement_union (inside : Within left subset) : left ||| (subset &&& ~~~left) = subset := by
  apply eq_of_getLsbD_eq
  intro i small
  simp only [getLsbD_or, getLsbD_and, getLsbD_not, small]
  cases found : left.getLsbD i with
  | true => simp [inside i found]
  | false => simp

end

theorem members_sublist (sub : Within m s) : (members m).Sublist (members s) := by
  apply monotone_filter_right
  exact sub

def ofMembers (is : List Nat) : BitVec w :=
  is.foldr (fun i m => bit i ||| m) 0#w

theorem getLsbD_ofMembers (small : ∀ i ∈ is, i < w) (j : Nat) :
    (ofMembers is : BitVec w).getLsbD j = decide (j ∈ is) := by
  induction is with
  | nil => simp [ofMembers]
  | cons i is ih =>
    have rest := ih fun k member => small k (mem_cons_of_mem i member)
    rw [ofMembers, foldr_cons, getLsbD_or, getLsbD_bit i j (small i (by simp))]
    rw [ofMembers] at rest
    rw [rest]
    simp

theorem ofMembers_members (m : BitVec w) : ofMembers (members m) = m := by
  apply eq_of_getLsbD_eq
  intro i _
  rw [getLsbD_ofMembers fun j member => lt_of_getLsbD (mem_members.mp member)]
  simp

theorem toNat_pred (nonzero : m ≠ 0#w) : (m - 1#w).toNat = m.toNat - 1 := by
  have positive : m.toNat ≠ 0 := fun zero => nonzero (eq_of_toNat_eq (by simpa using zero))
  rcases Nat.eq_zero_or_pos w with rfl | wide
  · omega
  · have one : 1 % 2 ^ w = 1 := Nat.mod_eq_of_lt (Nat.one_lt_two_pow (by omega))
    rw [BitVec.toNat_sub, toNat_ofNat, one]
    have shift : 2 ^ w - 1 + m.toNat = m.toNat - 1 + 2 ^ w := by omega
    rw [shift, Nat.add_mod_right, Nat.mod_eq_of_lt (by omega)]

theorem nodup_members (m : BitVec w) : (members m).Nodup :=
  nodup_range.filter _

theorem size_insert (small : i < w) (fresh : m.getLsbD i = false) : size (m ||| bit i) = size m + 1 := by
  have perm : (members (m ||| bit i)).Perm (i :: members m) := by
    apply (perm_ext_iff_of_nodup (nodup_members _) _).mpr
    · intro j
      simp [getLsbD_bit i j small, or_comm]
    · simp [nodup_members, fresh]
  exact perm.length_eq

theorem size_bit (small : i < w) : size (bit i : BitVec w) = 1 := by
  have alone := size_insert (m := 0#w) small (by simp)
  have none : size 0#w = 0 := by simp [size, members]
  rwa [none, BitVec.zero_or] at alone

theorem two_le_size_iff : 2 ≤ size m ↔ ∃ i j, i ≠ j ∧ m.getLsbD i = true ∧ m.getLsbD j = true := by
  rw [size, ← toFinset_card_of_nodup (nodup_members m), Nat.succ_le_iff, Finset.one_lt_card]
  simp only [mem_toFinset, mem_members]
  exact ⟨fun ⟨i,first,j,second,distinct⟩ => ⟨i,j,distinct,first,second⟩,
    fun ⟨i,j,distinct,first,second⟩ => ⟨i,first,j,second,distinct⟩⟩

theorem getLsbD_low (small : n < w) (i : Nat) : ((bit n : BitVec w) - 1#w).getLsbD i = decide (i < n) := by
  have nonzero : (bit n : BitVec w) ≠ 0#w := by
    intro zero
    have found := getLsbD_bit n n small
    rw [zero] at found
    simp at found
  rw [BitVec.getLsbD, toNat_pred nonzero, bit, ← twoPow_eq, BitVec.toNat_twoPow,
    Nat.mod_eq_of_lt (Nat.pow_lt_pow_right (by omega) small), Nat.testBit_two_pow_sub_one]

theorem full_of_size (below : ∀ i, m.getLsbD i = true → i < n)
    (many : n ≤ size m) (bound : i < n) : m.getLsbD i = true := by
  have inside : members m ⊆ range n := by
    intro j member
    rw [mem_range]
    exact below j (mem_members.mp member)
  have part := subperm_of_subset (nodup_members m) inside
  have perm := part.perm_of_length_le (by rw [length_range]; exact many)
  rw [← mem_members, perm.mem_iff, mem_range]
  exact bound

theorem getLsbD_foldl {α : Type} {step : BitVec w → α → BitVec w} {adds : α → Bool}
    {xs : List α} (grows : ∀ m, ∀ x ∈ xs, (step m x).getLsbD i = (m.getLsbD i || adds x))
    (m : BitVec w) : (xs.foldl step m).getLsbD i = (m.getLsbD i || xs.any adds) := by
  induction xs generalizing m with
  | nil => simp
  | cons x rest ih =>
    have tail := ih (fun m y member => grows m y (mem_cons_of_mem x member)) (step m x)
    rw [foldl_cons, tail, grows m x (by simp), any_cons, Bool.or_assoc]

/-- Counting down from `m` and masking, zero excluded. -/
def submasksFrom (s : BitVec w) : Nat → BitVec w → List (BitVec w)
  | 0, _ => []
  | fuel + 1, m => if m = 0#w then [] else m :: submasksFrom s fuel ((m - 1#w) &&& s)

/-- The nonempty proper subsets, largest word first. -/
def properSubmasks (s : BitVec w) : List (BitVec w) :=
  submasksFrom s s.toNat ((s - 1#w) &&& s)

theorem masked_sub (m s : BitVec w) : Within (m &&& s) s := by
  intro i found
  rw [getLsbD_and, Bool.and_eq_true] at found
  exact found.2

theorem within_of_mem_submasksFrom (sub : Within m s) (member : n ∈ submasksFrom s fuel m) : Within n s := by
  induction fuel generalizing m with
  | zero => cases member
  | succ fuel ih =>
    rw [submasksFrom] at member
    split at member
    · cases member
    · rcases mem_cons.mp member with rfl | later
      · exact sub
      · exact ih (masked_sub _ _) later

theorem within_of_mem_properSubmasks (member : n ∈ properSubmasks s) : Within n s :=
  within_of_mem_submasksFrom (masked_sub _ _) member

/-- Sublists with `k` elements, in lexicographic order of positions. -/
def kSublists : List Nat → Nat → List (List Nat)
  | _, 0 => [[]]
  | [], _ + 1 => []
  | a :: rest, k + 1 => (kSublists rest k).map (a :: ·) ++ kSublists rest (k + 1)

theorem kSublists_perm (xs : List Nat) (k : Nat) : (kSublists xs k).Perm (sublistsLen k xs) := by
  induction xs generalizing k with
  | nil => cases k <;> simp [kSublists]
  | cons a rest ih =>
    cases k with
    | zero => simp [kSublists]
    | succ k =>
      rw [kSublists, sublistsLen_succ_cons]
      exact (((ih k).map _).append (ih (k + 1))).trans perm_append_comm

theorem mem_kSublists : ys ∈ kSublists xs k ↔ ys.Sublist xs ∧ ys.length = k := by
  rw [(kSublists_perm xs k).mem_iff, mem_sublistsLen]

theorem nodup_kSublists (nodup : xs.Nodup) : (kSublists xs k).Nodup :=
  (kSublists_perm xs k).nodup_iff.mpr (nodup_sublistsLen k nodup)

theorem kSublists_map (f : Nat → Nat) (xs : List Nat) (k : Nat) :
    kSublists (xs.map f) k = (kSublists xs k).map (map f) := by
  induction xs generalizing k with
  | nil => cases k <;> rfl
  | cons a rest ih =>
    cases k with
    | zero => rfl
    | succ k =>
      rw [map_cons, kSublists, ih, ih, kSublists, map_append, map_map, map_map]
      rfl

def kSubmasks (s : BitVec w) (k : Nat) : List (BitVec w) :=
  (kSublists (members s) k).map ofMembers

theorem filter_mem_of_sublist {xs ys : List Nat} (part : ys.Sublist xs) (nodup : xs.Nodup) :
    (xs.filter fun x => decide (x ∈ ys)) = ys := by
  induction part with
  | slnil => rfl
  | cons a part ih =>
    rw [nodup_cons] at nodup
    rw [filter_cons_of_neg (by simpa using fun inside => nodup.1 (part.subset inside)), ih nodup.2]
  | cons_cons a part ih =>
    rw [nodup_cons] at nodup
    rw [filter_cons_of_pos (by simp)]
    conv_rhs => rw [← ih nodup.2]
    refine congrArg _ (filter_congr fun x inside => ?_)
    have other : x ≠ a := fun same => nodup.1 (same ▸ inside)
    simp [other]

theorem members_ofMembers (part : is.Sublist (members s)) : members (ofMembers is : BitVec w) = is := by
  have small : ∀ i ∈ is, i < w := fun i member =>
    lt_of_getLsbD (mem_members.mp (part.subset member))
  rw [members, filter_congr fun i _ => getLsbD_ofMembers small i]
  exact filter_mem_of_sublist (part.trans filter_sublist) nodup_range

theorem mem_kSubmasks : m ∈ kSubmasks s k ↔ Within m s ∧ size m = k := by
  simp only [kSubmasks, mem_map, mem_kSublists]
  constructor
  · rintro ⟨is,⟨part,length⟩,rfl⟩
    have same := members_ofMembers part
    refine ⟨fun i found => ?_,by rw [size, same, length]⟩
    rw [← mem_members, same] at found
    exact mem_members.mp (part.subset found)
  · rintro ⟨sub,length⟩
    exact ⟨members m,⟨members_sublist sub,length⟩,ofMembers_members m⟩

theorem nodup_kSubmasks : (kSubmasks s k).Nodup := by
  refine (nodup_kSublists (nodup_members s)).map_on fun is first js second same => ?_
  rw [← members_ofMembers (mem_kSublists.mp first).1, same, members_ofMembers (mem_kSublists.mp second).1]

end Relational.Mask
