import NovaRocks.Relational.Masks

/-!
The iterator over the subsets of a given size: the places of the members in the
universe are counted up, the last place that still can be moved first.
-/
namespace NovaRocks
open Relational List
open Mask (bit members size ofMembers kSublists kSubmasks Within)

def smallestKSubset (univ : BitVec 32) (k : Nat) : Option (BitVec 32) :=
  if k = 0 then some 0#32
  else
    let bits := members univ
    if bits.length < k then none
    else some ((bits.take k).foldl (fun result i => result ||| bit i) 0#32)

/-- The loop that looks for the place to move, from the last one down; all places it passes are
moved. An access out of bounds or a difference below zero, `none`, is a panic. -/
def moveIndex (n k : Nat) (indices : List Nat) : Nat → Option (Option (List Nat × Nat))
  | 0 => some none
  | i + 1 =>
    match indices[i]? with
    | none => none
    | some index =>
      if n < k - i then none
      else if index + 1 ≤ n - (k - i) then some (some (indices.set i (index + 1), i))
      else moveIndex n k (indices.set i (index + 1)) i

def resetIndices (indices : List Nat) (i k : Nat) : Option (List Nat) :=
  (range' (i + 1) (k - (i + 1))).foldlM (fun indices j =>
    if j < indices.length then (indices[j - 1]?).map fun before => indices.set j (before + 1) else none) indices

def nextKSubset (current univ : BitVec 32) : Option (Option (BitVec 32)) := do
  let bits := members univ
  let k := size current
  let indices := (range bits.length).filter fun idx => current.getLsbD (bits.getD idx 0)
  match ← moveIndex bits.length k indices k with
  | none => return none
  | some (indices, i) =>
    let indices ← resetIndices indices i k
    let result ← indices.foldlM (fun result idx => (bits[idx]?).map fun i => result ||| bit i) 0#32
    return some result

structure SubsetIter where
  univ : BitVec 32
  k : Nat
  current : Option (BitVec 32)

namespace SubsetIter

def new (univ : BitVec 32) (k : Nat) : SubsetIter :=
  if k = 0 ∨ size univ < k then ⟨univ,k,none⟩ else ⟨univ,k,smallestKSubset univ k⟩

def next (iter : SubsetIter) : Option (Option (BitVec 32 × SubsetIter)) :=
  match iter.current with
  | none => some none
  | some val => do
    let current ← nextKSubset val iter.univ
    return some (val, { iter with current })

/-- The values that the iterator hands out before it stops. -/
def Yields : SubsetIter → List (BitVec 32) → Prop
  | iter, [] => iter.next = some none
  | iter, val :: rest => ∃ later, iter.next = some (some (val, later)) ∧ later.Yields rest

end SubsetIter

/-! The successor of a list of places. -/

def nextIndices (n : Nat) : List Nat → Option (List Nat)
  | [] => none
  | i :: rest =>
    match nextIndices n rest with
    | some rest => some (i :: rest)
    | none => if i + 1 + (rest.length + 1) ≤ n then some (range' (i + 1) (rest.length + 1)) else none

theorem nextIndices_append (done : nextIndices n rest = some rest') (first : List Nat) :
    nextIndices n (first ++ rest) = some (first ++ rest') := by
  induction first with
  | nil => exact done
  | cons i first ih => rw [cons_append, nextIndices, ih, cons_append]

theorem resetIndices_eq (first last : List Nat) (i : Nat) :
    resetIndices (first ++ i :: last) first.length (first.length + 1 + last.length) =
      some (first ++ range' i (last.length + 1)) := by
  rw [resetIndices, Nat.add_sub_cancel_left]
  induction last generalizing first i with
  | nil => simp
  | cons j last ih =>
    rw [length_cons, range'_succ, foldlM_cons, if_pos (by simp), Nat.add_sub_cancel,
      getElem?_append_right (Nat.le_refl _), Nat.sub_self]
    have set : (first ++ i :: j :: last).set (first.length + 1) (i + 1) = first ++ [i] ++ (i + 1) :: last := by
      rw [append_assoc, set_append_right _ _ (by omega), Nat.add_sub_cancel_left]
      rfl
    have later := ih (first ++ [i]) (i + 1)
    rw [length_append, length_singleton] at later
    simp only [getElem?_cons_zero, Option.map_some, Option.bind_eq_bind, Option.bind_some, set, later]
    rw [append_assoc, singleton_append, ← range'_succ]

/-- The places from `first.length` on were passed, in vain. -/
theorem moveIndex_reset (first failed rest : List Nat) (same : failed.length = rest.length)
    (stuck : nextIndices n rest = none) (few : (first ++ rest).length ≤ n) :
    (moveIndex n (first ++ rest).length (first ++ failed) first.length).bind (fun
      | none => some none
      | some (indices, i) => (resetIndices indices i (first ++ rest).length).map some) =
      some (nextIndices n (first ++ rest)) := by
  induction first using reverseRecOn generalizing failed rest with
  | nil => rw [nil_append, stuck]; rfl
  | append_singleton first i ih =>
    have count : (first ++ [i] ++ rest).length = first.length + 1 + rest.length := by
      rw [length_append, length_append, length_singleton]
    have moved : (first ++ [i] ++ failed).set first.length (i + 1) = first ++ (i + 1) :: failed := by simp
    have here : (first ++ [i] ++ failed)[first.length]? = some i := by simp
    have step := nextIndices.eq_2 n i rest
    rw [stuck] at step
    rw [count, length_append, length_singleton, moveIndex, here]
    dsimp only
    rw [if_neg (by omega), moved, append_assoc, singleton_append]
    by_cases room : i + 1 + (rest.length + 1) ≤ n
    · rw [if_pos room] at step
      rw [if_pos (by omega), nextIndices_append step, ← same]
      dsimp only [Option.bind_some]
      rw [resetIndices_eq]
      rfl
    · rw [if_neg room] at step
      have later := ih ((i + 1) :: failed) (i :: rest) (by simp [same]) step (by simp; omega)
      rw [if_neg (by omega)]
      simpa [Nat.add_assoc, Nat.add_comm 1] using later

/-! The walk from the first list of places to the last. -/

/-- From `start`, the successor function goes through the list and then to `final`. -/
def Follows (next : α → Option α) : Option α → List α → Option α → Prop
  | start, [], final => start = final
  | start, x :: xs, final => start = some x ∧ Follows next (next x) xs final

theorem follows_append {next : α → Option α} (first : Follows next start xs middle)
    (second : Follows next middle ys final) : Follows next start (xs ++ ys) final := by
  induction xs generalizing start with
  | nil => exact first ▸ second
  | cons x xs ih => exact ⟨first.1,ih first.2⟩

theorem follows_map {next : α → Option α} {next' : β → Option β} {f : α → β}
    (same : ∀ x ∈ xs, next' (f x) = ((next x).map f).or final) (follows : Follows next (some x) xs none) :
    Follows next' (some (f x)) (xs.map f) final := by
  induction xs generalizing x with
  | nil => cases follows
  | cons y ys ih =>
    obtain ⟨first,follows⟩ := follows
    cases first
    rw [forall_mem_cons] at same
    refine ⟨rfl,?_⟩
    rw [same.1]
    cases successor : next y with
    | some z =>
      rw [successor] at follows
      exact ih same.2 follows
    | none =>
      rw [successor] at follows
      cases ys with
      | nil => rfl
      | cons z zs => cases follows.1

theorem kSublists_follows (low m k : Nat) :
    Follows (nextIndices (low + m)) (if k ≤ m then some (range' low k) else none) (kSublists (range' low m) k)
      none := by
  induction m generalizing low k with
  | zero =>
    cases k with
    | zero => exact ⟨rfl,rfl⟩
    | succ k => rfl
  | succ m ih =>
    cases k with
    | zero => exact ⟨rfl,rfl⟩
    | succ k =>
      have later := ih (low + 1) (k + 1)
      have shorter := ih (low + 1) k
      rw [Nat.add_right_comm, Nat.add_assoc] at later shorter
      refine follows_append ?_ later
      by_cases enough : k ≤ m
      · rw [if_pos (by omega), range'_succ]
        rw [if_pos enough] at shorter
        refine follows_map (fun is member => ?_) shorter
        obtain ⟨-,length⟩ := Mask.mem_kSublists.mp member
        rw [nextIndices, length]
        cases nextIndices (low + (m + 1)) is with
        | some js => rfl
        | none =>
          dsimp only [Option.map_none, Option.none_or]
          congr 1
          exact propext ⟨fun h => by omega,fun h => by omega⟩
      · rw [if_neg (by omega), if_neg (by omega)]
        rw [if_neg enough] at shorter
        cases listed : kSublists (range' (low + 1) m) k with
        | nil => rfl
        | cons is rest =>
          rw [listed] at shorter
          cases shorter.1

/-! Places and members. -/

theorem foldl_or_bit (m : BitVec 32) (is : List Nat) : is.foldl (fun m i => m ||| bit i) m = m ||| ofMembers is := by
  induction is generalizing m with
  | nil => simp [ofMembers]
  | cons i is ih => rw [foldl_cons, ih, BitVec.or_assoc]; rfl

theorem nextIndices_lt (below : ∀ i ∈ is, i < n) (done : nextIndices n is = some js) : ∀ j ∈ js, j < n := by
  induction is generalizing js with
  | nil => cases done
  | cons i is ih =>
    rw [forall_mem_cons] at below
    rw [nextIndices] at done
    split at done
    case h_1 rest found =>
      cases done
      exact forall_mem_cons.mpr ⟨below.1,ih below.2 found⟩
    case h_2 =>
      split at done
      · cases done
        intro j member
        rw [mem_range'_1] at member
        omega
      · cases done

section
variable (univ : BitVec 32)

def ofIndices (is : List Nat) : BitVec 32 :=
  ofMembers (is.map fun i => (members univ).getD i 0)

theorem map_getD_range (xs : List Nat) : (range xs.length).map (fun i => xs.getD i 0) = xs := by
  apply ext_getElem
  · simp
  · intro i _ inside
    simp [inside]

theorem foldlM_bits (below : ∀ i ∈ is, i < (members univ).length) (m : BitVec 32) :
    is.foldlM (fun m idx => ((members univ)[idx]?).map fun i => m ||| bit i) m = some (m ||| ofIndices univ is) := by
  induction is generalizing m with
  | nil => simp [ofIndices, ofMembers]
  | cons i is ih =>
    rw [forall_mem_cons] at below
    rw [foldlM_cons, getElem?_eq_getElem below.1]
    simp only [Option.map_some, Option.bind_eq_bind, Option.bind_some]
    rw [ih below.2, BitVec.or_assoc, ofIndices, ofIndices, map_cons, getD_eq_getElem _ _ below.1]
    rfl

theorem nextKSubset_ofIndices (part : is.Sublist (range (members univ).length)) :
    nextKSubset (ofIndices univ is) univ =
      some ((nextIndices (members univ).length is).map (ofIndices univ)) := by
  have mapped := part.map fun i => (members univ).getD i 0
  rw [map_getD_range] at mapped
  have own := Mask.members_ofMembers mapped
  rw [← ofIndices] at own
  have count : size (ofIndices univ is) = is.length := by rw [size, own, length_map]
  have below : ∀ i ∈ is, i < (members univ).length := fun i member => mem_range.mp (part.subset member)
  have indices : ((range (members univ).length).filter fun idx =>
      (ofIndices univ is).getLsbD ((members univ).getD idx 0)) = is := by
    refine Eq.trans (filter_congr fun idx inside => ?_) (Mask.filter_mem_of_sublist part nodup_range)
    rw [Bool.eq_iff_iff, ← Mask.mem_members, own, decide_eq_true_iff, mem_map]
    constructor
    · rintro ⟨i,member,same⟩
      have small := below i member
      rw [mem_range] at inside
      rw [getD_eq_getElem _ _ small, getD_eq_getElem _ _ inside] at same
      rwa [← (Mask.nodup_members univ).getElem_inj_iff.mp same]
    · exact fun member => ⟨idx,member,rfl⟩
  have moved := moveIndex_reset is [] [] rfl (nextIndices.eq_1 _) (by simpa using part.length_le)
  simp only [append_nil] at moved
  rw [nextKSubset, count, indices]
  cases place : moveIndex (members univ).length is.length is is.length with
  | none =>
    rw [place] at moved
    cases moved
  | some place' =>
    rw [place] at moved
    rcases place' with _ | ⟨moving,i⟩
    · rw [← Option.some.inj moved]
      rfl
    · obtain ⟨js,reset,successor⟩ := Option.map_eq_some_iff.mp moved
      rw [← successor]
      simp only [Option.bind_eq_bind, Option.bind_some, reset]
      rw [foldlM_bits univ (nextIndices_lt below successor.symm), BitVec.zero_or]
      rfl

theorem smallestKSubset_eq (positive : 0 < k) (enough : k ≤ (members univ).length) :
    smallestKSubset univ k = some (ofIndices univ (range k)) := by
  rw [smallestKSubset, if_neg (by omega)]
  rw [if_neg (by omega), foldl_or_bit, BitVec.zero_or, ofIndices]
  conv_lhs => rw [← map_getD_range (members univ), ← map_take, take_range, Nat.min_eq_left enough]

theorem yields_of_follows (k : Nat) (part : ∀ is ∈ lists, is.Sublist (range (members univ).length))
    (follows : Follows (nextIndices (members univ).length) start lists none) :
    SubsetIter.Yields ⟨univ,k,start.map (ofIndices univ)⟩ (lists.map (ofIndices univ)) := by
  induction lists generalizing start with
  | nil =>
    cases follows
    rfl
  | cons is lists ih =>
    rw [forall_mem_cons] at part
    obtain ⟨rfl,follows⟩ := follows
    refine ⟨_,?_,ih part.2 follows⟩
    rw [SubsetIter.next, Option.map_some]
    dsimp only
    rw [nextKSubset_ofIndices univ part.1]
    rfl

end

/-- The iterator hands out each subset with `k` members once. -/
theorem SubsetIter.yields_each_once (univ : BitVec 32) (k : Nat) (positive : 1 ≤ k) (few : k ≤ size univ) :
    ∃ yielded, (SubsetIter.new univ k).Yields yielded ∧ yielded.Nodup ∧
      ∀ m, m ∈ yielded ↔ Within m univ ∧ size m = k := by
  refine ⟨kSubmasks univ k,?_,Mask.nodup_kSubmasks,fun m => Mask.mem_kSubmasks⟩
  have listed : kSubmasks univ k = (kSublists (range (members univ).length) k).map (ofIndices univ) := by
    rw [kSubmasks]
    conv_lhs => rw [← map_getD_range (members univ)]
    rw [Mask.kSublists_map, map_map]
    rfl
  have follows := kSublists_follows 0 (members univ).length k
  rw [Nat.zero_add, if_pos (show k ≤ (members univ).length from few), ← range_eq_range',
    ← range_eq_range'] at follows
  rw [new, if_neg (by omega), smallestKSubset_eq univ positive few, listed]
  exact yields_of_follows univ k (fun is member => (Mask.mem_kSublists.mp member).1) follows

theorem SubsetIter.yields_each_once_pair :
    ∃ yielded, (SubsetIter.new 0b10110#32 2).Yields yielded ∧ yielded.Nodup ∧
    ∀ m, m ∈ yielded ↔ Within m 0b10110#32 ∧ size m = 2 :=
  SubsetIter.yields_each_once 0b10110#32 2 (by decide) (by decide)

end NovaRocks
