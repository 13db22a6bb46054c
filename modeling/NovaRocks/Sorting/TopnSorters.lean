import NovaRocks.Sorting.SortProcessor

/-!
What the sorters of the top-n mode keep: the first rows of a sorted arrangement, or
the rows of the first ranks in order.
-/
namespace NovaRocks
open Relational
open List hiding min

theorem asChunk_getD (rows : List Row) : (asChunk rows).getD [] = rows := by
  cases rows <;> rfl

theorem toList_asChunk_flatten (rows : List Row) : (asChunk rows).toList.flatten = rows := by
  cases rows <;> simp [asChunk]

theorem asChunk_of_ne_nil {rows : List Row} (filled : rows ≠ []) : asChunk rows = some rows := by
  simp [asChunk, filled]

theorem ne_nil_of_asChunk {rows out : List Row} (made : asChunk rows = some out) : out ≠ [] := by
  unfold asChunk at made
  split at made
  · cases made
  · cases made
    simpa using ‹¬ rows.isEmpty = true›

namespace SortProcessor
variable (p : SortProcessor)

theorem before_total (a b : Row) : p.before a b ∨ p.before b a :=
  rowBefore_total p.ordered p.env p.orderBy a b

theorem before_trans (a b c : Row) : p.before a b → p.before b c → p.before a c :=
  rowBefore_trans p.ordered p.env p.orderBy a b c

theorem before_refl (a : Row) : p.before a a :=
  (p.before_total a a).elim id id

theorem sorts_of_no_keys (none : p.orderBy.isEmpty) (rows : List Row) : Sorts p.before rows rows := by
  refine ⟨Perm.refl _,pairwise_of_forall ?_⟩
  simp [rowBefore, isEmpty_iff.mp none, keysBefore]

theorem sortAll_sorts (chunks : List (List Row)) : Sorts p.before chunks.flatten (p.sortAll chunks) := by
  unfold sortAll
  split
  · exact p.sorts_of_no_keys ‹_› _
  · exact p.lexsort_sorts _

/-! The heap. -/

theorem pushEntry_perm (row : Row) (heap : List Row) : (p.pushEntry row heap).Perm (heap ++ [row]) := by
  induction heap with
  | nil => exact Perm.refl _
  | cons entry heap ih =>
    unfold pushEntry
    split
    · exact ih.cons entry
    · exact @perm_append_comm _ [row] (entry :: heap)

theorem pushEntry_sorted (row : Row) (sorted : heap.Pairwise p.before) :
    (p.pushEntry row heap).Pairwise p.before := by
  induction sorted with
  | nil => exact pairwise_singleton _ _
  | @cons entry heap ahead sorted ih =>
    unfold pushEntry
    split
    · rename_i first
      refine pairwise_cons.mpr ⟨?_,ih⟩
      intro x member
      rcases mem_append.mp ((p.pushEntry_perm row heap).mem_iff.mp member) with old | new
      · exact ahead x old
      · rwa [mem_singleton.mp new]
    · rename_i last
      have first := (p.before_total entry row).resolve_left last
      refine pairwise_cons.mpr ⟨?_,pairwise_cons.mpr ⟨ahead,sorted⟩⟩
      exact forall_mem_cons.mpr ⟨first,fun x old => p.before_trans _ _ _ first (ahead x old)⟩

theorem pushEntry_before_last (better : ¬ p.before worst row) (heap : List Row) :
    p.pushEntry row (heap ++ [worst]) = p.pushEntry row heap ++ [worst] := by
  induction heap with
  | nil => simp [pushEntry, better]
  | cons entry heap ih =>
    simp only [cons_append, pushEntry, ih]
    split <;> rfl

theorem pushEntry_last (ahead : ∀ entry ∈ heap, p.before entry row) :
    p.pushEntry row heap = heap ++ [row] := by
  induction heap with
  | nil => rfl
  | cons entry heap ih =>
    have first := ahead entry mem_cons_self
    simp only [pushEntry, first, if_true, cons_append,
      ih fun x member => ahead x (mem_cons_of_mem entry member)]

theorem update_eq_take (sorted : heap.Pairwise p.before) (short : heap.length ≤ rowsToKeep) (row : Row) :
    p.update rowsToKeep heap row = (p.pushEntry row heap).take rowsToKeep := by
  have length := (p.pushEntry_perm row heap).length_eq
  rw [length_append, length_singleton] at length
  unfold update
  by_cases room : heap.length < rowsToKeep
  · rw [if_pos room, take_of_length_le (by omega)]
  · rw [if_neg room]
    obtain rfl | ⟨front,worst,rfl⟩ := eq_nil_or_concat' heap
    · obtain rfl : rowsToKeep = 0 := by
        rw [length_nil] at room
        omega
      rfl
    · rw [getLast?_concat, dropLast_concat]
      rw [length_append, length_singleton] at room short length
      by_cases ahead : p.before worst row
      · have all : ∀ entry ∈ front ++ [worst], p.before entry row := by
          intro entry member
          rcases mem_append.mp member with old | new
          · exact p.before_trans _ _ _ ((pairwise_append.mp sorted).2.2 entry old worst
              (mem_singleton_self _)) ahead
          · rwa [mem_singleton.mp new]
        have fits : (front ++ [worst]).length = rowsToKeep := by
          rw [length_append, length_singleton]
          omega
        rw [p.pushEntry_last all, ← fits, take_left]
        simp [ahead]
      · have inner : (p.pushEntry row front).length = rowsToKeep := by
          have grown := (p.pushEntry_perm row front).length_eq
          rw [length_append, length_singleton] at grown
          omega
        rw [p.pushEntry_before_last ahead, ← inner, take_left]
        simp [ahead]

theorem update_topN (some' : rowsToKeep ≠ 0) (top : TopN p.before rowsToKeep 0 seen heap) (row : Row) :
    TopN p.before rowsToKeep 0 (seen ++ [row]) (p.update rowsToKeep heap row) := by
  have sorted : heap.Pairwise p.before := by
    obtain ⟨arranged,⟨_,pairwise⟩,rfl⟩ := top
    exact pairwise.sublist ((take_sublist _ _).trans (drop_sublist _ _))
  have short : heap.length ≤ rowsToKeep := by
    obtain ⟨arranged,_,rfl⟩ := top
    exact length_take_le _ _
  have single : TopN p.before rowsToKeep 0 [row] [row] :=
    ⟨[row],⟨Perm.refl _,pairwise_singleton _ _⟩,by
      rw [drop_zero, take_of_length_le (by rw [length_singleton]; omega)]⟩
  have cuts : Forall₂ (TopN p.before (0 + rowsToKeep) 0) [seen, [row]] [heap, [row]] := by
    rw [Nat.zero_add]
    exact .cons top (.cons single .nil)
  have merged : TopN p.before rowsToKeep 0 [heap, [row]].flatten (p.update rowsToKeep heap row) := by
    refine ⟨p.pushEntry row heap,⟨p.pushEntry_perm row heap,p.pushEntry_sorted row sorted⟩,?_⟩
    rw [drop_zero, p.update_eq_take sorted short]
  exact TopN.of_parts p.before_total p.before_trans cuts merged

theorem foldl_update_topN (some' : rowsToKeep ≠ 0) (rows : List Row)
    (top : TopN p.before rowsToKeep 0 seen heap) :
    TopN p.before rowsToKeep 0 (seen ++ rows) (rows.foldl (p.update rowsToKeep) heap) := by
  induction rows generalizing seen heap with
  | nil => rwa [append_nil]
  | cons row rows ih =>
    have next := ih (p.update_topN some' top row)
    rwa [append_assoc] at next

theorem take_topN_of_no_keys (none : p.orderBy.isEmpty) (rowsToKeep : Nat) (rows : List Row) :
    TopN p.before rowsToKeep 0 rows (rows.take rowsToKeep) :=
  ⟨rows,p.sorts_of_no_keys none rows,by rw [drop_zero]⟩

theorem sortChunksTopnHeap_spec (some' : rowsToKeep ≠ 0)
    (chunks : List (List Row)) : ∃ out, p.sortChunksTopnHeap rowsToKeep chunks = asChunk out ∧
      TopN p.before rowsToKeep 0 chunks.flatten out := by
  unfold sortChunksTopnHeap
  rw [if_neg some']
  split
  · exact ⟨_,rfl,p.take_topN_of_no_keys ‹_› _ _⟩
  · have start : TopN p.before rowsToKeep 0 [] [] := ⟨[],⟨Perm.refl _,.nil⟩,by simp⟩
    exact ⟨_,rfl,p.foldl_update_topN some' chunks.flatten start⟩

/-! The boundary row. -/

theorem filterByBoundary_eq (boundary : Row) (chunks : List (List Row)) :
    p.filterByBoundary boundary chunks = chunks.flatten.filter fun row => p.before row boundary := by
  rw [filter_flatten]
  rfl

theorem sortChunksTopn_spec (rowsToKeep : Nat) (chunks : List (List Row)) :
    ∃ out, p.sortChunksTopn rowsToKeep chunks = asChunk out ∧
      TopN p.before rowsToKeep 0 chunks.flatten out := by
  unfold sortChunksTopn
  have cut : ∀ {out : List Row}, TopN p.before (min rowsToKeep chunks.flatten.length) 0 chunks.flatten out →
      TopN p.before rowsToKeep 0 chunks.flatten out := by
    rintro out ⟨sorted,sorts,rfl⟩
    refine ⟨sorted,sorts,?_⟩
    rw [drop_zero, take_eq_take_iff, sorts.1.length_eq, Nat.min_assoc, Nat.min_self]
  by_cases nothing : min rowsToKeep chunks.flatten.length = 0
  · obtain ⟨sorted,sorts⟩ := Sorts.exists_of_total p.before_total p.before_trans chunks.flatten
    refine ⟨[],by rw [if_pos nothing]; rfl,cut ⟨sorted,sorts,?_⟩⟩
    rw [nothing, take_zero]
  · rw [if_neg nothing]
    split
    · exact ⟨_,rfl,cut (p.take_topN_of_no_keys ‹_› _ _)⟩
    · obtain ⟨top,made,isTop⟩ := p.sortChunksTopnHeap_spec nothing chunks
      have filled : top ≠ [] := by
        refine isTop.ne_nil nothing (ne_nil_of_length_pos ?_)
        omega
      have isLast := getLast?_eq_some_getLast filled
      generalize top.getLast filled = last at isLast
      rw [made, asChunk_of_ne_nil filled]
      have sorts := p.lexsort_sorts (p.filterByBoundary last chunks)
      rw [filterByBoundary_eq] at sorts
      have whole := TopN.of_boundary p.before_total p.before_trans isTop isLast sorts
      rw [Nat.min_assoc, Nat.min_self] at whole
      refine ⟨_,?_,cut whole⟩
      simp only [Option.bind_eq_bind, Option.bind_some, isLast, filterByBoundary_eq]

/-! Ranks. -/

theorem firstPlaces_of_no_keys (none : p.orderBy.isEmpty) (zero : size [] = 0)
    {limit : Nat} (some' : limit ≠ 0) (rows : List Row) : firstPlaces p.before size limit rows = rows := by
  refine filter_eq_self.mpr fun row _ => decide_eq_true ?_
  have nobody : rows.filter (fun x => ¬ p.before row x) = [] := by
    simp [rowBefore, isEmpty_iff.mp none, keysBefore]
  rw [place, nobody, zero]
  omega

theorem sortChunksRank_spec (some' : rankLimit ≠ 0) (chunks : List (List Row)) :
    ∃ out, p.sortChunksRank rankLimit chunks = asChunk out ∧
      Sorts p.before (firstPlaces p.before length rankLimit chunks.flatten) out := by
  unfold sortChunksRank
  rw [if_neg some']
  split
  · rw [p.firstPlaces_of_no_keys ‹_› rfl some']
    exact ⟨_,rfl,p.sorts_of_no_keys ‹_› _⟩
  · obtain ⟨top,made,isTop⟩ := p.sortChunksTopn_spec rankLimit chunks
    rw [made]
    by_cases nothing : chunks.flatten = []
    · rw [nothing] at isTop ⊢
      obtain ⟨sorted,sorts,rfl⟩ := isTop
      rw [sorts.1.eq_nil, drop_nil, take_nil]
      exact ⟨[],rfl,Perm.refl _,.nil⟩
    · have filled := isTop.ne_nil some' nothing
      have isLast := getLast?_eq_some_getLast filled
      generalize top.getLast filled = last at isLast
      have same : p.filterByBoundary last chunks =
          firstPlaces p.before length rankLimit chunks.flatten := by
        rw [filterByBoundary_eq]
        refine filter_congr fun row member => decide_eq_decide.mpr ?_
        exact TopN.before_last_iff p.before_total p.before_trans isTop isLast member
      rw [asChunk_of_ne_nil filled, ← same]
      refine ⟨p.lexsort (p.filterByBoundary last chunks),?_,p.lexsort_sorts _⟩
      simp only [Option.bind_eq_bind, Option.bind_some, isLast]

theorem keyCount_mono (sub : few.Sublist many) : p.keyCount few ≤ p.keyCount many :=
  Finset.card_le_card fun _ inside =>
    mem_toFinset.mpr ((sub.map p.keys).subset (mem_toFinset.mp inside))

theorem keyCount_perm {rows other : List Row} (same : rows.Perm other) :
    p.keyCount rows = p.keyCount other := by
  unfold keyCount
  rw [toFinset_eq_of_perm _ _ (same.map p.keys)]

theorem keys_eq (first : p.before a b) (second : p.before b a) : p.keys a = p.keys b :=
  keysBefore_antisymm p.ordered (sortKeys_length p.env p.orderBy a) (sortKeys_length p.env p.orderBy b)
    first second

theorem before_of_keys_eq (same : p.keys a = p.keys b) : p.before a b := by
  unfold before rowBefore
  unfold keys at same
  rw [same]
  exact p.before_refl b

theorem place_keyCount (sorted : (front ++ row :: rest).Pairwise p.before) :
    place p.before p.keyCount (front ++ row :: rest) row + 1 = p.keyCount (front ++ [row]) := by
  obtain ⟨_,tail,across⟩ := pairwise_append.mp sorted
  have behind : (row :: rest).filter (fun x => ¬ p.before row x) = [] := by
    rw [filter_eq_nil_iff]
    intro x member
    rcases mem_cons.mp member with rfl | later
    · simpa using p.before_refl x
    · simpa using rel_of_pairwise_cons tail later
  have others : ((front.filter fun x => ¬ p.before row x).map p.keys).toFinset =
      ((front ++ [row]).map p.keys).toFinset.erase (p.keys row) := by
    ext key
    simp only [mem_toFinset, mem_map, mem_filter, Finset.mem_erase, mem_append,
      mem_singleton, decide_eq_true_eq]
    constructor
    · rintro ⟨x,⟨inside,strictly⟩,rfl⟩
      exact ⟨fun same => strictly (p.before_of_keys_eq same.symm),x,.inl inside,rfl⟩
    · rintro ⟨different,x,inside | rfl,rfl⟩
      · have ahead := across x inside row mem_cons_self
        exact ⟨x,⟨inside,fun back => different (p.keys_eq ahead back)⟩,rfl⟩
      · exact absurd rfl different
  have own : p.keys row ∈ ((front ++ [row]).map p.keys).toFinset := by simp
  rw [place, filter_append, behind, append_nil, keyCount, keyCount, others, Finset.card_erase_add_one own]

theorem keyCount_step
    (sorted : (front ++ [last, row]).Pairwise p.before) : p.keyCount (front ++ [last, row]) =
      if p.keys last ≠ p.keys row then p.keyCount (front ++ [last]) + 1
      else p.keyCount (front ++ [last]) := by
  have shape : ((front ++ [last, row]).map p.keys).toFinset =
      insert (p.keys row) ((front ++ [last]).map p.keys).toFinset := by
    ext key
    simp only [map_append, map_cons, toFinset_append, toFinset_cons, Finset.mem_union, Finset.mem_insert]
    tauto
  unfold keyCount
  rw [shape]
  split
  · rename_i different
    rw [Finset.card_insert_of_notMem]
    intro inside
    obtain ⟨x,member,same⟩ := mem_map.mp (mem_toFinset.mp inside)
    have upTo : p.before x last := by
      rcases mem_append.mp member with early | own
      · exact (pairwise_append.mp sorted).2.2 x early last mem_cons_self
      · rw [mem_singleton.mp own]
        exact p.before_refl last
    have ahead : p.before last row :=
      rel_of_pairwise_cons (pairwise_append.mp sorted).2.1 (mem_singleton_self row)
    have back : p.before row last := p.before_trans _ _ _ (p.before_of_keys_eq same.symm) upTo
    exact different (p.keys_eq ahead back)
  · rename_i same
    simp [not_not.mp same]

/-- The loop from any point: what it still takes has its dense rank in the limit. -/
theorem denseFront_eq (rest front : List Row) (last : Row)
    (sorted : (front ++ last :: rest).Pairwise p.before) :
    p.denseFront rankLimit (p.keyCount (front ++ [last])) (some last) rest =
      rest.filter fun row => place p.before p.keyCount (front ++ last :: rest) row < rankLimit := by
  induction rest generalizing front last with
  | nil => rfl
  | cons row rest ih =>
    have grown : front ++ last :: row :: rest = front ++ [last] ++ row :: rest := by simp
    have counted : p.keyCount (front ++ [last] ++ [row]) =
        if p.keys last ≠ p.keys row then p.keyCount (front ++ [last]) + 1
        else p.keyCount (front ++ [last]) := by
      rw [append_assoc]
      refine p.keyCount_step (sorted.sublist ?_)
      exact (Sublist.refl front).append (.cons_cons _ (.cons_cons _ (nil_sublist rest)))
    rw [grown] at sorted ⊢
    have own := p.place_keyCount sorted
    unfold denseFront
    dsimp only
    rw [← counted]
    by_cases past : rankLimit < p.keyCount (front ++ [last] ++ [row])
    · rw [if_pos past, eq_comm, filter_eq_nil_iff]
      intro y member
      have later : p.before row y := by
        rcases mem_cons.mp member with rfl | tail
        · exact p.before_refl y
        · exact rel_of_pairwise_cons (pairwise_append.mp sorted).2.1 tail
      have larger : place p.before p.keyCount (front ++ [last] ++ row :: rest) row ≤
          place p.before p.keyCount (front ++ [last] ++ row :: rest) y :=
        place_mono p.before_trans p.keyCount_mono later
      rw [decide_eq_true_eq]
      omega
    · have kept : place p.before p.keyCount (front ++ [last] ++ row :: rest) row < rankLimit := by omega
      rw [if_neg past, filter_cons, if_pos (decide_eq_true kept), ih (front ++ [last]) row sorted]

theorem sortChunksDenseRank_spec (some' : rankLimit ≠ 0) (chunks : List (List Row)) :
    ∃ out, p.sortChunksDenseRank rankLimit chunks = asChunk out ∧
      Sorts p.before (firstPlaces p.before p.keyCount rankLimit chunks.flatten) out := by
  unfold sortChunksDenseRank
  rw [if_neg some']
  split
  · rw [p.firstPlaces_of_no_keys ‹_› rfl some']
    exact ⟨_,rfl,p.sorts_of_no_keys ‹_› _⟩
  · obtain ⟨same,sorted⟩ := p.lexsort_sorts chunks.flatten
    refine ⟨_,rfl,?_⟩
    have cut : p.denseFront rankLimit 1 none (p.lexsort chunks.flatten) =
        firstPlaces p.before p.keyCount rankLimit (p.lexsort chunks.flatten) := by
      generalize p.lexsort chunks.flatten = rows at sorted
      cases rows with
      | nil => rfl
      | cons row rows =>
        have first := @place_keyCount p [] row rows sorted
        have one : p.keyCount ([] ++ [row]) = 1 := by simp [keyCount]
        have rest := @denseFront_eq p rankLimit rows [] row sorted
        rw [one, nil_append] at first rest
        have kept : place p.before p.keyCount (row :: rows) row < rankLimit := by omega
        unfold denseFront firstPlaces
        dsimp only
        rw [if_neg (by omega), filter_cons, if_pos (decide_eq_true kept), rest]
    rw [cut]
    exact ⟨firstPlaces_perm p.keyCount_perm same,sorted.sublist filter_sublist⟩

end SortProcessor

end NovaRocks
