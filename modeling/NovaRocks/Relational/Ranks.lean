import NovaRocks.Relational.TopN
import Mathlib.Data.Finset.Card

/-!
The rows of the first places. A row's place is the size of what stands strictly
before it, so rows that tie share a place. Sizes only have to grow with the list:
its length gives RANK, its number of different keys DENSE_RANK. Cutting a part to
its first places before the rest comes in loses nothing.
-/
namespace Relational
open List hiding min

section
variable {α : Type} (le : α → α → Prop) [DecidableRel le] (size : List α → Nat)

def place (rows : List α) (row : α) : Nat :=
  size (rows.filter fun x => ¬ le row x)

/-- The rows with fewer than `limit` before them, in the order they have. -/
def firstPlaces (limit : Nat) (rows : List α) : List α :=
  rows.filter fun row => place le size rows row < limit

end

section
variable {α : Type} {le : α → α → Prop} [DecidableRel le] {size : List α → Nat}
  {rows : List α} (trans : ∀ a b c, le a b → le b c → le a c)
  (grows : ∀ {few many : List α}, few.Sublist many → size few ≤ size many)

include grows in
theorem place_mono_rows (sub : few.Sublist rows) : place le size few a ≤ place le size rows a :=
  grows (sub.filter _)

include trans grows in
theorem place_mono (before : le a b) : place le size rows a ≤ place le size rows b := by
  refine grows (monotone_filter_right rows ?_)
  intro x later
  rw [decide_eq_true_eq] at later ⊢
  exact fun back => later (trans a b x before back)

theorem place_filter (kept : ∀ x ∈ rows, ¬ le a x → keep x) :
    place le size (rows.filter keep) a = place le size rows a := by
  unfold place
  rw [filter_filter, filter_congr]
  intro x member
  by_cases after : le a x
  · simp [after]
  · simp [kept x member after]

theorem firstPlaces_perm (even : ∀ {l m : List α}, l.Perm m → size l = size m) (same : rows.Perm other) :
    (firstPlaces le size limit rows).Perm (firstPlaces le size limit other) := by
  have places : ∀ row, place le size rows row = place le size other row :=
    fun row => even (same.filter _)
  unfold firstPlaces
  simp only [places]
  exact same.filter _

variable (total : ∀ a b, le a b ∨ le b a)

include total in
omit [DecidableRel le] in
include trans in
theorem exists_first_cut (cut : α → Prop) (member : a ∈ rows)
    (isCut : cut a) : ∃ first ∈ rows, cut first ∧ le first a ∧ ∀ x ∈ rows, cut x → le first x := by
  classical
  obtain ⟨sorted,same,pairwise⟩ := Sorts.exists_of_total total trans (rows.filter fun x => cut x)
  have listed : ∀ {x}, x ∈ sorted ↔ x ∈ rows ∧ cut x := by
    intro x
    rw [same.mem_iff, mem_filter, decide_eq_true_eq]
  cases sorted with
  | nil => cases listed.mpr ⟨member,isCut⟩
  | cons first others =>
    have least : ∀ x ∈ rows, cut x → le first x := by
      intro x inside cutX
      rcases mem_cons.mp (listed.mpr ⟨inside,cutX⟩) with rfl | tail
      · exact (total x x).elim id id
      · exact rel_of_pairwise_cons pairwise tail
    obtain ⟨firstIn,cutFirst⟩ := listed.mp mem_cons_self
    exact ⟨first,firstIn,cutFirst,least a member isCut,least⟩

include trans grows total in
/-- The first places of a part stand for the part, whatever comes after it. -/
theorem firstPlaces_append (part rest : List α) :
    firstPlaces le size limit (firstPlaces le size limit part ++ rest) =
      firstPlaces le size limit (part ++ rest) := by
  have sub : (firstPlaces le size limit part ++ rest).Sublist (part ++ rest) :=
    filter_sublist.append_right rest
  have same : ∀ row, place le size (firstPlaces le size limit part ++ rest) row < limit ↔
      place le size (part ++ rest) row < limit := by
    intro row
    refine ⟨fun early => ?_,fun early => Nat.lt_of_le_of_lt (place_mono_rows grows sub) early⟩
    by_cases late : ∃ x ∈ part, ¬ le row x ∧ limit ≤ place le size part x
    · -- the first row that was cut has a full number of kept rows before it
      obtain ⟨x,inside,before,cutX⟩ := late
      obtain ⟨first,_,cutFirst,below,least⟩ :=
        exists_first_cut trans total (fun y => limit ≤ place le size part y) inside cutX
      have whole : place le size (firstPlaces le size limit part) first = place le size part first := by
        refine place_filter ?_
        intro y yIn after
        rw [decide_eq_true_eq]
        exact Nat.lt_of_not_le fun cutY => after (least y yIn cutY)
      have under : le first row := trans _ _ _ below ((total x row).resolve_right before)
      have wide : place le size (firstPlaces le size limit part) row ≤
          place le size (firstPlaces le size limit part ++ rest) row :=
        place_mono_rows grows (sublist_append_left _ rest)
      have later : place le size (firstPlaces le size limit part) first ≤
          place le size (firstPlaces le size limit part) row := place_mono trans grows under
      omega
    · -- nothing before the row was cut
      have whole : place le size (firstPlaces le size limit part ++ rest) row =
          place le size (part ++ rest) row := by
        unfold place firstPlaces
        rw [filter_append, filter_append, filter_filter]
        congr 2
        refine filter_congr ?_
        intro x inside
        by_cases after : le row x
        · simp [after]
        · have early : place le size part x < limit :=
            Nat.lt_of_not_le fun cutX => late ⟨x,inside,after,cutX⟩
          simp [early]
      omega
  unfold firstPlaces at same ⊢
  rw [filter_append, filter_append, filter_filter]
  congr 1
  · refine filter_congr ?_
    intro row inside
    by_cases early : place le size (part ++ rest) row < limit
    · have own : place le size part row < limit :=
        Nat.lt_of_le_of_lt (place_mono_rows grows (sublist_append_left part rest)) early
      simp [early, own, (same row).mpr early]
    · have cut := mt (same row).mp early
      simp [early, cut]
  · exact filter_congr fun row _ => decide_eq_decide.mpr (same row)

omit [DecidableRel le] in
theorem TopN.ne_nil (top : TopN le limit 0 rows out) (positive : limit ≠ 0)
    (filled : rows ≠ []) : out ≠ [] := by
  obtain ⟨sorted,sorts,rfl⟩ := top
  have length := sorts.1.length_eq
  have some' := length_pos_iff.mpr filled
  apply ne_nil_of_length_pos
  rw [drop_zero, length_take]
  omega

include total in
/-- The last row of the window is the boundary of the ranks: what stands at or
before it has fewer than `limit` rows strictly before it. -/
theorem TopN.before_last_iff (trans : ∀ a b c, le a b → le b c → le a c)
    (top : TopN le limit 0 rows out) (isLast : out.getLast? = some last) (member : row ∈ rows) :
    le row last ↔ place le length rows row < limit := by
  have refl : ∀ a, le a a := fun a => (total a a).elim id id
  obtain ⟨sorted,⟨same,pairwise⟩,made⟩ := top
  rw [drop_zero] at made
  have inOut : last ∈ sorted.take limit := made ▸ mem_of_getLast? isLast
  constructor
  · intro early
    have few := countP_not_before refl pairwise inOut (fun x => ¬ le last x)
      fun x strictly => of_decide_eq_true strictly
    rw [same.countP_eq, countP_eq_length_filter] at few
    exact Nat.lt_of_le_of_lt (place_mono trans (fun sub => sub.length_le) early) few
  · intro few
    by_contra late
    obtain ⟨front,rfl⟩ : ∃ front, out = front ++ [last] := by
      obtain ⟨front,shape⟩ := getLast?_eq_some_iff.mp isLast
      exact ⟨front,shape⟩
    have upTo : ∀ x ∈ sorted.take limit, le x last := by
      have ordered := pairwise.sublist (take_sublist limit sorted)
      rw [← made] at ordered ⊢
      intro x inside
      rcases mem_append.mp inside with early | same'
      · exact (pairwise_append.mp ordered).2.2 x early last (mem_singleton_self _)
      · rw [mem_singleton.mp same']
        exact refl last
    have ahead : (sorted.take limit).filter (fun x => ¬ le row x) = sorted.take limit := by
      refine filter_eq_self.mpr ?_
      intro x inside
      rw [decide_eq_true_eq]
      exact fun back => late (trans _ _ _ back (upTo x inside))
    have many : (sorted.take limit).length ≤ place le length rows row := by
      have sub := ((take_sublist limit sorted).filter fun x => ¬ le row x).length_le
      rwa [ahead, (same.filter _).length_eq] at sub
    rw [length_take] at many
    have all : sorted.take limit = sorted := take_of_length_le (by omega)
    rw [all] at upTo
    exact late (upTo row (same.mem_iff.mpr member))

include total in
/-- What stands at or before the window's last row is enough to find the window. -/
theorem TopN.of_boundary (trans : ∀ a b c, le a b → le b c → le a c)
    (top : TopN le limit 0 rows out) (isLast : out.getLast? = some last)
    (sorts : Sorts le (rows.filter fun row => le row last) sorted) :
    TopN le limit 0 rows (sorted.take (min limit rows.length)) := by
  obtain ⟨tail,tailSorts⟩ := Sorts.exists_of_total total trans (rows.filter fun row => !le row last)
  have first : ∀ a ∈ sorted, le a last := by
    intro a inside
    exact of_decide_eq_true (mem_filter.mp (sorts.1.mem_iff.mp inside)).2
  have whole : Sorts le rows (sorted ++ tail) := by
    refine ⟨(sorts.1.append tailSorts.1).trans (filter_append_perm _ rows),?_⟩
    refine pairwise_append.mpr ⟨sorts.2,tailSorts.2,?_⟩
    intro a early b late
    have after := (mem_filter.mp (tailSorts.1.mem_iff.mp late)).2
    have behind : ¬ le b last := by simpa using after
    exact trans _ _ _ (first a early) ((total b last).resolve_left behind)
  refine ⟨sorted ++ tail,whole,?_⟩
  have long : min limit rows.length ≤ sorted.length := by
    obtain ⟨arranged,⟨same,pairwise⟩,rfl⟩ := top
    have inside : ∀ x ∈ arranged.take limit, le x last := by
      intro x early
      rw [TopN.before_last_iff total trans ⟨arranged,⟨same,pairwise⟩,rfl⟩ isLast
        (same.mem_iff.mp (mem_of_mem_take early))]
      have few := countP_not_before (fun a => (total a a).elim id id) pairwise early
        (fun y => ¬ le x y) fun y strictly => of_decide_eq_true strictly
      rwa [same.countP_eq, countP_eq_length_filter] at few
    have kept : (arranged.take limit).filter (fun row => le row last) = arranged.take limit :=
      filter_eq_self.mpr fun x early => decide_eq_true (inside x early)
    have sub := ((take_sublist limit arranged).filter fun row => le row last).length_le
    rw [kept, length_take, (same.filter _).length_eq, same.length_eq, ← sorts.1.length_eq] at sub
    exact sub
  have length := whole.1.length_eq
  rw [drop_zero, ← take_append_of_le_length long, take_eq_take_iff, length, Nat.min_assoc, Nat.min_self]

end

end Relational
