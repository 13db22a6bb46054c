import NovaRocks.Store.Listed

/-!
Keyed values under a delta of inserted and deleted values. The delta is a balance of
bags: what there is now together with what was deleted is what there was together
with what was inserted. A map is brought up to date by putting the inserted values
and dropping the deleted keys, in this order; or by the puts alone.
-/
namespace NovaRocks.Store
open List hiding beq_eq_decide

section
variable {K V : Type} [DecidableEq K] {key : V → K} {old current inserted deleted : List V}

theorem filter_key_length {values : List V} (keyed : (values.map key).Nodup) (k : K) :
    (values.filter fun v => key v = k).length ≤ 1 := by
  have count := nodup_iff_count_le_one.mp keyed k
  rw [count_eq_countP, countP_map, countP_eq_length_filter] at count
  simpa only [Function.comp_def, beq_eq_decide] using count

theorem eq_of_perm_of_length_le_one {as bs : List V} (perm : as.Perm bs) (one : as.length ≤ 1) : as = bs := by
  match as, one with
  | [], _ => exact perm.nil_eq
  | [a], _ => exact singleton_perm.mp perm

variable (currentKeyed : (current.map key).Nodup) (balance : (current ++ deleted).Perm (old ++ inserted))
include currentKeyed balance

theorem undeleted_key (never : ∀ d ∈ deleted, key d ≠ k) :
    (lastValue key inserted k).or (lastValue key old k) = lastValue key current k := by
  have noDeleted : (deleted.filter fun v => key v = k) = [] := by
    rw [filter_eq_nil_iff]
    intro d member
    simpa using never d member
  have ofKey := balance.filter fun v => decide (key v = k)
  rw [filter_append, filter_append, noDeleted, append_nil] at ofKey
  have same := eq_of_perm_of_length_le_one ofKey (filter_key_length currentKeyed k)
  rw [lastValue, lastValue, lastValue, same, getLast?_append]

/-- Puts, then drops: right where no current value has the key of a deleted one. -/
theorem put_then_drop_iff :
    Listed key current (dropAll (putAll key (lastValue key old) inserted) (deleted.map key)) ↔
      ∀ d ∈ deleted, ∀ v ∈ current, key d ≠ key v := by
  have isCurrent := listed_lastValue currentKeyed
  constructor
  · intro listed d inDeleted v inCurrent same
    have found := (listed.mem v).mp inCurrent
    rw [dropAll_apply, if_pos (mem_map.mpr ⟨d,inDeleted,same⟩)] at found
    cases found
  · intro apart
    have maps : dropAll (putAll key (lastValue key old) inserted) (deleted.map key) =
        lastValue key current := by
      funext k
      rw [dropAll_apply, putAll_apply]
      by_cases dropped : k ∈ deleted.map key
      · obtain ⟨d,inDeleted,rfl⟩ := mem_map.mp dropped
        rw [if_pos dropped]
        cases found : lastValue key current (key d) with
        | none => rfl
        | some v =>
          obtain ⟨inCurrent,own⟩ := lastValue_mem found
          exact (apart d inDeleted v inCurrent own.symm).elim
      · rw [if_neg dropped]
        apply undeleted_key currentKeyed balance
        intro d inDeleted same
        exact dropped (mem_map.mpr ⟨d,inDeleted,same⟩)
    rw [maps]
    exact isCurrent

/-- Puts alone: right where the key of each deleted value is put again, a current
value last. -/
theorem put_only_iff (oldKeyed : (old.map key).Nodup) :
    Listed key current (putAll key (lastValue key old) inserted) ↔
      ∀ d ∈ deleted, ∃ v ∈ current, lastValue key inserted (key d) = some v := by
  have isCurrent := listed_lastValue currentKeyed
  constructor
  · intro listed d inDeleted
    have maps := congrFun (listed.unique isCurrent) (key d)
    rw [putAll_apply] at maps
    cases put' : lastValue key inserted (key d) with
    | some v =>
      rw [put'] at maps
      exact ⟨v,(lastValue_mem maps.symm).1,rfl⟩
    | none =>
      have noInserted : (inserted.filter fun v => key v = key d) = [] :=
        getLast?_eq_none_iff.mp put'
      have ofKey := (balance.symm).filter fun v => decide (key v = key d)
      rw [filter_append, filter_append, noInserted, append_nil] at ofKey
      have same := eq_of_perm_of_length_le_one ofKey (filter_key_length oldKeyed (key d))
      have one := filter_key_length oldKeyed (key d)
      have some' : d ∈ deleted.filter fun v => key v = key d :=
        mem_filter.mpr ⟨inDeleted,by simp⟩
      rw [put', Option.none_or, lastValue, lastValue, same, getLast?_append] at maps
      rw [same, length_append] at one
      have positive := length_pos_of_mem some'
      have noCurrent : (current.filter fun v => key v = key d) = [] :=
        length_eq_zero_iff.mp (by omega)
      rw [noCurrent, getLast?_nil, Option.or_none, getLast?_eq_none_iff] at maps
      rw [maps] at some'
      cases some'
  · intro again
    have maps : putAll key (lastValue key old) inserted = lastValue key current := by
      funext k
      rw [putAll_apply]
      by_cases dropped : ∃ d ∈ deleted, key d = k
      · obtain ⟨d,inDeleted,rfl⟩ := dropped
        obtain ⟨v,inCurrent,last⟩ := again d inDeleted
        have held := (isCurrent.mem v).mp inCurrent
        rw [(lastValue_mem last).2] at held
        rw [last, held, Option.some_or]
      · apply undeleted_key currentKeyed balance
        intro d inDeleted same
        exact dropped ⟨d,inDeleted,same⟩
    rw [maps]
    exact isCurrent

end

end NovaRocks.Store
