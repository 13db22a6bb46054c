import NovaRocks.Store.Keyed

/-!
A list of values against a map: the list has the values of the map, each once. A
map is also kept in parts, one for each part of the keys.
-/
namespace NovaRocks.Store
open List
open Function (update_of_ne update_self)

section
variable {K V : Type}

structure Listed (key : V → K) (values : List V) (m : K → Option V) : Prop where
  keyed : (values.map key).Nodup
  mem : ∀ v, v ∈ values ↔ m (key v) = some v
  own : ∀ k v, m k = some v → key v = k

variable {key : V → K} {values values' : List V} {m m' : K → Option V}

variable (listed : Listed key values m)

include listed in
theorem Listed.apply_iff : m k = some v ↔ v ∈ values ∧ key v = k := by
  rw [listed.mem]
  constructor
  · intro found
    have own := listed.own k v found
    exact ⟨by rw [own, found],own⟩
  · rintro ⟨found,rfl⟩
    exact found

theorem Listed.unique (first : Listed key values m) (second : Listed key values m') : m = m' := by
  funext k
  apply Option.ext
  intro v
  rw [first.apply_iff, second.apply_iff]

include listed in
theorem Listed.nodup : values.Nodup :=
  Nodup.of_map key listed.keyed

include listed in
theorem Listed.of_perm (perm : values.Perm values') : Listed key values' m where
  keyed := (perm.map key).nodup_iff.mp listed.keyed
  mem v := by rw [← listed.mem, perm.mem_iff]
  own := listed.own

theorem Listed.perm (first : Listed key values m) (second : Listed key values' m) : values.Perm values' := by
  apply (perm_ext_iff_of_nodup first.nodup second.nodup).mpr
  intro v
  rw [first.mem, second.mem]

def part (route : K → Nat) (m : K → Option V) (idx : Nat) (k : K) : Option V :=
  if route k = idx then m k else none

theorem listed_of_parts {lists : List (List V)} (bounded : ∀ k, route k < lists.length)
    (parts : ∀ idx values, lists[idx]? = some values → Listed key values (part route m idx)) :
    Listed key lists.flatten m := by
  have placed : ∀ idx values, lists[idx]? = some values → ∀ v ∈ values,
      route (key v) = idx ∧ m (key v) = some v := by
    intro idx values found v member
    have held := ((parts idx values found).mem v).mp member
    unfold part at held
    split at held
    · exact ⟨by assumption,held⟩
    · cases held
  refine ⟨?_,?_,?_⟩
  · rw [map_flatten, nodup_flatten]
    constructor
    · intro keys member
      obtain ⟨values,inside,rfl⟩ := mem_map.mp member
      obtain ⟨idx,found⟩ := getElem?_of_mem inside
      exact (parts idx values found).keyed
    · rw [pairwise_map, pairwise_iff_getElem]
      intro i j hi hj before k inFirst inSecond
      obtain ⟨v,first,rfl⟩ := mem_map.mp inFirst
      obtain ⟨w,second,same⟩ := mem_map.mp inSecond
      have atI := (placed i _ (getElem?_eq_getElem hi) v first).1
      have atJ := (placed j _ (getElem?_eq_getElem hj) w second).1
      rw [same] at atJ
      omega
  · intro v
    rw [mem_flatten]
    constructor
    · rintro ⟨values,inside,member⟩
      obtain ⟨idx,found⟩ := getElem?_of_mem inside
      exact (placed idx values found v member).2
    · intro held
      have found := getElem?_eq_getElem (bounded (key v))
      refine ⟨_,mem_of_getElem? found,?_⟩
      rw [(parts _ _ found).mem, part, if_pos rfl, held]
  · intro k v held
    have found := getElem?_eq_getElem (bounded k)
    exact (parts _ _ found).own k v (by rw [part, if_pos rfl, held])

include listed in
theorem Listed.filter (p : V → Bool) : Listed key (values.filter p) fun k => (m k).filter p where
  keyed := listed.keyed.sublist (filter_sublist.map _)
  mem v := by
    rw [mem_filter, listed.mem, Option.filter_eq_some_iff]
  own k v found := listed.own k v (Option.filter_eq_some_iff.mp found).1

variable [DecidableEq K]

theorem listed_lastValue (keyed : (values.map key).Nodup) : Listed key values (lastValue key values) where
  keyed := keyed
  mem v := by
    constructor
    · intro member
      obtain ⟨last,found⟩ := lastValue_isSome key member rfl
      obtain ⟨inside,own⟩ := lastValue_mem found
      rw [found, inj_on_of_nodup_map keyed inside member own]
    · intro found
      exact (lastValue_mem found).1
  own _ _ found := (lastValue_mem found).2

theorem listed_iff_perm (keyed : (values'.map key).Nodup) :
    Listed key values (lastValue key values') ↔ values.Perm values' := by
  constructor
  · intro listed
    exact listed.perm (listed_lastValue keyed)
  · intro perm
    exact (listed_lastValue keyed).of_perm perm.symm

include listed in
theorem Listed.find (k : K) : (values.find? fun v => key v = k) = m k := by
  cases found : values.find? fun v => key v = k with
  | some v =>
    have own : key v = k := by simpa using find?_some found
    rw [← own]
    exact ((listed.mem v).mp (mem_of_find?_eq_some found)).symm
  | none =>
    cases held : m k with
    | none => rfl
    | some v =>
      have own := listed.own k v held
      subst own
      have absent := find?_eq_none.mp found v ((listed.mem v).mpr held)
      simp at absent

theorem put_own (own : ∀ k w, m k = some w → key w = k) (found : put key m v k = some w) : key w = k := by
  rw [put] at found
  by_cases same : k = key v
  · rw [same, update_self] at found
    cases found
    exact same.symm
  · rw [update_of_ne same] at found
    exact own k w found

include listed in
theorem Listed.replace (held : m (key v) = some old) :
    Listed key (values.map fun x => if key x = key v then v else x) (put key m v) where
  keyed := by
    have keys : (values.map fun x => if key x = key v then v else x).map key = values.map key := by
      rw [map_map]
      apply map_congr_left
      intro x _
      by_cases same : key x = key v <;> simp [same]
    rw [keys]
    exact listed.keyed
  mem w := by
    rw [mem_map, put]
    by_cases same : key w = key v
    · rw [same, update_self]
      constructor
      · rintro ⟨x,_,result⟩
        by_cases own : key x = key v
        · rw [if_pos own] at result
          rw [result]
        · rw [if_neg own] at result
          exact (own (result ▸ same)).elim
      · intro result
        cases result
        have own := listed.own _ _ held
        refine ⟨old,(listed.mem old).mpr (by rw [own, held]),if_pos own⟩
    · rw [update_of_ne same, ← listed.mem]
      constructor
      · rintro ⟨x,member,result⟩
        by_cases own : key x = key v
        · rw [if_pos own] at result
          exact (same (by rw [← result])).elim
        · rw [if_neg own] at result
          exact result ▸ member
      · intro member
        exact ⟨w,member,if_neg same⟩
  own _ _ := put_own listed.own

include listed in
theorem Listed.add (fresh : m (key v) = none) : Listed key (values ++ [v]) (put key m v) where
  keyed := by
    rw [map_append, nodup_append]
    refine ⟨listed.keyed,by simp,?_⟩
    rintro k inside k' single rfl
    obtain ⟨x,member,own⟩ := mem_map.mp inside
    rw [map_singleton, mem_singleton] at single
    have held := (listed.mem x).mp member
    rw [own, single, fresh] at held
    cases held
  mem w := by
    rw [mem_append, mem_singleton, listed.mem, put]
    by_cases same : key w = key v
    · rw [same, fresh, update_self]
      simp [eq_comm]
    · rw [update_of_ne same]
      constructor
      · rintro (held | rfl)
        · exact held
        · exact (same rfl).elim
      · exact .inl
  own _ _ := put_own listed.own

theorem part_putAll (route : K → Nat) (values : List V) (idx : Nat) :
    part route (putAll key m values) idx =
      putAll key (part route m idx) (values.filter fun v => route (key v) = idx) := by
  funext k
  rw [part, putAll_apply, putAll_apply, part]
  by_cases here : route k = idx
  · have same : lastValue key (values.filter fun v => route (key v) = idx) k = lastValue key values k := by
      rw [lastValue, filter_filter, lastValue]
      congr 1
      apply filter_congr
      intro v _
      by_cases own : key v = k <;> simp [own, here]
    rw [if_pos here, if_pos here, same]
  · rw [if_neg here, if_neg here]
    cases found : lastValue key (values.filter fun v => route (key v) = idx) k with
    | none => rfl
    | some v =>
      obtain ⟨member,own⟩ := lastValue_mem found
      have there := (mem_filter.mp member).2
      simp [own, here] at there

theorem part_dropAll (route : K → Nat) (keys : List K) (idx : Nat) :
    part route (dropAll m keys) idx = dropAll (part route m idx) (keys.filter fun k => route k = idx) := by
  funext k
  rw [part, dropAll_apply, dropAll_apply, part]
  by_cases here : route k = idx <;> simp [here]

end

end NovaRocks.Store
