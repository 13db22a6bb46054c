import NovaRocks.Cascades.TopN
import NovaRocks.Sorting.TopnSorters

/-!
Buffering and spilling under the sort operator. What is kept stands for what was
pushed: whatever comes later, an answer for the first is one for the second. So
every way to cut or to spill the buffer gives the same answers, as long as a top-n
operator never spills: it cannot read its first run back.
-/
namespace NovaRocks
open Relational List

namespace SortProcessor
variable (p : SortProcessor)

/-- `kept` may replace `rows` in any input that starts with them. -/
def Stands (kept rows : List Row) : Prop :=
  ∀ rest out, p.Answers (kept ++ rest) out → p.Answers (rows ++ rest) out

section
variable {p} {kept rows more out : List Row}

theorem rankSize_perm (same : l.Perm m) : p.rankSize l = p.rankSize m := by
  unfold rankSize
  split
  · exact p.keyCount_perm same
  · exact same.length_eq

theorem rankSize_mono (sub : few.Sublist many) : p.rankSize few ≤ p.rankSize many := by
  unfold rankSize
  split
  · exact p.keyCount_mono sub
  · exact sub.length_le

theorem Answers.of_perm (same : kept.Perm rows) (answers : p.Answers kept out) : p.Answers rows out := by
  unfold Answers at answers ⊢
  split
  · rw [if_pos ‹_›] at answers
    refine ⟨answers.1.trans ?_,answers.2⟩
    unfold ranked
    split
    · exact same
    · exact firstPlaces_perm rankSize_perm same
  · rw [if_neg ‹_›] at answers
    obtain ⟨sorted,sorts,made⟩ := answers
    exact ⟨sorted,⟨sorts.1.trans same,sorts.2⟩,made⟩

theorem Stands.of_perm (same : kept.Perm rows) : p.Stands kept rows :=
  fun rest _ answers => answers.of_perm (same.append_right rest)

theorem Stands.append (stands : p.Stands kept rows) : p.Stands (kept ++ more) (rows ++ more) := by
  intro rest out answers
  rw [append_assoc] at answers ⊢
  exact stands _ out answers

theorem Stands.trans (first : p.Stands few kept) (second : p.Stands kept rows) : p.Stands few rows :=
  fun rest out answers => second rest out (first rest out answers)

end

variable (isBase : p.topnCutoffBase = some base)

include isBase in
theorem cutoff_cases :
    ∃ limit, p.limit = some limit ∧
      ((p.isRankLikeTopn = false ∧ p.rowsToKeepForTopn = some base ∧ p.rankLikeLimitForTopn = none ∧
          p.topnType = .rowNumber ∧ base = p.offset + limit) ∨
        (p.isRankLikeTopn = true ∧ p.rowsToKeepForTopn = none ∧ p.rankLikeLimitForTopn = some base ∧
          p.topnType ≠ .rowNumber ∧ base = limit)) := by
  unfold topnCutoffBase at isBase
  unfold rowsToKeepForTopn rankLikeLimitForTopn at isBase
  unfold isRankLikeTopn rowsToKeepForTopn rankLikeLimitForTopn
  cases top : p.useTopN with
  | false => simp [top] at isBase
  | true =>
    cases isLimit : p.limit with
    | none => simp [isLimit] at isBase
    | some limit =>
      refine ⟨limit,rfl,?_⟩
      by_cases isRow : p.topnType = .rowNumber
      · simp [isRow, isLimit] at isBase
        exact .inl (by simp [isRow, isBase])
      · simp [isRow, isLimit] at isBase
        exact .inr (by simp [isRow, isBase])

/-- What a cut to the first rows, or to the first ranks, has to be. -/
def Cuts (base : Nat) (rows kept : List Row) : Prop :=
  if p.isRankLikeTopn then Sorts p.before (firstPlaces p.before p.rankSize base rows) kept
  else TopN p.before base 0 rows kept

variable (positive : base ≠ 0)

include isBase positive in
theorem sortChunksForTopnMode_spec (chunks : List (List Row)) :
    ∃ out, p.sortChunksForTopnMode chunks = asChunk out ∧ p.Cuts base chunks.flatten out := by
  obtain ⟨limit,_,⟨plain,keep,_,_,_⟩ | ⟨ranks,keep,rank,ranked',_⟩⟩ := p.cutoff_cases isBase
  · simp only [sortChunksForTopnMode, keep, Cuts, plain]
    split
    · exact p.sortChunksTopnHeap_spec positive chunks
    · exact p.sortChunksTopn_spec base chunks
  · simp only [sortChunksForTopnMode, keep, rank, Option.bind_some, Cuts, ranks]
    cases type : p.topnType with
    | rowNumber => exact absurd type ranked'
    | rank =>
      have size : p.rankSize = length := by simp [rankSize, type]
      rw [size, if_pos rfl]
      exact p.sortChunksRank_spec positive chunks
    | denseRank =>
      have size : p.rankSize = p.keyCount := by simp [rankSize, type]
      rw [size, if_neg (by decide)]
      exact p.sortChunksDenseRank_spec positive chunks

include positive in
theorem singles_topN (rows : List Row) :
    Forall₂ (TopN p.before base 0) (rows.map fun row => [row]) (rows.map fun row => [row]) := by
  rw [forall₂_same, forall_mem_map]
  intro row _
  refine ⟨[row],⟨Perm.refl _,pairwise_singleton _ _⟩,?_⟩
  rw [drop_zero, take_of_length_le (by rw [length_singleton]; omega)]

include isBase positive in
theorem Cuts.stands {rows kept : List Row} (cuts : p.Cuts base rows kept) : p.Stands kept rows := by
  intro rest out answers
  obtain ⟨limit,isLimit,⟨plain,_,_,_,same⟩ | ⟨ranks,_,_,_,same⟩⟩ := p.cutoff_cases isBase
  · simp only [Cuts, Answers, plain, isLimit] at cuts answers ⊢
    have flat : (rest.map fun row => [row]).flatten = rest := flatMap_singleton' rest
    have parts : Forall₂ (TopN p.before (p.offset + limit) 0) (rows :: rest.map fun row => [row])
        (kept :: rest.map fun row => [row]) := by
      rw [← same]
      exact .cons cuts (p.singles_topN positive rest)
    have whole : _ → TopN p.before _ _ _ out := TopN.of_parts p.before_total p.before_trans parts
    rw [flatten_cons, flat, flatten_cons, flat] at whole
    exact whole answers
  · simp only [Cuts, ranks] at cuts
    have merged := answers.of_perm (cuts.1.append_right rest)
    simp only [Answers, ranks, ranked, isLimit] at merged ⊢
    rwa [same, firstPlaces_append p.before_trans rankSize_mono p.before_total] at merged

theorem answers_of_zero (isBase : p.topnCutoffBase = some 0) {rows out : List Row} :
    p.Answers rows out ↔ out = [] := by
  obtain ⟨limit,isLimit,⟨plain,_,_,_,same⟩ | ⟨ranks,_,_,_,same⟩⟩ := p.cutoff_cases isBase
  · obtain rfl : limit = 0 := by omega
    simp only [Answers, plain, isLimit]
    constructor
    · rintro ⟨_,_,empty⟩
      exact empty
    · intro empty
      obtain ⟨sorted,sorts⟩ := Sorts.exists_of_total p.before_total p.before_trans rows
      exact ⟨sorted,sorts,empty⟩
  · have nobody : p.ranked rows = [] := by
      simp [ranked, isLimit, ← same, firstPlaces]
    simp only [Answers, ranks, nobody]
    constructor
    · exact fun sorts => sorts.1.eq_nil
    · rintro rfl
      exact ⟨Perm.refl _,.nil⟩

/-! One chunk. -/

theorem truncateBufferedPrefix_flatten (remain : Nat) (chunks : List (List Row)) :
    (truncateBufferedPrefix remain chunks).flatten = chunks.flatten.take remain := by
  induction chunks generalizing remain with
  | nil => cases remain <;> rfl
  | cons chunk chunks ih =>
    cases remain with
    | zero => rfl
    | succ remain =>
      unfold truncateBufferedPrefix
      split
      · rename_i fits
        have whole : chunk.take (remain + 1) = chunk := take_of_length_le fits
        rw [flatten_cons, ih, flatten_cons, take_append, whole]
      · have inside : remain + 1 ≤ chunk.length := by omega
        rw [flatten_singleton, flatten_cons, take_append_of_le_length inside]

theorem truncateBufferedPrefix_filled (remain : Nat) (filled : ∀ chunk ∈ chunks, chunk ≠ []) :
    ∀ chunk ∈ truncateBufferedPrefix remain chunks, chunk ≠ [] := by
  induction chunks generalizing remain with
  | nil => cases remain <;> simp [truncateBufferedPrefix]
  | cons chunk chunks ih =>
    cases remain with
    | zero => simp [truncateBufferedPrefix]
    | succ remain =>
      rw [forall_mem_cons] at filled
      unfold truncateBufferedPrefix
      split
      · exact forall_mem_cons.mpr ⟨filled.1,ih _ filled.2⟩
      · simp [filled.1]

theorem maybePruneTopnBuffered_cases (buffered : List (List Row)) :
    (p.maybePruneTopnBuffered buffered = buffered ∧ p.topnCutoffBase ≠ some 0) ∨
      (p.maybePruneTopnBuffered buffered = [] ∧ p.topnCutoffBase = some 0) ∨
      ∃ base, p.topnCutoffBase = some base ∧ base ≠ 0 ∧
        (p.maybePruneTopnBuffered buffered = (p.sortChunksForTopnMode buffered).toList ∨
          (p.orderBy.isEmpty ∧ p.topnType = .rowNumber ∧
            p.maybePruneTopnBuffered buffered = truncateBufferedPrefix base buffered)) := by
  cases isBase : p.topnCutoffBase with
  | none => exact .inl ⟨by simp only [maybePruneTopnBuffered, isBase],nofun⟩
  | some base =>
    by_cases zero : base = 0
    · exact .inr (.inl ⟨by simp only [maybePruneTopnBuffered, isBase, if_pos zero],by rw [zero]⟩)
    · have never : some base ≠ some 0 := fun wrong => zero (Option.some.inj wrong)
      simp only [maybePruneTopnBuffered, isBase, if_neg zero]
      split
      · exact .inl ⟨rfl,never⟩
      · split
        · exact .inl ⟨rfl,never⟩
        · split
          · split
            · exact .inr (.inr ⟨base,rfl,zero,.inr ⟨‹_›,‹_›,rfl⟩⟩)
            · exact .inl ⟨rfl,never⟩
          · exact .inr (.inr ⟨base,rfl,zero,.inl rfl⟩)

theorem maybePruneTopnBuffered_spec (filled : ∀ chunk ∈ buffered, chunk ≠ []) :
    p.Stands (p.maybePruneTopnBuffered buffered).flatten buffered.flatten ∧
      (∀ chunk ∈ p.maybePruneTopnBuffered buffered, chunk ≠ []) ∧
      (p.topnCutoffBase = some 0 → p.maybePruneTopnBuffered buffered = []) := by
  obtain ⟨same,never⟩ | ⟨nothing,isBase⟩ | ⟨base,isBase,positive,sorted | ⟨none,isRow,cut⟩⟩ :=
    p.maybePruneTopnBuffered_cases buffered
  · rw [same]
    exact ⟨Stands.of_perm (Perm.refl _),filled,fun wrong => absurd wrong never⟩
  · rw [nothing]
    refine ⟨?_,nofun,fun _ => rfl⟩
    intro rest out answers
    exact (p.answers_of_zero isBase).mpr ((p.answers_of_zero isBase).mp answers)
  · obtain ⟨kept,made,cuts⟩ := p.sortChunksForTopnMode_spec isBase positive buffered
    rw [sorted, made, toList_asChunk_flatten, isBase]
    refine ⟨Cuts.stands p isBase positive cuts,?_,fun wrong => absurd (Option.some.inj wrong) positive⟩
    intro chunk inside
    exact ne_nil_of_asChunk (Option.mem_toList.mp inside)
  · have plain : p.isRankLikeTopn = false := by simp [isRankLikeTopn, isRow]
    have cuts : p.Cuts base buffered.flatten (buffered.flatten.take base) := by
      simp only [Cuts, plain]
      exact p.take_topN_of_no_keys none base _
    rw [cut, truncateBufferedPrefix_flatten, isBase]
    exact ⟨Cuts.stands p isBase positive cuts,truncateBufferedPrefix_filled base filled,
      fun wrong => absurd (Option.some.inj wrong) positive⟩

structure Sound (seen : List Row) (state : SortState) : Prop where
  stands : p.Stands (state.runs.flatten ++ state.buffered.flatten) seen
  filled : ∀ chunk ∈ state.buffered, chunk ≠ []
  zero : p.topnCutoffBase = some 0 → state.buffered = []
  unspilled : p.topnCutoffBase ≠ none ∨ p.spillState = none → state.runs = []
  blank : seen = [] → state = ⟨[], []⟩

variable {p} {state next : SortState}

theorem Sound.receive (sound : p.Sound seen state) (chunk : List Row) :
    p.Sound (seen ++ chunk) (p.receive state chunk) := by
  have shape : (if chunk.isEmpty then state.buffered else state.buffered ++ [chunk]).flatten =
      state.buffered.flatten ++ chunk := by
    cases chunk <;> simp
  have filled : ∀ x ∈ if chunk.isEmpty then state.buffered else state.buffered ++ [chunk], x ≠ [] := by
    cases chunk with
    | nil => exact sound.filled
    | cons row rows => exact forall_mem_append.mpr ⟨sound.filled,by simp⟩
  have kept : p.Stands (state.runs.flatten ++ (state.buffered.flatten ++ chunk)) (seen ++ chunk) := by
    rw [← append_assoc]
    exact sound.stands.append
  obtain ⟨cut,filled',zero⟩ := p.maybePruneTopnBuffered_spec filled
  rw [shape] at cut
  have blank : seen ++ chunk = [] → p.receive state chunk = ⟨[],[]⟩ := by
    intro nothing
    obtain ⟨before,rfl⟩ := append_eq_nil_iff.mp nothing
    rw [sound.blank before]
    have unchanged : p.maybePruneTopnBuffered [] = [] := by
      unfold maybePruneTopnBuffered
      split
      · rfl
      · simp
    simp [SortProcessor.receive, unchanged]
  refine ⟨?_,filled',zero,sound.unspilled,blank⟩
  by_cases plain : p.topnCutoffBase = none
  · have same : (p.receive state chunk).buffered.flatten = state.buffered.flatten ++ chunk := by
      simp only [SortProcessor.receive, maybePruneTopnBuffered, plain]
      exact shape
    rw [same]
    exact kept
  · have none' := sound.unspilled (.inl plain)
    rw [none', flatten_nil, nil_append] at kept
    have empty : (p.receive state chunk).runs.flatten = [] := by
      rw [SortProcessor.receive, none', flatten_nil]
    rw [empty, nil_append]
    exact cut.trans kept

theorem spillBufferedRun_ok (spilled : p.spillBufferedRun config state = .ok next) :
    (state.buffered = [] ∧ next = state) ∨ (state.buffered ≠ [] ∧
      ∃ run, p.buildSortedRun state.buffered = .ok run ∧ p.blockBytes run ≤ config.blockSizeBytes ∧
        next = ⟨[], state.runs ++ [run]⟩) := by
  unfold spillBufferedRun at spilled
  by_cases empty : state.buffered.isEmpty
  · rw [if_pos empty] at spilled
    cases spilled
    exact .inl ⟨isEmpty_iff.mp empty,rfl⟩
  · rw [if_neg empty] at spilled
    obtain ⟨run,built,rest⟩ := bind_ok spilled
    by_cases large : config.blockSizeBytes < p.blockBytes run
    · rw [if_pos large] at rest
      cases rest
    · rw [if_neg large] at rest
      cases rest
      exact .inr ⟨fun nil => empty (isEmpty_iff.mpr nil),run,built,Nat.le_of_not_lt large,rfl⟩

/-- Whether the buffer may go to disk: as a full sort, into a block that holds it. -/
def MaySpill (p : SortProcessor) (config : SpillConfig) (buffered : List (List Row)) : Prop :=
  p.topnCutoffBase = none ∧ p.blockBytes (p.sortAll buffered) ≤ config.blockSizeBytes

theorem buildSortedRun_plain (plain : p.topnCutoffBase = none)
    (some' : chunks ≠ []) (filled : ∀ chunk ∈ chunks, chunk ≠ []) :
    p.buildSortedRun chunks = .ok (p.sortAll chunks) := by
  have rows : p.sortAll chunks ≠ [] := by
    intro empty
    have none' : chunks.flatten = [] := (empty ▸ (p.sortAll_sorts chunks).1).nil_eq.symm
    obtain ⟨chunk,inside⟩ := exists_mem_of_ne_nil chunks some'
    exact filled chunk inside (flatten_eq_nil_iff.mp none' chunk inside)
  simp only [buildSortedRun, plain, asChunk_of_ne_nil rows]

theorem Sound.spill (sound : p.Sound seen state) (on : p.spillState = some config)
    (may : state.buffered ≠ [] → p.MaySpill config state.buffered) :
    ∃ next, p.spillBufferedRun config state = .ok next ∧ p.Sound seen next ∧ next.buffered = [] := by
  by_cases empty : state.buffered = []
  · refine ⟨state,?_,sound,empty⟩
    simp [spillBufferedRun, empty]
  · obtain ⟨plain,fits⟩ := may empty
    refine ⟨⟨[],state.runs ++ [p.sortAll state.buffered]⟩,?_,⟨?_,nofun,fun _ => rfl,?_,?_⟩,rfl⟩
    · have kept : ¬ state.buffered.isEmpty := fun nil => empty (isEmpty_iff.mp nil)
      rw [spillBufferedRun, if_neg kept, buildSortedRun_plain plain empty sound.filled]
      change (if _ then _ else _) = _
      rw [if_neg (Nat.not_lt.mpr fits)]
      rfl
    · refine Stands.trans (Stands.of_perm ?_) sound.stands
      rw [flatten_append, flatten_singleton, flatten_nil, append_nil]
      exact (p.sortAll_sorts state.buffered).1.append_left _
    · simp [plain, on]
    · intro nothing
      rw [sound.blank nothing] at empty
      exact absurd rfl empty

/-! The end of the input. -/

theorem sliceTopn_answers {limit : Nat} (isLimit : p.limit = some limit) (plain : p.isRankLikeTopn = false)
    {rows top : List Row} (isTop : TopN p.before (p.offset + limit) 0 rows top) :
    p.Answers rows ((p.sliceTopn top).getD []) := by
  obtain ⟨sorted,sorts,rfl⟩ := isTop
  simp only [Answers, plain]
  refine ⟨sorted,sorts,?_⟩
  rw [sliceTopn, asChunk_getD, isLimit, limitRows, Option.getD_some, drop_zero, drop_take, take_take]
  congr 1
  omega

theorem buildFinalOutputFromChunks_answers (limited : p.isRankLikeTopn → p.limit = none → chunks = []) :
    ∃ out, p.buildFinalOutputFromChunks chunks = .ok out ∧ p.Answers chunks.flatten (out.getD []) := by
  unfold buildFinalOutputFromChunks
  by_cases empty : chunks.isEmpty
  · rw [if_pos empty, isEmpty_iff.mp empty]
    refine ⟨none,rfl,?_⟩
    unfold Answers
    split
    · have nobody : p.ranked [] = [] := by
        unfold ranked
        split <;> rfl
      rw [flatten_nil, nobody]
      exact ⟨Perm.refl _,.nil⟩
    · refine ⟨[],⟨Perm.refl _,.nil⟩,?_⟩
      cases p.limit <;> simp [limitRows]
  · rw [if_neg empty]
    cases isBase : p.topnCutoffBase with
    | none =>
      obtain ⟨keep,rank⟩ := Option.or_eq_none_iff.mp isBase
      have plain : p.isRankLikeTopn = false := by
        by_contra ranks
        rw [Bool.not_eq_false] at ranks
        refine empty (isEmpty_iff.mpr (limited ranks ?_))
        simp only [isRankLikeTopn, Bool.and_eq_true, decide_eq_true_eq] at ranks
        simpa [rankLikeLimitForTopn, ranks] using rank
      simp only [keep, rank, plain, Answers]
      refine ⟨_,rfl,p.sortAll chunks,p.sortAll_sorts chunks,?_⟩
      split
      · cases p.limit <;> simp [limitRows, drop_eq_nil_of_le ‹_›]
      · rfl
    | some base =>
      obtain ⟨limit,isLimit,⟨plain,keep,rank,_,same⟩ | ⟨ranks,keep,rank,type,same⟩⟩ :=
        p.cutoff_cases isBase
      · simp only [rank, plain, keep]
        refine ⟨_,rfl,?_⟩
        by_cases zero : base = 0
        · subst zero
          rw [p.answers_of_zero isBase]
          simp [sortChunksForTopnMode, keep, sortChunksTopnHeap]
        · obtain ⟨top,made,cuts⟩ := p.sortChunksForTopnMode_spec isBase zero chunks
          simp only [Cuts, plain, same] at cuts
          rw [made]
          cases top with
          | nil => simpa [sliceTopn, asChunk] using sliceTopn_answers isLimit plain cuts
          | cons row rows => exact sliceTopn_answers isLimit plain cuts
      · simp only [rank]
        refine ⟨_,rfl,?_⟩
        by_cases zero : base = 0
        · subst zero
          rw [p.answers_of_zero isBase]
          simp only [sortChunksForTopnMode, keep, rank]
          split <;> simp [sortChunksRank, sortChunksDenseRank]
        · obtain ⟨top,made,cuts⟩ := p.sortChunksForTopnMode_spec isBase zero chunks
          simp only [Cuts, same] at cuts
          rw [made, asChunk_getD]
          simpa only [Answers, ranks, if_true, ranked, isLimit] using cuts

def SpillsWell (p : SortProcessor) : SortState → List (List Row) → Prop
  | state, [] => ∀ config, p.spillState = some config → usesSpill config state → state.buffered ≠ [] →
      p.MaySpill config state.buffered
  | state, chunk :: chunks =>
    (∀ config, p.spillState = some config →
      p.shouldSpillBuffered config (p.receive state chunk).buffered →
      p.MaySpill config (p.receive state chunk).buffered) ∧
    ∀ next, p.pushChunk state chunk = .ok next → p.SpillsWell next chunks

theorem Sound.finish (sound : p.Sound seen state) (limited : p.isRankLikeTopn → p.limit = none → seen = [])
    (well : p.SpillsWell state []) :
    ∃ out, p.buildFinalOutputWithSpill state = .ok out ∧ p.Answers seen (out.getD []) := by
  have fromChunks : ∀ {last}, p.Sound seen last → ∀ {chunks : List (List Row)},
      chunks.flatten = last.runs.flatten ++ last.buffered.flatten → (seen = [] → chunks = []) →
      ∃ out, p.buildFinalOutputFromChunks chunks = .ok out ∧ p.Answers seen (out.getD []) := by
    intro last soundLast chunks same blank
    obtain ⟨out,made,answers⟩ :=
      buildFinalOutputFromChunks_answers fun ranks none' => blank (limited ranks none')
    have whole := soundLast.stands [] (out.getD [])
    rw [append_nil, append_nil, ← same] at whole
    exact ⟨out,made,whole answers⟩
  have blank : seen = [] → state.buffered = [] := fun nothing => by rw [sound.blank nothing]
  unfold buildFinalOutputWithSpill
  cases on : p.spillState with
  | none => exact fromChunks sound (by rw [sound.unspilled (.inr on)]; rfl) blank
  | some config =>
    dsimp only
    by_cases uses : usesSpill config state
    · obtain ⟨next,spilled,soundNext,empty⟩ := sound.spill on (well config on uses)
      rw [uses, spilled]
      change ∃ out, (if p.topnCutoffBase.isSome then p.buildFinalTopnOutputWithSpill next.runs
        else p.buildFinalOutputFromChunks next.runs) = .ok out ∧ _
      by_cases top : p.topnCutoffBase.isSome
      · have none' := soundNext.unspilled (.inl (Option.isSome_iff_ne_none.mp top))
        have nothing : p.buildFinalTopnOutputWithSpill next.runs = .ok none := by
          rw [none']
          unfold buildFinalTopnOutputWithSpill
          split
          · rfl
          · change (Except.ok (if p.topnType ≠ .rowNumber then none else none) : Except String _) = _
            rw [ite_self]
        rw [if_pos top, nothing]
        obtain ⟨out,made,answers⟩ := @fromChunks next soundNext [] (by rw [none', empty]; rfl) fun _ => rfl
        cases made
        exact ⟨none,rfl,answers⟩
      · rw [if_neg top]
        exact fromChunks soundNext (by rw [empty, flatten_nil, append_nil])
          fun nothing => by rw [soundNext.blank nothing]
    · have none' : state.runs = [] := by
        simp only [usesSpill, Bool.or_eq_true, not_or] at uses
        exact isEmpty_iff.mp (by simpa using uses.1)
      rw [if_pos (by simpa using uses)]
      exact fromChunks sound (by rw [none']; rfl) blank

theorem Sound.push (sound : p.Sound seen state) (may : ∀ config, p.spillState = some config →
      p.shouldSpillBuffered config (p.receive state chunk).buffered →
      p.MaySpill config (p.receive state chunk).buffered) :
    ∃ next, p.pushChunk state chunk = .ok next ∧ p.Sound (seen ++ chunk) next := by
  have received := sound.receive chunk
  unfold pushChunk maybeSpillBuffered
  cases on : p.spillState with
  | none => exact ⟨_,rfl,received⟩
  | some config =>
    dsimp only
    split
    · obtain ⟨next,spilled,soundNext,_⟩ := received.spill on fun _ => may config on ‹_›
      exact ⟨next,spilled,soundNext⟩
    · exact ⟨_,rfl,received⟩

/-- From any sound state: the operator succeeds with an answer. -/
theorem Sound.sortFrom (chunks : List (List Row))
    (limited : p.isRankLikeTopn → p.limit = none → seen ++ chunks.flatten = [])
    (sound : p.Sound seen state) (well : p.SpillsWell state chunks) :
    ∃ out, p.sortFrom state chunks = .ok out ∧ p.Answers (seen ++ chunks.flatten) (out.getD []) := by
  induction chunks generalizing seen state with
  | nil =>
    rw [flatten_nil, append_nil] at limited ⊢
    exact sound.finish limited well
  | cons chunk chunks ih =>
    obtain ⟨next,pushed,soundNext⟩ := sound.push well.1
    rw [flatten_cons, ← append_assoc] at limited ⊢
    obtain ⟨out,made,answers⟩ := ih limited soundNext (well.2 next pushed)
    refine ⟨out,?_,answers⟩
    rw [SortProcessor.sortFrom, foldlM_cons, pushed]
    exact made

/-! Where it goes wrong. -/

include isBase positive in
theorem finish_fails (on : p.spillState = some config) (uses : usesSpill config state)
    (some' : state.runs ≠ [] ∨ state.buffered ≠ []) (out : Option (List Row)) :
    p.buildFinalOutputWithSpill state ≠ .ok out := by
  intro made
  simp only [buildFinalOutputWithSpill, on, uses] at made
  obtain ⟨next,spilled,merged⟩ := bind_ok made
  have runs : next.runs ≠ [] := by
    rcases spillBufferedRun_ok spilled with ⟨empty,rfl⟩ | ⟨_,run,_,_,rfl⟩
    · exact some'.resolve_right fun filled => filled empty
    · simp
  obtain ⟨run,rest,shape⟩ := exists_cons_of_ne_nil runs
  simp only [buildFinalTopnOutputWithSpill, isBase, Option.getD_some, if_neg positive, shape] at merged
  cases merged

include isBase positive in
theorem sortFrom_fails (on : p.spillState = some config) (chunks : List (List Row))
    (runs : state.runs ≠ []) (out : Option (List Row)) : p.sortFrom state chunks ≠ .ok out := by
  induction chunks generalizing state with
  | nil =>
    have uses : usesSpill config state := by simp [usesSpill, runs]
    exact finish_fails isBase positive on uses (.inl runs) out
  | cons chunk chunks ih =>
    intro made
    rw [SortProcessor.sortFrom, foldlM_cons, bind_assoc] at made
    obtain ⟨next,pushed,rest⟩ := bind_ok made
    refine ih ?_ rest
    have kept : (p.receive state chunk).runs ≠ [] := runs
    simp only [pushChunk, maybeSpillBuffered, on] at pushed
    split at pushed
    · rcases spillBufferedRun_ok pushed with ⟨_,rfl⟩ | ⟨_,run,_,_,rfl⟩
      · exact kept
      · simp
    · cases pushed
      exact kept

/-- A run that succeeds has spilled nothing but what may be spilled. -/
theorem Sound.spillsWell (chunks : List (List Row))
    (sound : p.Sound seen state) (made : p.sortFrom state chunks = .ok out) : p.SpillsWell state chunks := by
  -- a spill that went through, of a buffer that is not empty
  have may : ∀ {seen state next config}, p.Sound seen state → state.buffered ≠ [] →
      p.topnCutoffBase = none → p.spillBufferedRun config state = .ok next →
      p.MaySpill config state.buffered := by
    intro seen state next config sound filled plain spilled
    rcases spillBufferedRun_ok spilled with ⟨empty,_⟩ | ⟨_,run,built,fits,_⟩
    · exact absurd empty filled
    · rw [buildSortedRun_plain plain filled sound.filled] at built
      cases built
      exact ⟨plain,fits⟩
  induction chunks generalizing seen state with
  | nil =>
    intro config on uses filled
    cases isBase : p.topnCutoffBase with
    | some base =>
      have positive : base ≠ 0 := fun zero => filled (sound.zero (by rw [isBase, zero]))
      exact absurd made (finish_fails isBase positive on uses (.inr filled) out)
    | none =>
      change p.buildFinalOutputWithSpill state = .ok out at made
      simp only [buildFinalOutputWithSpill, on, uses] at made
      obtain ⟨next,spilled,_⟩ := bind_ok made
      exact may sound filled isBase spilled
  | cons chunk chunks ih =>
    rw [SortProcessor.sortFrom, foldlM_cons, bind_assoc] at made
    obtain ⟨next,pushed,rest⟩ := bind_ok made
    have received := sound.receive chunk
    have first : ∀ config, p.spillState = some config →
        p.shouldSpillBuffered config (p.receive state chunk).buffered →
        p.MaySpill config (p.receive state chunk).buffered := by
      intro config on should
      have filled : (p.receive state chunk).buffered ≠ [] := by
        intro empty
        simp [shouldSpillBuffered, empty] at should
      simp only [pushChunk, maybeSpillBuffered, on, should] at pushed
      cases isBase : p.topnCutoffBase with
      | some base =>
        have positive : base ≠ 0 := fun zero => filled (received.zero (by rw [isBase, zero]))
        rcases spillBufferedRun_ok pushed with ⟨empty,_⟩ | ⟨_,run,_,_,rfl⟩
        · exact absurd empty filled
        · exact absurd rest (sortFrom_fails isBase positive on chunks (by simp) out)
      | none => exact may received filled isBase pushed
    obtain ⟨_,again,soundNext⟩ := sound.push first
    cases pushed.symm.trans again
    refine ⟨first,fun other pushed' => ?_⟩
    cases pushed.symm.trans pushed'
    exact ih soundNext rest

/-! A rank without a limit counts as limit 0. -/

section
variable (ranks : p.isRankLikeTopn) (unlimited : p.limit = none)
include ranks unlimited

omit ranks in
theorem cutoff_none : p.topnCutoffBase = none := by
  simp [topnCutoffBase, rowsToKeepForTopn, rankLikeLimitForTopn, unlimited]

theorem unlimited_output (made : p.buildFinalOutputFromChunks chunks = .ok out) : out = none := by
  have rank : p.rankLikeLimitForTopn = none := by simp [rankLikeLimitForTopn, unlimited]
  unfold buildFinalOutputFromChunks at made
  split at made
  · cases made
    rfl
  · simp only [rank] at made
    unfold buildRankLikeTopnOutputFromChunks at made
    split at made
    · cases made
    · cases made
      rfl

theorem unlimited_finish (made : p.buildFinalOutputWithSpill state = .ok out) : out = none := by
  unfold buildFinalOutputWithSpill at made
  split at made
  · exact unlimited_output ranks unlimited made
  · split at made
    · exact unlimited_output ranks unlimited made
    · obtain ⟨next,_,rest⟩ := bind_ok made
      rw [cutoff_none unlimited] at rest
      exact unlimited_output ranks unlimited rest

end

theorem start_sound (p : SortProcessor) : p.Sound [] ⟨[], []⟩ :=
  ⟨Stands.of_perm (Perm.refl _),nofun,fun _ => rfl,fun _ => rfl,fun _ => rfl⟩

def spilledScores : SortProcessor where
  interp := orderedInterp
  ordered := orderedInterp_ordered
  env := fun row => ⟨row.look, fun _ => .null⟩
  orderBy := bestScores.items
  useTopN := true
  limit := some 2
  offset := 0
  topnType := .rowNumber
  maxBufferedRows := none
  maxBufferedBytes := none
  spill := some ⟨true, .force, none, none, none, none, 1024⟩
  estimatedBytes := fun rows => 8 * rows.length
  encodedBytes := fun rows => 8 * rows.length
  lexsort := sortRows orderedInterp (fun row => ⟨row.look, fun _ => .null⟩) bestScores.items
  lexsort_sorts := sortRows_sorts orderedInterp_ordered _ bestScores.items

theorem spilled_topn_fails : spilledScores.sortChunks [[⟨[.int 7], fun _ => .int 7⟩]] =
    .error "sort spill merge expected candidate chunk before restore" :=
  rfl

/-- The operator answers whatever the buffering, exactly if it spills well and a
rank has a limit. -/
theorem sort_answers_iff (p : SortProcessor) (chunks : List (List Row)) :
    (∃ out, p.sortChunks chunks = .ok out ∧ p.Answers chunks.flatten (out.getD [])) ↔
      p.SpillsWell ⟨[], []⟩ chunks ∧ (p.isRankLikeTopn → p.limit = none → chunks.flatten = []) := by
  constructor
  · rintro ⟨out,made,answers⟩
    refine ⟨p.start_sound.spillsWell chunks made,fun ranks unlimited => ?_⟩
    obtain ⟨state,_,finished⟩ := bind_ok made
    have nothing := unlimited_finish ranks unlimited finished
    rw [nothing] at answers
    simp only [Answers, ranks, ranked, unlimited] at answers
    exact answers.1.symm.eq_nil
  · rintro ⟨well,limited⟩
    exact p.start_sound.sortFrom chunks limited well

end SortProcessor

end NovaRocks
