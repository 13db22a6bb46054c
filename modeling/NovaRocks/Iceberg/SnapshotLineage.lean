import NovaRocks.Store.Checked
import NovaRocks.Iceberg.Metadata

/-!
The snapshots between an earlier one and the current one, and what the change planner has to
do for each.
-/
namespace NovaRocks.Iceberg
open List

inductive ChangeError where
  | internalInconsistency (message : String)
  | lineageBroken (previous : SnapshotId)
  | unsupportedOperation (id : SnapshotId) (op : String)
  | replaceValidationFailed (id : SnapshotId) (reason : String)

inductive LineageAction where
  | collectInserts (id : SnapshotId)
  | collectDeletes (id : SnapshotId)
  | collectCowUpdate (id : SnapshotId)
  | collectMorUpdate (id : SnapshotId)

structure LineagePlan where
  previousSnapshotId : SnapshotId
  currentSnapshotId : SnapshotId
  actions : List LineageAction

def updateMarkerMode (s : Snapshot) : Option String :=
  if s.summary.lookup "novarocks.row-level-op" = some "update" then
    s.summary.lookup "novarocks.update.mode"
  else none

def debugText : Option Nat → String
  | none => "None"
  | some id => s!"Some({id})"

section
variable (parse : String → Option Int) (schemaId : Snapshot → Option Nat)

def validateReplaceSnapshot (s parent : Snapshot) : Except ChangeError Unit :=
  let count (of : Snapshot) (key : String) := (of.summary.lookup key).bind parse
  let failed reason := Except.error (.replaceValidationFailed s.snapshotId reason)
  match count s "total-records", count parent "total-records" with
  | some a, some b =>
    if a ≠ b then failed s!"total-records changed across REPLACE: parent={b}, replace={a}"
    else
      let added := (count s "added-data-files").getD 0
      let removed := (count s "deleted-data-files").getD 0
      let zeroRowRewrite := a = 0 ∧ b = 0 ∧ added = 0 ∧ 0 < removed
      if ¬ zeroRowRewrite ∧ (added ≤ 0 ∨ removed ≤ 0) then
        failed <| "REPLACE snapshot must report both added-data-files (>0) and " ++
          s!"deleted-data-files (>0); got added={added}, deleted={removed}"
      else if schemaId s ≠ schemaId parent then
        failed <| "REPLACE snapshot schema-id " ++ debugText (schemaId s) ++ " differs from parent " ++
          debugText (schemaId parent) ++ "; schema evolution across compaction is not in scope"
      else .ok ()
  | _, _ => failed "REPLACE snapshot summary is missing `total-records`; cannot prove compaction"

def classifySnapshot (s : Snapshot) (parent : Option Snapshot) : Except ChangeError (Option LineageAction) :=
  match s.operation with
  | .append => .ok (some (.collectInserts s.snapshotId))
  | .delete =>
    if updateMarkerMode s = some "merge-on-read" then .ok (some (.collectMorUpdate s.snapshotId))
    else .ok (some (.collectDeletes s.snapshotId))
  | .replace =>
    match parent with
    | none => .error (.replaceValidationFailed s.snapshotId
        "REPLACE snapshot has no parent reachable for compaction validation")
    | some parent => do
      validateReplaceSnapshot parse schemaId s parent
      return none
  | .overwrite =>
    if updateMarkerMode s = some "copy-on-write" then .ok (some (.collectCowUpdate s.snapshotId))
    else .error (.unsupportedOperation s.snapshotId "overwrite")

/-- The loop after some turns; `none` while it goes on. -/
def walkLineage (m : TableMetadata) (previous : SnapshotId) :
    Nat → SnapshotId → List LineageAction → Option (Except ChangeError (List LineageAction))
  | 0, _, _ => none
  | turns + 1, cursor, reversed =>
    if cursor = previous then some (.ok reversed)
    else match m.snapshotById cursor with
      | none => some (.error (.lineageBroken previous))
      | some s =>
        match classifySnapshot parse schemaId s (s.parentSnapshotId.bind m.snapshotById) with
        | .error e => some (.error e)
        | .ok action =>
          match s.parentSnapshotId with
          | none => some (.error (.lineageBroken previous))
          | some id => walkLineage m previous turns id (reversed ++ action.toList)

def classifyLineage (m : TableMetadata) (previous : SnapshotId) (turns : Nat) :
    Option (Except ChangeError LineagePlan) :=
  match m.currentSnapshot with
  | none => some (.error (.internalInconsistency "classify_lineage: table has no current snapshot"))
  | some current =>
    let plan actions := LineagePlan.mk previous current.snapshotId actions
    if current.snapshotId = previous then some (.ok (plan []))
    else if (m.snapshotById previous).isNone then some (.error (.lineageBroken previous))
    else (walkLineage parse schemaId m previous turns current.snapshotId []).map fun walked =>
      walked.map fun reversed => plan reversed.reverse

/-- The snapshots from one down to the child of an earlier one, through registered parents. -/
def Leads (m : TableMetadata) (previous : SnapshotId) : SnapshotId → List Snapshot → Prop
  | id, [] => id = previous
  | id, s :: path => id ≠ previous ∧ m.snapshotById id = some s ∧
      ∃ p, s.parentSnapshotId = some p ∧ Leads m previous p path

def SupportedKind (m : TableMetadata) (s : Snapshot) : Prop :=
  match s.operation with
  | .append | .delete => True
  | .overwrite => updateMarkerMode s = some "copy-on-write"
  | .replace => ∃ parent, s.parentSnapshotId.bind m.snapshotById = some parent ∧
      validateReplaceSnapshot parse schemaId s parent = .ok ()

def matchingAction (s : Snapshot) : Option LineageAction :=
  match s.operation with
  | .append => some (.collectInserts s.snapshotId)
  | .delete => some (if updateMarkerMode s = some "merge-on-read" then .collectMorUpdate s.snapshotId
      else .collectDeletes s.snapshotId)
  | .overwrite => some (.collectCowUpdate s.snapshotId)
  | .replace => none

variable {parse schemaId} {m : TableMetadata}

theorem classifySnapshot_ok_iff (s : Snapshot) (action : Option LineageAction) :
    classifySnapshot parse schemaId s (s.parentSnapshotId.bind m.snapshotById) = .ok action ↔
      SupportedKind parse schemaId m s ∧ action = matchingAction s := by
  unfold classifySnapshot SupportedKind matchingAction
  cases s.operation with
  | append => simp [eq_comm]
  | delete => by_cases marked : updateMarkerMode s = some "merge-on-read" <;> simp [marked, eq_comm]
  | overwrite => by_cases marked : updateMarkerMode s = some "copy-on-write" <;> simp [marked, eq_comm]
  | replace =>
    cases s.parentSnapshotId.bind m.snapshotById with
    | none => simp
    | some parent =>
      cases validated : validateReplaceSnapshot parse schemaId s parent with
      | error e => simp [bind, Except.bind, validated]
      | ok u => simp [bind, Except.bind, validated, pure, Except.pure, eq_comm]

theorem walkLineage_ok_iff {previous : SnapshotId} (cursor : SnapshotId) (before : List LineageAction) :
    (∃ turns, walkLineage parse schemaId m previous turns cursor before = some (.ok reversed)) ↔
      ∃ path, Leads m previous cursor path ∧ (∀ s ∈ path, SupportedKind parse schemaId m s) ∧
        reversed = before ++ path.filterMap matchingAction := by
  constructor
  · rintro ⟨turns,done⟩
    induction turns generalizing cursor before with
    | zero => cases done
    | succ turns ih =>
      unfold walkLineage at done
      split at done
      case isTrue here =>
        cases done
        exact ⟨[],here,by simp,by simp⟩
      case isFalse elsewhere =>
        split at done
        · cases done
        · rename_i s found
          split at done
          · cases done
          · rename_i action classified
            split at done
            · cases done
            · rename_i p parent
              obtain ⟨supported,rfl⟩ := (classifySnapshot_ok_iff s action).mp classified
              obtain ⟨path,leads,all,rfl⟩ := ih p _ done
              refine ⟨s :: path,⟨elsewhere,found,p,parent,leads⟩,by simpa [supported] using all,?_⟩
              cases own : matchingAction s <;> simp [own]
  · rintro ⟨path,leads,all,rfl⟩
    induction path generalizing cursor before with
    | nil => exact ⟨1,by simp [walkLineage, show cursor = previous from leads]⟩
    | cons s path ih =>
      obtain ⟨elsewhere,found,p,parent,leads⟩ := leads
      obtain ⟨supported,all⟩ := forall_mem_cons.mp all
      obtain ⟨turns,done⟩ := ih p (before ++ (matchingAction s).toList) leads all
      have classified := (classifySnapshot_ok_iff s (matchingAction s)).mpr ⟨supported,rfl⟩
      rw [parent] at classified
      refine ⟨turns + 1,?_⟩
      simp only [walkLineage, elsewhere, ↓reduceIte, found, parent, classified, done]
      cases own : matchingAction s <;> simp [own]

theorem lineage_exact (m : TableMetadata) (previous : SnapshotId) (plan : LineagePlan) :
    (∃ turns, classifyLineage parse schemaId m previous turns = some (.ok plan)) ↔
      ∃ current path, m.currentSnapshot = some current ∧ (m.snapshotById previous).isSome ∧
        Leads m previous current.snapshotId path ∧ (∀ s ∈ path, SupportedKind parse schemaId m s) ∧
        plan = ⟨previous, current.snapshotId, path.reverse.filterMap matchingAction⟩ := by
  unfold classifyLineage
  cases now : m.currentSnapshot with
  | none => simp
  | some current =>
    by_cases same : current.snapshotId = previous
    · have registered : (m.snapshotById previous).isSome := by
        obtain ⟨id,_,found⟩ := Option.bind_eq_some_iff.mp now
        have own : current.snapshotId = id := by simpa using find?_some found
        rw [← same, own, found]
        rfl
      simp only [same, ↓reduceIte]
      constructor
      · rintro ⟨_,⟨⟩⟩
        exact ⟨current,[],rfl,registered,same,by simp,by simp [same]⟩
      · rintro ⟨_,path,⟨⟩,_,leads,_,rfl⟩
        cases path with
        | nil => exact ⟨0,by simp [same]⟩
        | cons s path => exact (leads.1 same).elim
    · by_cases registered : (m.snapshotById previous).isNone
      · have missing : ¬ (m.snapshotById previous).isSome := by simpa using registered
        simp [same, registered, missing]
      · simp only [same, registered, ↓reduceIte]
        constructor
        · rintro ⟨turns,done⟩
          obtain ⟨walked,walking,rest⟩ := Option.map_eq_some_iff.mp done
          cases walked with
          | error e => cases rest
          | ok reversed =>
            cases rest
            obtain ⟨path,leads,all,rfl⟩ := (walkLineage_ok_iff _ _).mp ⟨turns,walking⟩
            exact ⟨current,path,rfl,Option.isSome_iff_ne_none.mpr (by simpa using registered),leads,all,
              by simp⟩
        · rintro ⟨_,path,⟨⟩,_,leads,all,rfl⟩
          obtain ⟨turns,walked⟩ := (walkLineage_ok_iff _ []).mpr ⟨path,leads,all,rfl⟩
          exact ⟨turns,by simp [walked, Except.map]⟩

end

end NovaRocks.Iceberg
