import NovaRocks.Iceberg.RowDeltaDv
import NovaRocks.Iceberg.Reading

/-!
Running a commit action. The action works out its snapshot and hands it to the
catalog's update call; a failed attempt is made again while the error asks for it.
What the action reports on failure is a text. From that text alone it is decided
whether the update may still have been applied, and then the staged files stay, or
not, and then they are deleted.
-/
namespace NovaRocks.Iceberg
open List

inductive ErrorKind where
  | preconditionFailed
  | unexpected
  | dataInvalid
  | namespaceAlreadyExists
  | tableAlreadyExists
  | namespaceNotFound
  | tableNotFound
  | featureUnsupported
  | catalogCommitConflicts
  deriving DecidableEq

def ErrorKind.intoStatic : ErrorKind → String
  | .unexpected => "Unexpected"
  | .dataInvalid => "DataInvalid"
  | .featureUnsupported => "FeatureUnsupported"
  | .tableAlreadyExists => "TableAlreadyExists"
  | .tableNotFound => "TableNotFound"
  | .namespaceAlreadyExists => "NamespaceAlreadyExists"
  | .namespaceNotFound => "NamespaceNotFound"
  | .preconditionFailed => "PreconditionFailed"
  | .catalogCommitConflicts => "CatalogCommitConflicts"

structure IcebergError where
  kind : ErrorKind
  message : String
  context : List (String × String)
  source : Option String
  retryable : Bool

def IcebergError.display (e : IcebergError) : String :=
  let context := if e.context.isEmpty then "" else
    ", context: \x7b " ++ ", ".intercalate (e.context.map fun (k, v) => k ++ ": " ++ v) ++ " \x7d"
  let message := if e.message = "" then "" else " => " ++ e.message
  let source := match e.source with
    | some source => ", source: " ++ source
    | none => ""
  e.kind.intoStatic ++ context ++ message ++ source

/-- One attempt of a transaction: the table is loaded, the action run on it and the
catalog asked to update the table. -/
inductive Attempt where
  | loadFailed (e : IcebergError)
  | actionFailed (e : IcebergError)
  | updateFailed (e : IcebergError)
  | updated (currentSnapshot : Option SnapshotId)

namespace Attempt

def result : Attempt → Except IcebergError (Option SnapshotId)
  | loadFailed e | actionFailed e | updateFailed e => .error e
  | updated snapshot => .ok snapshot

def retryable (a : Attempt) : Bool :=
  match a.result with
  | .error e => e.retryable
  | .ok _ => false

def MayHaveLanded : Attempt → Prop
  | loadFailed _ | actionFailed _ => False
  | updateFailed e => e.kind = .unexpected
  | updated _ => True

end Attempt

structure TransactionEnd where
  performed : List Attempt
  result : Except IcebergError (Option SnapshotId)

/-- At most `retries` further attempts, each only after a retryable error. -/
def transactionCommit (answers : Nat → Attempt) : (retries attempt : Nat) → TransactionEnd
  | 0, attempt => ⟨[answers attempt], (answers attempt).result⟩
  | retries + 1, attempt =>
    if (answers attempt).retryable then
      let rest := transactionCommit answers retries (attempt + 1)
      ⟨answers attempt :: rest.performed, rest.result⟩
    else ⟨[answers attempt], (answers attempt).result⟩

inductive CommitOpKind where
  | fastAppend
  | overwrite
  | rowDelta
  | rowDeltaDv
  | rewriteDataFiles
  | cowUpdate
  | truncate
  | overwritePartitions
  | rewriteManifests

inductive IcebergWriteMode where
  | legacyPositionDeletes
  | rowLineageV3

structure MutationSidecarFile where
  oldFile : String
  newFiles : List String
  rowIds : List Int
  deriving DecidableEq

structure MutationSidecar where
  operation : String
  mode : String
  baseSnapshotId : SnapshotId
  updatedRowIds : List Int
  touchedDataFiles : List MutationSidecarFile
  deriving DecidableEq

inductive CommitAction where
  | fastAppend (mode : IcebergWriteMode)
  | overwrite
  | rowDelta
  | rowDeltaDv
  | rewriteDataFiles
  | cowUpdate (sidecar : MutationSidecar)
  | truncate
  | overwritePartitions

namespace CommitAction

def label : CommitAction → String
  | fastAppend .legacyPositionDeletes => "fast_append"
  | fastAppend .rowLineageV3 => "fast_append v3"
  | overwrite => "Overwrite"
  | rowDelta => "RowDelta"
  | rowDeltaDv => "RowDeltaDv"
  | rewriteDataFiles => "RewriteDataFiles"
  | cowUpdate _ => "CowUpdate"
  | truncate => "Truncate"
  | overwritePartitions => "OverwritePartitions"

/-- Some actions refuse a committed table without a current snapshot, the others
answer with the id 0. -/
def notVisible : CommitAction → Option String
  | fastAppend .legacyPositionDeletes => some "fast_append committed but new snapshot not visible"
  | fastAppend .rowLineageV3 => some "fast_append v3 committed but new snapshot not visible"
  | rowDelta => some "RowDelta committed but new snapshot is not visible"
  | rowDeltaDv => some "RowDeltaDv committed but new snapshot is not visible"
  | cowUpdate _ => some "CowUpdate committed but new snapshot is not visible"
  | overwrite | rewriteDataFiles | truncate | overwritePartitions => none

end CommitAction

/-- What happens inside an action: it ends before the transaction, with nothing to do
or with a text of its own, or its transaction is applied and committed. The table's
properties say how often an attempt may be repeated. -/
inductive ActionRun where
  | finished (result : Except String SnapshotId)
  | transaction (apply : Except IcebergError Unit) (retries : Except IcebergError Nat)
      (answers : Nat → Attempt)

def CommitAction.commit (action : CommitAction) : ActionRun → Except String SnapshotId
  | .finished result => result
  | .transaction (.error e) _ _ => .error (action.label ++ " apply failed: " ++ e.display)
  | .transaction (.ok _) (.error e) _ => .error (action.label ++ " commit failed: " ++ e.display)
  | .transaction (.ok _) (.ok retries) answers =>
    match (transactionCommit answers retries 0).result with
    | .error e => .error (action.label ++ " commit failed: " ++ e.display)
    | .ok (some snapshot) => .ok snapshot
    | .ok none =>
      match action.notVisible with
      | some text => .error text
      | none => .ok 0

def ActionRun.performed : ActionRun → List Attempt
  | .transaction (.ok _) (.ok retries) answers => (transactionCommit answers retries 0).performed
  | _ => []

structure AbortLog where
  stagedDataFiles : List String
  writtenManifests : List String
  cleared : Bool

def AbortLog.cleanupWithPathMapper (log : AbortLog) (mapper : String → String)
    (deletes : String → Bool) : List String × List String :=
  if log.cleared then ([], [])
  else
    let paths := log.stagedDataFiles ++ log.writtenManifests
    (paths.map mapper, paths.filter fun path => !deletes (mapper path))

def definiteSignals : List String :=
  ["conflict", "assertrefsnapshotid", "ref_snapshot_id_match", "schema id mismatch", "schemaidmatch",
    "spec id mismatch", "specidmatch", "data invalid", "datainvalid", "feature unsupported",
    "featureunsupported", "table not found", "tablenotfound", "table already exists",
    "tablealreadyexists", "namespace not found", "namespacenotfound", "namespace already exists",
    "namespacealreadyexists", "precondition failed", "preconditionfailed", "catalog commit conflict",
    "catalogcommitconflict", "pipeline cancelled", "pipeline failed"]

def isCommitUnknownMessage (err : String) : Bool :=
  let lower := err.toList.map Char.toLower
  !definiteSignals.any fun s => lower.tails.any s.toList.isPrefixOf

structure RunInput where
  opKind : CommitOpKind
  writeMode : IcebergWriteMode
  stagingDir : String
  /-- The log as the action leaves it. -/
  abortLog : AbortLog
  deletes : String → Bool
  cleanupPathMapper : Option (String → String)
  cowUpdateSidecar : Option MutationSidecar
  action : ActionRun

structure RunOutput where
  result : Except String SnapshotId
  markedCommitted : Bool
  /-- Paths handed to the file system for deletion. -/
  deleted : List String

def RunInput.dispatch (input : RunInput) : Except String CommitAction :=
  match input.opKind with
  | .fastAppend => .ok (.fastAppend input.writeMode)
  | .overwrite => .ok .overwrite
  | .rowDelta => .ok .rowDelta
  | .rowDeltaDv => .ok .rowDeltaDv
  | .rewriteDataFiles => .ok .rewriteDataFiles
  | .cowUpdate =>
    match input.cowUpdateSidecar with
    | some sidecar => .ok (.cowUpdate sidecar)
    | none => .error "CowUpdate commit requires a mutation sidecar"
  | .truncate => .ok .truncate
  | .overwritePartitions => .ok .overwritePartitions
  | .rewriteManifests => .error ("CommitOpKind::RewriteManifests must be invoked via " ++
      "run_rewrite_manifests directly, not the collector dispatcher")

def runIcebergCommit (input : RunInput) : RunOutput :=
  match input.dispatch with
  | .error text => ⟨.error text, false, []⟩
  | .ok action =>
    match action.commit input.action with
    | .ok outcome => ⟨.ok outcome, true, []⟩
    | .error commitErr =>
      if isCommitUnknownMessage commitErr then
        ⟨.error ("iceberg commit unknown (" ++ commitErr ++ "); staged files left at " ++
          input.stagingDir ++ " for manual review"), false, []⟩
      else
        let (deleted, errors) := input.abortLog.cleanupWithPathMapper
          (input.cleanupPathMapper.getD id) input.deletes
        ⟨.error ("iceberg commit failed: " ++ commitErr ++ "; abort cleanup ran (" ++
          toString errors.length ++ " error(s))"), false, deleted⟩

/-! What is deleted, and after which failures. -/

theorem transactionCommit_updated (answers : Nat → Attempt) {retries attempt : Nat}
    (updated : Attempt.updated snapshot ∈ (transactionCommit answers retries attempt).performed) :
    ∃ s, (transactionCommit answers retries attempt).result = .ok s := by
  have last : ∀ k, Attempt.updated snapshot ∈ [answers k] → ∃ s, (answers k).result = .ok s := by
    intro k only
    rw [← mem_singleton.mp only]
    exact ⟨snapshot,rfl⟩
  induction retries generalizing attempt with
  | zero => exact last attempt updated
  | succ retries ih =>
    unfold transactionCommit at updated ⊢
    split at updated
    case isTrue again =>
      rw [if_pos again]
      rcases mem_cons.mp updated with here | later
      · rw [← here] at again
        cases again
      · exact ih later
    case isFalse final =>
      rw [if_neg final]
      exact last attempt updated

variable {action : CommitAction}

theorem isCommitUnknownMessage_notVisible
    (refused : action.notVisible = some text) : isCommitUnknownMessage text = true := by
  cases action with
  | fastAppend mode => cases mode <;> cases refused <;> decide +kernel
  | rowDelta | rowDeltaDv | cowUpdate =>
    cases refused
    decide +kernel
  | overwrite | rewriteDataFiles | truncate | overwritePartitions => cases refused

def AbortLog.Idle (log : AbortLog) : Prop :=
  log.cleared = true ∨ log.stagedDataFiles = [] ∧ log.writtenManifests = []

theorem AbortLog.cleanup_eq_nil_iff (log : AbortLog) (mapper : String → String)
    (deletes : String → Bool) : (log.cleanupWithPathMapper mapper deletes).1 = [] ↔ log.Idle := by
  cases cleared : log.cleared with
  | true | false => simp [cleanupWithPathMapper, Idle, cleared]

namespace RunInput

def attempts (input : RunInput) : List Attempt :=
  match input.dispatch with
  | .error _ => []
  | .ok _ => input.action.performed

/-- The last attempt's error, in the words of the action, has none of the phrases
that stand for a definite failure. -/
def WordedAsUnknown (input : RunInput) : Prop :=
  ∀ action apply retries answers e, input.dispatch = .ok action →
    input.action = .transaction (.ok apply) (.ok retries) answers →
    (transactionCommit answers retries 0).result = .error e →
    isCommitUnknownMessage (action.label ++ " commit failed: " ++ e.display) = true

end RunInput

/-- After a failed transaction the files are deleted exactly if the text has one of
the phrases. -/
theorem deleted_eq_nil_iff (dispatched : input.dispatch = .ok action)
    (failed : action.commit input.action = .error commitErr) :
    (runIcebergCommit input).deleted = [] ↔
      isCommitUnknownMessage commitErr = true ∨ input.abortLog.Idle := by
  unfold runIcebergCommit
  rw [dispatched]
  simp only [failed]
  by_cases unknown : isCommitUnknownMessage commitErr = true
  · simp [unknown]
  · simp only [unknown, Bool.false_eq_true, false_or]
    exact AbortLog.cleanup_eq_nil_iff _ _ _

/-- Once a transaction failed, only an unexpected error of an update call leaves open
whether the update was applied. -/
theorem mayHaveLanded_of_failed (failed : (transactionCommit answers retries 0).result = .error e) :
    (∃ a ∈ (transactionCommit answers retries 0).performed, a.MayHaveLanded) ↔
      ∃ x, .updateFailed x ∈ (transactionCommit answers retries 0).performed ∧ x.kind = .unexpected := by
  constructor
  · rintro ⟨a,member,landed⟩
    cases a with
    | loadFailed | actionFailed => exact landed.elim
    | updateFailed x => exact ⟨x,member,landed⟩
    | updated snapshot =>
      obtain ⟨s,done⟩ := transactionCommit_updated answers member
      cases failed.symm.trans done
  · rintro ⟨x,member,unexpected⟩
    exact ⟨.updateFailed x,member,unexpected⟩

theorem deleted_of_updated (dispatched : input.dispatch = .ok action)
    (run : input.action = .transaction (.ok apply) (.ok retries) answers)
    (updated : (transactionCommit answers retries 0).result = .ok snapshot) :
    (runIcebergCommit input).deleted = [] := by
  cases committed : action.commit input.action with
  | ok outcome => simp only [runIcebergCommit, dispatched, committed]
  | error text =>
    apply (deleted_eq_nil_iff dispatched committed).mpr
    left
    rw [run] at committed
    simp only [CommitAction.commit, updated] at committed
    cases snapshot with
    | some id => cases committed
    | none =>
      cases refused : action.notVisible with
      | none => simp [refused] at committed
      | some text' =>
        simp only [refused, Except.error.injEq] at committed
        subst committed
        exact isCommitUnknownMessage_notVisible refused

theorem landed_not_deleted_iff (input : RunInput) :
    ((∃ a ∈ input.attempts, a.MayHaveLanded) → (runIcebergCommit input).deleted = []) ↔
      ((∃ e, .updateFailed e ∈ input.attempts ∧ e.kind = .unexpected) →
        input.WordedAsUnknown ∨ input.abortLog.Idle) := by
  by_cases untouched : input.attempts = []
  · simp [untouched]
  cases dispatched : input.dispatch with
  | error text => exact absurd (by simp only [RunInput.attempts, dispatched]) untouched
  | ok action =>
    have attempts : input.attempts = input.action.performed := by
      simp only [RunInput.attempts, dispatched]
    cases run : input.action with
    | finished result => exact absurd (by rw [attempts, run]; rfl) untouched
    | transaction apply retries answers =>
      cases apply with
      | error e => exact absurd (by rw [attempts, run]; rfl) untouched
      | ok apply =>
        cases retries with
        | error e => exact absurd (by rw [attempts, run]; rfl) untouched
        | ok retries =>
          rw [attempts, run]
          change ((∃ a ∈ (transactionCommit answers retries 0).performed, a.MayHaveLanded) → _) ↔
            ((∃ e, .updateFailed e ∈ (transactionCommit answers retries 0).performed ∧ _) → _)
          cases ended : (transactionCommit answers retries 0).result with
          | ok snapshot =>
            refine iff_of_true (fun _ => deleted_of_updated dispatched run ended) fun _ => .inl ?_
            rintro action' apply' retries' answers' e _ run' failed
            rw [run] at run'
            cases run'
            rw [ended] at failed
            cases failed
          | error e =>
            have reported : action.commit input.action =
                .error (action.label ++ " commit failed: " ++ e.display) := by
              simp only [run, CommitAction.commit, ended]
            have worded : input.WordedAsUnknown ↔
                isCommitUnknownMessage (action.label ++ " commit failed: " ++ e.display) = true := by
              constructor
              · intro worded
                exact worded action apply retries answers e dispatched run ended
              · rintro unknown action' apply' retries' answers' e' dispatched' run' failed
                rw [dispatched] at dispatched'
                rw [run] at run'
                cases dispatched'
                cases run'
                rw [ended] at failed
                cases failed
                exact unknown
            rw [mayHaveLanded_of_failed ended, deleted_eq_nil_iff dispatched reported, worded]

/-- The connection breaks while the catalog updates a table with `conflict` in its name. -/
def connectionReset : IcebergError :=
  ⟨.unexpected, "update of sales.conflict_log", [], some "connection reset by peer", false⟩

def conflictLogAppend : RunInput where
  opKind := .fastAppend
  writeMode := .rowLineageV3
  stagingDir := "s3://warehouse/sales/conflict_log"
  abortLog := ⟨["data/a.parquet"], ["metadata/m0.avro"], false⟩
  deletes := fun _ => true
  cleanupPathMapper := none
  cowUpdateSidecar := none
  action := .transaction (.ok ()) (.ok 4) fun _ => .updateFailed connectionReset

theorem conflictLogAppend_deleted :
    (∃ a ∈ conflictLogAppend.attempts, a.MayHaveLanded) ∧
      (runIcebergCommit conflictLogAppend).deleted = ["data/a.parquet", "metadata/m0.avro"] :=
  ⟨⟨.updateFailed connectionReset,mem_singleton_self _,rfl⟩,by decide +kernel⟩

end NovaRocks.Iceberg
