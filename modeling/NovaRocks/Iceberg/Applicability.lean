import NovaRocks.Iceberg.Reading

/-!
Which delete files a data file carries, against what the table format prescribes. The test asks
every delete file for a greater sequence number, and asks for the partition exactly when the
delete file has one.
-/
namespace NovaRocks.Iceberg
open List

section
variable (d : IcebergReadDeleteFile) (f : IcebergReadFile)

def IsPosition : Prop := d.file.content ≠ .equalityDeletes

def SamePartition : Prop :=
  d.partitionSpecId = f.partitionSpecId ∧ partitionKey d.file.partition = partitionKey f.file.partition

def NamesNoOther : Prop := ∀ path ∈ d.file.referencedDataFile, path = f.file.path

/-- A position delete or deletion vector applies from its own sequence number on, an equality
delete only to older files. -/
def Prescribed : Prop :=
  f.dataSequenceNumber ≤ d.sequenceNumber ∧ (¬ IsPosition d → f.dataSequenceNumber < d.sequenceNumber) ∧
    NamesNoOther d f ∧ (d.file.referencedDataFile = some f.file.path ∨
      ¬ IsPosition d ∧ partitionKey d.file.partition = none ∨ SamePartition d f)

/-- A prescribed position delete of the data file's own sequence number. -/
def SameAge : Prop := Prescribed d f ∧ d.sequenceNumber = f.dataSequenceNumber

/-- An unpartitioned position delete that names no data file, met by a file of another partition. -/
def Stray : Prop :=
  f.dataSequenceNumber < d.sequenceNumber ∧ IsPosition d ∧ partitionKey d.file.partition = none ∧
    d.file.referencedDataFile = none ∧ ¬ SamePartition d f

/-- A delete file that names the data file under another partition. -/
def Misplaced : Prop :=
  f.dataSequenceNumber < d.sequenceNumber ∧ d.file.referencedDataFile = some f.file.path ∧
    partitionKey d.file.partition ≠ none ∧ ¬ SamePartition d f

theorem applies_iff : deleteAppliesToDataFile d f.file f.partitionSpecId f.dataSequenceNumber = true ↔
    f.dataSequenceNumber < d.sequenceNumber ∧ NamesNoOther d f ∧
      (partitionKey d.file.partition ≠ none → SamePartition d f) := by
  simp only [deleteAppliesToDataFile, Bool.and_eq_true, decide_eq_true_eq, and_assoc]
  refine and_congr_right fun _ => and_congr ?_ ?_
  · cases refers : d.file.referencedDataFile <;> simp [NamesNoOther, refers]
  · cases key : partitionKey d.file.partition <;>
      simp [SamePartition, key, @eq_comm _ (partitionKey f.file.partition)]

theorem applies_prescribed_iff :
    (deleteAppliesToDataFile d f.file f.partitionSpecId f.dataSequenceNumber = true ↔ Prescribed d f) ↔
      ¬ SameAge d f ∧ ¬ Stray d f ∧ ¬ Misplaced d f := by
  have either : NamesNoOther d f ↔
      d.file.referencedDataFile = none ∨ d.file.referencedDataFile = some f.file.path := by
    cases refers : d.file.referencedDataFile <;> simp [NamesNoOther, refers]
  rw [applies_iff, SameAge, Stray, Misplaced, Prescribed, either]
  grind

end

theorem nodup_attachDeletes (set : deletes.Nodup) : (attachDeletes deletes f specId seq).Nodup := by
  refine ((set.filter _).filter _).append ((set.filter _).filter _) ?_
  intro d named other
  simp only [mem_filter, decide_eq_true_eq] at named other
  exact absurd (named.1.2.symm.trans other.1.2) (by simp)

/-- Every data file of a snapshot carries the prescribed delete files, each once, exactly when no
delete file is of the three kinds that the test judges differently. -/
theorem attached_deletes_iff (manifests : List ManifestFile) (set : (readDeletes manifests).Nodup) :
    (∀ f ∈ buildReadSnapshot manifests, f.deletes.Nodup ∧
      ∀ d, d ∈ f.deletes ↔ d ∈ readDeletes manifests ∧ Prescribed d f) ↔
      ∀ f ∈ buildReadSnapshot manifests, ∀ d ∈ readDeletes manifests,
        ¬ SameAge d f ∧ ¬ Stray d f ∧ ¬ Misplaced d f := by
  refine forall₂_congr fun f member => ?_
  rw [buildReadSnapshot_eq] at member
  obtain ⟨g,-,rfl⟩ := mem_map.mp member
  change (attachDeletes _ _ _ _).Nodup ∧ (∀ d, d ∈ attachDeletes _ _ _ _ ↔ _) ↔ _
  rw [and_iff_right (nodup_attachDeletes set)]
  simp only [mem_attachDeletes, ← applies_prescribed_iff]
  exact ⟨fun same d => and_congr_right_iff.mp (same d),fun same d => and_congr_right (same d)⟩

def deletedAt (seq : Nat) : List ManifestFile :=
  [⟨"data.avro", .data, 0, 1, none, [⟨.added, 1, 5, .ofRows "data" [] [⟨[], none⟩]⟩]⟩,
    ⟨"deletes.avro", .deletes, 0, 1, none, [⟨.added, 1, seq,
      ⟨"delete", .positionDeletes, .parquet, [], none, none, [], [("data", 0)], [], []⟩⟩]⟩]

theorem attached_deletes_iff_later :
    (∃ f ∈ buildReadSnapshot (deletedAt 6), f.deletes ≠ []) ∧ ∀ f ∈ buildReadSnapshot (deletedAt 6),
      f.deletes.Nodup ∧ ∀ d, d ∈ f.deletes ↔ d ∈ readDeletes (deletedAt 6) ∧ Prescribed d f := by
  refine ⟨⟨_,mem_cons_self,cons_ne_nil _ _⟩,
    (attached_deletes_iff (deletedAt 6) (nodup_cons.mpr ⟨not_mem_nil,nodup_nil⟩)).mpr ?_⟩
  intro f file d delete
  cases mem_singleton.mp file
  cases mem_singleton.mp delete
  simp [SameAge, Stray, Misplaced, SamePartition, DataFile.ofRows, DataFile.asDelete]

/-- Both committed together, as a row delta does. -/
theorem own_sequence_delete_missed :
    ∃ f ∈ buildReadSnapshot (deletedAt 5), f.deletes = [] ∧ ∃ d ∈ readDeletes (deletedAt 5), Prescribed d f :=
  ⟨_,mem_cons_self,rfl,_,mem_cons_self,by
    simp [Prescribed, NamesNoOther, IsPosition, SamePartition, DataFile.ofRows, DataFile.asDelete]⟩

end NovaRocks.Iceberg
