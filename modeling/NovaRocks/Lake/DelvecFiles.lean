import NovaRocks.Store.Checked
import Mathlib.Data.List.AList
import Mathlib.Data.List.Sort

/-!
Delete vectors on disk. A version writes all delete vectors that it changes into one
file, one behind the other; the metadata keeps, for each segment, the version that
wrote its delete vector last and where it stands in the file. A later publish of the
same version writes the file anew, together with what that version had written before.
-/
namespace NovaRocks.Lake
open List
open Prod (fst snd)

/-! Payloads of one file. -/

section
variable {K A : Type}

structure PageRange where
  offset : Nat
  size : Nat

def layOut : Nat → List (K × List A) → List (K × PageRange × List A)
  | _, [] => []
  | offset, (k, payload) :: rest =>
    (k, ⟨offset, payload.length⟩, payload) :: layOut (offset + payload.length) rest

theorem layOut_keys (offset : Nat) (payloads : List (K × List A)) :
    (layOut offset payloads).map fst = payloads.map fst := by
  induction payloads generalizing offset with
  | nil => rfl
  | cons p rest ih => simp only [layOut, map_cons, ih]

theorem read_layOut (before : List A) (payloads : List (K × List A)) {range : PageRange}
    (member : (k, range, payload) ∈ layOut before.length payloads) :
    (k, payload) ∈ payloads ∧ range.size = payload.length ∧
      range.offset + range.size ≤ (before ++ payloads.flatMap snd).length ∧
      ((before ++ payloads.flatMap snd).drop range.offset).take range.size = payload := by
  induction payloads generalizing before with
  | nil => cases member
  | cons p rest ih =>
    obtain ⟨k',payload'⟩ := p
    rcases mem_cons.mp member with first | later
    · cases first
      refine ⟨mem_cons_self,rfl,?_,?_⟩
      · simp only [flatMap_cons, length_append]
        omega
      · simp
    · rw [← length_append] at later
      obtain ⟨inside,size,bound,read⟩ := ih (before ++ payload') later
      rw [flatMap_cons, ← append_assoc]
      exact ⟨mem_cons_of_mem _ inside,size,bound,read⟩

end

/-! Entries of a map that is written key by key. -/

section
variable {K : Type} [DecidableEq K] {V : Type}

def insertAll (m : AList fun _ : K => V) (entries : List (K × V)) : AList fun _ : K => V :=
  entries.foldl (fun m e => m.insert e.1 e.2) m

theorem lookup_insertAll_of_notMem {m : AList fun _ : K => V}
    (other : k ∉ entries.map fst) : (insertAll m entries).lookup k = m.lookup k := by
  induction entries generalizing m with
  | nil => rfl
  | cons e rest ih =>
    rw [map_cons, mem_cons, not_or] at other
    change (insertAll (m.insert e.1 e.2) rest).lookup k = m.lookup k
    rw [ih other.2, AList.lookup_insert_ne other.1]

theorem lookup_insertAll {m : AList fun _ : K => V}
    (distinct : (entries.map fst).Nodup) (member : (k, v) ∈ entries) :
    (insertAll m entries).lookup k = some v := by
  induction entries generalizing m with
  | nil => cases member
  | cons e rest ih =>
    rw [map_cons, nodup_cons] at distinct
    change (insertAll (m.insert e.1 e.2) rest).lookup k = some v
    rcases mem_cons.mp member with first | later
    · rw [← first] at distinct ⊢
      rw [lookup_insertAll_of_notMem distinct.1, AList.lookup_insert]
    · exact ih distinct.2 later

end

/-! The files and the metadata about them. -/

/-- The portable format of a roaring bitmap, the checksum and the UUID made from a seed. A bitmap
is written as at least a header and is read back as it was. -/
class DelvecEncoding where
  serialize : List Nat → List (BitVec 8)
  deserialize : List (BitVec 8) → Except String (List Nat)
  serialize_ne_nil : ∀ bitmap, serialize bitmap ≠ []
  deserialize_serialize : ∀ bitmap, deserialize (serialize bitmap) = .ok bitmap
  crc32c : List (BitVec 8) → BitVec 32
  uuid : String → String

open DelvecEncoding

abbrev DelvecFiles := String → Option (List (BitVec 8))

structure DelvecPage where
  version : Option Int
  offset : Option Nat
  size : Option Nat
  crc32c : Option (BitVec 32)
  crc32cGenVersion : Option Int

structure DelvecMeta where
  /-- The file of each version; nothing where the name is missing or blank. -/
  versionToFile : AList fun _ : Int => Option String
  /-- The page of each segment. -/
  delvecs : AList fun _ : Nat => DelvecPage

def crc32cMask (crc : BitVec 32) : BitVec 32 :=
  crc.rotateLeft 17 + 0xa282ead8#32

def crc32cUnmask (masked : BitVec 32) : BitVec 32 :=
  (masked - 0xa282ead8#32).rotateRight 17

theorem crc32cUnmask_mask (crc : BitVec 32) : crc32cUnmask (crc32cMask crc) = crc := by
  unfold crc32cUnmask crc32cMask
  rw [BitVec.add_sub_cancel]
  ext i bound
  by_cases low : i < 15
  · have turned : ¬ 17 + i < 17 := by omega
    simp [BitVec.getElem_rotateRight, BitVec.getElem_rotateLeft, low, turned]
  · have high : i - 15 < 17 := by omega
    have back : 15 + (i - 15) = i := by omega
    simp [BitVec.getElem_rotateRight, BitVec.getElem_rotateLeft, low, high, back]

section
variable [DelvecEncoding]

def encodeDelvecBitmap (bitmap : List Nat) : List (BitVec 8) :=
  1#8 :: serialize bitmap

def decodeDelvecBitmap (payload : List (BitVec 8)) (segmentId : Nat) (version : Int) :
    Except String (List Nat) :=
  match payload with
  | [] => .error s!"invalid delvec payload (empty): segment_id={segmentId}, version={version}"
  | format :: rest =>
    if format ≠ 1#8 then
      .error s!"invalid delvec payload format: segment_id={segmentId}, version={version}, flag={format.toNat}"
    else if rest.isEmpty then .ok []
    else match deserialize rest with
      | .ok bitmap => .ok bitmap
      | .error e => .error
          s!"decode delvec roaring bitmap failed: segment_id={segmentId}, version={version}, error={e}"

theorem decodeDelvecBitmap_encode (bitmap : List Nat) (segmentId : Nat) (version : Int) :
    decodeDelvecBitmap (encodeDelvecBitmap bitmap) segmentId version = .ok bitmap := by
  simp [decodeDelvecBitmap, encodeDelvecBitmap, serialize_ne_nil, deserialize_serialize]

/-- What the checksum should be and is, where they differ. It counts only if it was made for the
version of the page. -/
def DelvecPage.mismatch (page : DelvecPage) (version : Int) (payload : List (BitVec 8)) :
    Option (BitVec 32 × BitVec 32) :=
  match page.crc32c with
  | none => none
  | some masked =>
    let expected := crc32cUnmask masked
    let actual := DelvecEncoding.crc32c payload
    if page.crc32cGenVersion = some version ∧ expected ≠ actual then some (expected, actual) else none

def readPage (files : DelvecFiles) (m : DelvecMeta) (segmentId : Nat) (page : DelvecPage) :
    Except String (List Nat) :=
  let size := page.size.getD 0
  if size = 0 then .ok []
  else match page.version with
    | none => .error s!"delvec page missing version for segment_id={segmentId} in tablet metadata"
    | some version =>
      match m.versionToFile.lookup version with
      | none => .error s!"delvec file mapping missing for segment_id={segmentId} version={version}"
      | some none => .error s!"delvec file name missing for segment_id={segmentId} version={version}"
      | some (some name) =>
        match files name with
        | none => .error "read delvec file failed"
        | some bytes =>
          let offset := page.offset.getD 0
          let payload := (bytes.drop offset).take size
          if bytes.length < offset + size then
            .error s!"delvec page out of file range: segment_id={segmentId}, offset={offset}, size={size}, file_size={bytes.length}"
          else match page.mismatch version payload with
            | some (expected, actual) => .error s!"delvec crc32c mismatch: segment_id={segmentId}, version={version}, expected={expected.toNat}, actual={actual.toNat}"
            | none => decodeDelvecBitmap payload segmentId version

def loadSegmentDelvecBitmap (files : DelvecFiles) (m : DelvecMeta) (segmentId : Nat) :
    Except String (List Nat) :=
  match m.delvecs.lookup segmentId with
  | none => .ok []
  | some page => readPage files m segmentId page

def loadAll (load : Nat → Except String (List Nat)) : List Nat → Except String (List (Nat × List Nat))
  | [] => .ok []
  | segmentId :: rest => do
    let bitmap ← load segmentId
    let others ← loadAll load rest
    return (segmentId, bitmap) :: others

def sameVersionSegments (m : DelvecMeta) (applyVersion : Int) (updates : List (Nat × List Nat)) : List Nat :=
  (m.delvecs.entries.filter fun e =>
    e.2.version = some applyVersion && !(updates.map fst).contains e.1).map Sigma.fst

def existingDelvecFileNameForVersion (m : DelvecMeta) (applyVersion : Int) : Except String (Option String) :=
  match m.versionToFile.lookup applyVersion with
  | none => .ok none
  | some none =>
    .error s!"delvec file name missing for existing version mapping: version={applyVersion}"
  | some (some existing) => .ok (some existing)

def hexDigits (width n : Nat) : String :=
  String.ofList ((Nat.toDigits 16 n).leftpad width '0')

def buildDelvecFileName (tabletId txnId applyVersion : Int) : Except String String :=
  if tabletId ≤ 0 then .error s!"invalid tablet_id for delvec file name generation: {tabletId}"
  else if txnId ≤ 0 then .error s!"invalid txn_id for delvec file name generation: {txnId}"
  else if applyVersion ≤ 0 then
    .error s!"invalid apply_version for delvec file name generation: {applyVersion}"
  else
    let seed := s!"delvec_file:tablet={tabletId}:txn={txnId}:version={applyVersion}"
    .ok (hexDigits 16 txnId.toNat ++ "_" ++ uuid seed ++ ".delvec")

def delvecFileName (m : DelvecMeta) (tabletId : Option Int) (applyVersion txnId : Int) :
    Except String String := do
  match ← existingDelvecFileNameForVersion m applyVersion with
  | some existing => return existing
  | none =>
    match tabletId with
    | none => .error "tablet metadata missing tablet id while generating delvec file name"
    | some tabletId => buildDelvecFileName tabletId txnId applyVersion

def pageFor (applyVersion : Int) (p : Nat × PageRange × List (BitVec 8)) : DelvecPage :=
  ⟨some applyVersion, some p.2.1.offset, some p.2.1.size, some (crc32cMask (crc32c p.2.2)), some applyVersion⟩

def persistDelvecUpdates (files : DelvecFiles) (m : DelvecMeta) (tabletId : Option Int)
    (applyVersion txnId : Int) (updates : List (Nat × List Nat)) : Except String (DelvecFiles × DelvecMeta) :=
  if updates.isEmpty then .ok (files, m)
  else do
    let same ← loadAll (loadSegmentDelvecBitmap files m) (sameVersionSegments m applyVersion updates)
    let allUpdates := (updates ++ same).insertionSort fun a b => a.1 ≤ b.1
    let payloads := allUpdates.map fun u => (u.1, encodeDelvecBitmap u.2)
    let pages := (layOut 0 payloads).map fun p => (p.1, pageFor applyVersion p)
    let file ← delvecFileName m tabletId applyVersion txnId
    return (Function.update files file (some (payloads.flatMap snd)),
      ⟨m.versionToFile.insert applyVersion (some file), insertAll m.delvecs pages⟩)

end

/-! What is read after a write. -/

variable {load : Nat → Except String (List Nat)}

theorem loadAll_ok (done : loadAll load ids = .ok loaded) :
    loaded.map fst = ids ∧ ∀ u ∈ loaded, load u.1 = .ok u.2 := by
  induction ids generalizing loaded with
  | nil =>
    cases done
    exact ⟨rfl,by simp⟩
  | cons id rest ih =>
    obtain ⟨bitmap,first,next⟩ := bind_ok done
    obtain ⟨others,later,last⟩ := bind_ok next
    cases last
    obtain ⟨keys,loads⟩ := ih later
    exact ⟨by rw [map_cons, keys],forall_mem_cons.mpr ⟨first,loads⟩⟩

theorem loadAll_isOk
    (loads : ∀ id ∈ ids, ∃ bitmap, load id = .ok bitmap) : ∃ loaded, loadAll load ids = .ok loaded := by
  induction ids with
  | nil => exact ⟨[],rfl⟩
  | cons id rest ih =>
    obtain ⟨⟨bitmap,first⟩,rest⟩ := forall_mem_cons.mp loads
    obtain ⟨others,later⟩ := ih rest
    exact ⟨(id, bitmap) :: others,by simp only [loadAll, first, later]; rfl⟩

section
variable {m m' : DelvecMeta}

theorem mem_sameVersionSegments :
    segmentId ∈ sameVersionSegments m applyVersion updates ↔ segmentId ∉ updates.map fst ∧
        ∃ page, m.delvecs.lookup segmentId = some page ∧ page.version = some applyVersion := by
  simp only [sameVersionSegments, mem_map, mem_filter, Bool.and_eq_true, decide_eq_true_eq,
    Bool.not_eq_true', contains_eq_mem, decide_eq_false_iff_not]
  constructor
  · rintro ⟨⟨id,page⟩,⟨member,version,other⟩,rfl⟩
    exact ⟨other,page,AList.mem_lookup_iff.mpr member,version⟩
  · rintro ⟨other,page,found,version⟩
    exact ⟨⟨segmentId,page⟩,⟨AList.mem_lookup_iff.mp found,version,other⟩,rfl⟩

variable [DelvecEncoding]

theorem persistDelvecUpdates_cases (distinct : (updates.map fst).Nodup) (some' : updates ≠ [])
    (done : persistDelvecUpdates files m tabletId applyVersion txnId updates = .ok (files', m')) :
    ∃ same file payloads, loadAll (loadSegmentDelvecBitmap files m)
        (sameVersionSegments m applyVersion updates) = .ok same ∧
      delvecFileName m tabletId applyVersion txnId = .ok file ∧
      (∀ u ∈ updates ++ same, (u.1, encodeDelvecBitmap u.2) ∈ payloads) ∧
      (payloads.map fst).Perm (updates.map fst ++ sameVersionSegments m applyVersion updates) ∧
      (payloads.map fst).Nodup ∧
      files' = Function.update files file (some (payloads.flatMap snd)) ∧
      m' = ⟨m.versionToFile.insert applyVersion (some file), insertAll m.delvecs
        ((layOut 0 payloads).map fun p => (p.1, pageFor applyVersion p))⟩ := by
  unfold persistDelvecUpdates at done
  rw [if_neg (by simpa using some')] at done
  obtain ⟨same,loaded,next⟩ := bind_ok done
  obtain ⟨file,named,last⟩ := bind_ok next
  cases last
  have perm := (perm_insertionSort (fun a b => a.1 ≤ b.1) (updates ++ same)).map fun u =>
    (u.1, encodeDelvecBitmap u.2)
  have keys := perm.map fst
  have written : ((updates ++ same).map fun u => (u.1, encodeDelvecBitmap u.2)).map fst =
      updates.map fst ++ sameVersionSegments m applyVersion updates := by
    rw [map_map, ← (loadAll_ok loaded).1, ← map_append]
    rfl
  rw [written] at keys
  refine ⟨same,file,_,loaded,named,fun u member => perm.mem_iff.mpr (mem_map_of_mem member),keys,?_,rfl,rfl⟩
  rw [keys.nodup_iff, nodup_append]
  refine ⟨distinct,m.delvecs.nodupKeys.sublist filter_sublist,?_⟩
  rintro a updated b kept rfl
  exact (mem_sameVersionSegments.mp kept).1 updated

theorem load_written {id : Nat} (distinct : (payloads.map fst).Nodup)
    (member : (id, encodeDelvecBitmap bitmap) ∈ payloads) :
    loadSegmentDelvecBitmap (Function.update files file (some (payloads.flatMap snd)))
      ⟨m.versionToFile.insert applyVersion (some file), insertAll m.delvecs
        ((layOut 0 payloads).map fun p => (p.1, pageFor applyVersion p))⟩ id = .ok bitmap := by
  have placed : id ∈ (layOut 0 payloads).map fst := by
    rw [layOut_keys]
    exact mem_map_of_mem member
  obtain ⟨⟨_,range,payload⟩,inside,rfl⟩ := mem_map.mp placed
  obtain ⟨written,size,bound,read⟩ := read_layOut [] payloads inside
  have own : payload = encodeDelvecBitmap bitmap :=
    congrArg snd (inj_on_of_nodup_map distinct written member rfl)
  subst own
  have keys : (((layOut 0 payloads).map fun p => (p.1, pageFor applyVersion p)).map fst).Nodup := by
    rw [map_map]
    change ((layOut 0 payloads).map fst).Nodup
    rwa [layOut_keys]
  have page := lookup_insertAll (m := m.delvecs) keys (mem_map_of_mem inside)
  have nonempty : range.size ≠ 0 := by
    rw [size]
    exact Nat.succ_ne_zero _
  rw [nil_append] at bound read
  simp only [loadSegmentDelvecBitmap, page]
  simp only [readPage, pageFor, Option.getD_some, nonempty, if_false, AList.lookup_insert,
    Function.update_self, Nat.not_lt.mpr bound, read, DelvecPage.mismatch, crc32cUnmask_mask, ne_eq,
    not_true_eq_false, and_false, decodeDelvecBitmap_encode]

theorem load_other {id : Nat} (unwritten : id ∉ pages.map fst)
    (other : ∀ page, m.delvecs.lookup id = some page → page.version ≠ some applyVersion)
    (alone : ∀ page v, m.delvecs.lookup id = some page → page.version = some v →
      m.versionToFile.lookup v ≠ some (some file)) :
    loadSegmentDelvecBitmap (Function.update files file (some bytes))
      ⟨m.versionToFile.insert applyVersion (some file), insertAll m.delvecs pages⟩ id =
      loadSegmentDelvecBitmap files m id := by
  simp only [loadSegmentDelvecBitmap, lookup_insertAll_of_notMem unwritten]
  cases found : m.delvecs.lookup id with
  | none => rfl
  | some page =>
    have older := other page found
    cases version : page.version with
    | none => simp only [readPage, version]
    | some v =>
      have apart : v ≠ applyVersion := fun same => older (by rw [version, same])
      simp only [readPage, version, AList.lookup_insert_ne apart]
      split
      · rfl
      · cases mapped : m.versionToFile.lookup v with
        | none => rfl
        | some owner =>
          cases owner with
          | none => rfl
          | some name =>
            have elsewhere : name ≠ file := by
              rintro rfl
              exact alone page v found version mapped
            simp only [Function.update_of_ne elsewhere]

/-- No page in use lies in the file under another version. -/
def DelvecMeta.FileAlone (m : DelvecMeta) (applyVersion : Int) (file : String) : Prop :=
  ∀ id page v, m.delvecs.lookup id = some page → page.version = some v → v ≠ applyVersion →
    m.versionToFile.lookup v ≠ some (some file)

theorem load_persisted (distinct : (updates.map fst).Nodup)
    (done : persistDelvecUpdates files m tabletId applyVersion txnId updates = .ok (files', m')) :
    (∀ u ∈ updates, loadSegmentDelvecBitmap files' m' u.1 = .ok u.2) ∧
      ((∀ file, delvecFileName m tabletId applyVersion txnId = .ok file → m.FileAlone applyVersion file) →
      ∀ id, id ∉ updates.map fst →
        loadSegmentDelvecBitmap files' m' id = loadSegmentDelvecBitmap files m id) := by
  by_cases none' : updates = []
  · subst none'
    cases done
    exact ⟨by simp,fun _ _ _ => rfl⟩
  · obtain ⟨same,file,payloads,loaded,named,written,keys,keysDistinct,rfl,rfl⟩ :=
      persistDelvecUpdates_cases distinct none' done
    constructor
    · intro u member
      exact load_written keysDistinct (written u (mem_append_left _ member))
    · intro alone id notUpdated
      by_cases kept : id ∈ sameVersionSegments m applyVersion updates
      · rw [← (loadAll_ok loaded).1] at kept
        obtain ⟨u,member,rfl⟩ := mem_map.mp kept
        rw [load_written keysDistinct (written u (mem_append_right _ member)),
          (loadAll_ok loaded).2 u member]
      · have other : ∀ page, m.delvecs.lookup id = some page → page.version ≠ some applyVersion :=
          fun page found version => kept (mem_sameVersionSegments.mpr ⟨notUpdated,page,found,version⟩)
        apply load_other _ other
        · intro page v found version
          refine alone file named id page v found version ?_
          rintro rfl
          exact other page found version
        · rw [map_map]
          change id ∉ (layOut 0 payloads).map fst
          rw [layOut_keys, keys.mem_iff, mem_append]
          exact fun either => either.elim notUpdated kept

theorem persistDelvecUpdates_isOk (named : ∃ file, delvecFileName m tabletId applyVersion txnId = .ok file)
    (readable : ∀ id, ∃ bitmap, loadSegmentDelvecBitmap files m id = .ok bitmap) :
    ∃ files' m', persistDelvecUpdates files m tabletId applyVersion txnId updates = .ok (files', m') := by
  by_cases none' : updates = []
  · exact ⟨files,m,by simp [persistDelvecUpdates, none']⟩
  · obtain ⟨same,loaded⟩ := loadAll_isOk fun id
      (_ : id ∈ sameVersionSegments m applyVersion updates) => readable id
    obtain ⟨file,named⟩ := named
    unfold persistDelvecUpdates
    rw [if_neg (by simpa using none'), loaded, named]
    exact ⟨_,_,rfl⟩

end

/-! A unary format. -/

def unaryNumbers (count : Nat) : List (BitVec 8) → List Nat
  | [] => []
  | b :: rest => if b = 1#8 then unaryNumbers (count + 1) rest else count :: unaryNumbers 0 rest

def unaryBytes (bitmap : List Nat) : List (BitVec 8) :=
  bitmap.flatMap fun n => replicate n 1#8 ++ [0#8]

theorem unaryNumbers_bytes (bitmap : List Nat) : unaryNumbers 0 (unaryBytes bitmap) = bitmap := by
  have one : ∀ n count rest, unaryNumbers count (replicate n 1#8 ++ 0#8 :: rest) =
      (count + n) :: unaryNumbers 0 rest := by
    intro n
    induction n with
    | zero => intro count rest; rfl
    | succ n ih =>
      intro count rest
      rw [replicate_succ, cons_append, unaryNumbers, if_pos rfl, ih, Nat.add_right_comm, Nat.add_assoc]
  induction bitmap with
  | nil => rfl
  | cons n rest ih =>
    rw [unaryBytes, flatMap_cons, append_assoc, singleton_append, one, Nat.zero_add]
    exact congrArg _ ih

/-- Numbers in unary behind a header; the checksum is the length. -/
instance unaryEncoding : DelvecEncoding where
  serialize bitmap := 0#8 :: unaryBytes bitmap
  deserialize bytes := .ok (unaryNumbers 0 bytes.tail)
  serialize_ne_nil _ := cons_ne_nil _ _
  deserialize_serialize bitmap := congrArg _ (unaryNumbers_bytes bitmap)
  crc32c bytes := .ofNat 32 bytes.length
  uuid seed := seed

def pageOf (crc32c : Option (BitVec 32)) : DelvecPage :=
  ⟨some 1, none, some 4, crc32c, some 1⟩

/-- Versions 1 and 2 in one file, segment 1 with a page that version 1 wrote without a checksum. -/
def twoVersions : DelvecMeta :=
  ⟨insertAll ∅ [(1, some "a.delvec"), (2, some "a.delvec")], insertAll ∅ [(1, pageOf none)]⟩

def oneVersion : DelvecMeta :=
  ⟨insertAll ∅ [(1, some "a.delvec")], insertAll ∅ [(1, pageOf (some (crc32cMask 4)))]⟩

def writtenFiles : DelvecFiles :=
  fun name => if name = "a.delvec" then some (encodeDelvecBitmap [1]) else none

end NovaRocks.Lake
