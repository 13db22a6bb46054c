import NovaRocks.Store.Checked
import NovaRocks.Store.LittleEndian
import Mathlib.Data.Finset.Sort
import Mathlib.Algebra.Order.BigOperators.Group.Finset

/-!
Deletion vectors: one bitmap of low halves for each high half of a position, and their payload.
-/
namespace NovaRocks.Iceberg
open NovaRocks.Store Finset

abbrev Bitmap := Finset (Fin (2 ^ 32))

/-- What is relied on of the roaring crate: a bitmap is read back from in front of any bytes. -/
structure RoaringCodec where
  serialize : Bitmap → List Nat
  deserialize : List Nat → Except String (Bitmap × List Nat)
  restores : ∀ bitmap rest, deserialize (serialize bitmap ++ rest) = .ok (bitmap, rest)

@[ext] structure DeletionVector where
  keys : Finset Nat
  bitmap : Nat → Bitmap
  absent : ∀ key ∉ keys, bitmap key = ∅

namespace DeletionVector

def empty : DeletionVector := ⟨∅, fun _ => ∅, fun _ _ => rfl⟩

section
variable (dv : DeletionVector)

def put (key : Nat) (bitmap : Bitmap) : DeletionVector where
  keys := insert key dv.keys
  bitmap other := if other = key then bitmap else dv.bitmap other
  absent other outside := by
    rw [mem_insert, not_or] at outside
    rw [if_neg outside.1, dv.absent other outside.2]

def merge (dv other : DeletionVector) : DeletionVector where
  keys := dv.keys ∪ other.keys
  bitmap key := dv.bitmap key ∪ other.bitmap key
  absent key outside := by
    rw [mem_union, not_or] at outside
    rw [dv.absent key outside.1, other.absent key outside.2, union_empty]

def contains (p : Nat) : Bool :=
  p < 2 ^ 63 && Fin.ofNat (2 ^ 32) p ∈ dv.bitmap (p / 2 ^ 32)

def cardinality : Nat :=
  ∑ key ∈ dv.keys, (dv.bitmap key).card

def isEmpty : Bool :=
  ∀ key ∈ dv.keys, dv.bitmap key = ∅

def toRoaringTreemap : Finset Nat :=
  dv.keys.biUnion fun key => (dv.bitmap key).image (key * 2 ^ 32 + Fin.val ·)

end

def magic : List Nat := [0xD1, 0xD3, 0x39, 0x64]

section
variable (codec : RoaringCodec) (crc : List Nat → Nat)

def body (dv : DeletionVector) : List Nat :=
  magic ++ leBytes 8 dv.keys.card ++
    (dv.keys.sort (· ≤ ·)).flatMap fun key => leBytes 4 key ++ codec.serialize (dv.bitmap key)

def toIcebergPayload (dv : DeletionVector) : Except String (List Nat) := do
  let body := dv.body codec
  guardThat (body.length < 2 ^ 32) "deletion vector payload too large"
  return (leBytes 4 body.length).reverse ++ body ++ (leBytes 4 (crc body)).reverse

def readBitmaps : Nat → List Nat → DeletionVector → Except String (DeletionVector × List Nat)
  | 0, bytes, dv => .ok (dv, bytes)
  | count + 1, bytes, dv => do
    guardThat (4 ≤ bytes.length) "failed to read little-endian u32"
    let key := fromLe (bytes.take 4)
    guardThat (key ∉ dv.keys) s!"deletion vector payload contains duplicate key {key}"
    let (bitmap, rest) ← codec.deserialize (bytes.drop 4)
    readBitmaps count rest (dv.put key bitmap)

def fromIcebergPayload (payload : List Nat) : Except String DeletionVector := do
  guardThat (20 ≤ payload.length) "deletion vector payload is too short"
  let declared := fromLe (payload.take 4).reverse
  guardThat (payload.length = 4 + declared + 4) s!"deletion vector payload length mismatch: declared {declared}"
  let body := (payload.drop 4).take declared
  guardThat (body.take 4 = magic) "invalid deletion vector magic bytes"
  guardThat (fromLe (payload.drop (4 + declared)).reverse = crc body % 2 ^ 32)
    "deletion vector CRC mismatch"
  let (dv, rest) ← readBitmaps codec (fromLe ((body.drop 4).take 8)) (body.drop 12) empty
  guardThat rest.isEmpty "deletion vector payload contains trailing bytes"
  return dv

end

/-- All views describe the set that the treemap holds. -/
structure Agree (dv : DeletionVector) : Prop where
  contains : ∀ p, dv.contains p ↔ p ∈ dv.toRoaringTreemap
  cardinality : dv.cardinality = dv.toRoaringTreemap.card
  isEmpty : dv.isEmpty ↔ dv.toRoaringTreemap = ∅
  merge : ∀ other, (dv.merge other).toRoaringTreemap = dv.toRoaringTreemap ∪ other.toRoaringTreemap

variable {codec : RoaringCodec} {crc : List Nat → Nat} {dv : DeletionVector}

theorem mem_keys (inside : low ∈ dv.bitmap key) : key ∈ dv.keys := by
  by_contra outside
  rw [dv.absent key outside] at inside
  cases inside

theorem mem_toRoaringTreemap :
    p ∈ dv.toRoaringTreemap ↔ ∃ key, ∃ low ∈ dv.bitmap key, key * 2 ^ 32 + low.val = p := by
  simp only [toRoaringTreemap, mem_biUnion, mem_image]
  constructor
  · rintro ⟨key,_,low,inside,rfl⟩
    exact ⟨key,low,inside,rfl⟩
  · rintro ⟨key,low,inside,rfl⟩
    exact ⟨key,mem_keys inside,low,inside,rfl⟩

theorem cardinality_eq (dv : DeletionVector) : dv.cardinality = dv.toRoaringTreemap.card := by
  rw [toRoaringTreemap, card_biUnion]
  · refine sum_congr rfl fun key _ => (card_image_of_injective _ fun low low' same => ?_).symm
    exact Fin.ext (Nat.add_left_cancel same)
  · intro key _ key' _ different
    refine disjoint_left.mpr fun p first second => ?_
    obtain ⟨low,_,rfl⟩ := mem_image.mp first
    obtain ⟨low',_,same⟩ := mem_image.mp second
    omega

theorem agree_iff (dv : DeletionVector) : dv.Agree ↔ ∀ key ∈ dv.keys, 2 ^ 31 ≤ key → dv.bitmap key = ∅ := by
  constructor
  · intro agree key _ high
    by_contra nonempty
    obtain ⟨low,inside⟩ := nonempty_iff_ne_empty.mpr nonempty
    have found := (agree.contains _).mpr (mem_toRoaringTreemap.mpr ⟨key,low,inside,rfl⟩)
    rw [DeletionVector.contains, Bool.and_eq_true, decide_eq_true_eq] at found
    omega
  · intro empty
    refine ⟨fun p => ?_,dv.cardinality_eq,?_,fun other => ?_⟩
    · rw [DeletionVector.contains, Bool.and_eq_true, decide_eq_true_eq, decide_eq_true_eq,
        mem_toRoaringTreemap]
      constructor
      · rintro ⟨_,inside⟩
        exact ⟨_,_,inside,Nat.div_add_mod' p _⟩
      · rintro ⟨key,low,inside,rfl⟩
        have high : key < 2 ^ 31 := by
          by_contra high
          rw [empty key (mem_keys inside) (by omega)] at inside
          cases inside
        have top : (key * 2 ^ 32 + low.val) / 2 ^ 32 = key := by omega
        have bottom : Fin.ofNat (2 ^ 32) (key * 2 ^ 32 + low.val) = low :=
          Fin.ext (by rw [Fin.val_ofNat]; omega)
        rw [top, bottom]
        exact ⟨by omega,inside⟩
    · simp [isEmpty, toRoaringTreemap, ← not_nonempty_iff_eq_empty, biUnion_nonempty]
    · ext p
      simp only [mem_union, mem_toRoaringTreemap, merge, or_and_right, exists_or]

theorem readBitmaps_written (codec : RoaringCodec) (src dv : DeletionVector) {keys : List Nat} (distinct : keys.Nodup)
    (fresh : ∀ key ∈ keys, key ∉ dv.keys ∧ key < 2 ^ 32) :
    ∃ dv', readBitmaps codec keys.length
        (keys.flatMap fun key => leBytes 4 key ++ codec.serialize (src.bitmap key)) dv = .ok (dv', []) ∧
      dv'.keys = dv.keys ∪ keys.toFinset ∧
      ∀ key, dv'.bitmap key = if key ∈ keys then src.bitmap key else dv.bitmap key := by
  induction keys generalizing dv with
  | nil => exact ⟨dv,rfl,by simp,by simp⟩
  | cons key keys ih =>
    obtain ⟨⟨new,small⟩,fresh⟩ := List.forall_mem_cons.mp fresh
    obtain ⟨once,distinct⟩ := List.nodup_cons.mp distinct
    obtain ⟨dv',done,listed,mapped⟩ := ih (dv.put key (src.bitmap key)) distinct fun other inside =>
      ⟨by simp [put, (fresh other inside).1, show other ≠ key by rintro rfl; exact once inside],
        (fresh other inside).2⟩
    refine ⟨dv',?_,?_,fun other => ?_⟩
    · have read : fromLe (leBytes 4 key) = key := by
        rw [fromLe_leBytes]
        omega
      rw [List.flatMap_cons, List.append_assoc, List.length_cons, readBitmaps]
      simp only [List.take_left' (length_leBytes 4 key), List.drop_left' (length_leBytes 4 key), read,
        codec.restores, guardThat, new, bind, Except.bind]
      simpa using done
    · rw [listed, put]
      ext other
      simp
    · rw [mapped, put]
      by_cases same : other = key
      · simp [same, once]
      · simp [same]

theorem from_to_payload (keys : ∀ key ∈ dv.keys, key < 2 ^ 32) (fits : (dv.body codec).length < 2 ^ 32) :
    ∃ payload, toIcebergPayload codec crc dv = .ok payload ∧ fromIcebergPayload codec crc payload = .ok dv := by
  have few : dv.keys.card ≤ 2 ^ 32 := by
    simpa using card_le_card fun key member => mem_range.mpr (keys key member)
  obtain ⟨dv',read,listed,mapped⟩ := readBitmaps_written codec dv empty
    (dv.keys.sort_nodup (· ≤ ·)) fun key member =>
      ⟨by simp [empty],keys key ((mem_sort _).mp member)⟩
  have same : dv' = dv := by
    refine DeletionVector.ext (by simpa [empty] using listed) (funext fun key => ?_)
    rw [mapped]
    by_cases member : key ∈ dv.keys
    · simp [member]
    · simp [member, empty, dv.absent key member]
  have length : (dv.body codec).length < 256 ^ 4 := fits
  have long : 12 ≤ (dv.body codec).length := by
    simp only [body, List.length_append, length_leBytes, magic, List.length_cons]
    omega
  have front : (dv.body codec).take 4 = magic := rfl
  have count : ((dv.body codec).drop 4).take 8 = leBytes 8 dv.keys.card := rfl
  have back : (dv.body codec).drop 12 =
    (dv.keys.sort (· ≤ ·)).flatMap fun key => leBytes 4 key ++ codec.serialize (dv.bitmap key) := rfl
  refine ⟨_,by rw [toIcebergPayload, guardThat, if_pos (by simpa using fits)]; rfl,?_⟩
  generalize dv.body codec = bytes at *
  have four : (leBytes 4 bytes.length).reverse.length = 4 := by simp
  have size : fromLe (leBytes 4 bytes.length) = bytes.length := by
    rw [fromLe_leBytes, Nat.mod_eq_of_lt length]
  have bitmaps : fromLe (leBytes 8 dv.keys.card) = (dv.keys.sort (· ≤ ·)).length := by
    rw [fromLe_leBytes, length_sort]
    omega
  simp only [fromIcebergPayload, List.append_assoc, List.take_left' four, List.reverse_reverse, size,
    ← List.drop_drop, List.drop_left' four, List.take_left, List.drop_left, front, count, back, bitmaps,
    read, fromLe_leBytes, bind, Except.bind, guardThat]
  simp [same]
  rw [if_pos (by omega), if_pos (by omega)]
  rfl

theorem deletion_vector_iff (codec : RoaringCodec) (crc : List Nat → Nat) :
    (∀ dv : DeletionVector, (∀ key ∈ dv.keys, key < 2 ^ 31) →
      ((∃ payload, toIcebergPayload codec crc dv = .ok payload ∧
        fromIcebergPayload codec crc payload = .ok dv) ↔ (dv.body codec).length < 2 ^ 32)) ∧
    ∀ payload dv, fromIcebergPayload codec crc payload = .ok dv →
      (dv.Agree ↔ ∀ key ∈ dv.keys, 2 ^ 31 ≤ key → dv.bitmap key = ∅) := by
  refine ⟨fun dv keys => ⟨?_,from_to_payload fun key member => (keys key member).trans (by decide)⟩,
    fun _ dv _ => dv.agree_iff⟩
  rintro ⟨payload,written,_⟩
  obtain ⟨_,fits,_⟩ := bind_ok written
  simpa using guardThat_ok fits

def highKey : DeletionVector :=
  empty.put (2 ^ 31) {0}

/-- With any codec: the payload is accepted, its one bitmap counts, and no position is in it. -/
theorem highKey_accepted (crc : List Nat → Nat) (fits : (highKey.body codec).length < 2 ^ 32) :
    ∃ payload, fromIcebergPayload codec crc payload = .ok highKey ∧ highKey.cardinality = 1 ∧
      2 ^ 63 ∈ highKey.toRoaringTreemap ∧ highKey.contains (2 ^ 63) = false := by
  have small : ∀ key ∈ highKey.keys, key < 2 ^ 32 := by decide
  obtain ⟨payload,-,read⟩ := from_to_payload small fits
  exact ⟨payload,read,by decide,by decide,by decide⟩

def listedCodec : RoaringCodec where
  serialize bitmap := bitmap.card :: (bitmap.sort (· ≤ ·)).map Fin.val
  deserialize
    | [] => .error "failed to fill whole buffer"
    | count :: bytes => .ok (((bytes.take count).map (Fin.ofNat (2 ^ 32))).toFinset, bytes.drop count)
  restores bitmap rest := by
    have size : ((bitmap.sort (· ≤ ·)).map Fin.val).length = bitmap.card := by simp
    simp [Function.comp_def]

theorem high_key_uncontained :
    ∃ payload, fromIcebergPayload listedCodec (fun _ => 0) payload = .ok highKey ∧
      highKey.cardinality = 1 ∧ 2 ^ 63 ∈ highKey.toRoaringTreemap ∧
      highKey.contains (2 ^ 63) = false :=
  highKey_accepted _ (by simp [body, highKey, put, empty, listedCodec, magic])

end DeletionVector

end NovaRocks.Iceberg
