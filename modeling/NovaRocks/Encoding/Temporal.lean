import NovaRocks.Store.Checked
import Mathlib.Algebra.Order.Ring.Int
import Mathlib.Data.Nat.Bitwise
import Mathlib.Tactic.Ring

/-!
DATE and DATETIME columns in a segment. A date is stored as its Julian day; a timestamp as the
Julian day above the forty bits of the microseconds of the day.
-/
namespace NovaRocks.Encoding

abbrev FitsBits (bits : Nat) (x : Int) : Prop :=
  -2 ^ (bits - 1) ≤ x ∧ x < 2 ^ (bits - 1)

def narrow (bits : Nat) (x : Int) (message : String) : Except String Int :=
  if FitsBits bits x then .ok x else .error message

theorem narrow_ok (done : narrow bits x message = .ok y) : y = x ∧ FitsBits bits x := by
  unfold narrow at done
  split at done
  · cases done
    exact ⟨rfl,‹_›⟩
  · cases done

theorem narrow_of_fits (fits : FitsBits bits x) (message : String) : narrow bits x message = .ok x :=
  if_pos fits

def dateUnixEpochJulian : Int := 2440588

def usecsPerDay : Int := 86400000000

def timestampBits : Nat := 40

def timestampTimeMask : Nat := 2 ^ timestampBits - 1

def encodeDateStorageFromUnixDays (unixDays : Int) : Except String Int := do
  let julian ← narrow 64 (dateUnixEpochJulian + unixDays)
    s!"date julian day overflow: unix_days={unixDays}, epoch_julian={dateUnixEpochJulian}"
  narrow 32 julian
    s!"date julian conversion out of i32 range: unix_days={unixDays}, julian_day={julian}"

/-- The shift drops the bits of the day beyond the word. -/
def encodeDatetimeStorageFromUnixMicros (unixMicros : Int) : Except String Int := do
  let days := unixMicros / usecsPerDay
  let micros := unixMicros % usecsPerDay
  guardThat (0 ≤ micros ∧ micros < usecsPerDay)
    s!"invalid datetime micros-of-day after conversion: unix_micros={unixMicros}, micros_of_day={micros}"
  let julian ← narrow 64 (dateUnixEpochJulian + days)
    s!"datetime julian day overflow: unix_micros={unixMicros}, days_since_epoch={days}"
  guardThat (0 ≤ julian)
    s!"datetime julian day underflow: unix_micros={unixMicros}, julian_day={julian}"
  let encoded : Nat := (julian.toNat <<< timestampBits) % 2 ^ 64 ||| (micros.toNat &&& timestampTimeMask)
  narrow 64 encoded s!"datetime encoded value overflow: unix_micros={unixMicros}, encoded={encoded}"

section
variable (segmentPath outputName : String)

def convertDate32JulianToUnixDays (julian : Int) : Except String Int :=
  let unixDays := julian - dateUnixEpochJulian
  narrow 32 unixDays (s!"Date32 conversion overflow for rust native reader: output_column={outputName}, " ++
    s!"segment={segmentPath}, julian_day={julian}, unix_days={unixDays}")

def convertDatetimeStorageToUnixMicros (encoded : Int) : Except String Int := do
  let place := s!"for rust native reader: output_column={outputName}, segment={segmentPath}, value={encoded}"
  guardThat (0 ≤ encoded) ("invalid DATETIME internal value " ++ place)
  let julianDay : Int := (encoded.toNat >>> timestampBits : Nat)
  let microsOfDay : Int := (encoded.toNat &&& timestampTimeMask : Nat)
  let last := usecsPerDay - 1
  guardThat (microsOfDay < usecsPerDay) ("invalid DATETIME microseconds-of-day " ++ place ++
    s!", microseconds_of_day={microsOfDay}, max_valid={last}")
  let overflow := "DATETIME conversion overflow " ++ place ++
    s!", julian_day={julianDay}, microseconds_of_day={microsOfDay}"
  let base ← narrow 64 ((julianDay - dateUnixEpochJulian) * usecsPerDay) overflow
  narrow 64 (base + microsOfDay) overflow

theorem convertDate_encodeDate (fits : FitsBits 32 d) (done : encodeDateStorageFromUnixDays d = .ok s) :
    s = dateUnixEpochJulian + d ∧ convertDate32JulianToUnixDays segmentPath outputName s = .ok d := by
  obtain ⟨julian,wide,done⟩ := bind_ok done
  obtain ⟨rfl,-⟩ := narrow_ok wide
  obtain ⟨rfl,-⟩ := narrow_ok done
  refine ⟨rfl,?_⟩
  rw [convertDate32JulianToUnixDays, show dateUnixEpochJulian + d - dateUnixEpochJulian = d by omega]
  exact narrow_of_fits fits _

/-- Only the low 24 bits of the Julian day are stored. -/
theorem encodeDatetime_ok (done : encodeDatetimeStorageFromUnixMicros x = .ok s) :
    ∃ julian micros : Nat, x = (julian - dateUnixEpochJulian) * usecsPerDay + micros ∧
      micros < usecsPerDay ∧ s = ((julian % 2 ^ 24 * 2 ^ 40 + micros : Nat) : Int) ∧ julian % 2 ^ 24 < 2 ^ 23 := by
  obtain ⟨_,inDay,done⟩ := bind_ok done
  obtain ⟨julian,wide,done⟩ := bind_ok done
  obtain ⟨_,positive,done⟩ := bind_ok done
  obtain ⟨rfl,-⟩ := narrow_ok wide
  have inDay := of_decide_eq_true (guardThat_ok inDay)
  have positive := of_decide_eq_true (guardThat_ok positive)
  obtain ⟨micros,isMicros⟩ := Int.eq_ofNat_of_zero_le inDay.1
  obtain ⟨julian,isJulian⟩ := Int.eq_ofNat_of_zero_le positive
  rw [isMicros] at inDay done
  rw [isJulian] at done
  obtain ⟨rfl,small⟩ := narrow_ok done
  have below : micros < 2 ^ 40 := by
    simp only [usecsPerDay] at inDay
    omega
  have word : (julian <<< 40) % 2 ^ 64 ||| (micros &&& timestampTimeMask) = julian % 2 ^ 24 * 2 ^ 40 + micros := by
    rw [timestampTimeMask, timestampBits, Nat.and_two_pow_sub_one_eq_mod, Nat.mod_eq_of_lt below,
      Nat.shiftLeft_eq, show (2 : Nat) ^ 64 = 2 ^ 24 * 2 ^ 40 from rfl, Nat.mul_mod_mul_right, Nat.mul_comm,
      ← Nat.two_pow_add_eq_or_of_lt below]
  have whole := Int.mul_ediv_add_emod x usecsPerDay
  rw [isMicros] at whole
  simp only [Int.toNat_natCast, timestampBits, word] at small ⊢
  refine ⟨julian,micros,?_,inDay.2,rfl,by omega⟩
  rw [← whole, ← Int.ofNat_eq_natCast, ← isJulian]
  ring

theorem convertDatetime_word {julian micros : Nat} (inDay : micros < usecsPerDay) (small : julian < 2 ^ 23) :
    convertDatetimeStorageToUnixMicros segmentPath outputName (julian * 2 ^ 40 + micros : Nat) =
      .ok ((julian - dateUnixEpochJulian) * usecsPerDay + micros) := by
  have day : (julian * 2 ^ 40 + micros) >>> timestampBits = julian := by
    rw [timestampBits, Nat.shiftRight_eq_div_pow]
    simp only [usecsPerDay] at inDay
    omega
  have time : (julian * 2 ^ 40 + micros) &&& timestampTimeMask = micros := by
    rw [timestampTimeMask, timestampBits, Nat.and_two_pow_sub_one_eq_mod]
    simp only [usecsPerDay] at inDay
    omega
  have base : FitsBits 64 ((julian - dateUnixEpochJulian) * usecsPerDay) := by
    simp only [usecsPerDay, dateUnixEpochJulian]
    omega
  have sum : FitsBits 64 ((julian - dateUnixEpochJulian) * usecsPerDay + micros) := by
    simp only [usecsPerDay, dateUnixEpochJulian] at inDay ⊢
    omega
  generalize julian * 2 ^ 40 + micros = word at day time ⊢
  have positive : (0 : Int) ≤ word := Int.natCast_nonneg _
  simp only [convertDatetimeStorageToUnixMicros, Int.toNat_natCast, day, time]
  rw [guardThat_of positive, guardThat_of inDay, narrow_of_fits base]
  exact narrow_of_fits sum _

/-- A date is read back and keeps its place. A timestamp does exactly when its Julian day has at
most 24 bits; the day 2^24 lies in the year 41222. -/
theorem temporal_storage_iff :
    (∀ d e s t, FitsBits 32 d → FitsBits 32 e → encodeDateStorageFromUnixDays d = .ok s →
      encodeDateStorageFromUnixDays e = .ok t →
        convertDate32JulianToUnixDays segmentPath outputName s = .ok d ∧ (s < t ↔ d < e)) ∧
    ∀ x y s t, FitsBits 64 x → FitsBits 64 y → encodeDatetimeStorageFromUnixMicros x = .ok s →
      encodeDatetimeStorageFromUnixMicros y = .ok t →
        ((convertDatetimeStorageToUnixMicros segmentPath outputName s = .ok x ∧
            convertDatetimeStorageToUnixMicros segmentPath outputName t = .ok y ∧ (s < t ↔ x < y)) ↔
          dateUnixEpochJulian + x / usecsPerDay < 2 ^ 24 ∧ dateUnixEpochJulian + y / usecsPerDay < 2 ^ 24) := by
  constructor
  · intro d e s t fits fits' done done'
    obtain ⟨rfl,back⟩ := convertDate_encodeDate segmentPath outputName fits done
    obtain ⟨rfl,-⟩ := convertDate_encodeDate segmentPath outputName fits' done'
    exact ⟨back,by omega⟩
  · intro x y s t _ _ done done'
    obtain ⟨julian,micros,rfl,inDay,rfl,small⟩ := encodeDatetime_ok done
    obtain ⟨julian',micros',rfl,inDay',rfl,small'⟩ := encodeDatetime_ok done'
    rw [convertDatetime_word segmentPath outputName inDay small,
      convertDatetime_word segmentPath outputName inDay' small']
    simp only [usecsPerDay, dateUnixEpochJulian, Except.ok.injEq] at inDay inDay' ⊢
    omega

end

theorem temporal_storage_iff_epoch :
    (convertDate32JulianToUnixDays "0.dat" "d" 2440588 = .ok 0 ∧ ((2440588 : Int) < 2440589 ↔ (0 : Int) < 1)) ∧
    convertDatetimeStorageToUnixMicros "0.dat" "t" (2440588 * 2 ^ 40) = .ok 0 ∧
    convertDatetimeStorageToUnixMicros "0.dat" "t" (2440588 * 2 ^ 40 + 5) = .ok 5 ∧
    ((2440588 * 2 ^ 40 : Int) < 2440588 * 2 ^ 40 + 5 ↔ (0 : Int) < 5) :=
  ⟨(temporal_storage_iff "0.dat" "d").1 0 1 2440588 2440589 (by decide) (by decide) rfl rfl,
    ((temporal_storage_iff "0.dat" "t").2 0 5 (2440588 * 2 ^ 40) (2440588 * 2 ^ 40 + 5) (by decide)
      (by decide) rfl rfl).mpr (by decide)⟩

theorem far_timestamp_wraps :
    encodeDatetimeStorageFromUnixMicros 1238684659200000000 = .ok 0 ∧
    convertDatetimeStorageToUnixMicros "0.dat" "t" 0 = .ok (-210866803200000000) :=
  ⟨rfl,rfl⟩

end NovaRocks.Encoding
