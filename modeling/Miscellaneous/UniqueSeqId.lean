import Miscellaneous.DecimalText
import Miscellaneous.DigitTexts
import Mathlib.Tactic

/-!
# Sequence ids

`GenerateUniqueSeqId` of `generate_unique_seq_id/main.cpp`.  The clock, the
random numbers and the hash function of the library are given.  The counter is
in every id, but the two hashes are printed without a separator, so two ids are
the same text where the hexadecimal digits can be divided in two ways.
-/

namespace Miscellaneous.UniqueSeqId

open DecimalText DigitTexts TextStreams

/-- What a call gets from the clock and from the random numbers. -/
structure Reading where
  tsMs : ℤ
  draw : ℕ
  deriving DecidableEq

structure Generated where
  sCounter : Int64
  console : Text
  ss : Text
  returned : Text

def timeText (reading : Reading) : Text :=
  printInteger reading.tsMs ++ Nat.toDigits 10 reading.draw

def counterText (sCounter : Int64) : Text := printInteger sCounter.toInt

def hexText (hashNum : UInt64) : Text := Nat.toDigits 16 hashNum.toNat

/-- The id is left in the stream; the function returns an empty string. -/
def generateUniqueSeqId (hash : Text → UInt64) (sCounter : Int64)
    (reading : Reading) : Generated :=
  let ss := timeText reading
  let hashNum1 := hash ss
  let sCounter := sCounter + 1
  let hashNum2 := hash (counterText sCounter)
  let id := hexText hashNum1 ++ hexText hashNum2
  { sCounter
    console := "=====\n".toList ++ ss ++ ['\n'] ++
      Nat.toDigits 10 hashNum1.toNat ++ [' ', ' '] ++
      Nat.toDigits 10 hashNum2.toNat ++ ['\n'] ++ id ++ ['\n']
    ss := id
    returned := [] }

/-- One call after another, as `main` does. -/
def run (hash : Text → UInt64) : Int64 → List Reading → List Generated
  | _, [] => []
  | sCounter, reading :: readings =>
      let generated := generateUniqueSeqId hash sCounter reading
      generated :: run hash generated.sCounter readings

def ids (hash : Text → UInt64) (readings : List Reading) : List Text :=
  (run hash 0 readings).map Generated.ss

/-- The counter in the call at a position. -/
def counterAt (k : ℕ) : Int64 := Int64.ofNat (k + 1)

def hashedTexts (readings : List Reading) : List Text :=
  readings.map timeText ++
    (List.range readings.length).map fun k => counterText (counterAt k)

def InjectiveOn (hash : Text → UInt64) (texts : List Text) : Prop :=
  ∀ text ∈ texts, ∀ other ∈ texts, hash text = hash other → text = other

instance (hash : Text → UInt64) (texts : List Text) :
    Decidable (InjectiveOn hash texts) :=
  inferInstanceAs (Decidable (∀ text ∈ texts, ∀ other ∈ texts,
    hash text = hash other → text = other))

def timeHash (hash : Text → UInt64) (reading : Reading) : ℕ :=
  (hash (timeText reading)).toNat

def counterHash (hash : Text → UInt64) (k : ℕ) : ℕ :=
  (hash (counterText (counterAt k))).toNat

/-- No digits of a counter's hash can go over to the hash before it so that the
hashes of another call result, and calls with the same counter have different
times. -/
def DividesOneWay (hash : Text → UInt64) (readings : List Reading) : Prop :=
  ∀ i j, ∀ (hi : i < readings.length) (hj : j < readings.length), i ≠ j →
    ¬Shifted 16 (timeHash hash readings[i]) (counterHash hash i)
        (timeHash hash readings[j]) (counterHash hash j) ∧
      (counterAt i = counterAt j →
        timeText readings[i] ≠ timeText readings[j])

/-! ## The ids of a run -/

theorem printInteger_injective : Function.Injective printInteger := by
  intro z z' hsame
  have hread := fun z : ℤ => @scanInteger_printInteger z [] (by simp)
  have hscan := hread z
  rw [hsame, hread z'] at hscan
  exact (Option.some.inj (congrArg Prod.fst hscan)).symm

theorem counterText_injective : Function.Injective counterText :=
  printInteger_injective.comp fun _ _ => Int64.toInt_inj.mp

theorem counterAt_succ (k : ℕ) : counterAt (k + 1) = 1 + counterAt k := by
  rw [counterAt, Int64.ofNat_add, Int64.add_comm]
  rfl

theorem map_ss_run (hash : Text → UInt64) (sCounter : Int64)
    (readings : List Reading) :
    (run hash sCounter readings).map Generated.ss =
      readings.mapIdx fun k reading =>
        hexText (hash (timeText reading)) ++
          hexText (hash (counterText (sCounter + counterAt k))) := by
  induction readings generalizing sCounter with
  | nil => rfl
  | cons reading readings ih =>
      rw [run, List.map_cons, ih, List.mapIdx_cons]
      simp only [counterAt_succ, ← Int64.add_assoc]
      rfl

theorem ids_eq (hash : Text → UInt64) (readings : List Reading) :
    ids hash readings = readings.mapIdx fun k reading =>
      Nat.toDigits 16 (timeHash hash reading) ++
        Nat.toDigits 16 (counterHash hash k) := by
  rw [ids, map_ss_run]
  simp only [Int64.zero_add]
  rfl

section Calls

variable {hash : Text → UInt64} {readings : List Reading}
variable (hinjective : InjectiveOn hash (hashedTexts readings))

include hinjective

theorem counterHash_inj {i j : ℕ} (hi : i < readings.length)
    (hj : j < readings.length) :
    counterHash hash i = counterHash hash j ↔ counterAt i = counterAt j := by
  have hmem (k : ℕ) (hk : k < readings.length) :
      counterText (counterAt k) ∈ hashedTexts readings := by
    apply List.mem_append_right
    exact List.mem_map_of_mem (List.mem_range.mpr hk)
  rw [counterHash, counterHash, UInt64.toNat_inj]
  constructor
  · intro hsame
    exact counterText_injective
      (hinjective _ (hmem i hi) _ (hmem j hj) hsame)
  · intro hsame
    rw [hsame]

theorem timeHash_inj {reading other : Reading} (hreading : reading ∈ readings)
    (hother : other ∈ readings) :
    timeHash hash reading = timeHash hash other ↔
      timeText reading = timeText other := by
  rw [timeHash, timeHash, UInt64.toNat_inj]
  constructor
  · intro hsame
    exact hinjective _ (List.mem_append_left _ (List.mem_map_of_mem hreading))
      _ (List.mem_append_left _ (List.mem_map_of_mem hother)) hsame
  · intro hsame
    rw [hsame]

/-- Two calls have the same id if they have the same counter and time, or if the
digits can be divided as those of the other call. -/
theorem id_eq_iff {i j : ℕ} (hi : i < readings.length)
    (hj : j < readings.length) :
    Nat.toDigits 16 (timeHash hash readings[i]) ++
          Nat.toDigits 16 (counterHash hash i) =
        Nat.toDigits 16 (timeHash hash readings[j]) ++
          Nat.toDigits 16 (counterHash hash j) ↔
      (timeText readings[i] = timeText readings[j] ∧
          counterAt i = counterAt j) ∨
        Shifted 16 (timeHash hash readings[i]) (counterHash hash i)
          (timeHash hash readings[j]) (counterHash hash j) ∨
        Shifted 16 (timeHash hash readings[j]) (counterHash hash j)
          (timeHash hash readings[i]) (counterHash hash i) := by
  rw [toDigits_append_eq_iff_shifted (by decide) le_rfl,
    timeHash_inj hinjective (List.getElem_mem hi) (List.getElem_mem hj),
    counterHash_inj hinjective hi hj]

/-- The ids of a run are different exactly if the hexadecimal digits can be
divided in one way only. -/
theorem ids_nodup_iff :
    (ids hash readings).Nodup ↔ DividesOneWay hash readings := by
  rw [ids_eq, List.nodup_iff_pairwise_ne, List.pairwise_iff_getElem]
  simp only [List.length_mapIdx, List.getElem_mapIdx]
  constructor
  · intro hne i j hi hj hij
    have hdifferent := id_eq_iff hinjective hi hj
    have hids : Nat.toDigits 16 (timeHash hash readings[i]) ++
          Nat.toDigits 16 (counterHash hash i) ≠
        Nat.toDigits 16 (timeHash hash readings[j]) ++
          Nat.toDigits 16 (counterHash hash j) := by
      rcases lt_or_gt_of_ne hij with hlt | hgt
      · exact hne i j hi hj hlt
      · exact (hne j i hj hi hgt).symm
    rw [Ne, hdifferent, not_or, not_or] at hids
    exact ⟨hids.2.1, fun hcounter htime => hids.1 ⟨htime, hcounter⟩⟩
  · intro hone i j hi hj hij
    rw [Ne, id_eq_iff hinjective hi hj, not_or, not_or]
    refine ⟨?_, (hone i j hi hj hij.ne).1, (hone j i hj hi hij.ne').1⟩
    rintro ⟨htime, hcounter⟩
    exact (hone i j hi hj hij.ne).2 hcounter htime

end Calls

def spreadHash (text : Text) : UInt64 :=
  if text = ['1', '0'] then 0x10
  else if text = ['1'] then 0x20
  else if text = ['2', '1'] then 0x30
  else 0x40

def twoReadings : List Reading := [⟨1, 0⟩, ⟨2, 1⟩]

theorem ids_nodup_iff_two : DividesOneWay spreadHash twoReadings :=
  (ids_nodup_iff (by decide)).mp (by decide)

/-- One digit of the second hash of the first call is in the first hash of the
second call. -/
def shiftedHash (text : Text) : UInt64 :=
  if text = ['1', '0'] then 0x1
  else if text = ['1'] then 0x23
  else if text = ['2', '1'] then 0x12
  else 0x3

theorem ids_nodup_fails :
    ¬∀ (hash : Text → UInt64) (readings : List Reading),
      readings.Pairwise (fun first second => first.tsMs ≤ second.tsMs) →
      (∀ reading ∈ readings, reading.draw ≤ 100000) →
      InjectiveOn hash (hashedTexts readings) →
        (ids hash readings).Nodup := by
  intro hall
  have hnodup := hall shiftedHash twoReadings (by decide) (by decide) (by decide)
  exact absurd hnodup (by decide)

end Miscellaneous.UniqueSeqId
