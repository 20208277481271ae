import Maqistor.Lib.Binary64
import Maqistor.Results.Hysteresis

/-! The size of an adaptive batch. It is multiplied by a factor above or below one, once three
samples in a row agree on the direction, and stays between two limits. The factors are binary64
numbers, and so is the product before it is rounded to a whole number: the size moves at least by
one in the direction that was confirmed until it reaches the limit there. -/

namespace Maqistor

open Binary64

/-- A moving average that weighs the last samples most. -/
structure Ewma where
  alpha : Float
  value : Option Float

namespace Ewma

def new (window : UInt64) : Ewma := { alpha := 2.0 / (window.toFloat + 1.0), value := none }

/-- Samples that are negative or not finite are left out. -/
def observe (ewma : Ewma) (sample : Float) : Ewma :=
  if sample.isFinite = false ∨ sample < 0.0 then ewma
  else
    { ewma with
      value := match ewma.value with
        | some value => some (ewma.alpha * sample + (1.0 - ewma.alpha) * value)
        | none => some sample }

end Ewma

structure AdaptiveBatch where
  min : UInt64
  max : UInt64
  size : UInt64
  probeFactor : Float
  backoffFactor : Float
  direction : DirectionStreak

/-- `Ord::clamp`. -/
def clamp (value low high : UInt64) : UInt64 :=
  if value < low then low else if high < value then high else value

namespace AdaptiveBatch

def new (min max : UInt64) (probeFactor backoffFactor : Float) : AdaptiveBatch :=
  { min := min, max := max
    size := clamp (roundToUInt64 (min.toFloat * max.toFloat).sqrt) min max
    probeFactor := probeFactor, backoffFactor := backoffFactor, direction := .fresh }

def setSize (batch : AdaptiveBatch) (size : UInt64) : AdaptiveBatch :=
  { batch with size := clamp size batch.min batch.max }

/-- The size that a confirmed direction leads to. -/
def resized (batch : AdaptiveBatch) (direction : Int) : UInt64 :=
  if direction = 1 then ceilToUInt64 (batch.size.toFloat * batch.probeFactor)
  else if direction = -1 then floorToUInt64 (batch.size.toFloat * batch.backoffFactor)
  else batch.size

/-- `observe_direction`, with whether the size has changed. -/
def observeDirection (batch : AdaptiveBatch) (direction : Int) : AdaptiveBatch × Bool :=
  let (streak, confirmed) := batch.direction.confirm direction
  let observed := { batch with direction := streak }
  if confirmed then
    let resized := observed.setSize (batch.resized direction)
    (resized, decide (resized.size ≠ batch.size))
  else (observed, false)

def resetDirection (batch : AdaptiveBatch) : AdaptiveBatch :=
  { batch with direction := (batch.direction.confirm 0).1 }

/-- Limits and factors as `BatchOptions::validate` lets them through, and a size between the
limits. -/
structure Valid (batch : AdaptiveBatch) : Prop where
  min_pos : batch.min ≠ 0
  min_le : batch.min ≤ batch.size
  le_max : batch.size ≤ batch.max
  probe_finite : batch.probeFactor.isFinite = true
  probe_above : ¬batch.probeFactor ≤ 1.0
  backoff_nonneg : 0.0 ≤ batch.backoffFactor
  backoff_below : batch.backoffFactor < 1.0

end AdaptiveBatch

/-! ### Limits -/

theorem toNat_clamp {value low high : UInt64} (h : low ≤ high) :
    (clamp value low high).toNat = max low.toNat (min value.toNat high.toNat) := by
  rw [UInt64.le_iff_toNat_le] at h
  unfold clamp
  simp only [UInt64.lt_iff_toNat_lt]
  split
  · omega
  · split <;> omega

namespace AdaptiveBatch

variable {batch : AdaptiveBatch} {direction : Int}

theorem Valid.limits (h : batch.Valid) : batch.min ≤ batch.max := UInt64.le_trans h.min_le h.le_max

theorem Valid.size_ne_zero (h : batch.Valid) : batch.size ≠ 0 := by
  intro hzero
  have hle := UInt64.le_iff_toNat_le.mp h.min_le
  rw [hzero] at hle
  exact h.min_pos (UInt64.toNat_inj.mp (Nat.le_zero.mp hle))

theorem Valid.setSize (h : batch.Valid) (size : UInt64) : (batch.setSize size).Valid := by
  have hclamp := @toNat_clamp size _ _ h.limits
  have hlimits := UInt64.le_iff_toNat_le.mp h.limits
  refine ⟨h.min_pos, ?_, ?_, h.probe_finite, h.probe_above, h.backoff_nonneg, h.backoff_below⟩
  · rw [UInt64.le_iff_toNat_le]
    show batch.min.toNat ≤ (clamp size batch.min batch.max).toNat
    omega
  · rw [UInt64.le_iff_toNat_le]
    show (clamp size batch.min batch.max).toNat ≤ batch.max.toNat
    omega

/-- How far the size can move in a direction. -/
def room (batch : AdaptiveBatch) (direction : Int) : Nat :=
  if direction = 1 then batch.max.toNat - batch.size.toNat
  else batch.size.toNat - batch.min.toNat

@[simp] theorem room_up (batch : AdaptiveBatch) : batch.room 1 = batch.max.toNat - batch.size.toNat := rfl

@[simp] theorem room_down (batch : AdaptiveBatch) :
    batch.room (-1) = batch.size.toNat - batch.min.toNat := rfl

/-- A confirmed direction moves the size by at least one, as far as there is room. -/
theorem Valid.room_resized (h : batch.Valid) (hdirection : direction = 1 ∨ direction = -1) :
    (batch.setSize (batch.resized direction)).room direction ≤ batch.room direction - 1 := by
  have hclamp := @toNat_clamp (batch.resized direction) _ _ h.limits
  have hlimits := UInt64.le_iff_toNat_le.mp h.limits
  have hmin := UInt64.le_iff_toNat_le.mp h.min_le
  have hmax := UInt64.le_iff_toNat_le.mp h.le_max
  have hmost := batch.max.toNat_lt
  rcases hdirection with rfl | rfl
  · have hprobe := lt_ceil_mul h.size_ne_zero h.probe_finite h.probe_above
    have hsize : UInt64.size = 2 ^ 64 := rfl
    show batch.max.toNat - (clamp (batch.resized 1) batch.min batch.max).toNat ≤
      batch.max.toNat - batch.size.toNat - 1
    rw [resized, if_pos rfl] at hclamp ⊢
    omega
  · have hbackoff := UInt64.lt_iff_toNat_lt.mp
      (floor_mul_lt h.size_ne_zero h.backoff_nonneg h.backoff_below)
    show (clamp (batch.resized (-1)) batch.min batch.max).toNat - batch.min.toNat ≤
      batch.size.toNat - batch.min.toNat - 1
    rw [resized, if_neg (by decide), if_pos rfl] at hclamp ⊢
    omega

theorem Valid.withDirection (h : batch.Valid) (streak : DirectionStreak) :
    { batch with direction := streak }.Valid :=
  ⟨h.min_pos, h.min_le, h.le_max, h.probe_finite, h.probe_above, h.backoff_nonneg, h.backoff_below⟩

theorem Valid.observeDirection (h : batch.Valid) (direction : Int) :
    (batch.observeDirection direction).1.Valid := by
  unfold AdaptiveBatch.observeDirection
  dsimp only
  split
  · exact (h.withDirection _).setSize _
  · exact h.withDirection _

theorem observeDirection_of_confirmed (h : (batch.direction.confirm direction).2 = true) :
    (batch.observeDirection direction).1 =
      { batch with direction := (batch.direction.confirm direction).1 }.setSize
        (batch.resized direction) := by
  unfold AdaptiveBatch.observeDirection
  dsimp only
  rw [if_pos h]

theorem observeDirection_of_not_confirmed (h : (batch.direction.confirm direction).2 = false) :
    (batch.observeDirection direction).1 =
      { batch with direction := (batch.direction.confirm direction).1 } := by
  unfold AdaptiveBatch.observeDirection
  dsimp only
  rw [if_neg (by rw [h]; decide)]

theorem observeDirection_direction (batch : AdaptiveBatch) (direction : Int) :
    (batch.observeDirection direction).1.direction = (batch.direction.confirm direction).1 := by
  cases h : (batch.direction.confirm direction).2 with
  | true => rw [observeDirection_of_confirmed h, AdaptiveBatch.setSize]
  | false => rw [observeDirection_of_not_confirmed h]

/-- The size changes only when a direction is confirmed, and then not against it. -/
theorem Valid.observeDirection_size (h : batch.Valid)
    (hdirection : direction = 1 ∨ direction = 0 ∨ direction = -1) :
    (batch.observeDirection direction).1.size = batch.size ∨
      (batch.direction.confirm direction).2 = true ∧
        (direction = 1 ∧ batch.size < (batch.observeDirection direction).1.size ∨
          direction = -1 ∧ (batch.observeDirection direction).1.size < batch.size) := by
  cases hconfirm : (batch.direction.confirm direction).2 with
  | false =>
    rw [observeDirection_of_not_confirmed hconfirm]
    exact Or.inl rfl
  | true =>
    by_cases hsame : (batch.observeDirection direction).1.size = batch.size
    · exact Or.inl hsame
    · have hne : (batch.observeDirection direction).1.size.toNat ≠ batch.size.toNat :=
        fun heq => hsame (UInt64.toNat_inj.mp heq)
      have hmin := UInt64.le_iff_toNat_le.mp h.min_le
      have hmax := UInt64.le_iff_toNat_le.mp h.le_max
      have hmin' := UInt64.le_iff_toNat_le.mp (h.observeDirection direction).min_le
      have hmax' := UInt64.le_iff_toNat_le.mp (h.observeDirection direction).le_max
      rw [UInt64.lt_iff_toNat_lt, UInt64.lt_iff_toNat_lt]
      rw [observeDirection_of_confirmed hconfirm] at hne hmin' hmax' ⊢
      refine Or.inr ⟨rfl, ?_⟩
      rcases hdirection with rfl | rfl | rfl
      · refine Or.inl ⟨rfl, ?_⟩
        have hroom := h.room_resized (Or.inl rfl)
        simp only [room_up, AdaptiveBatch.setSize] at hroom hne hmin' hmax' ⊢
        omega
      · cases hconfirm
      · refine Or.inr ⟨rfl, ?_⟩
        have hroom := h.room_resized (Or.inr rfl)
        simp only [room_down, AdaptiveBatch.setSize] at hroom hne hmin' hmax' ⊢
        omega

/-! ### Progress -/

end AdaptiveBatch

namespace DirectionStreak

variable {streak : DirectionStreak} {direction : Int}

/-- How many samples in a row have had a direction. -/
def agreeing (streak : DirectionStreak) (direction : Int) : Nat :=
  if streak.direction = direction then streak.samples else 0

theorem agreeing_sample (hfew : streak.samples < 3) (direction : Int) :
    (streak.sample direction).samples = streak.agreeing direction + 1 := by
  unfold sample agreeing
  split
  · exact Nat.min_eq_left (by omega)
  · rfl

/-- A direction that is not confirmed yet has one sample more, one that is starts again after its
third. -/
theorem confirm_agreeing (hfew : streak.samples < 3) (hdirection : direction ≠ 0) :
    (streak.confirm direction).1.agreeing direction =
      if (streak.confirm direction).2 then 0 else streak.agreeing direction + 1 := by
  have hsample := agreeing_sample hfew direction
  unfold confirm
  rw [if_neg hdirection]
  split
  · rw [if_pos rfl, agreeing, ite_self]
  · rw [if_neg Bool.false_ne_true, agreeing, if_pos (sample_direction streak direction), hsample]

theorem confirm_confirmed (hfew : streak.samples < 3) (hdirection : direction ≠ 0) :
    (streak.confirm direction).2 = true ↔ 2 ≤ streak.agreeing direction := by
  have hsample := agreeing_sample hfew direction
  unfold confirm
  rw [if_neg hdirection, hsample]
  split
  · next hthird => exact ⟨fun _ => by omega, fun _ => rfl⟩
  · next hthird => exact ⟨fun h => absurd h Bool.false_ne_true, fun h => absurd (by omega) hthird⟩

end DirectionStreak

namespace AdaptiveBatch

variable {batch : AdaptiveBatch} {direction : Int}

/-- An upper bound of the samples in a direction that are still needed to get to the limit there. -/
def lag (batch : AdaptiveBatch) (direction : Int) : Nat :=
  3 * batch.room direction + (2 - batch.direction.agreeing direction)

theorem Valid.observeDirection_lag (h : batch.Valid) (hfew : batch.direction.samples < 3)
    (hdirection : direction = 1 ∨ direction = -1) :
    (batch.observeDirection direction).1.room direction = 0 ∨
      (batch.observeDirection direction).1.lag direction + 1 ≤ batch.lag direction := by
  have hdirection' : direction ≠ 0 := by omega
  have hagreeing := DirectionStreak.confirm_agreeing hfew hdirection'
  have hconfirmed := DirectionStreak.confirm_confirmed hfew hdirection'
  have hfew' : batch.direction.agreeing direction < 3 := by
    unfold DirectionStreak.agreeing
    split
    · exact hfew
    · decide
  unfold lag
  rw [observeDirection_direction, hagreeing]
  cases hconfirm : (batch.direction.confirm direction).2 with
  | true =>
    have htwo := hconfirmed.mp hconfirm
    have hroom := h.room_resized hdirection
    rw [observeDirection_of_confirmed hconfirm]
    show (batch.setSize (batch.resized direction)).room direction = 0 ∨
      3 * (batch.setSize (batch.resized direction)).room direction + (2 - 0) + 1 ≤ _
    omega
  | false =>
    have hfewer : ¬2 ≤ batch.direction.agreeing direction := fun htwo => by
      rw [hconfirmed.mpr htwo] at hconfirm
      cases hconfirm
    rw [observeDirection_of_not_confirmed hconfirm]
    show batch.room direction = 0 ∨
      3 * batch.room direction + (2 - (batch.direction.agreeing direction + 1)) + 1 ≤ _
    omega

end AdaptiveBatch

end Maqistor
