import EtherCATMaster.Math.Numeral
import Mathlib.Algebra.Order.Floor.Semiring
import Mathlib.Algebra.Order.Field.Basic
import Mathlib.Tactic.Linarith
import Mathlib.Tactic.Positivity

namespace EtherCATMaster.Math

/-- Limits of a ramp toward a point: the top speed, how fast the speed may rise and fall, and
the slack in distance and in speed within which the walk has arrived. -/
structure RampLimits (R : Type*) [Zero R] [LT R] [LE R] where
  maxSpeed : R
  rise : R
  fall : R
  slack : R
  maxSpeed_pos : 0 < maxSpeed
  rise_pos : 0 < rise
  fall_pos : 0<fall
  slack_nonneg : 0 ≤ slack

variable {R : Type*} [Field R] [LinearOrder R] [IsStrictOrderedRing R]

/-- A walk that has not arrived: what is left of the way and the speed along it. -/
@[ext] structure Ramp (limits : RampLimits R) where
  left : R
  speed : R
  left_pos : 0<left
  speed_nonneg : 0 ≤ speed
  speed_le : speed ≤ limits.maxSpeed

namespace Ramp

variable {limits : RampLimits R}

def Brakes (r : Ramp limits) : Prop :=
  r.left ≤ r.speed*r.speed/(2*limits.fall)+limits.slack

instance (r : Ramp limits) : Decidable r.Brakes := inferInstanceAs (Decidable (_ ≤ _))

def nextSpeed (r : Ramp limits) (dt : R) : R :=
  if r.Brakes then max (r.speed-limits.fall*dt) 0
  else min (r.speed+limits.rise*dt) limits.maxSpeed

theorem nextSpeed_nonneg (r : Ramp limits) {dt : R} (hdt : 0<dt) : 0 ≤ r.nextSpeed dt := by
  have hrise := mul_pos limits.rise_pos hdt
  unfold nextSpeed
  split_ifs
  · exact le_max_right _ _
  · exact le_min (by linarith [r.speed_nonneg]) limits.maxSpeed_pos.le

theorem nextSpeed_le (r : Ramp limits) {dt : R} (hdt : 0<dt) : r.nextSpeed dt ≤ limits.maxSpeed := by
  have hfall := mul_pos limits.fall_pos hdt
  unfold nextSpeed
  split_ifs
  · exact max_le (by linarith [r.speed_le]) limits.maxSpeed_pos.le
  · exact min_le_right _ _

/-- The walk ends in this step: it is near enough already, or the step covers what is left. -/
def Arrives (r : Ramp limits) (dt : R) : Prop :=
  (r.left ≤ limits.slack ∧ r.speed ≤ limits.slack) ∨ r.left ≤ r.nextSpeed dt*dt

instance (r : Ramp limits) (dt : R) : Decidable (r.Arrives dt) :=
  inferInstanceAs (Decidable (_ ∨ _))

/-- The walk after a step that does not end it. -/
def next (r : Ramp limits) (dt : R) (hdt : 0<dt) (h : ¬r.Arrives dt) : Ramp limits where
  left := r.left-r.nextSpeed dt*dt
  speed := r.nextSpeed dt
  left_pos := by
    unfold Arrives at h
    push Not at h
    linarith [h.2]
  speed_nonneg := r.nextSpeed_nonneg hdt
  speed_le := r.nextSpeed_le hdt

def stride (limits : RampLimits R) (dt : R) : R := min (limits.rise*dt) limits.maxSpeed*dt

theorem stride_pos (limits : RampLimits R) {dt : R} (hdt : 0<dt) : 0 < stride limits dt :=
  mul_pos (lt_min (mul_pos limits.rise_pos hdt) limits.maxSpeed_pos) hdt

section Measure

variable [FloorSemiring R]

/-- The strides left, each with room for the longest braking, and the braking steps left. -/
def measure (r : Ramp limits) (dt : R) : ℕ :=
  ⌊r.left/stride limits dt⌋₊*(⌈limits.maxSpeed/(limits.fall*dt)⌉₊+1)+
    ⌈r.speed/(limits.fall*dt)⌉₊

theorem ceil_brake_lt (x : R) (hx : 0<x) : ⌈max (x-1) 0⌉₊<⌈x⌉₊ := by
  rw [Nat.lt_ceil]
  rcases le_total (x-1) 0 with h|h
  · rw [max_eq_right h,Nat.ceil_zero,Nat.cast_zero]
    exact hx
  · rw [max_eq_left h]
    have hc := Nat.ceil_lt_add_one h
    linarith

/-- Every step that does not end the walk takes something off the measure. -/
theorem next_measure_lt (r : Ramp limits) (dt : R) (hdt : 0<dt) (h : ¬r.Arrives dt) :
    (r.next dt hdt h).measure dt < r.measure dt := by
  have hs := stride_pos limits hdt
  have hf := mul_pos limits.fall_pos hdt
  have hn := r.nextSpeed_nonneg hdt
  have hna := h
  unfold Arrives at hna
  push Not at hna
  unfold measure
  change ⌊(r.left-r.nextSpeed dt*dt)/stride limits dt⌋₊*_+⌈r.nextSpeed dt/(limits.fall*dt)⌉₊<_
  by_cases hb : r.Brakes
  · -- A braking walk at rest would have arrived.
    have hspeed : 0 < r.speed := by
      by_contra hz
      have h0 : r.speed=0 := le_antisymm (not_lt.mp hz) r.speed_nonneg
      have hnear : r.left ≤ limits.slack := by simpa [Brakes,h0] using hb
      have hfar := hna.1 hnear
      linarith [limits.slack_nonneg]
    have hv : r.nextSpeed dt/(limits.fall*dt)=max (r.speed/(limits.fall*dt)-1) 0 := by
      rw [nextSpeed,if_pos hb,← max_div_div_right hf.le,zero_div,sub_div,div_self hf.ne']
    have hceil : ⌈r.nextSpeed dt/(limits.fall*dt)⌉₊<⌈r.speed/(limits.fall*dt)⌉₊ := by
      rw [hv]
      exact ceil_brake_lt _ (div_pos hspeed hf)
    have hfloor : ⌊(r.left-r.nextSpeed dt*dt)/stride limits dt⌋₊ ≤ ⌊r.left/stride limits dt⌋₊ := by
      apply Nat.floor_mono
      apply div_le_div_of_nonneg_right _ hs.le
      linarith [mul_nonneg hn hdt.le]
    have hmul := Nat.mul_le_mul_right (⌈limits.maxSpeed/(limits.fall*dt)⌉₊+1) hfloor
    omega
  · have hv : min (limits.rise*dt) limits.maxSpeed ≤ r.nextSpeed dt := by
      rw [nextSpeed,if_neg hb]
      exact min_le_min_right _ (by linarith [r.speed_nonneg])
    have hway : stride limits dt ≤ r.nextSpeed dt*dt := mul_le_mul_of_nonneg_right hv hdt.le
    have hone : 1 ≤ ⌊r.left/stride limits dt⌋₊ := by
      rw [Nat.one_le_floor_iff,one_le_div hs]
      linarith [hna.2]
    have hfloor : ⌊(r.left-r.nextSpeed dt*dt)/stride limits dt⌋₊ ≤ ⌊r.left/stride limits dt⌋₊-1 := by
      rw [← Nat.floor_sub_one]
      apply Nat.floor_mono
      rw [sub_div]
      have hq : 1 ≤ r.nextSpeed dt*dt/stride limits dt := (one_le_div hs).mpr hway
      linarith
    have hceil : ⌈r.nextSpeed dt/(limits.fall*dt)⌉₊ ≤ ⌈limits.maxSpeed/(limits.fall*dt)⌉₊ :=
      Nat.ceil_mono (div_le_div_of_nonneg_right (r.nextSpeed_le hdt) hf.le)
    obtain ⟨k,hk⟩ := Nat.exists_eq_add_of_le' hone
    rw [hk,Nat.add_sub_cancel] at hfloor
    have hmul := Nat.mul_le_mul_right (⌈limits.maxSpeed/(limits.fall*dt)⌉₊+1) hfloor
    rw [hk,Nat.succ_mul]
    omega

end Measure

end Ramp

end EtherCATMaster.Math
