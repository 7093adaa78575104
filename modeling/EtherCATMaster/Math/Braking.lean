import EtherCATMaster.Math.Ramp
import Mathlib.Tactic.Ring

namespace EtherCATMaster.Math

variable {R : Type*} [Field R] [LinearOrder R] [IsStrictOrderedRing R]

/-- The way of so many braking steps, each of which takes its share off the speed first. -/
def brakeWay (share dt : R) : ℕ → R → R
  | 0,_ => 0
  | n+1,speed => (speed-share)*dt+brakeWay share dt n (speed-share)

theorem brakeWay_mono (share : R) {dt : R} (hdt : 0<dt) (n : ℕ) {speed speed' : R}
    (h : speed ≤ speed') : brakeWay share dt n speed ≤ brakeWay share dt n speed' := by
  induction n generalizing speed speed' with
  | zero => exact le_refl 0
  | succ n ih =>
    have hless : speed-share ≤ speed'-share := by linarith
    exact add_le_add (mul_le_mul_of_nonneg_right hless hdt.le) (ih hless)

/-- The greatest change of speed that both limits allow for in a step. -/
def RampLimits.most (limits : RampLimits R) (dt : R) : R := max limits.rise limits.fall*dt

theorem RampLimits.fall_le_most (limits : RampLimits R) {dt : R} (hdt : 0<dt) :
    limits.fall*dt ≤ limits.most dt :=
  mul_le_mul_of_nonneg_right (le_max_right _ _) hdt.le

theorem RampLimits.most_pos (limits : RampLimits R) {dt : R} (hdt : 0<dt) : 0 < limits.most dt :=
  (mul_pos limits.fall_pos hdt).trans_le (limits.fall_le_most hdt)

/-- Braking from here on does not cover what is left while the speed is more than one step may take
off. -/
def Stops (limits : RampLimits R) (dt left speed : R) : Prop :=
  ∀ k : ℕ,limits.most dt < speed-k*(limits.fall*dt) →
    brakeWay (limits.fall*dt) dt (k+1) speed<left

section Stops

variable {limits : RampLimits R} {dt left speed : R}

theorem stops_of_le (hdt : 0<dt) (h : speed ≤ limits.most dt) : Stops limits dt left speed := by
  intro k hk
  have hshare := mul_nonneg (Nat.cast_nonneg (α := R) k) (mul_pos limits.fall_pos hdt).le
  linarith

theorem fast_of_not_stops (hdt : 0<dt) (h : ¬Stops limits dt left speed) :
    limits.most dt < speed := by
  by_contra hslow
  exact h (stops_of_le hdt (not_lt.mp hslow))

theorem stops_brake (h : Stops limits dt left speed) :
    Stops limits dt (left-(speed-limits.fall*dt)*dt) (speed-limits.fall*dt) := by
  intro k hk
  have hnext := h (k+1) (by push_cast; linarith)
  rw [brakeWay] at hnext
  linarith

theorem not_stops_brake (h : ¬Stops limits dt left speed) :
    left ≤ (speed-limits.fall*dt)*dt ∨
      ¬Stops limits dt (left-(speed-limits.fall*dt)*dt) (speed-limits.fall*dt) := by
  unfold Stops at h
  push Not at h
  obtain ⟨k,hk,hway⟩ := h
  rw [brakeWay] at hway
  cases k with
  | zero =>
    left
    rw [brakeWay] at hway
    linarith
  | succ k =>
    right
    intro hstops
    have hless := hstops k (by push_cast at hk; linarith)
    linarith

theorem not_stops_mono (hdt : 0<dt) (h : ¬Stops limits dt left speed) {left' speed' : R}
    (hleft : left' ≤ left) (hspeed : speed ≤ speed') : ¬Stops limits dt left' speed' := by
  intro hstops
  apply h
  intro k hk
  have hway := hstops k (by linarith)
  exact ((brakeWay_mono _ hdt (k+1) hspeed).trans_lt hway).trans_le hleft

end Stops

/-- A step that leaves the walk the room to stop: it does not find the walk near enough while it is
still too fast, and a step that does not brake leaves the way that braking takes from then on. -/
structure Prudent (limits : RampLimits R) (dt left speed : R) : Prop where
  near : left ≤ limits.slack → speed ≤ limits.slack → speed ≤ limits.most dt
  drive : speed*speed/(2*limits.fall)+limits.slack < left →
    (left ≤ min (speed+limits.rise*dt) limits.maxSpeed*dt ∧ speed ≤ limits.most dt) ∨
    (min (speed+limits.rise*dt) limits.maxSpeed*dt<left ∧
      Stops limits dt (left-min (speed+limits.rise*dt) limits.maxSpeed*dt)
        (min (speed+limits.rise*dt) limits.maxSpeed))

theorem prudent_of_maxSpeed_le {limits : RampLimits R} {dt left speed : R} (hdt : 0<dt)
    (htop : limits.maxSpeed ≤ limits.most dt) (h : speed ≤ limits.maxSpeed) :
    Prudent limits dt left speed := by
  have hslow := h.trans htop
  refine ⟨fun _ _ => hslow,fun _ => ?_⟩
  by_cases hnear : left ≤ min (speed+limits.rise*dt) limits.maxSpeed*dt
  · exact .inl ⟨hnear,hslow⟩
  · exact .inr ⟨not_le.mp hnear,stops_of_le hdt ((min_le_right _ _).trans htop)⟩

namespace Ramp

variable {limits : RampLimits R}

omit [IsStrictOrderedRing R] in
theorem nextSpeed_brakes (r : Ramp limits) (dt : R) (h : r.Brakes) :
    r.nextSpeed dt=max (r.speed-limits.fall*dt) 0 := if_pos h

omit [IsStrictOrderedRing R] in
theorem nextSpeed_drives (r : Ramp limits) (dt : R) (h : ¬r.Brakes) :
    r.nextSpeed dt=min (r.speed+limits.rise*dt) limits.maxSpeed := if_neg h

theorem abs_nextSpeed_sub (r : Ramp limits) {dt : R} (hdt : 0<dt) :
    |r.nextSpeed dt-r.speed| ≤ limits.most dt := by
  have hfall := limits.fall_le_most hdt
  have hrise : limits.rise*dt ≤ limits.most dt :=
    mul_le_mul_of_nonneg_right (le_max_left _ _) hdt.le
  have hfall_pos := mul_pos limits.fall_pos hdt
  have hrise_pos := mul_pos limits.rise_pos hdt
  have hspeed := r.speed_nonneg
  have hle := r.speed_le
  rw [abs_le]
  by_cases hb : r.Brakes
  · rw [r.nextSpeed_brakes dt hb]
    have hmax := le_max_left (r.speed-limits.fall*dt) 0
    have hleast : max (r.speed-limits.fall*dt) 0 ≤ r.speed := max_le (by linarith) hspeed
    exact ⟨by linarith,by linarith⟩
  · rw [r.nextSpeed_drives dt hb]
    have hmin := min_le_left (r.speed+limits.rise*dt) limits.maxSpeed
    have hleast : r.speed ≤ min (r.speed+limits.rise*dt) limits.maxSpeed :=
      le_min (by linarith) hle
    exact ⟨by linarith,by linarith⟩

theorem nextSpeed_fast (r : Ramp limits) {dt : R} (hdt : 0<dt) (hb : r.Brakes)
    (hfast : limits.most dt < r.speed) : r.nextSpeed dt=r.speed-limits.fall*dt := by
  have hfall := limits.fall_le_most hdt
  rw [r.nextSpeed_brakes dt hb]
  exact max_eq_left (by linarith)

theorem prudent_arrives (r : Ramp limits) {dt : R} (hdt : 0<dt)
    (hstops : Stops limits dt r.left r.speed) (hprudent : Prudent limits dt r.left r.speed)
    (h : r.Arrives dt) : r.speed ≤ limits.most dt := by
  rcases h with ⟨hleft,hspeed⟩|hway
  · exact hprudent.near hleft hspeed
  by_cases hb : r.Brakes
  · by_contra hfast
    rw [not_le] at hfast
    have hroom := hstops 0 (by rw [Nat.cast_zero,zero_mul,sub_zero]; exact hfast)
    rw [brakeWay,brakeWay] at hroom
    rw [r.nextSpeed_fast hdt hb hfast] at hway
    linarith
  · rw [r.nextSpeed_drives dt hb] at hway
    rcases hprudent.drive (not_le.mp hb) with ⟨-,hslow⟩|⟨hfar,-⟩
    · exact hslow
    · exact absurd hway (not_le.mpr hfar)

theorem prudent_next (r : Ramp limits) {dt : R} (hdt : 0<dt)
    (hstops : Stops limits dt r.left r.speed) (hprudent : Prudent limits dt r.left r.speed)
    (h : ¬r.Arrives dt) :
    Stops limits dt (r.next dt hdt h).left (r.next dt hdt h).speed := by
  change Stops limits dt (r.left-r.nextSpeed dt*dt) (r.nextSpeed dt)
  by_cases hb : r.Brakes
  · by_cases hfast : limits.most dt < r.speed
    · rw [r.nextSpeed_fast hdt hb hfast]
      exact stops_brake hstops
    · have hslow : r.nextSpeed dt ≤ limits.most dt := by
        have hfall := mul_pos limits.fall_pos hdt
        rw [r.nextSpeed_brakes dt hb]
        exact max_le (by linarith [not_lt.mp hfast]) (limits.most_pos hdt).le
      exact stops_of_le hdt hslow
  · rw [r.nextSpeed_drives dt hb]
    rcases hprudent.drive (not_le.mp hb) with ⟨hnear,-⟩|⟨-,hroom⟩
    · exfalso
      apply h
      right
      rw [r.nextSpeed_drives dt hb]
      exact hnear
    · exact hroom

theorem not_stops_next (r : Ramp limits) {dt : R} (hdt : 0<dt)
    (hstops : ¬Stops limits dt r.left r.speed) (h : ¬r.Arrives dt) :
    ¬Stops limits dt (r.next dt hdt h).left (r.next dt hdt h).speed := by
  change ¬Stops limits dt (r.left-r.nextSpeed dt*dt) (r.nextSpeed dt)
  have hnext := mul_nonneg (r.nextSpeed_nonneg hdt) hdt.le
  by_cases hb : r.Brakes
  · have hspeed := r.nextSpeed_fast hdt hb (fast_of_not_stops hdt hstops)
    rcases not_stops_brake hstops with hway|hnot
    · exfalso
      apply h
      right
      rw [hspeed]
      exact hway
    · rw [hspeed]
      exact hnot
  · have hrise := mul_pos limits.rise_pos hdt
    have hmore : r.speed ≤ r.nextSpeed dt := by
      rw [r.nextSpeed_drives dt hb]
      exact le_min (by linarith) r.speed_le
    exact not_stops_mono hdt hstops (by linarith) hmore

/-- What goes wrong in a step that is not prudent: it ends the walk from a speed that is too high, or
the walk cannot stop after it. -/
theorem not_prudent (r : Ramp limits) {dt : R} (hdt : 0<dt)
    (h : ¬Prudent limits dt r.left r.speed) :
    (r.Arrives dt ∧ limits.most dt < r.speed) ∨
    ∃ hn : ¬r.Arrives dt,
      ¬Stops limits dt (r.next dt hdt hn).left (r.next dt hdt hn).speed := by
  by_contra hcontra
  push Not at hcontra
  obtain ⟨hslow,hroom⟩ := hcontra
  apply h
  constructor
  · intro hleft hspeed
    exact hslow (.inl ⟨hleft,hspeed⟩)
  · intro hdrive
    have hb : ¬r.Brakes := not_le.mpr hdrive
    have hspeed := r.nextSpeed_drives dt hb
    by_cases ha : r.Arrives dt
    · left
      refine ⟨?_,hslow ha⟩
      rcases ha with ⟨hleft,-⟩|hway
      · -- a walk this near brakes
        have hsquare : 0 ≤ r.speed*r.speed/(2*limits.fall) :=
          div_nonneg (mul_self_nonneg _) (by linarith [limits.fall_pos])
        linarith
      · rw [hspeed] at hway
        exact hway
    · right
      have hstops := hroom ha
      change Stops limits dt (r.left-r.nextSpeed dt*dt) (r.nextSpeed dt) at hstops
      rw [hspeed] at hstops
      refine ⟨?_,hstops⟩
      by_contra hnear
      apply ha
      right
      rw [hspeed]
      exact not_lt.mp hnear

end Ramp

end EtherCATMaster.Math
