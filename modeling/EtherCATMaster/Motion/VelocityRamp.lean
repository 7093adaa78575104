import EtherCATMaster.Math.Approach
import EtherCATMaster.Motion.MoveRun
import EtherCATMaster.Motion.Rounding
import Mathlib.Tactic.LinearCombination

namespace EtherCATMaster.Motion

open EtherCATMaster.Math

variable {R : Type}

/-- What a velocity ramp is bounded by: the two limits, and the time in which the acceleration is
built up. -/
structure RampSetup (R : Type) [Zero R] [LT R] [LE R] where
  acceleration : R
  deceleration : R
  rampTime : R
  acceleration_pos : 0 < acceleration
  deceleration_pos : 0 < deceleration

variable [LinearOrder R] [Field R] [IsStrictOrderedRing R]

namespace RampSetup

/-- The greatest change of velocity in a cycle. -/
def most (setup : RampSetup R) (dtS : R) : R := max setup.acceleration setup.deceleration*dtS

def least (setup : RampSetup R) (dtS : R) : R :=
  if setup.rampTime ≤ 0 then min setup.acceleration setup.deceleration
  else min (min setup.acceleration setup.deceleration)
    (max setup.acceleration setup.deceleration/setup.rampTime*dtS)

section

omit [IsStrictOrderedRing R]

theorem greatest_pos (setup : RampSetup R) : 0 < max setup.acceleration setup.deceleration :=
  lt_max_of_lt_left setup.acceleration_pos

end

theorem least_pos (setup : RampSetup R) {dtS : R} (hdt : 0<dtS) : 0 < setup.least dtS := by
  have hmin := lt_min setup.acceleration_pos setup.deceleration_pos
  unfold least
  split_ifs with htime
  · exact hmin
  · exact lt_min hmin (mul_pos (div_pos setup.greatest_pos (not_le.mp htime)) hdt)

end RampSetup

/-- A profile on its way to a velocity. Its acceleration does not lead away from the target. -/
structure Ramping (setup : RampSetup R) (direction target : R) (p : Cia402MotionProfile R) :
    Prop where
  acceleration : p.acceleration=setup.acceleration
  deceleration : p.deceleration=setup.deceleration
  rampTime : profileRampTimeS p=setup.rampTime
  gap : 0 ≤ direction*(target-p.velocity)
  along_nonneg : 0 ≤ direction*p.accelerationState
  along_le : direction*p.accelerationState ≤ max setup.acceleration setup.deceleration

section Step

variable {setup : RampSetup R} {direction target : R} {p : Cia402MotionProfile R}

def Cia402MotionProfile.rampLimit (p : Cia402MotionProfile R) (target : R) : R :=
  if target=0 ∨ absDouble target<absDouble p.velocity then p.deceleration else p.acceleration

section

omit [IsStrictOrderedRing R]

theorem Ramping.limit (h : Ramping setup direction target p) :
    min setup.acceleration setup.deceleration ≤ p.rampLimit target ∧
      p.rampLimit target ≤ max setup.acceleration setup.deceleration := by
  unfold Cia402MotionProfile.rampLimit
  rw [h.acceleration,h.deceleration]
  split_ifs
  · exact ⟨min_le_right _ _,le_max_right _ _⟩
  · exact ⟨min_le_left _ _,le_max_left _ _⟩

end

section

omit [LinearOrder R] [IsStrictOrderedRing R]

theorem direction_sq (hunit : direction=1 ∨ direction= -1) : direction*direction=1 := by
  rcases hunit with h|h <;> rw [h] <;> norm_num

theorem delta_eq (hunit : direction=1 ∨ direction= -1) (delta : R) :
    delta=direction*(direction*delta) := by
  rw [← mul_assoc,direction_sq hunit,one_mul]

end

theorem abs_delta (hunit : direction=1 ∨ direction= -1) {delta : R} (h : 0 ≤ direction*delta) :
    absDouble delta=direction*delta := by
  rw [absDouble_eq_abs]
  rcases hunit with hd|hd
  · rw [hd,one_mul] at h ⊢
    exact abs_of_nonneg h
  · rw [hd] at h ⊢
    rw [abs_of_nonpos (by linarith)]
    ring

theorem choose_along (hunit : direction=1 ∨ direction= -1) {delta : R} (h : 0 < direction*delta)
    (x : R) : (if delta>0 then x else -x)=direction*x := by
  rcases hunit with hd|hd
  · rw [hd,one_mul] at h ⊢
    rw [if_pos h]
  · rw [hd] at h ⊢
    rw [if_neg (by linarith)]
    ring

theorem slewAcceleration_eq (h : Ramping setup direction target p) (htime : 0 < setup.rampTime)
    (x dtS : R) :
    (slewAcceleration p x dtS).accelerationState=slewToward p.accelerationState x
      (max setup.acceleration setup.deceleration/setup.rampTime*dtS) ∧
    (slewAcceleration p x dtS).velocity=p.velocity := by
  unfold slewAcceleration slewToward
  dsimp only
  rw [h.rampTime,h.acceleration,h.deceleration,maxDouble_eq_max,if_neg (not_le.mpr htime),
    if_neg (not_le.mpr setup.greatest_pos),absDouble_eq_abs]
  split_ifs <;> exact ⟨rfl,rfl⟩

theorem slewAcceleration_along (hunit : direction=1 ∨ direction= -1)
    (h : Ramping setup direction target p) (htime : 0 < setup.rampTime) (limit : R) {dtS : R}
    (hdt : 0<dtS) :
    direction*(slewAcceleration p (direction*limit) dtS).accelerationState=
      slewToward (direction*p.accelerationState) limit
        (max setup.acceleration setup.deceleration/setup.rampTime*dtS) := by
  have hdelta := (mul_pos (div_pos setup.greatest_pos htime) hdt).le
  rw [(slewAcceleration_eq h htime _ dtS).1]
  rcases hunit with hd|hd
  · rw [hd,one_mul,one_mul,one_mul]
  · have hneg := slewToward_neg (-p.accelerationState) limit hdelta
    rw [neg_neg] at hneg
    rw [hd,neg_one_mul,neg_one_mul,neg_one_mul,hneg,neg_neg]

def RampSetup.along (setup : RampSetup R) (p : Cia402MotionProfile R)
    (direction target dtS : R) : R :=
  if setup.rampTime ≤ 0 then p.rampLimit target
  else slewToward (direction*p.accelerationState) (p.rampLimit target)
    (max setup.acceleration setup.deceleration/setup.rampTime*dtS)

theorem Ramping.along_bounds (h : Ramping setup direction target p) {dtS : R} (hdt : 0<dtS) :
    setup.least dtS ≤ setup.along p direction target dtS ∧
      setup.along p direction target dtS ≤ max setup.acceleration setup.deceleration := by
  obtain ⟨hlow,hhigh⟩ := h.limit
  unfold RampSetup.along RampSetup.least
  by_cases htime : setup.rampTime ≤ 0
  · rw [if_pos htime,if_pos htime]
    exact ⟨hlow,hhigh⟩
  · rw [if_neg htime,if_neg htime]
    have hdelta := (mul_pos (div_pos setup.greatest_pos (not_le.mp htime)) hdt).le
    obtain ⟨hmin,hmax⟩ := slewToward_bounds (p.rampLimit target) h.along_nonneg hdelta
    exact ⟨(min_le_min_right _ hlow).trans hmin,hmax.trans (max_le h.along_le hhigh)⟩

/-- One ramp of the velocity: it is at the target, or nearer by the acceleration that is used. -/
structure Ramped (setup : RampSetup R) (direction target dtS : R) (p p' : Cia402MotionProfile R) :
    Prop where
  velocity : (p'.velocity=target ∧ (direction*(target-p.velocity) ≤ velocityEpsilon ∨
      direction*(target-p.velocity) ≤ setup.along p direction target dtS*dtS)) ∨
    (setup.along p direction target dtS*dtS ≤ direction*(target-p.velocity) ∧
      p'.velocity=p.velocity+direction*(setup.along p direction target dtS*dtS))
  along : p'.accelerationState=0 ∨ p'.accelerationState=p.accelerationState ∨
    direction*p'.accelerationState=setup.along p direction target dtS

/-- Without a ramp time: `ramp_velocity`. -/
theorem rampVelocity_ramped (hunit : direction=1 ∨ direction= -1)
    (h : Ramping setup direction target p) (htime : setup.rampTime ≤ 0) {dtS : R} (hdt : 0<dtS) :
    Ramped setup direction target dtS p (rampVelocityByProfile p target dtS) := by
  have halong : setup.along p direction target dtS=p.rampLimit target := if_pos htime
  have hpos := mul_pos ((setup.least_pos hdt).trans_le (h.along_bounds hdt).1) hdt
  rw [halong] at hpos
  have hgap := abs_delta hunit h.gap
  unfold rampVelocityByProfile
  rw [h.rampTime,if_pos htime]
  refine ⟨?_,.inr (.inl rfl)⟩
  rw [halong]
  have hrun : rampVelocity p.velocity target p.acceleration p.deceleration dtS=
      if absDouble (target-p.velocity) ≤ velocityEpsilon then target
      else if p.rampLimit target*dtS ≤ 0 then target
      else if absDouble (target-p.velocity) ≤ p.rampLimit target*dtS then target
      else p.velocity+(if target-p.velocity>0 then p.rampLimit target*dtS
        else -(p.rampLimit target*dtS)) := rfl
  rw [hgap] at hrun
  simp only [hrun]
  by_cases hnear : direction*(target-p.velocity) ≤ velocityEpsilon
  · rw [if_pos hnear]
    exact .inl ⟨rfl,.inl hnear⟩
  · rw [if_neg hnear,if_neg (not_le.mpr hpos)]
    by_cases hreach : direction*(target-p.velocity) ≤ p.rampLimit target*dtS
    · rw [if_pos hreach]
      exact .inl ⟨rfl,.inr hreach⟩
    · have hfar := not_le.mp hreach
      rw [if_neg hreach,choose_along hunit (hpos.trans hfar)]
      exact .inr ⟨hfar.le,rfl⟩

/-- With a ramp time: the acceleration is slewed first. -/
theorem rampSmooth_ramped (hunit : direction=1 ∨ direction= -1)
    (h : Ramping setup direction target p) (htime : ¬setup.rampTime ≤ 0) {dtS : R} (hdt : 0<dtS) :
    Ramped setup direction target dtS p (rampVelocityByProfile p target dtS) := by
  have hslew := slewAcceleration_along hunit h (not_le.mp htime) (p.rampLimit target) hdt
  have halong : setup.along p direction target dtS=
      direction*(slewAcceleration p (direction*p.rampLimit target) dtS).accelerationState := by
    rw [hslew]
    exact if_neg htime
  have hgap := abs_delta hunit h.gap
  unfold rampVelocityByProfile
  dsimp only
  rw [h.rampTime,if_neg htime,hgap]
  by_cases hnear : direction*(target-p.velocity) ≤ velocityEpsilon
  · rw [if_pos hnear]
    exact ⟨.inl ⟨rfl,.inl hnear⟩,.inl rfl⟩
  · rw [if_neg hnear]
    have hpos : 0 < direction*(target-p.velocity) := by
      have heps : (0 : R)<velocityEpsilon := by
        rw [velocityEpsilon]
        norm_num
      exact heps.trans (not_le.mp hnear)
    have hchoose : (if target-p.velocity>0 then
        (if target=0 ∨ absDouble target<absDouble p.velocity then p.deceleration
          else p.acceleration)
        else -(if target=0 ∨ absDouble target<absDouble p.velocity then p.deceleration
          else p.acceleration))=direction*p.rampLimit target := choose_along hunit hpos _
    rw [hchoose]
    generalize slewAcceleration p (direction*p.rampLimit target) dtS=slewed at halong
    have hvelocity : p.velocity+slewed.accelerationState*dtS=
        p.velocity+direction*(setup.along p direction target dtS*dtS) := by
      rw [halong,mul_assoc,← delta_eq hunit]
    -- the source tests the velocity against the target; here it is the gap against the way
    have hpass : ((target-p.velocity>0 ∧ p.velocity+slewed.accelerationState*dtS>target) ∨
        (target-p.velocity<0 ∧ p.velocity+slewed.accelerationState*dtS<target)) ↔
        direction*(target-p.velocity) < setup.along p direction target dtS*dtS := by
      rw [hvelocity]
      rcases hunit with hd|hd
      · rw [hd] at hpos ⊢
        constructor
        · rintro (⟨_,hx⟩|⟨hn,_⟩)
          · linarith
          · linarith
        · intro hx
          exact .inl ⟨by linarith,by linarith⟩
      · rw [hd] at hpos ⊢
        constructor
        · rintro (⟨hn,_⟩|⟨_,hx⟩)
          · linarith
          · linarith
        · intro hx
          exact .inr ⟨by linarith,by linarith⟩
    simp only [hpass]
    by_cases hreach : direction*(target-p.velocity) < setup.along p direction target dtS*dtS
    · rw [if_pos hreach]
      exact ⟨.inl ⟨rfl,.inr hreach.le⟩,.inl rfl⟩
    · rw [if_neg hreach]
      exact ⟨.inr ⟨not_lt.mp hreach,hvelocity⟩,.inr (.inr halong.symm)⟩

theorem rampVelocityByProfile_ramped (hunit : direction=1 ∨ direction= -1)
    (h : Ramping setup direction target p) {dtS : R} (hdt : 0<dtS) :
    Ramped setup direction target dtS p (rampVelocityByProfile p target dtS) := by
  by_cases htime : setup.rampTime ≤ 0
  · exact rampVelocity_ramped hunit h htime hdt
  · exact rampSmooth_ramped hunit h htime hdt

theorem Ramped.approach (hunit : direction=1 ∨ direction= -1)
    (h : Ramping setup direction target p) {dtS : R} (hdt : 0<dtS) {p' : Cia402MotionProfile R}
    (hr : Ramped setup direction target dtS p p') :
    Approach (setup.least dtS*dtS) (max (setup.most dtS) velocityEpsilon)
        (direction*(target-p.velocity)) (direction*(target-p'.velocity)) ∧
      0 ≤ direction*p'.accelerationState ∧
      direction*p'.accelerationState ≤ max setup.acceleration setup.deceleration := by
  obtain ⟨hleast,hgreatest⟩ := h.along_bounds hdt
  have hpos := (setup.least_pos hdt).trans_le hleast
  have hway : setup.along p direction target dtS*dtS ≤ setup.most dtS :=
    mul_le_mul_of_nonneg_right hgreatest hdt.le
  constructor
  · rcases hr.velocity with ⟨hend,hle⟩|⟨hle,hgain⟩
    · rw [hend,sub_self,mul_zero]
      refine .close h.gap ?_
      rcases hle with hle|hle
      · exact hle.trans (le_max_right _ _)
      · exact hle.trans (hway.trans (le_max_left _ _))
    · have hafter : direction*(target-p'.velocity)=
          direction*(target-p.velocity)-setup.along p direction target dtS*dtS := by
        rw [hgain]
        linear_combination -(setup.along p direction target dtS*dtS)*direction_sq hunit
      rw [hafter]
      exact .take (mul_pos hpos hdt).le hle (hway.trans (le_max_left _ _))
        (mul_le_mul_of_nonneg_right hleast hdt.le)
  · rcases hr.along with hzero|hsame|halong
    · rw [hzero,mul_zero]
      exact ⟨le_refl 0,setup.greatest_pos.le⟩
    · rw [hsame]
      exact ⟨h.along_nonneg,h.along_le⟩
    · rw [halong]
      exact ⟨hpos.le,hgreatest⟩

theorem Ramped.settle (hunit : direction=1 ∨ direction= -1)
    (h : Ramping setup direction target p) {dtS : R} (hdt : 0<dtS) {p' : Cia402MotionProfile R}
    (hr : Ramped setup direction target dtS p p') (hnear : |target-p'.velocity| ≤ 1/2) :
    Approach (setup.least dtS*dtS) (setup.most dtS+1/2) (direction*(target-p.velocity)) 0 := by
  obtain ⟨-,hgreatest⟩ := h.along_bounds hdt
  have hway : setup.along p direction target dtS*dtS ≤ setup.most dtS :=
    mul_le_mul_of_nonneg_right hgreatest hdt.le
  have hmost : 0 ≤ setup.most dtS := (mul_pos setup.greatest_pos hdt).le
  refine .close h.gap ?_
  rcases hr.velocity with ⟨-,hle|hle⟩|⟨-,hgain⟩
  · rw [velocityEpsilon] at hle
    linarith
  · linarith
  · have hafter : direction*(target-p.velocity)=
        direction*(target-p'.velocity)+setup.along p direction target dtS*dtS := by
      rw [hgain]
      linear_combination (setup.along p direction target dtS*dtS)*direction_sq hunit
    have habs : direction*(target-p'.velocity) ≤ |target-p'.velocity| := by
      rcases hunit with hd|hd
      · rw [hd,one_mul]
        exact le_abs_self _
      · rw [hd,neg_one_mul]
        exact neg_le_abs _
    linarith

end Step

section Command

/-- Motions that only lead a velocity. -/
def Cia402MotionType.Ramps (type : Cia402MotionType) : Prop :=
  type=.jogVelocity ∨ type=.servoStop ∨ type=.home

variable (command : Cia402MotionCommand R)

def Cia402MotionCommand.velocityTarget : R :=
  if command.type=.servoStop then 0 else (command.targetVelocity.toInt : R)

def Cia402MotionCommand.rampSpeed (actualVelocity : Int32) : R :=
  configuredSpeed (if command.type=.servoStop then actualVelocity else command.targetVelocity)

def rampSetup (actualVelocity : Int32) : RampSetup R where
  acceleration := configuredAccel command.acceleration (command.rampSpeed actualVelocity)
  deceleration := configuredAccel command.deceleration (command.rampSpeed actualVelocity)
  rampTime := profileRampTimeS (cia402ProfileBegin command 0 actualVelocity)
  acceleration_pos := zero_lt_one.trans_le (one_le_configuredAccel _ _)
  deceleration_pos := zero_lt_one.trans_le (one_le_configuredAccel _ _)

/-- A profile that ramps as commanded. -/
structure RampsTo (command : Cia402MotionCommand R) (actualVelocity : Int32)
    (p : Cia402MotionProfile R) : Prop where
  ramping : Ramping (rampSetup command actualVelocity)
    (directionOf (actualVelocity.toInt : R) command.velocityTarget) command.velocityTarget p
  targetVelocity : p.targetVelocity=command.velocityTarget

variable {command}

theorem rampsTo_begin (h : command.type.Ramps) (actualPosition actualVelocity : Int32) :
    RampsTo command actualVelocity (cia402ProfileBegin command actualPosition actualVelocity) ∧
      (cia402ProfileBegin command actualPosition actualVelocity).velocity=
        (actualVelocity.toInt : R) := by
  have hgap : ∀ v target : R,0 ≤ directionOf v target*(target-v) := by
    intro v target
    rw [directionOf]
    split_ifs with hle
    · linarith
    · have := not_le.mp hle
      linarith
  have hgreatest := (rampSetup command actualVelocity).greatest_pos
  rcases h with ht|ht|ht
  all_goals
    have htarget : (cia402ProfileBegin command actualPosition actualVelocity).targetVelocity=
        command.velocityTarget := by
      simp [cia402ProfileBegin,Cia402MotionProfile.limit,Cia402MotionCommand.velocityTarget,ht]
    have hvelocity : (cia402ProfileBegin command actualPosition actualVelocity).velocity=
        (actualVelocity.toInt : R) := by
      simp [cia402ProfileBegin,Cia402MotionProfile.limit,ht]
    have hstate : (cia402ProfileBegin command actualPosition actualVelocity).accelerationState=
        0 := by
      simp [cia402ProfileBegin,Cia402MotionProfile.limit,ht,cia402ProfileReset]
    refine ⟨⟨⟨?_,?_,?_,?_,?_,?_⟩,htarget⟩,hvelocity⟩
    · simp [cia402ProfileBegin,Cia402MotionProfile.limit,rampSetup,
        Cia402MotionCommand.rampSpeed,ht]
    · simp [cia402ProfileBegin,Cia402MotionProfile.limit,rampSetup,
        Cia402MotionCommand.rampSpeed,ht]
    · simp [cia402ProfileBegin,Cia402MotionProfile.limit,rampSetup,profileRampTimeS,ht]
    · rw [hvelocity]
      exact hgap _ _
    · rw [hstate,mul_zero]
    · rw [hstate,mul_zero]
      exact hgreatest.le

end Command

section Run

variable [FloorRing R] [HasSqrt R] (command : Cia402MotionCommand R) (inputs : ℕ → ProfileInput)

/-- The velocity before call number `n`: that of the drive at first, then that of the profile. -/
def velocityAt : ℕ → R
  | 0 => ((inputs 0).actualVelocity.toInt : R)
  | n+1 => (profileAt command inputs (n+1)).velocity

/-- What call number `n` ramps the profile to. -/
def rampedAt (n : ℕ) : Cia402MotionProfile R :=
  rampVelocityByProfile (currentAt command inputs n) command.velocityTarget
    (periodSeconds (inputs n).periodUs)

def StopsAt (n : ℕ) : Prop :=
  command.type=.servoStop ∧ |(rampedAt command inputs n).velocity| ≤ 1/2

instance (n : ℕ) : Decidable (StopsAt command inputs n) := inferInstanceAs (Decidable (_ ∧ _))

variable {command}

section

omit [IsStrictOrderedRing R]

theorem currentAt_next (h : command.type≠.none) (n : ℕ) :
    currentAt command inputs (n+1)=profileAt command inputs (n+1) := by
  have ha := cia402ProfileStep_active (profileAt command inputs n) command
    (inputs n).actualPosition (inputs n).actualVelocity (inputs n).periodUs (inputs n).output h
  exact profileInForce_continues _ _ _ _ ha.1 ha.2

end

theorem Cia402MotionType.Ramps.ne_none {type : Cia402MotionType} (h : type.Ramps) : type≠.none := by
  rcases h with rfl|rfl|rfl <;> decide

theorem profileAt_ramped (h : command.type.Ramps) (n : ℕ)
    (htarget : (currentAt command inputs n).targetVelocity=command.velocityTarget) :
    (profileAt command inputs (n+1)).velocity=
        (if StopsAt command inputs n then 0 else (rampedAt command inputs n).velocity) ∧
      (profileAt command inputs (n+1)).accelerationState=
        (rampedAt command inputs n).accelerationState ∧
      (rampedAt command inputs n).Frame (profileAt command inputs (n+1)) ∧
      (outputAt command inputs n).targetVelocity=
        roundToI32 (profileAt command inputs (n+1)).velocity ∧
      (command.type=.servoStop → (doneAt command inputs n=true ↔ StopsAt command inputs n)) := by
  unfold StopsAt rampedAt
  unfold currentAt at htarget ⊢
  rcases h with ht|ht|ht
  · simp only [profileAt,outputAt,doneAt,cia402ProfileStep,ht,htarget]
    exact ⟨(if_neg (by simp)).symm,rfl,⟨rfl,rfl,rfl,rfl,rfl,rfl,rfl,rfl,rfl⟩,rfl,
      fun h => by cases h⟩
  · have hzero : command.velocityTarget=0 := if_pos ht
    simp only [profileAt,outputAt,doneAt,cia402ProfileStep,ht,hzero,absDouble_eq_abs,
      velocityEpsilon,true_and]
    exact ⟨rfl,rfl,⟨rfl,rfl,rfl,rfl,rfl,rfl,rfl,rfl,rfl⟩,rfl,fun _ => decide_eq_true_iff⟩
  · simp only [profileAt,outputAt,doneAt,cia402ProfileStep,ht,htarget]
    exact ⟨(if_neg (by simp)).symm,rfl,⟨rfl,rfl,rfl,rfl,rfl,rfl,rfl,rfl,rfl⟩,rfl,
      fun h => by cases h⟩

section

omit [IsStrictOrderedRing R] [FloorRing R] [HasSqrt R]

theorem profileRampTimeS_frame {p q : Cia402MotionProfile R} (h : p.Frame q) :
    profileRampTimeS q=profileRampTimeS p := by
  obtain ⟨-,-,-,-,-,-,-,htype,hratio⟩ := h
  unfold profileRampTimeS
  rw [htype,hratio]

end

theorem velocityAt_eq (h : command.type.Ramps) (n : ℕ) :
    velocityAt command inputs n=(currentAt command inputs n).velocity := by
  cases n with
  | zero => rw [velocityAt,currentAt_zero,(rampsTo_begin h _ _).2]
  | succ n => rw [velocityAt,currentAt_next inputs h.ne_none]

def rampDirection (command : Cia402MotionCommand R) (inputs : ℕ → ProfileInput) : R :=
  directionOf ((inputs 0).actualVelocity.toInt : R) command.velocityTarget

/-- How far the velocity is from the target before call number `n`. -/
def velocityGap (command : Cia402MotionCommand R) (inputs : ℕ → ProfileInput) (n : ℕ) : R :=
  rampDirection command inputs*(command.velocityTarget-velocityAt command inputs n)

/-- The greatest change in call number `n`. -/
def cycleMost (command : Cia402MotionCommand R) (inputs : ℕ → ProfileInput) (n : ℕ) : R :=
  (rampSetup command (inputs 0).actualVelocity).most (periodSeconds (inputs n).periodUs)

theorem velocityGap_step (h : command.type.Ramps) {n : ℕ} (hperiod : 0<(inputs n).periodUs)
    (hr : RampsTo command (inputs 0).actualVelocity (currentAt command inputs n)) :
    Approach ((rampSetup command (inputs 0).actualVelocity).least
          (periodSeconds (inputs n).periodUs)*periodSeconds (inputs n).periodUs)
      (if StopsAt command inputs n then cycleMost command inputs n+1/2
        else max (cycleMost command inputs n) (1/2))
      (velocityGap command inputs n) (velocityGap command inputs (n+1)) := by
  have hunit := directionOf_unit ((inputs 0).actualVelocity.toInt : R) command.velocityTarget
  have hdt := periodSeconds_pos (R := R) _ hperiod
  have hramped := rampVelocityByProfile_ramped hunit hr.ramping hdt
  have hvelocity := (profileAt_ramped inputs h n hr.targetVelocity).1
  rw [velocityGap,velocityGap,velocityAt_eq inputs h n,velocityAt]
  by_cases hstop : StopsAt command inputs n
  · have hzero : command.velocityTarget=0 := if_pos hstop.1
    have hnear : |command.velocityTarget-(rampedAt command inputs n).velocity| ≤ 1/2 := by
      rw [hzero,zero_sub,abs_neg]
      exact hstop.2
    have hsettle := hramped.settle hunit hr.ramping hdt hnear
    rw [if_pos hstop] at hvelocity ⊢
    have hend : rampDirection command inputs*(command.velocityTarget-0)=0 := by
      rw [hzero,sub_self,mul_zero]
    rw [hvelocity,hend]
    exact hsettle
  · rw [if_neg hstop] at hvelocity ⊢
    rw [hvelocity]
    exact (hramped.approach hunit hr.ramping hdt).1

theorem rampsTo_step (h : command.type.Ramps) {n : ℕ} (hperiod : 0<(inputs n).periodUs)
    (hr : RampsTo command (inputs 0).actualVelocity (currentAt command inputs n)) :
    RampsTo command (inputs 0).actualVelocity (currentAt command inputs (n+1)) := by
  have hunit := directionOf_unit ((inputs 0).actualVelocity.toInt : R) command.velocityTarget
  have hdt := periodSeconds_pos (R := R) _ hperiod
  have hramped := rampVelocityByProfile_ramped hunit hr.ramping hdt
  obtain ⟨-,hnonneg,hle⟩ := hramped.approach hunit hr.ramping hdt
  obtain ⟨-,hstate,hframe,-,-⟩ := profileAt_ramped inputs h n hr.targetVelocity
  have hall := (rampVelocityByProfile_frame (currentAt command inputs n) command.velocityTarget
    (periodSeconds (inputs n).periodUs)).trans hframe
  have hgap := (velocityGap_step inputs h hperiod hr).nonneg
  rw [velocityGap,velocityAt_eq inputs h (n+1)] at hgap
  rw [currentAt_next inputs h.ne_none n] at hgap ⊢
  refine ⟨⟨?_,?_,?_,hgap,?_,?_⟩,?_⟩
  · rw [hall.2.2.2.2.2.1]
    exact hr.ramping.acceleration
  · rw [hall.2.2.2.2.2.2.1]
    exact hr.ramping.deceleration
  · rw [profileRampTimeS_frame hall]
    exact hr.ramping.rampTime
  · rw [hstate]
    exact hnonneg
  · rw [hstate]
    exact hle
  · rw [hall.2.2.2.1]
    exact hr.targetVelocity

theorem rampsTo_at (h : command.type.Ramps) (hperiod : ∀ n,0<(inputs n).periodUs) (n : ℕ) :
    RampsTo command (inputs 0).actualVelocity (currentAt command inputs n) := by
  induction n with
  | zero =>
    rw [currentAt_zero]
    exact (rampsTo_begin h _ _).1
  | succ n ih => exact rampsTo_step inputs h (hperiod n) ih

theorem rampedAt_target (h : command.type.Ramps) {n : ℕ} (hperiod : 0<(inputs n).periodUs)
    (hr : RampsTo command (inputs 0).actualVelocity (currentAt command inputs n))
    (hv : velocityAt command inputs n=command.velocityTarget) :
    (rampedAt command inputs n).velocity=command.velocityTarget := by
  have hunit := directionOf_unit ((inputs 0).actualVelocity.toInt : R) command.velocityTarget
  have hdt := periodSeconds_pos (R := R) _ hperiod
  have happroach := ((rampVelocityByProfile_ramped hunit hr.ramping hdt).approach hunit hr.ramping
    hdt).1
  rw [← velocityAt_eq inputs h n,hv,sub_self,mul_zero] at happroach
  have hgap := le_antisymm happroach.le happroach.nonneg
  have hdelta := delta_eq hunit (command.velocityTarget-(rampedAt command inputs n).velocity)
  have hzero : directionOf ((inputs 0).actualVelocity.toInt : R) command.velocityTarget*
      (command.velocityTarget-(rampedAt command inputs n).velocity)=0 := hgap
  rw [hzero,mul_zero] at hdelta
  exact (sub_eq_zero.mp hdelta).symm

theorem stopsAt_stays (h : command.type.Ramps) (hperiod : ∀ n,0<(inputs n).periodUs) {m : ℕ}
    (hm : StopsAt command inputs m) (n : ℕ) (hn : m ≤ n) : StopsAt command inputs n := by
  induction n, hn using Nat.le_induction with
  | base => exact hm
  | succ n _ ih =>
    have hr := rampsTo_at inputs h hperiod n
    have hzero : command.velocityTarget=0 := if_pos ih.1
    have hv : velocityAt command inputs (n+1)=command.velocityTarget := by
      rw [velocityAt,(profileAt_ramped inputs h n hr.targetVelocity).1,if_pos ih,hzero]
    have hramped := rampedAt_target inputs h (hperiod (n+1)) (rampsTo_at inputs h hperiod (n+1)) hv
    refine ⟨ih.1,?_⟩
    rw [hramped,hzero,abs_zero]
    norm_num

/-- A jog, a stop or a homing motion leads the velocity to its target without passing it, by no more
than its limits allow for in a cycle, and for a fixed period reaches it. A stop is done from the
first cycle on that comes within the slack of rest, and the cycle in which that happens may take the
slack off as well. -/
theorem velocity_ramp (h : command.type.Ramps) (hperiod : ∀ n,0<(inputs n).periodUs) :
    (∀ n,Toward (velocityAt command inputs 0) command.velocityTarget (velocityAt command inputs n)
      (velocityAt command inputs (n+1))) ∧
    (∀ n,|velocityAt command inputs (n+1)-velocityAt command inputs n| ≤
      if command.type=.servoStop ∧ doneAt command inputs n=true then
        cycleMost command inputs n+1/2
      else max (cycleMost command inputs n) (1/2)) ∧
    ((∀ n,(inputs n).periodUs=(inputs 0).periodUs) →
      ∃ N,∀ n,N ≤ n → velocityAt command inputs n=command.velocityTarget) ∧
    (command.type=.servoStop → ∀ n,
      (doneAt command inputs n=true ↔ ∃ m,m ≤ n ∧ |(rampedAt command inputs m).velocity| ≤ 1/2) ∧
      (doneAt command inputs n=true → velocityAt command inputs (n+1)=0 ∧
        (outputAt command inputs n).targetVelocity=0)) := by
  have hat := rampsTo_at inputs h hperiod
  have hstep := fun n => velocityGap_step inputs h (hperiod n) (hat n)
  have hunit := directionOf_unit ((inputs 0).actualVelocity.toInt : R) command.velocityTarget
  have hramped := fun n => profileAt_ramped inputs h n (hat n).targetVelocity
  have hstops : ∀ n,StopsAt command inputs n ↔
      command.type=.servoStop ∧ doneAt command inputs n=true := by
    intro n
    constructor
    · intro hs
      exact ⟨hs.1,((hramped n).2.2.2.2 hs.1).mpr hs⟩
    · rintro ⟨htype,hdone⟩
      exact ((hramped n).2.2.2.2 htype).mp hdone
  refine ⟨fun n => ?_,fun n => ?_,fun hfixed => ?_,fun htype n => ⟨?_,fun hdone => ?_⟩⟩
  · have hle := (hstep n).le
    have hnonneg := (hstep n).nonneg
    rw [velocityGap,velocityGap] at hle
    rw [velocityGap] at hnonneg
    refine toward_of_direction _ _ _ _ ?_ hnonneg
    have hdiff : directionOf (velocityAt command inputs 0) command.velocityTarget*
        (velocityAt command inputs (n+1)-velocityAt command inputs n)=
        rampDirection command inputs*(command.velocityTarget-velocityAt command inputs n)-
          rampDirection command inputs*
            (command.velocityTarget-velocityAt command inputs (n+1)) := by
      change rampDirection command inputs*_=_
      ring
    rw [hdiff]
    linarith
  · have hmost := (hstep n).most
    have hle := (hstep n).le
    have hdiff : velocityGap command inputs n-velocityGap command inputs (n+1)=
        rampDirection command inputs*
          (velocityAt command inputs (n+1)-velocityAt command inputs n) := by
      rw [velocityGap,velocityGap]
      ring
    have habs : |velocityAt command inputs (n+1)-velocityAt command inputs n|=
        velocityGap command inputs n-velocityGap command inputs (n+1) := by
      have hnonneg : 0 ≤ velocityGap command inputs n-velocityGap command inputs (n+1) := by
        linarith
      rw [hdiff] at hnonneg ⊢
      rw [← absDouble_eq_abs]
      exact abs_delta hunit hnonneg
    rw [habs]
    simp only [← hstops]
    exact hmost
  · have hdt := periodSeconds_pos (R := R) _ (hperiod 0)
    have hstride : 0<(rampSetup command (inputs 0).actualVelocity).least
        (periodSeconds (inputs 0).periodUs)*periodSeconds (inputs 0).periodUs :=
      mul_pos (RampSetup.least_pos _ hdt) hdt
    obtain ⟨N,hN⟩ := Approach.closed hstride fun n => by
      have hn := hstep n
      rw [hfixed n] at hn
      exact hn
    refine ⟨N,fun n hn => ?_⟩
    have hzero := hN n hn
    have hdelta := delta_eq hunit (command.velocityTarget-velocityAt command inputs n)
    change _=rampDirection command inputs*velocityGap command inputs n at hdelta
    rw [hzero,mul_zero] at hdelta
    exact (sub_eq_zero.mp hdelta).symm
  · constructor
    · intro hdone
      exact ⟨n,le_refl n,((hstops n).mpr ⟨htype,hdone⟩).2⟩
    · rintro ⟨m,hm,hnear⟩
      exact ((hstops n).mp (stopsAt_stays inputs h hperiod ⟨htype,hnear⟩ n hm)).2
  · have hs := (hstops n).mpr ⟨htype,hdone⟩
    have hv : velocityAt command inputs (n+1)=0 := by
      rw [velocityAt,(hramped n).1,if_pos hs]
    refine ⟨hv,?_⟩
    rw [(hramped n).2.2.2.1]
    change roundToI32 (velocityAt command inputs (n+1))=0
    have hround := roundToI32_toInt32 (R := R) 0
    rw [show (0 : Int32).toInt=0 from rfl,Int.cast_zero] at hround
    rw [hv]
    exact Int32.toInt_inj.mp hround

end Run

/-- A stop from 100 units, for limits that allow for 99.9 in a cycle. -/
noncomputable def shortStop : Cia402MotionCommand ℝ :=
  { cia402MotionInit with type := .servoStop, acceleration := 999, deceleration := 999 }

def stopInputs : ℕ → ProfileInput := fun _ => ⟨0,100,100000,⟨0,0,0,0⟩⟩

theorem stopInputs_dt : periodSeconds (stopInputs 0).periodUs=(1/10 : ℝ) := by
  rw [periodSeconds,if_pos (by decide)]
  have h : ((stopInputs 0).periodUs.toInt : ℤ)=100000 := by decide
  rw [h]
  norm_num

theorem shortStop_limit (speed : ℝ) :
    configuredAccel shortStop.acceleration speed=999 ∧
      configuredAccel shortStop.deceleration speed=999 := by
  have h : ((999 : UInt32).toNat : ℝ)=999 := by
    rw [show (999 : UInt32).toNat=999 from rfl]
    norm_num
  have hlimit : configuredAccel (999 : UInt32) speed=999 := by
    rw [configuredAccel,if_pos (by decide),h]
  exact ⟨hlimit,hlimit⟩

/-- The first cycle brakes by 99.9, and takes the rest off, too. -/
theorem shortStop_exceeds :
    shortStop.type=.servoStop ∧ (∀ n,(stopInputs n).periodUs=100000) ∧
      max (cycleMost shortStop stopInputs 0) (1/2) <
        |velocityAt shortStop stopInputs 1-velocityAt shortStop stopInputs 0| := by
  refine ⟨rfl,fun _ => rfl,?_⟩
  have h : shortStop.type.Ramps := .inr (.inl rfl)
  have hperiod : ∀ n,0<(stopInputs n).periodUs := by
    intro n
    change (0 : Int32)<100000
    decide
  have hat := rampsTo_at stopInputs h hperiod 0
  have hmost : cycleMost shortStop stopInputs 0=999/10 := by
    rw [cycleMost,RampSetup.most,stopInputs_dt]
    simp only [rampSetup]
    rw [(shortStop_limit _).1,(shortStop_limit _).2,max_self]
    norm_num
  have hstart : velocityAt shortStop stopInputs 0=100 := by
    have h100 : (stopInputs 0).actualVelocity.toInt=100 := by decide
    rw [velocityAt,h100]
    norm_num
  have hstop : StopsAt shortStop stopInputs 0 := by
    have htarget : shortStop.velocityTarget=0 := if_pos rfl
    have hunit := directionOf_unit ((stopInputs 0).actualVelocity.toInt : ℝ) shortStop.velocityTarget
    have hramped := rampVelocityByProfile_ramped hunit hat.ramping
      (periodSeconds_pos _ (hperiod 0))
    have htime : (rampSetup shortStop (stopInputs 0).actualVelocity).rampTime ≤ 0 := le_refl 0
    have halong : (rampSetup shortStop (stopInputs 0).actualVelocity).along
        (currentAt shortStop stopInputs 0)
        (directionOf ((stopInputs 0).actualVelocity.toInt : ℝ) shortStop.velocityTarget)
        shortStop.velocityTarget (periodSeconds (stopInputs 0).periodUs)=999 := by
      rw [RampSetup.along,if_pos htime,Cia402MotionProfile.rampLimit,if_pos (.inl htarget),
        hat.ramping.deceleration]
      exact (shortStop_limit (shortStop.rampSpeed (stopInputs 0).actualVelocity)).2
    have hdirection : directionOf ((stopInputs 0).actualVelocity.toInt : ℝ)
        shortStop.velocityTarget= -1 := by
      change velocityAt shortStop stopInputs 0=100 at hstart
      rw [velocityAt] at hstart
      rw [directionOf,hstart,htarget,if_neg (by norm_num)]
    refine ⟨rfl,?_⟩
    rcases hramped.velocity with ⟨hend,-⟩|⟨-,hend⟩
    · rw [rampedAt,hend,htarget,abs_zero]
      norm_num
    · rw [rampedAt,hend,halong,hdirection,stopInputs_dt,← velocityAt_eq stopInputs h 0,hstart]
      norm_num
  have hend : velocityAt shortStop stopInputs 1=0 := by
    rw [velocityAt,(profileAt_ramped stopInputs h 0 hat.targetVelocity).1,if_pos hstop]
  rw [hmost,hstart,hend]
  norm_num

theorem shortStop_ends :
    (∀ n,|velocityAt shortStop stopInputs (n+1)-velocityAt shortStop stopInputs n| ≤
      if shortStop.type=.servoStop ∧ doneAt shortStop stopInputs n=true then
        cycleMost shortStop stopInputs n+1/2
      else max (cycleMost shortStop stopInputs n) (1/2)) ∧
    ∃ N,∀ n,N ≤ n → velocityAt shortStop stopInputs n=0 := by
  have hperiod : ∀ n,0<(stopInputs n).periodUs := by
    intro n
    change (0 : Int32)<100000
    decide
  obtain ⟨-,hchange,hreach,-⟩ := velocity_ramp stopInputs
    (show shortStop.type.Ramps from .inr (.inl rfl)) hperiod
  refine ⟨hchange,?_⟩
  have htarget : shortStop.velocityTarget=0 := if_pos rfl
  rw [← htarget]
  exact hreach fun _ => rfl

end EtherCATMaster.Motion
