import EtherCATMaster.Math.FirstBrake
import Mathlib.Algebra.Order.Archimedean.Real.Basic
import Mathlib.Order.Interval.Set.UnorderedInterval
import Mathlib.Tactic.FieldSimp

namespace EtherCATMaster.Lms

open EtherCATMaster.Math

variable {R : Type}

/-- Doubles are read as elements of an ordered field. -/
structure MotionState (R : Type) where
  positionMm : R
  velocityMmS : R
  targetMm : R
  maxVelocityMmS : R
  accelerationMmS2 : R
  deriving DecidableEq

variable [LinearOrder R] [Field R]

def absDouble (value : R) : R := if value<0 then -value else value

def motionInit (startMm targetMm maxVelocityMmS accelerationMmS2 : R) : MotionState R where
  positionMm := startMm
  velocityMmS := 0
  targetMm := targetMm
  maxVelocityMmS := maxVelocityMmS
  accelerationMmS2 := accelerationMmS2

/-- The state after a step, and whether the step returns 1. -/
def motionStep (motion : MotionState R) (dtS : R) : MotionState R × Bool :=
  let error := motion.targetMm-motion.positionMm
  if absDouble error < 1/1000000 ∧ absDouble motion.velocityMmS < 1/1000000 then
    ({ motion with positionMm := motion.targetMm, velocityMmS := 0 },true)
  else
    let direction : R := if error ≥ 0 then 1 else -1
    let stopDistance := motion.velocityMmS*motion.velocityMmS/(2*motion.accelerationMmS2)
    let changed :=
      if absDouble error ≤ stopDistance then
        motion.velocityMmS-direction*motion.accelerationMmS2*dtS
      else motion.velocityMmS+direction*motion.accelerationMmS2*dtS
    let velocity :=
      if changed>motion.maxVelocityMmS then motion.maxVelocityMmS
      else if changed < -motion.maxVelocityMmS then -motion.maxVelocityMmS
      else changed
    let nextPosition := motion.positionMm+velocity*dtS
    if (direction>0 ∧ nextPosition>motion.targetMm) ∨
        (direction<0 ∧ nextPosition < motion.targetMm) then
      ({ motion with positionMm := motion.targetMm, velocityMmS := 0 },true)
    else ({ motion with positionMm := nextPosition, velocityMmS := velocity },false)

/-- What a cycle of `fieldbus_run` does with the planner: the motion and whether it is finished. -/
def plannerCycle (dtS : R) (planner : MotionState R × Bool) : MotionState R × Bool :=
  if !planner.2 then motionStep planner.1 dtS else planner

/-- A demonstration move. The options are accepted only with these numbers positive. -/
structure MotionOptions (R : Type) [Zero R] [LT R] where
  startMm : R
  targetMm : R
  velocityMmS : R
  accelerationMmS2 : R
  periodS : R
  velocity_pos : 0<velocityMmS
  acceleration_pos : 0<accelerationMmS2
  period_pos : 0<periodS

namespace MotionOptions

variable (options : MotionOptions R)

def init : MotionState R :=
  motionInit options.startMm options.targetMm options.velocityMmS options.accelerationMmS2

end MotionOptions

/-- The move of a planner, on its way from a starting point: it stays between that and the target,
never moves away from the target, keeps the maximum velocity and finishes on the target. -/
structure Reaches (dtS startMm : R) (planner : MotionState R × Bool) : Prop where
  between : ∀ n,((plannerCycle dtS)^[n] planner).1.positionMm ∈
    Set.uIcc startMm planner.1.targetMm
  nearer : ∀ n,|planner.1.targetMm-((plannerCycle dtS)^[n+1] planner).1.positionMm| ≤
    |planner.1.targetMm-((plannerCycle dtS)^[n] planner).1.positionMm|
  slow : ∀ n,|((plannerCycle dtS)^[n] planner).1.velocityMmS| ≤ planner.1.maxVelocityMmS
  arrives : ∃ n,((plannerCycle dtS)^[n] planner).2=true ∧
    ((plannerCycle dtS)^[n] planner).1.positionMm=planner.1.targetMm

theorem motionStep_eq {motion : MotionState R} {dtS direction changed velocity : R}
    (hnear : ¬(absDouble (motion.targetMm-motion.positionMm) < 1/1000000 ∧
      absDouble motion.velocityMmS < 1/1000000))
    (hdirection : (if motion.targetMm-motion.positionMm ≥ 0 then (1 : R) else -1)=direction)
    (hchanged : (if absDouble (motion.targetMm-motion.positionMm) ≤
        motion.velocityMmS*motion.velocityMmS/(2*motion.accelerationMmS2) then
      motion.velocityMmS-direction*motion.accelerationMmS2*dtS
      else motion.velocityMmS+direction*motion.accelerationMmS2*dtS)=changed)
    (hvelocity : (if changed>motion.maxVelocityMmS then motion.maxVelocityMmS
      else if changed < -motion.maxVelocityMmS then -motion.maxVelocityMmS
      else changed)=velocity) :
    motionStep motion dtS=
      if (direction>0 ∧ motion.positionMm+velocity*dtS>motion.targetMm) ∨
          (direction<0 ∧ motion.positionMm+velocity*dtS < motion.targetMm) then
        ({ motion with positionMm := motion.targetMm, velocityMmS := 0 },true)
      else
        ({ motion with positionMm := motion.positionMm+velocity*dtS, velocityMmS := velocity },
          false) := by
  subst hdirection hchanged hvelocity
  exact if_neg hnear

theorem motionStep_targetMm (motion : MotionState R) (dtS : R) :
    (motionStep motion dtS).1.targetMm=motion.targetMm := by
  unfold motionStep
  dsimp only
  split_ifs <;> rfl

theorem motionStep_maxVelocityMmS (motion : MotionState R) (dtS : R) :
    (motionStep motion dtS).1.maxVelocityMmS=motion.maxVelocityMmS := by
  unfold motionStep
  dsimp only
  split_ifs <;> rfl

@[simp] theorem plannerCycle_targetMm (dtS : R) (planner : MotionState R × Bool) :
    (plannerCycle dtS planner).1.targetMm=planner.1.targetMm := by
  unfold plannerCycle
  split_ifs
  · exact motionStep_targetMm _ _
  · rfl

@[simp] theorem plannerCycle_maxVelocityMmS (dtS : R) (planner : MotionState R × Bool) :
    (plannerCycle dtS planner).1.maxVelocityMmS=planner.1.maxVelocityMmS := by
  unfold plannerCycle
  split_ifs
  · exact motionStep_maxVelocityMmS _ _
  · rfl

theorem plannerCycle_running (dtS : R) (motion : MotionState R) :
    plannerCycle dtS (motion,false)=motionStep motion dtS := rfl

theorem plannerCycle_finished (dtS : R) (motion : MotionState R) :
    plannerCycle dtS (motion,true)=(motion,true) := rfl

section Reaches

variable {dtS startMm : R} {planner : MotionState R × Bool}

theorem Reaches.tail (h : Reaches dtS startMm planner) :
    Reaches dtS startMm (plannerCycle dtS planner) := by
  have harrives := h.arrives
  refine ⟨fun n => ?_,fun n => ?_,fun n => ?_,?_⟩
  · rw [plannerCycle_targetMm,← Function.iterate_succ_apply]
    exact h.between (n+1)
  · rw [plannerCycle_targetMm,← Function.iterate_succ_apply,← Function.iterate_succ_apply]
    exact h.nearer (n+1)
  · rw [plannerCycle_maxVelocityMmS,← Function.iterate_succ_apply]
    exact h.slow (n+1)
  · obtain ⟨n,hn,hpos⟩ := harrives
    refine ⟨n,?_⟩
    rw [plannerCycle_targetMm,← Function.iterate_succ_apply,Function.iterate_succ_apply']
    rcases hp : (plannerCycle dtS)^[n] planner with ⟨motion,finished⟩
    rw [hp] at hn hpos
    subst hn
    exact ⟨rfl,hpos⟩

theorem Reaches.head (hbetween : planner.1.positionMm ∈ Set.uIcc startMm planner.1.targetMm)
    (hnearer : |planner.1.targetMm-(plannerCycle dtS planner).1.positionMm| ≤
      |planner.1.targetMm-planner.1.positionMm|)
    (hslow : |planner.1.velocityMmS| ≤ planner.1.maxVelocityMmS)
    (h : Reaches dtS startMm (plannerCycle dtS planner)) : Reaches dtS startMm planner := by
  obtain ⟨hb,hn,hs,n,hf,hp⟩ := h
  simp only [plannerCycle_targetMm,plannerCycle_maxVelocityMmS,← Function.iterate_succ_apply]
    at hb hn hs hf hp
  refine ⟨fun n => ?_,fun n => ?_,fun n => ?_,n+1,hf,hp⟩
  · cases n with
    | zero => exact hbetween
    | succ n => exact hb n
  · cases n with
    | zero => exact hnearer
    | succ n => exact hn n
  · cases n with
    | zero => exact hslow
    | succ n => exact hs n

theorem reaches_finished {motion : MotionState R} (hpos : motion.positionMm=motion.targetMm)
    (hslow : |motion.velocityMmS| ≤ motion.maxVelocityMmS) :
    Reaches dtS startMm (motion,true) := by
  have hstays : ∀ n,(plannerCycle dtS)^[n] (motion,true)=(motion,true) :=
    fun n => Function.iterate_fixed (plannerCycle_finished dtS motion) n
  refine ⟨fun n => ?_,fun n => ?_,fun n => ?_,0,rfl,hpos⟩
  · rw [hstays,hpos]
    exact Set.right_mem_uIcc
  · rw [hstays,hstays]
  · rw [hstays]
    exact hslow

end Reaches

section UnitMove

variable [IsStrictOrderedRing R]

theorem absDouble_eq_abs (value : R) : absDouble value=|value| := by
  unfold absDouble
  split_ifs with h
  · exact (abs_of_neg h).symm
  · exact (abs_of_nonneg (not_lt.mp h)).symm

theorem limited_eq {direction limit : R} (hd : direction=1 ∨ direction=-1) (hlimit : 0<limit)
    (speed : R) :
    (if direction*speed>limit then limit
      else if direction*speed < -limit then -limit else direction*speed)=
    direction*max (min speed limit) (-limit) := by
  rcases hd with hd|hd
  · rw [hd,one_mul,one_mul]
    split_ifs with hfast hback
    · rw [min_eq_right hfast.le,max_eq_left (by linarith)]
    · rw [min_eq_left (by linarith),max_eq_right hback.le]
    · rw [min_eq_left (not_lt.mp hfast),max_eq_left (not_lt.mp hback)]
  · rw [hd,neg_one_mul,neg_one_mul]
    split_ifs with hback hfast
    · rw [min_eq_left (by linarith),max_eq_right (by linarith),neg_neg]
    · rw [min_eq_right (by linarith),max_eq_left (by linarith)]
    · rw [min_eq_left (by linarith),max_eq_left (by linarith)]

namespace MotionOptions

variable (options : MotionOptions R)

def share : R := options.accelerationMmS2*options.periodS

theorem share_pos : 0<options.share := mul_pos options.acceleration_pos options.period_pos

theorem shareWay_pos : 0<options.share*options.periodS := mul_pos options.share_pos options.period_pos

/-- The planner's limits in units of a step. -/
def unitMove : UnitMove R where
  top := options.velocityMmS/options.share
  nearWay := 1/1000000/(options.share*options.periodS)
  nearSpeed := 1/1000000/options.share
  top_pos := div_pos options.velocity_pos options.share_pos
  nearWay_pos := div_pos (by norm_num) options.shareWay_pos
  nearSpeed_pos := div_pos (by norm_num) options.share_pos

/-- The way to the target in units of a step. -/
def way : R := |options.targetMm-options.startMm|/(options.share*options.periodS)

def direction : R := if options.startMm ≤ options.targetMm then 1 else -1

/-- The motion with so much of the way left and so much speed, in units of a step. -/
def motion (left speed : R) : MotionState R where
  positionMm := options.targetMm-options.direction*(left*(options.share*options.periodS))
  velocityMmS := options.direction*(speed*options.share)
  targetMm := options.targetMm
  maxVelocityMmS := options.velocityMmS
  accelerationMmS2 := options.accelerationMmS2

section

omit [IsStrictOrderedRing R]

theorem direction_cases : options.direction=1 ∨ options.direction=-1 := by
  unfold direction
  split_ifs
  · exact .inl rfl
  · exact .inr rfl

end

theorem abs_direction : |options.direction|=1 := by
  rcases options.direction_cases with hd|hd <;> simp [hd]

theorem direction_mul_self : options.direction*options.direction=1 := by
  rw [← abs_mul_abs_self,abs_direction,one_mul]

theorem velocity_eq : options.velocityMmS=options.unitMove.top*options.share :=
  (div_mul_cancel₀ _ options.share_pos.ne').symm

theorem way_nonneg : 0 ≤ options.way := div_nonneg (abs_nonneg _) options.shareWay_pos.le

theorem init_eq : options.init=options.motion options.way 0 := by
  have hway : options.direction*(options.way*(options.share*options.periodS))=
      options.targetMm-options.startMm := by
    rw [way,div_mul_cancel₀ _ options.shareWay_pos.ne',direction]
    split_ifs with h
    · rw [one_mul,abs_of_nonneg (sub_nonneg.mpr h)]
    · rw [neg_one_mul,abs_of_neg (sub_neg.mpr (not_le.mp h)),neg_neg]
  simp [init,motionInit,motion,hway]

section

omit [IsStrictOrderedRing R]

theorem motion_error (left speed : R) :
    options.targetMm-(options.motion left speed).positionMm=
      options.direction*(left*(options.share*options.periodS)) := sub_sub_cancel _ _

@[simp] theorem motion_targetMm (left speed : R) :
    (options.motion left speed).targetMm=options.targetMm := rfl

@[simp] theorem motion_maxVelocityMmS (left speed : R) :
    (options.motion left speed).maxVelocityMmS=options.velocityMmS := rfl

@[simp] theorem motion_accelerationMmS2 (left speed : R) :
    (options.motion left speed).accelerationMmS2=options.accelerationMmS2 := rfl

theorem motion_arrived (left speed : R) : options.motion 0 0=
    { options.motion left speed with positionMm := options.targetMm, velocityMmS := 0 } := by
  simp [motion]

theorem motion_velocityMmS (left speed : R) :
    (options.motion left speed).velocityMmS=options.direction*(speed*options.share) := rfl

end

variable {left speed : R}

theorem abs_error (h0 : 0 ≤ left) :
    |options.targetMm-(options.motion left speed).positionMm|=
      left*(options.share*options.periodS) := by
  rw [motion_error,abs_mul,abs_direction,one_mul,
    abs_of_nonneg (mul_nonneg h0 options.shareWay_pos.le)]

theorem abs_velocity (h0 : 0 ≤ speed) :
    |(options.motion left speed).velocityMmS|=speed*options.share := by
  rw [motion_velocityMmS,abs_mul,abs_direction,one_mul,abs_of_nonneg (mul_nonneg h0 options.share_pos.le)]

theorem near_iff (h0 : 0 ≤ left) (hs : 0 ≤ speed) :
    (absDouble (options.targetMm-(options.motion left speed).positionMm) < 1/1000000 ∧
      absDouble (options.motion left speed).velocityMmS < 1/1000000) ↔
    options.unitMove.Near left speed := by
  rw [absDouble_eq_abs,absDouble_eq_abs,options.abs_error h0,options.abs_velocity hs,
    ← lt_div_iff₀ options.shareWay_pos,← lt_div_iff₀ options.share_pos]
  rfl

theorem brakes_iff (h0 : 0 ≤ left) :
    absDouble (options.targetMm-(options.motion left speed).positionMm) ≤
      (options.motion left speed).velocityMmS*(options.motion left speed).velocityMmS/
        (2*options.accelerationMmS2) ↔ left ≤ speed*speed/2 := by
  have hacc := options.acceleration_pos
  have hsq : (options.motion left speed).velocityMmS*(options.motion left speed).velocityMmS/
      (2*options.accelerationMmS2)=speed*speed/2*(options.share*options.periodS) := by
    rw [motion_velocityMmS,mul_mul_mul_comm,direction_mul_self,one_mul]
    unfold share
    field_simp
  rw [absDouble_eq_abs,options.abs_error h0,hsq,mul_le_mul_iff_left₀ options.shareWay_pos]

theorem limited_nextSpeed (hs : 0 ≤ speed) (htop : speed ≤ options.unitMove.top) :
    max (min ((if left ≤ speed*speed/2 then speed-1 else speed+1)*options.share)
      options.velocityMmS) (-options.velocityMmS)=
    options.unitMove.nextSpeed left speed*options.share := by
  have hshare := options.share_pos
  have hpos := options.velocity_pos
  have htop' := mul_le_mul_of_nonneg_right htop hshare.le
  rw [UnitMove.nextSpeed]
  rw [← velocity_eq] at htop'
  split_ifs with h
  · rw [max_mul_of_nonneg _ _ hshare.le,neg_mul,← velocity_eq,min_eq_left]
    rw [sub_mul]
    linarith
  · rw [min_mul_of_nonneg _ _ hshare.le,← velocity_eq,max_eq_left]
    apply le_min
    · have hnext := mul_nonneg (by linarith : 0 ≤ speed+1) hshare.le
      linarith
    · linarith

theorem past_iff (left speed : R) :
    (options.direction>0 ∧ (options.motion left speed).positionMm>options.targetMm) ∨
      (options.direction<0 ∧ (options.motion left speed).positionMm<options.targetMm) ↔
    left<0 := by
  have hsign : 0 < -left*(options.share*options.periodS) ↔ left<0 :=
    (mul_pos_iff_of_pos_right options.shareWay_pos).trans neg_pos
  rw [← hsign]
  unfold motion
  rcases options.direction_cases with hd|hd
  · rw [hd]
    constructor
    · intro h
      rcases h with h|h <;> linarith [h.1,h.2]
    · intro h
      exact .inl ⟨one_pos,by linarith⟩
  · rw [hd]
    constructor
    · intro h
      rcases h with h|h <;> linarith [h.1,h.2]
    · intro h
      exact .inr ⟨by linarith,by linarith⟩

theorem ahead (h0 : 0 ≤ left) (hb : ¬(options.targetMm<options.startMm ∧ left=0)) :
    (if options.targetMm-(options.motion left speed).positionMm ≥ 0 then (1 : R) else -1)=
      options.direction := by
  have hshare := options.shareWay_pos
  rw [motion_error,direction]
  split_ifs with hdir herror herror
  · rfl
  · rw [one_mul] at herror
    exact absurd (mul_nonneg h0 hshare.le) herror
  · have hpos : 0<left := by
      apply lt_of_le_of_ne h0
      intro hz
      exact hb ⟨not_le.mp hdir,hz.symm⟩
    linarith [mul_pos hpos hshare]
  · rfl

theorem motionStep_motion (h0 : 0 ≤ left) (hs : 0 ≤ speed) (htop : speed ≤ options.unitMove.top)
    (hnear : ¬options.unitMove.Near left speed)
    (hb : ¬(options.targetMm<options.startMm ∧ left=0)) :
    motionStep (options.motion left speed) options.periodS=
      if left < options.unitMove.nextSpeed left speed then (options.motion 0 0,true)
      else (options.motion (left-options.unitMove.nextSpeed left speed)
        (options.unitMove.nextSpeed left speed),false) := by
  have hchanged : (if absDouble (options.targetMm-(options.motion left speed).positionMm) ≤
        (options.motion left speed).velocityMmS*(options.motion left speed).velocityMmS/
          (2*options.accelerationMmS2) then
        (options.motion left speed).velocityMmS-
          options.direction*options.accelerationMmS2*options.periodS
      else (options.motion left speed).velocityMmS+
          options.direction*options.accelerationMmS2*options.periodS)=
      options.direction*((if left ≤ speed*speed/2 then speed-1 else speed+1)*options.share) := by
    simp only [options.brakes_iff h0]
    rw [motion_velocityMmS]
    unfold share
    split_ifs <;> ring
  have hvelocity := limited_eq options.direction_cases options.velocity_pos
    ((if left ≤ speed*speed/2 then speed-1 else speed+1)*options.share)
  rw [options.limited_nextSpeed hs htop] at hvelocity
  rw [motionStep_eq (mt (options.near_iff h0 hs).mp hnear) (options.ahead h0 hb) hchanged hvelocity]
  have hposition : (options.motion left speed).positionMm+
      options.direction*(options.unitMove.nextSpeed left speed*options.share)*options.periodS=
      (options.motion (left-options.unitMove.nextSpeed left speed)
        (options.unitMove.nextSpeed left speed)).positionMm := by
    unfold motion
    ring
  rw [hposition,motion_arrived options left speed]
  exact if_congr ((options.past_iff _ _).trans sub_neg) rfl rfl

theorem motionStep_past (hs : 0 ≤ speed) (hnear : ¬options.unitMove.Near 0 speed)
    (hback : options.targetMm<options.startMm) :
    (motionStep (options.motion 0 speed) options.periodS).1.positionMm<options.targetMm := by
  have hshare := options.share_pos
  have hd : options.direction= -1 := if_neg (not_le.mpr hback)
  have herror : options.targetMm-(options.motion 0 speed).positionMm=0 := by
    rw [motion_error,zero_mul,mul_zero]
  have hchanged : (if absDouble (options.targetMm-(options.motion 0 speed).positionMm) ≤
        (options.motion 0 speed).velocityMmS*(options.motion 0 speed).velocityMmS/
          (2*options.accelerationMmS2) then
        (options.motion 0 speed).velocityMmS-1*options.accelerationMmS2*options.periodS
      else (options.motion 0 speed).velocityMmS+1*options.accelerationMmS2*options.periodS)=
      -1*((speed+1)*options.share) := by
    rw [if_pos ((options.brakes_iff (le_refl 0)).mpr (stopWay_nonneg speed)),motion_velocityMmS,hd]
    unfold share
    ring
  have hvelocity := limited_eq (.inr rfl) options.velocity_pos ((speed+1)*options.share)
  rw [motionStep_eq (mt (options.near_iff (le_refl 0) hs).mp hnear)
    (by rw [motion_targetMm,herror]; exact if_pos (le_refl 0)) hchanged hvelocity]
  have hfast : 0 < max (min ((speed+1)*options.share) options.velocityMmS)
      (-options.velocityMmS)*options.periodS := by
    apply mul_pos _ options.period_pos
    apply lt_max_of_lt_left
    exact lt_min (mul_pos (by linarith) hshare) options.velocity_pos
  have hbehind : (options.motion 0 speed).positionMm+
      -1*max (min ((speed+1)*options.share) options.velocityMmS) (-options.velocityMmS)*
        options.periodS<options.targetMm := by
    linarith
  rw [if_neg]
  · exact hbehind
  · intro h
    rcases h with h|h
    · exact absurd h.2 (not_lt.mpr hbehind.le)
    · linarith [h.1]

theorem motionStep_near (h0 : 0 ≤ left) (hs : 0 ≤ speed) (hnear : options.unitMove.Near left speed) :
    motionStep (options.motion left speed) options.periodS=(options.motion 0 0,true) := by
  rw [motion_arrived options left speed]
  exact if_pos ((options.near_iff h0 hs).mpr hnear)

theorem startMm_eq :
    options.startMm=options.targetMm-options.direction*(options.way*(options.share*options.periodS)) :=
  congrArg MotionState.positionMm options.init_eq

theorem motion_between (h0 : 0 ≤ left) (hway : left ≤ options.way) :
    (options.motion left speed).positionMm ∈ Set.uIcc options.startMm options.targetMm := by
  have hshare := options.shareWay_pos
  have hleft := mul_nonneg h0 hshare.le
  have hless := mul_le_mul_of_nonneg_right hway hshare.le
  rw [startMm_eq,Set.mem_uIcc]
  unfold motion
  rcases options.direction_cases with hd|hd
  · rw [hd]
    exact .inl ⟨by linarith,by linarith⟩
  · rw [hd]
    exact .inr ⟨by linarith,by linarith⟩

theorem reaches_step {left' speed' : R} {finished : Bool} (h0 : 0 ≤ left) (hway : left ≤ options.way)
    (hs : 0 ≤ speed) (htop : speed ≤ options.unitMove.top)
    (hstep : motionStep (options.motion left speed) options.periodS=
      (options.motion left' speed',finished))
    (h0' : 0 ≤ left') (hle : left' ≤ left)
    (h : Reaches options.periodS options.startMm (options.motion left' speed',finished)) :
    Reaches options.periodS options.startMm (options.motion left speed,false) := by
  apply Reaches.head (options.motion_between h0 hway)
  · rw [plannerCycle_running,hstep,motion_targetMm,options.abs_error h0',options.abs_error h0]
    exact mul_le_mul_of_nonneg_right hle options.shareWay_pos.le
  · rw [options.abs_velocity hs,motion_maxVelocityMmS,velocity_eq]
    exact mul_le_mul_of_nonneg_right htop options.share_pos.le
  · rw [plannerCycle_running,hstep]
    exact h

theorem reaches_arrived :
    Reaches options.periodS options.startMm (options.motion 0 0,true) := by
  apply reaches_finished
  · simp [motion]
  · simp [motion,options.velocity_pos.le]

theorem reaches_of_arrives (h : options.unitMove.Arrives (options.targetMm<options.startMm) left speed)
    (h0 : 0 ≤ left) (hway : left ≤ options.way) (hs : 0 ≤ speed)
    (htop : speed ≤ options.unitMove.top) :
    Reaches options.periodS options.startMm (options.motion left speed,false) := by
  induction h with
  | near hnear =>
    exact options.reaches_step h0 hway hs htop (options.motionStep_near h0 hs hnear) (le_refl 0) h0
      options.reaches_arrived
  | reach hnear hb hlt =>
    have hstep := options.motionStep_motion h0 hs htop hnear hb
    rw [if_pos hlt] at hstep
    exact options.reaches_step h0 hway hs htop hstep (le_refl 0) h0 options.reaches_arrived
  | next hnear hb hn0 hnle _ ih =>
    have hstep := options.motionStep_motion h0 hs htop hnear hb
    rw [if_neg (not_lt.mpr hnle)] at hstep
    apply options.reaches_step h0 hway hs htop hstep (by linarith) (by linarith)
    exact ih (by linarith) (by linarith) hn0 (UnitMove.nextSpeed_le_top htop)

theorem not_reaches_of_fails
    (h : options.unitMove.Fails (options.targetMm<options.startMm) left speed)
    (h0 : 0 ≤ left) (hs : 0 ≤ speed) (htop : speed ≤ options.unitMove.top) :
    ¬Reaches options.periodS options.startMm (options.motion left speed,false) := by
  induction h with
  | past hnear hback hleft =>
    subst hleft
    intro hreaches
    have hbetween := hreaches.between 1
    rw [Function.iterate_one,plannerCycle_running,motion_targetMm,Set.uIcc_of_ge hback.le] at hbetween
    exact absurd (options.motionStep_past hs hnear hback) (not_lt.mpr hbetween.1)
  | @back left speed hnear hb hneg =>
    intro hreaches
    have hnearer := hreaches.nearer 0
    have hstep := options.motionStep_motion h0 hs htop hnear hb
    rw [if_neg (by linarith)] at hstep
    change |_-(plannerCycle options.periodS (options.motion left speed,false)).1.positionMm| ≤
      |_-(options.motion left speed).positionMm| at hnearer
    rw [plannerCycle_running,hstep,motion_targetMm,options.abs_error h0,
      options.abs_error (by linarith)] at hnearer
    have hless := le_of_mul_le_mul_right hnearer options.shareWay_pos
    linarith
  | next hnear hb hn0 hnle _ ih =>
    intro hreaches
    have hstep := options.motionStep_motion h0 hs htop hnear hb
    rw [if_neg (not_lt.mpr hnle)] at hstep
    apply ih (by linarith) hn0 (UnitMove.nextSpeed_le_top htop)
    rw [← hstep]
    exact hreaches.tail

end MotionOptions

end UnitMove

/-- A move by the planner reaches its target, as it should for all options, exactly if it does not
turn back before it and, going backwards, does not sweep past it. -/
theorem motion_reaches_iff [IsStrictOrderedRing R] [FloorRing R] (options : MotionOptions R) :
    Reaches options.periodS options.startMm (options.init,false) ↔
      ¬(options.unitMove.TurnsBack options.way ∨
        (options.targetMm<options.startMm ∧ options.unitMove.SweepsPast options.way)) := by
  have houtcome : options.unitMove.Outcome (options.targetMm<options.startMm) options.way 0 _ :=
    UnitMove.outcome_from_rest options.way_nonneg
  have htop := options.unitMove.top_pos.le
  rw [options.init_eq]
  constructor
  · intro hreaches hfault
    exact options.not_reaches_of_fails (houtcome.fails hfault) options.way_nonneg (le_refl 0) htop
      hreaches
  · intro hnone
    exact options.reaches_of_arrives (houtcome.arrives hnone) options.way_nonneg (le_refl _)
      (le_refl 0) htop

/-- A metre forward with the default velocity, acceleration and period. -/
noncomputable def metreForward : MotionOptions ℝ where
  startMm := 0
  targetMm := 1000
  velocityMmS := 250
  accelerationMmS2 := 1000
  periodS := 1000/1000000
  velocity_pos := by norm_num
  acceleration_pos := by norm_num
  period_pos := by norm_num

theorem metreForward_reaches :
    Reaches metreForward.periodS metreForward.startMm (metreForward.init,false) := by
  apply (motion_reaches_iff metreForward).mpr
  intro h
  rcases h with h|h
  · apply UnitMove.not_turnsBack_of_whole (k := 250) _ h
    norm_num [MotionOptions.unitMove,MotionOptions.share,metreForward]
  · have hback := h.1
    norm_num [metreForward] at hback

/-- A slow move with a long period, whose top speed is half of what a step changes. -/
noncomputable def halfStep : MotionOptions ℝ where
  startMm := 0
  targetMm := 6/1000
  velocityMmS := 1/2
  accelerationMmS2 := 100
  periodS := 10000/1000000
  velocity_pos := by norm_num
  acceleration_pos := by norm_num
  period_pos := by norm_num

/-- Three steps' way backwards, of which two are the climb to the top speed. -/
noncomputable def threeBack : MotionOptions ℝ where
  startMm := 3/1000
  targetMm := 0
  velocityMmS := 2
  accelerationMmS2 := 1000
  periodS := 1000/1000000
  velocity_pos := by norm_num
  acceleration_pos := by norm_num
  period_pos := by norm_num

theorem halfStep_run (n : ℕ) :
    (plannerCycle halfStep.periodS)^[2*n+1] (halfStep.init,false)=
      (⟨5/1000,1/2,6/1000,1/2,100⟩,false) ∧
    (plannerCycle halfStep.periodS)^[2*n+2] (halfStep.init,false)=
      (⟨0,-1/2,6/1000,1/2,100⟩,false) := by
  have hforth : ∀ velocity : ℝ,velocity=0 ∨ velocity= -1/2 →
      plannerCycle halfStep.periodS (⟨0,velocity,6/1000,1/2,100⟩,false)=
        (⟨5/1000,1/2,6/1000,1/2,100⟩,false) := by
    intro velocity hvelocity
    rcases hvelocity with hvelocity|hvelocity <;>
      norm_num [plannerCycle,motionStep,absDouble,halfStep,hvelocity]
  have hback : plannerCycle halfStep.periodS (⟨5/1000,1/2,6/1000,1/2,100⟩,false)=
      ((⟨0,-1/2,6/1000,1/2,100⟩,false) : MotionState ℝ × Bool) := by
    norm_num [plannerCycle,motionStep,absDouble,halfStep]
  induction n with
  | zero =>
    have hfirst : (plannerCycle halfStep.periodS)^[2*0+1] (halfStep.init,false)=
        (⟨5/1000,1/2,6/1000,1/2,100⟩,false) := hforth 0 (.inl rfl)
    refine ⟨hfirst,?_⟩
    rw [Function.iterate_succ_apply',hfirst,hback]
  | succ n ih =>
    have hnext : (plannerCycle halfStep.periodS)^[2*(n+1)+1] (halfStep.init,false)=
        (⟨5/1000,1/2,6/1000,1/2,100⟩,false) := by
      rw [Function.iterate_succ_apply',Nat.mul_succ,ih.2,hforth _ (.inr rfl)]
    refine ⟨hnext,?_⟩
    rw [Function.iterate_succ_apply',hnext,hback]

/-- The slow move is never finished, and the other one leaves the way to its target. -/
theorem slow_move_endless :
    (¬Reaches halfStep.periodS halfStep.startMm (halfStep.init,false) ∧
      ∀ n,((plannerCycle halfStep.periodS)^[n] (halfStep.init,false)).2=false) ∧
    ¬Reaches threeBack.periodS threeBack.startMm (threeBack.init,false) := by
  have hrunning : ∀ n,((plannerCycle halfStep.periodS)^[n] (halfStep.init,false)).2=false := by
    intro n
    obtain ⟨k,rfl|rfl|rfl⟩ : ∃ k,n=0 ∨ n=2*k+1 ∨ n=2*k+2 := ⟨(n-1)/2,by omega⟩
    · rfl
    · rw [(halfStep_run k).1]
    · rw [(halfStep_run k).2]
  refine ⟨⟨?_,hrunning⟩,?_⟩
  · intro h
    obtain ⟨n,hn,_⟩ := h.arrives
    rw [hrunning n] at hn
    cases hn
  · intro h
    have hbetween := h.between 3
    norm_num [plannerCycle,motionStep,absDouble,threeBack,MotionOptions.init,motionInit,
      Set.mem_uIcc,Function.iterate_succ_apply] at hbetween

end EtherCATMaster.Lms
