import EtherCATMaster.Framework.Run
import EtherCATMaster.Math.Ramp
import EtherCATMaster.Motion.MoveRun
import Mathlib.Tactic.LinearCombination

namespace EtherCATMaster.Motion

open EtherCATMaster.Math EtherCATMaster.Framework

variable {R : Type} [Field R] [LinearOrder R] [IsStrictOrderedRing R]

/-- The limits that a move command resolves to. -/
def moveLimits (command : Cia402MotionCommand R) : RampLimits R where
  maxSpeed := configuredSpeed command.profileVelocity
  rise := configuredAccel command.acceleration (configuredSpeed command.profileVelocity)
  fall := configuredAccel command.deceleration (configuredSpeed command.profileVelocity)
  slack := 1/2
  maxSpeed_pos := zero_lt_one.trans_le (one_le_configuredSpeed _)
  rise_pos := zero_lt_one.trans_le (one_le_configuredAccel _ _)
  fall_pos := zero_lt_one.trans_le (one_le_configuredAccel _ _)
  slack_nonneg := by norm_num

/-- A profile that walks the ramp in the given direction. -/
structure Walks (command : Cia402MotionCommand R) (p : Cia402MotionProfile R) (direction : R)
    (r : Ramp (moveLimits command)) : Prop where
  running : p.done=false
  way : p.targetPosition-p.position=direction*r.left
  velocity : p.velocity=direction*r.speed
  maxVelocity : p.maxVelocity=(moveLimits command).maxSpeed
  acceleration : p.acceleration=(moveLimits command).rise
  deceleration : p.deceleration=(moveLimits command).fall

theorem velocityAlong_eq (command : Cia402MotionCommand R) (r : Ramp (moveLimits command))
    (dtS : R) :
    (if r.left ≤ r.speed*r.speed/(2*(moveLimits command).fall)+positionEpsilon then
      (if r.speed-(moveLimits command).fall*dtS<0 then 0
        else r.speed-(moveLimits command).fall*dtS)
    else
      (if r.speed+(moveLimits command).rise*dtS>(moveLimits command).maxSpeed then
        (moveLimits command).maxSpeed
      else r.speed+(moveLimits command).rise*dtS))=r.nextSpeed dtS := by
  unfold Ramp.nextSpeed
  change (if r.Brakes then _ else _)=_
  by_cases hb : r.Brakes
  · rw [if_pos hb,if_pos hb]
    split_ifs with h
    · exact (max_eq_right h.le).symm
    · exact (max_eq_left (not_lt.mp h)).symm
  · rw [if_neg hb,if_neg hb]
    split_ifs with h
    · exact (min_eq_right h.le).symm
    · exact (min_eq_left (not_lt.mp h)).symm

/-- One trapezoidal step is one step of the ramp. -/
theorem trapezoidal_eq_ramp (command : Cia402MotionCommand R) (p : Cia402MotionProfile R)
    (direction dtS : R) (r : Ramp (moveLimits command)) (hunit : direction=1 ∨ direction= -1)
    (h : Walks command p direction r) :
    stepPositionProfileTrapezoidal p dtS=
      if r.Arrives dtS then
        { p with position := p.targetPosition, velocity := 0, done := true }
      else
        { p with
          position := p.position+direction*r.nextSpeed dtS*dtS
          velocity := direction*r.nextSpeed dtS } := by
  have hleft := r.left_pos
  have hspeed := r.speed_nonneg
  have hsign : (if direction*r.left≥0 then (1 : R) else -1)=direction := by
    rcases hunit with hd|hd
    · rw [hd,if_pos (by linarith)]
    · rw [hd,if_neg (by linarith)]
  have hremaining : |direction*r.left|=r.left := by
    rcases hunit with hd|hd <;> rw [hd] <;> simp [abs_of_pos hleft]
  have hfast : |direction*r.speed|=r.speed := by
    rcases hunit with hd|hd <;> rw [hd] <;> simp [abs_of_nonneg hspeed]
  have halong : direction*r.speed*direction=r.speed := by
    rcases hunit with hd|hd <;> rw [hd] <;> ring
  -- The source tests the new position against the target; the ramp tests the way left.
  have hpass : ((direction>0 ∧ p.position+direction*r.nextSpeed dtS*dtS≥p.targetPosition) ∨
      (direction<0 ∧ p.position+direction*r.nextSpeed dtS*dtS ≤ p.targetPosition)) ↔
      r.left ≤ r.nextSpeed dtS*dtS := by
    have hway := h.way
    rcases hunit with hd|hd
    · rw [hd] at hway ⊢
      constructor
      · rintro (⟨_,hx⟩|⟨hn,_⟩)
        · linarith
        · linarith
      · intro hx
        exact .inl ⟨one_pos,by linarith⟩
    · rw [hd] at hway ⊢
      constructor
      · rintro (⟨hn,_⟩|⟨_,hx⟩)
        · linarith
        · linarith
      · intro hx
        exact .inr ⟨by norm_num,by linarith⟩
  unfold stepPositionProfileTrapezoidal
  rw [if_neg (by rw [h.running]; decide)]
  simp only [absDouble_eq_abs,h.way,hremaining,h.velocity,hfast,hsign,halong,h.maxVelocity,
    h.acceleration,h.deceleration,if_neg (not_lt.mpr hspeed),velocityAlong_eq,hpass]
  by_cases hnear : r.left ≤ positionEpsilon ∧ r.speed ≤ velocityEpsilon
  · have ha : r.Arrives dtS := Or.inl hnear
    rw [if_pos hnear,if_pos ha]
  · rw [if_neg hnear]
    by_cases hend : r.left ≤ r.nextSpeed dtS*dtS
    · have ha : r.Arrives dtS := Or.inr hend
      rw [if_pos hend,if_pos ha]
    · have hn : ¬r.Arrives dtS := by
        rintro (h1|h2)
        · exact hnear h1
        · exact hend h2
      rw [if_neg hend,if_neg hn]

theorem walks_step (command : Cia402MotionCommand R) (p : Cia402MotionProfile R)
    (direction dtS : R) (r : Ramp (moveLimits command)) (hdt : 0<dtS)
    (hunit : direction=1 ∨ direction= -1) (h : Walks command p direction r) :
    (r.Arrives dtS ∧ Arrived (stepPositionProfileTrapezoidal p dtS)) ∨
    ∃ hn : ¬r.Arrives dtS,
      Walks command (stepPositionProfileTrapezoidal p dtS) direction (r.next dtS hdt hn) := by
  rw [trapezoidal_eq_ramp command p direction dtS r hunit h]
  by_cases ha : r.Arrives dtS
  · rw [if_pos ha]
    exact .inl ⟨ha,rfl,rfl,rfl⟩
  · rw [if_neg ha]
    refine .inr ⟨ha,h.running,?_,rfl,h.maxVelocity,h.acceleration,h.deceleration⟩
    have hway := h.way
    change p.targetPosition-(p.position+direction*r.nextSpeed dtS*dtS)=
      direction*(r.left-r.nextSpeed dtS*dtS)
    linear_combination hway

/-- A trapezoidal move to the given target, under way or at rest on it. -/
structure TrapezoidalMove (command : Cia402MotionCommand R) (target direction : R)
    (p : Cia402MotionProfile R) : Prop where
  profileType : p.profileType=.trapezoidal
  target : p.targetPosition=target
  state : Arrived p ∨ ∃ r,Walks command p direction r

theorem abs_velocity_le (command : Cia402MotionCommand R) (start target : R)
    (p : Cia402MotionProfile R)
    (h : TrapezoidalMove command target (directionOf start target) p) :
    |p.velocity| ≤ configuredSpeed command.profileVelocity := by
  have hmax := (moveLimits command).maxSpeed_pos
  rcases h.state with ha|⟨r,hw⟩
  · rw [ha.velocity,abs_zero]
    exact hmax.le
  · have hspeed := abs_of_nonneg r.speed_nonneg
    have hle : r.speed ≤ configuredSpeed command.profileVelocity := r.speed_le
    rw [hw.velocity,abs_mul,hspeed,abs_directionOf,one_mul]
    exact hle

section Run

theorem trapezoidalMove_begin (command : Cia402MotionCommand R) (actualPosition : Int32)
    (h : command.type=.profilePosition)
    (hprofile : normalizeProfileType command.profileType=.trapezoidal) :
    TrapezoidalMove command (command.moveTarget actualPosition : R)
      (directionOf (actualPosition.toInt : R) (command.moveTarget actualPosition : R))
      (cia402ProfileBegin command actualPosition 0) := by
  obtain ⟨ht,hm,ha,hd,hp,_⟩ := cia402ProfileBegin_limits command actualPosition 0 h
  obtain ⟨hpos,hvel,hstart⟩ := begin_at_rest command actualPosition h
  refine ⟨hp.trans hprofile,ht,?_⟩
  rcases hstart with ⟨hdone,hsame⟩|⟨hdone,hne,_⟩
  · exact .inl ⟨hdone,by rw [hpos,ht,hsame],hvel⟩
  · have hdist : (command.moveTarget actualPosition : R)-(actualPosition.toInt : R)≠0 := by
      rw [sub_ne_zero]
      exact_mod_cast hne
    refine .inr ⟨⟨_,0,abs_pos.mpr hdist,le_refl 0,(moveLimits command).maxSpeed_pos.le⟩,hdone,
      ?_,?_,hm,ha,hd⟩
    · rw [ht,hpos]
      exact (directionOf_mul_distance _ _).symm
    · rw [hvel,mul_zero]

variable [HasSqrt R]

section

omit [IsStrictOrderedRing R]

theorem stepPositionProfile_of_trapezoidal (p : Cia402MotionProfile R) (dtS : R)
    (h : p.profileType=.trapezoidal) :
    stepPositionProfile p dtS=stepPositionProfileTrapezoidal p dtS := by
  have hr : profileRampTimeS p=0 := by
    unfold profileRampTimeS
    rw [h]
  unfold stepPositionProfile
  rw [if_pos hr.le]

end

/-- One step of a move: it stays a move, goes ahead and does not pass the target. -/
theorem trapezoidalMove_step (command : Cia402MotionCommand R) (start target dtS : R)
    (hdt : 0<dtS) (p : Cia402MotionProfile R)
    (h : TrapezoidalMove command target (directionOf start target) p) :
    TrapezoidalMove command target (directionOf start target) (stepPositionProfile p dtS) ∧
    Toward start target p.position (stepPositionProfile p dtS).position := by
  have hunit := directionOf_unit start target
  have hsq := directionOf_mul_self start target
  obtain ⟨hf1,_,hf3,_,_,_,_,hf8,_⟩ := stepPositionProfileTrapezoidal_frame p dtS
  have htarget := hf3.trans h.target
  rw [stepPositionProfile_of_trapezoidal p dtS h.profileType]
  rcases h.state with ha|⟨r,hw⟩
  · rw [← stepPositionProfile_of_trapezoidal p dtS h.profileType,
      stepPositionProfile_done p dtS ha.done]
    refine ⟨h,toward_of_direction _ _ _ _ ?_ ?_⟩
    · rw [sub_self,mul_zero]
    · rw [ha.position,h.target,sub_self,mul_zero]
  have hway := hw.way
  rw [h.target] at hway
  have hnext := mul_nonneg (r.nextSpeed_nonneg hdt) hdt.le
  rcases walks_step command p (directionOf start target) dtS r hdt hunit hw with ⟨_,ha⟩|⟨hn,hw'⟩
  · refine ⟨⟨hf8.trans h.profileType,htarget,.inl ha⟩,toward_of_direction _ _ _ _ ?_ ?_⟩
    · rw [ha.position,htarget,hway,← mul_assoc,hsq,one_mul]
      exact r.left_pos.le
    · rw [ha.position,htarget,sub_self,mul_zero]
  · refine ⟨⟨hf8.trans h.profileType,htarget,.inr ⟨_,hw'⟩⟩,toward_of_direction _ _ _ _ ?_ ?_⟩
    · have hway' := hw'.way
      rw [htarget] at hway'
      have hstep : directionOf start target*
          ((stepPositionProfileTrapezoidal p dtS).position-p.position)=r.nextSpeed dtS*dtS := by
        change _=directionOf start target*(r.left-r.nextSpeed dtS*dtS) at hway'
        linear_combination directionOf start target*hway-directionOf start target*hway'+
          (r.nextSpeed dtS*dtS)*hsq
      rw [hstep]
      exact hnext
    · have hway' := hw'.way
      rw [htarget] at hway'
      rw [hway',← mul_assoc,hsq,one_mul]
      exact (r.next dtS hdt hn).left_pos.le

variable [FloorRing R]

theorem trapezoidalMove_rank (command : Cia402MotionCommand R) (start target dtS : R)
    (hdt : 0<dtS) (p : Cia402MotionProfile R) (hp : p.profileType=.trapezoidal)
    (r : Ramp (moveLimits command)) (hw : Walks command p (directionOf start target) r) :
    Arrived (stepPositionProfile p dtS) ∨
    ∃ r',r'.measure dtS < r.measure dtS ∧
      Walks command (stepPositionProfile p dtS) (directionOf start target) r' := by
  rw [stepPositionProfile_of_trapezoidal p dtS hp]
  rcases walks_step command p _ dtS r hdt (directionOf_unit start target) hw with ⟨_,ha⟩|⟨hn,hw'⟩
  · exact .inl ha
  · exact .inr ⟨_,r.next_measure_lt dtS hdt hn,hw'⟩

variable (command : Cia402MotionCommand R) (inputs : ℕ → ProfileInput)

theorem trapezoidalMove_at (h : command.type=.profilePosition)
    (hprofile : normalizeProfileType command.profileType=.trapezoidal)
    (hrest : (inputs 0).actualVelocity=0) (hperiod : ∀ n,0<(inputs n).periodUs) (n : ℕ) :
    TrapezoidalMove command (command.moveTarget (inputs 0).actualPosition : R)
      (directionOf ((inputs 0).actualPosition.toInt : R)
        (command.moveTarget (inputs 0).actualPosition : R))
      (currentAt command inputs n) := by
  refine currentAt_induction command inputs h
    (fun _ p => TrapezoidalMove command (command.moveTarget (inputs 0).actualPosition : R)
      (directionOf ((inputs 0).actualPosition.toInt : R)
        (command.moveTarget (inputs 0).actualPosition : R)) p) ?_ ?_ ?_ n
  · rintro n p out ⟨h1,h2,h3⟩
    refine ⟨h1,h2,h3.imp (fun ha => ⟨ha.done,ha.position,ha.velocity⟩) ?_⟩
    rintro ⟨r,hw⟩
    exact ⟨r,hw.running,hw.way,hw.velocity,hw.maxVelocity,hw.acceleration,hw.deceleration⟩
  · rw [hrest]
    exact trapezoidalMove_begin command _ h hprofile
  · intro n p hp
    exact (trapezoidalMove_step command _ _ _ (periodSeconds_pos _ (hperiod n)) p hp).1

theorem trapezoidalMove_arrives (h : command.type=.profilePosition)
    (hprofile : normalizeProfileType command.profileType=.trapezoidal)
    (hrest : (inputs 0).actualVelocity=0) (hperiod : ∀ n,0<(inputs n).periodUs)
    (hfixed : ∀ n,(inputs n).periodUs=(inputs 0).periodUs) :
    ∃ N,Arrived (currentAt command inputs (N+1)) := by
  have hmove := trapezoidalMove_at command inputs h hprofile hrest hperiod
  have hdt := periodSeconds_pos (R := R) _ (hperiod 0)
  rcases (hmove 0).state with ha|⟨r,hw⟩
  · refine ⟨0,?_⟩
    rw [currentAt_succ command inputs h 0]
    have hs := arrived_stays command inputs h 0 ha 0 (le_refl 0)
    exact ⟨hs.done,hs.position,hs.velocity⟩
  · refine eventually_of_rank (D := fun n => Arrived (currentAt command inputs n))
      (W := fun n m => ∃ r : Ramp (moveLimits command),
        r.measure (periodSeconds (inputs 0).periodUs)=m ∧
        Walks command (currentAt command inputs n) _ r) ?_ ⟨r,rfl,hw⟩
    rintro n m ⟨r,rfl,hw⟩
    rw [currentAt_succ command inputs h n,steppedAt,hfixed n]
    rcases trapezoidalMove_rank command _ _ _ hdt _ (hmove n).profileType r hw with
      ha|⟨r',hlt,hw'⟩
    · exact .inl ⟨ha.done,ha.position,ha.velocity⟩
    · exact .inr ⟨_,hlt,r',rfl,hw'.running,hw'.way,hw'.velocity,hw'.maxVelocity,
        hw'.acceleration,hw'.deceleration⟩

/-- A trapezoidal move from rest goes ahead to its target without passing it, keeps its speed,
and for a fixed period ends at rest on the target and stays there. -/
theorem trapezoidal_move_from_rest (h : command.type=.profilePosition)
    (hprofile : normalizeProfileType command.profileType=.trapezoidal)
    (hrest : (inputs 0).actualVelocity=0) (hperiod : ∀ n,0<(inputs n).periodUs) :
    (∀ n,Toward ((inputs 0).actualPosition.toInt : R)
      (command.moveTarget (inputs 0).actualPosition : R)
      (positionAt command inputs n) (positionAt command inputs (n+1))) ∧
    (∀ n,|(profileAt command inputs (n+1)).velocity| ≤ configuredSpeed command.profileVelocity) ∧
    ((∀ n,(inputs n).periodUs=(inputs 0).periodUs) →
      ∃ N,∀ n,N ≤ n → doneAt command inputs n=true ∧
        (profileAt command inputs (n+1)).position=
          (command.moveTarget (inputs 0).actualPosition : R) ∧
        (profileAt command inputs (n+1)).velocity=0) := by
  have hat := trapezoidalMove_at command inputs h hprofile hrest hperiod
  have hstep := fun n => trapezoidalMove_step command _ _ _
    (periodSeconds_pos _ (hperiod n)) _ (hat n)
  refine ⟨fun n => ?_,fun n => ?_,fun hfixed => ?_⟩
  · rw [← currentAt_position command inputs h hrest n,positionAt,
      (profileAt_succ command inputs h n).1]
    exact (hstep n).2
  · rw [profileAt_eq_currentAt command inputs h n]
    exact abs_velocity_le command _ _ _ (hat (n+1))
  · obtain ⟨N,hN⟩ := trapezoidalMove_arrives command inputs h hprofile hrest hperiod hfixed
    refine ⟨N+1,fun n hn => ?_⟩
    have ha := arrived_stays command inputs h (N+1) hN n hn
    rw [(profileAt_succ command inputs h n).1]
    exact ⟨(profileAt_succ command inputs h n).2.2.2.trans ha.done,
      ha.position.trans (hstep n).1.target,ha.velocity⟩

end Run

/-- A short absolute move that brakes harder than it speeds up. -/
noncomputable def shortMove : Cia402MotionCommand ℝ :=
  { cia402MotionInit with
    type := .profilePosition
    targetPosition := 100
    profileVelocity := -40
    acceleration := 25
    deceleration := 90 }

def steadyInputs : ℕ → ProfileInput := fun _ => ⟨-7,0,4000,⟨0,0,0,0⟩⟩

theorem shortMove_lands :
    (∀ n,Toward (((-7 : Int32).toInt : ℤ) : ℝ) 100 (positionAt shortMove steadyInputs n)
      (positionAt shortMove steadyInputs (n+1))) ∧
    ∃ N,∀ n,N ≤ n → doneAt shortMove steadyInputs n=true ∧
      (profileAt shortMove steadyInputs (n+1)).position=100 ∧
      (profileAt shortMove steadyInputs (n+1)).velocity=0 := by
  have htarget : ((shortMove.moveTarget (-7) : ℤ) : ℝ)=100 := by
    have hn : shortMove.moveTarget (-7)=100 := by
      change (if (false : Bool)=true then _ else ((100 : Int32).toInt))=100
      decide
    rw [hn]
    norm_num
  obtain ⟨hward,_,hlands⟩ := trapezoidal_move_from_rest shortMove steadyInputs rfl
    (by change normalizeProfileType 1=_; decide) rfl (fun _ => by change (0 : Int32)<4000; decide)
  refine ⟨fun n => ?_,?_⟩
  · rw [← htarget]
    exact hward n
  · obtain ⟨N,hN⟩ := hlands (fun _ => rfl)
    refine ⟨N,fun n hn => ⟨(hN n hn).1,?_,(hN n hn).2.2⟩⟩
    rw [← htarget]
    exact (hN n hn).2.1

end EtherCATMaster.Motion
