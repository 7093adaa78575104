import EtherCATMaster.Math.Braking
import EtherCATMaster.Motion.Trapezoidal
import EtherCATMaster.Motion.VelocityRamp

namespace EtherCATMaster.Motion

open EtherCATMaster.Math EtherCATMaster.Framework

section Run

variable {R : Type} [Field R] [LinearOrder R] [IsStrictOrderedRing R]
variable {command : Cia402MotionCommand R} {start target : R} {p : Cia402MotionProfile R}
  {r : Ramp (moveLimits command)}

theorem Walks.abs_way (h : Walks command p (directionOf start target) r) :
    |p.targetPosition-p.position|=r.left := by
  rw [h.way,abs_mul,abs_directionOf,one_mul,abs_of_pos r.left_pos]

theorem Walks.abs_velocity (h : Walks command p (directionOf start target) r) :
    |p.velocity|=r.speed := by
  rw [h.velocity,abs_mul,abs_directionOf,one_mul,abs_of_nonneg r.speed_nonneg]

variable (inputs : ℕ → ProfileInput) (h : command.type=.profilePosition)
  (hprofile : normalizeProfileType command.profileType=.trapezoidal)
  (hrest : (inputs 0).actualVelocity=0) (hperiod : ∀ n,0<(inputs n).periodUs) {n : ℕ}

variable [HasSqrt R] [FloorRing R]

include h hrest in
theorem velocityAt_move (n : ℕ) :
    velocityAt command inputs n=(currentAt command inputs n).velocity := by
  cases n with
  | zero =>
    rw [velocityAt,currentAt_zero,hrest,(begin_at_rest command _ h).2.1]
    exact Int.cast_zero
  | succ n => rw [velocityAt,profileAt_eq_currentAt command inputs h n]

def moveDirection (command : Cia402MotionCommand R) (inputs : ℕ → ProfileInput) : R :=
  directionOf ((inputs 0).actualPosition.toInt : R)
    (command.moveTarget (inputs 0).actualPosition : R)

/-- The move is on the ramp before call number `n`. -/
def WalksAt (command : Cia402MotionCommand R) (inputs : ℕ → ProfileInput) (n : ℕ)
    (r : Ramp (moveLimits command)) : Prop :=
  Walks command (currentAt command inputs n) (moveDirection command inputs) r

include h hrest in
theorem change_arrived (ha : Arrived (currentAt command inputs n)) :
    velocityAt command inputs (n+1)-velocityAt command inputs n=0 ∧
      Arrived (currentAt command inputs (n+1)) := by
  have hstays := arrived_stays command inputs h n ha n (le_refl n)
  have hcurrent := currentAt_succ command inputs h n
  constructor
  · rw [velocityAt_move inputs h hrest (n+1),velocityAt_move inputs h hrest n,hcurrent]
    change (steppedAt command inputs n).velocity-_=0
    rw [hstays.velocity,ha.velocity,sub_zero]
  · rw [hcurrent]
    exact ⟨hstays.done,hstays.position,hstays.velocity⟩

include h hprofile hrest hperiod

theorem change_arrives (hw : WalksAt command inputs n r)
    (ha : r.Arrives (periodSeconds (inputs n).periodUs)) :
    |velocityAt command inputs (n+1)-velocityAt command inputs n|=r.speed ∧
      Arrived (currentAt command inputs (n+1)) := by
  have htype := (trapezoidalMove_at command inputs h hprofile hrest hperiod n).profileType
  have hdt := periodSeconds_pos (R := R) _ (hperiod n)
  have harrived : Arrived (steppedAt command inputs n) := by
    rw [steppedAt,stepPositionProfile_of_trapezoidal _ _ htype]
    rcases walks_step command _ _ _ r hdt (directionOf_unit _ _) hw with ⟨-,hend⟩|⟨hn,-⟩
    · exact hend
    · exact absurd ha hn
  have hcurrent := currentAt_succ command inputs h n
  constructor
  · rw [velocityAt_move inputs h hrest (n+1),velocityAt_move inputs h hrest n,hcurrent]
    change |(steppedAt command inputs n).velocity-_|=_
    rw [harrived.velocity,zero_sub,abs_neg]
    exact hw.abs_velocity
  · rw [hcurrent]
    exact ⟨harrived.done,harrived.position,harrived.velocity⟩

theorem change_walks (hw : WalksAt command inputs n r)
    (hn : ¬r.Arrives (periodSeconds (inputs n).periodUs)) :
    |velocityAt command inputs (n+1)-velocityAt command inputs n| ≤
        (moveLimits command).most (periodSeconds (inputs n).periodUs) ∧
      WalksAt command inputs (n+1)
        (r.next (periodSeconds (inputs n).periodUs) (periodSeconds_pos _ (hperiod n)) hn) := by
  have htype := (trapezoidalMove_at command inputs h hprofile hrest hperiod n).profileType
  have hdt := periodSeconds_pos (R := R) _ (hperiod n)
  have hnext : Walks command (steppedAt command inputs n) (moveDirection command inputs)
      (r.next _ hdt hn) := by
    rw [steppedAt,stepPositionProfile_of_trapezoidal _ _ htype]
    rcases walks_step command _ _ _ r hdt (directionOf_unit _ _) hw with ⟨ha,-⟩|⟨_,hw'⟩
    · exact absurd ha hn
    · exact hw'
  have hcurrent := currentAt_succ command inputs h n
  constructor
  · rw [velocityAt_move inputs h hrest (n+1),velocityAt_move inputs h hrest n,hcurrent]
    change |(steppedAt command inputs n).velocity-_| ≤ _
    rw [hnext.velocity,hw.velocity,← mul_sub,abs_mul]
    change |moveDirection command inputs| * |r.nextSpeed _-r.speed| ≤ _
    rw [moveDirection,abs_directionOf,one_mul]
    exact r.abs_nextSpeed_sub hdt
  · rw [WalksAt,hcurrent]
    exact ⟨hnext.running,hnext.way,hnext.velocity,hnext.maxVelocity,hnext.acceleration,
      hnext.deceleration⟩

theorem walksAt_zero (hleft : r.left=|(command.moveTarget (inputs 0).actualPosition : R)-
      ((inputs 0).actualPosition.toInt : R)|) (hspeed : r.speed=0) :
    WalksAt command inputs 0 r := by
  have hmove := trapezoidalMove_at command inputs h hprofile hrest hperiod 0
  have hposition := currentAt_position command inputs h hrest 0
  rw [positionAt] at hposition
  rcases hmove.state with ha|⟨r0,hw⟩
  · have hpos := r.left_pos
    rw [hleft,← hposition,← hmove.target,ha.position,sub_self,abs_zero] at hpos
    exact absurd hpos (lt_irrefl 0)
  · have hleft0 := hw.abs_way
    have hspeed0 := hw.abs_velocity
    rw [hmove.target,hposition,← hleft] at hleft0
    have hvelocity := velocityAt_move inputs h hrest 0
    rw [velocityAt,hrest,show (0 : Int32).toInt=0 from rfl,Int.cast_zero] at hvelocity
    rw [← hvelocity,abs_zero,← hspeed] at hspeed0
    rw [Ramp.ext hleft0 hspeed0]
    exact hw

theorem walksAt_next (hw : WalksAt command inputs n r)
    (hn : ¬r.Arrives (periodSeconds (inputs n).periodUs))
    {r' : Ramp (moveLimits command)}
    (hspeed : r'.speed=r.nextSpeed (periodSeconds (inputs n).periodUs))
    (hleft : r'.left=r.left-r'.speed*periodSeconds (inputs n).periodUs) :
    WalksAt command inputs (n+1) r' := by
  have hnext := (change_walks inputs h hprofile hrest hperiod hw hn).2
  rw [hspeed] at hleft
  rw [show r'=r.next _ (periodSeconds_pos _ (hperiod n)) hn from Ramp.ext hleft hspeed]
  exact hnext

theorem not_stops_exceeds (hfixed : ∀ n,(inputs n).periodUs=(inputs 0).periodUs)
    (hw : WalksAt command inputs n r)
    (hstops : ¬Stops (moveLimits command) (periodSeconds (inputs 0).periodUs) r.left r.speed) :
    ∃ m,n ≤ m ∧ (moveLimits command).most (periodSeconds (inputs 0).periodUs) <
      |velocityAt command inputs (m+1)-velocityAt command inputs m| := by
  have hdt := periodSeconds_pos (R := R) _ (hperiod 0)
  obtain ⟨N,hN⟩ := trapezoidalMove_arrives command inputs h hprofile hrest hperiod hfixed
  have harrived : ∀ n,N+1 ≤ n → Arrived (currentAt command inputs n) := by
    intro n hn
    induction n, hn using Nat.le_induction with
    | base => exact hN
    | succ n _ ih => exact (change_arrived inputs h hrest ih).2
  refine exists_of_until (P := fun n => ∃ r,WalksAt command inputs n r ∧
      ¬Stops (moveLimits command) (periodSeconds (inputs 0).periodUs) r.left r.speed)
    ?_ (N := N+1) ?_ ⟨r,hw,hstops⟩
  · rintro n ⟨r,hw,hstops⟩
    by_cases ha : r.Arrives (periodSeconds (inputs n).periodUs)
    · left
      rw [(change_arrives inputs h hprofile hrest hperiod hw ha).1]
      exact fast_of_not_stops hdt hstops
    · right
      have hn := ha
      rw [hfixed n] at hn
      refine ⟨_,(change_walks inputs h hprofile hrest hperiod hw ha).2,?_⟩
      have hnext := r.not_stops_next hdt hstops hn
      simp only [hfixed n]
      exact hnext
  · rintro n hn ⟨r,hw,-⟩
    have hdone := (harrived n hn).done
    rw [hw.running] at hdone
    cases hdone

/-- The velocity of a trapezoidal move from rest changes within the limits in every cycle if and only
if every step leaves the room to stop. -/
theorem trapezoidal_within_limits (hfixed : ∀ n,(inputs n).periodUs=(inputs 0).periodUs) :
    (∀ n,|velocityAt command inputs (n+1)-velocityAt command inputs n| ≤
      (moveLimits command).most (periodSeconds (inputs 0).periodUs)) ↔
    ∀ n,(currentAt command inputs n).done=false →
      Prudent (moveLimits command) (periodSeconds (inputs 0).periodUs)
        |(currentAt command inputs n).targetPosition-(currentAt command inputs n).position|
        |(currentAt command inputs n).velocity| := by
  have hat := trapezoidalMove_at command inputs h hprofile hrest hperiod
  have hdt := periodSeconds_pos (R := R) _ (hperiod 0)
  constructor
  · intro hwithin n hdone
    rcases (hat n).state with ha|⟨r,hw⟩
    · rw [ha.done] at hdone
      cases hdone
    · rw [hw.abs_way,hw.abs_velocity]
      by_contra himprudent
      rcases r.not_prudent hdt himprudent with ⟨ha,hfast⟩|⟨hn,hstops⟩
      · rw [← hfixed n] at ha
        have hchange := hwithin n
        rw [(change_arrives inputs h hprofile hrest hperiod hw ha).1] at hchange
        exact absurd hfast (not_lt.mpr hchange)
      · have hn' := hn
        rw [← hfixed n] at hn'
        have hnext := (change_walks inputs h hprofile hrest hperiod hw hn').2
        simp only [hfixed n] at hnext
        obtain ⟨m,-,hexceeds⟩ :=
          not_stops_exceeds inputs h hprofile hrest hperiod hfixed hnext hstops
        exact absurd hexceeds (not_lt.mpr (hwithin m))
  · intro hprudent
    -- the walk keeps the room to stop
    have hroom : ∀ n,Arrived (currentAt command inputs n) ∨ ∃ r,WalksAt command inputs n r ∧
        Stops (moveLimits command) (periodSeconds (inputs 0).periodUs) r.left r.speed := by
      intro n
      induction n with
      | zero =>
        rcases (hat 0).state with ha|⟨r,hw⟩
        · exact .inl ha
        · refine .inr ⟨r,hw,stops_of_le hdt ?_⟩
          have hzero := velocityAt_move inputs h hrest 0
          rw [velocityAt,hrest] at hzero
          have hspeed := hw.abs_velocity
          rw [← hzero,show (0 : Int32).toInt=0 from rfl,Int.cast_zero,abs_zero] at hspeed
          rw [← hspeed]
          exact ((moveLimits command).most_pos hdt).le
      | succ n ih =>
        rcases ih with ha|⟨r,hw,hstops⟩
        · exact .inl (change_arrived inputs h hrest ha).2
        · by_cases ha : r.Arrives (periodSeconds (inputs n).periodUs)
          · exact .inl (change_arrives inputs h hprofile hrest hperiod hw ha).2
          · have hp := hprudent n hw.running
            rw [hw.abs_way,hw.abs_velocity] at hp
            have hn := ha
            rw [hfixed n] at hn
            have hnext := r.prudent_next hdt hstops hp hn
            refine .inr ⟨_,(change_walks inputs h hprofile hrest hperiod hw ha).2,?_⟩
            simp only [hfixed n]
            exact hnext
    intro n
    rcases hroom n with ha|⟨r,hw,hstops⟩
    · rw [(change_arrived inputs h hrest ha).1,abs_zero]
      exact ((moveLimits command).most_pos hdt).le
    · by_cases ha : r.Arrives (periodSeconds (inputs n).periodUs)
      · rw [(change_arrives inputs h hprofile hrest hperiod hw ha).1]
        have hp := hprudent n hw.running
        rw [hw.abs_way,hw.abs_velocity] at hp
        rw [hfixed n] at ha
        exact r.prudent_arrives hdt hstops hp ha
      · have hchange := (change_walks inputs h hprofile hrest hperiod hw ha).1
        rw [hfixed n] at hchange
        exact hchange

end Run

/-- A move that speeds up eight times as hard as it brakes. -/
noncomputable def lateMove : Cia402MotionCommand ℝ :=
  { cia402MotionInit with
    type := .profilePosition
    targetPosition := 41
    profileVelocity := 20000
    acceleration := 8000000
    deceleration := 1000000 }

def lateInputs : ℕ → ProfileInput := fun _ => ⟨0,0,1000,⟨0,0,0,0⟩⟩

theorem lateInputs_period (n : ℕ) : 0<(lateInputs n).periodUs := by
  change (0 : Int32)<1000
  decide

theorem lateInputs_dt (n : ℕ) : periodSeconds (lateInputs n).periodUs=(1/1000 : ℝ) := by
  rw [periodSeconds,if_pos (lateInputs_period n),
    show ((lateInputs n).periodUs.toInt : ℤ)=1000 from rfl]
  norm_num

theorem lateMove_limits :
    (moveLimits lateMove).maxSpeed=20000 ∧ (moveLimits lateMove).rise=8000000 ∧
      (moveLimits lateMove).fall=1000000 ∧ (moveLimits lateMove).slack=1/2 := by
  have haccel : ∀ speed : ℝ,configuredAccel 8000000 speed=8000000 := by
    intro speed
    rw [configuredAccel,if_pos (by decide),show (8000000 : UInt32).toNat=8000000 from rfl]
    norm_num
  have hdecel : ∀ speed : ℝ,configuredAccel 1000000 speed=1000000 := by
    intro speed
    rw [configuredAccel,if_pos (by decide),show (1000000 : UInt32).toNat=1000000 from rfl]
    norm_num
  refine ⟨?_,haccel (configuredSpeed 20000),hdecel (configuredSpeed 20000),rfl⟩
  change (configuredSpeed 20000 : ℝ)=_
  rw [configuredSpeed,show (20000 : Int32).toInt=20000 from rfl]
  norm_num [absDouble]

noncomputable def lateRamp (left speed : ℝ) (h : 0<left ∧ 0 ≤ speed ∧ speed ≤ 20000) :
    Ramp (moveLimits lateMove) where
  left := left
  speed := speed
  left_pos := h.1
  speed_nonneg := h.2.1
  speed_le := by
    rw [lateMove_limits.1]
    exact h.2.2

theorem lateRamp_brakes (left speed : ℝ) (h : 0<left ∧ 0 ≤ speed ∧ speed ≤ 20000) :
    (lateRamp left speed h).Brakes ↔ left ≤ speed*speed/2000000+1/2 := by
  obtain ⟨-,-,hfall,hslack⟩ := lateMove_limits
  rw [Ramp.Brakes,hfall,hslack]
  norm_num [lateRamp]

theorem late_step {n : ℕ} {left speed : ℝ} {h : 0<left ∧ 0 ≤ speed ∧ speed ≤ 20000}
    (hw : WalksAt lateMove lateInputs n (lateRamp left speed h)) (speed' : ℝ)
    (hspeed : speed'=if left ≤ speed*speed/2000000+1/2 then max (speed-1000) 0
      else min (speed+8000) 20000) (hfar : 1/2 < left)
    (h' : 0<left-speed'/1000 ∧ 0 ≤ speed' ∧ speed' ≤ 20000) :
    WalksAt lateMove lateInputs (n+1) (lateRamp (left-speed'/1000) speed' h') := by
  obtain ⟨hmax,hrise,hfall,hslack⟩ := lateMove_limits
  have hnext : (lateRamp left speed h).nextSpeed (1/1000)=speed' := by
    rw [hspeed,Ramp.nextSpeed,hmax,hrise,hfall]
    simp only [lateRamp_brakes]
    norm_num [lateRamp]
  refine walksAt_next lateInputs rfl (by change normalizeProfileType 1=_; decide) rfl
    lateInputs_period hw ?_ ?_ ?_
  · rw [lateInputs_dt]
    rintro (⟨hnear,-⟩|hway)
    · rw [hslack] at hnear
      exact absurd hfar (not_lt.mpr hnear)
    · rw [hnext] at hway
      change left ≤ speed'*(1/1000) at hway
      linarith [h'.1]
  · rw [lateInputs_dt,hnext]
    rfl
  · rw [lateInputs_dt]
    change left-speed'/1000=left-speed'*(1/1000)
    ring

/-- The move speeds up to 16000 and brakes to 15000, which leaves 2 of the way: the next cycle ends it
at once. -/
theorem lateMove_exceeds :
    lateMove.type=.profilePosition ∧ normalizeProfileType lateMove.profileType=.trapezoidal ∧
    (lateInputs 0).actualVelocity=0 ∧ (∀ n,(lateInputs n).periodUs=1000) ∧
    (moveLimits lateMove).most (periodSeconds (lateInputs 0).periodUs)=8000 ∧
    |velocityAt lateMove lateInputs 4-velocityAt lateMove lateInputs 3|=15000 := by
  have hprofile : normalizeProfileType lateMove.profileType=.trapezoidal := by
    change normalizeProfileType 1=_
    decide
  obtain ⟨hmax,hrise,hfall,hslack⟩ := lateMove_limits
  refine ⟨rfl,hprofile,rfl,fun _ => rfl,?_,?_⟩
  · rw [RampLimits.most,hrise,hfall,lateInputs_dt]
    norm_num
  have h0 : WalksAt lateMove lateInputs 0 (lateRamp 41 0 (by norm_num)) := by
    refine walksAt_zero lateInputs rfl hprofile rfl lateInputs_period ?_ rfl
    rw [show lateMove.moveTarget (lateInputs 0).actualPosition=41 from rfl,
      show (lateInputs 0).actualPosition.toInt=0 from rfl]
    norm_num [lateRamp]
  have h1 := late_step h0 8000 (by norm_num) (by norm_num) (by norm_num)
  have h2 := late_step h1 16000 (by norm_num) (by norm_num) (by norm_num)
  have h3 := late_step h2 15000 (by norm_num) (by norm_num) (by norm_num)
  rw [(change_arrives lateInputs rfl hprofile rfl lateInputs_period h3 ?_).1]
  · rfl
  · right
    have hbrakes : (lateRamp (41-8000/1000-16000/1000-15000/1000) 15000 (by norm_num)).Brakes := by
      rw [lateRamp_brakes]
      norm_num
    rw [Ramp.nextSpeed_brakes _ _ hbrakes,hfall,lateInputs_dt]
    norm_num [lateRamp]

/-- A move whose top speed is within what one cycle may take off. -/
noncomputable def slowMove : Cia402MotionCommand ℝ :=
  { cia402MotionInit with
    type := .profilePosition
    targetPosition := 41
    profileVelocity := 5
    acceleration := 8000000
    deceleration := 1000000 }

theorem slowMove_within :
    (moveLimits slowMove).maxSpeed=5 ∧
    ∀ n,|velocityAt slowMove lateInputs (n+1)-velocityAt slowMove lateInputs n| ≤
      (moveLimits slowMove).most (periodSeconds (lateInputs 0).periodUs) := by
  have hprofile : normalizeProfileType slowMove.profileType=.trapezoidal := by
    change normalizeProfileType 1=_
    decide
  have hmax : (moveLimits slowMove).maxSpeed=5 := by
    change (configuredSpeed 5 : ℝ)=_
    rw [configuredSpeed,show (5 : Int32).toInt=5 from rfl]
    norm_num [absDouble]
  have hrise : (moveLimits slowMove).rise=8000000 := lateMove_limits.2.1
  have hdt : (0 : ℝ)<periodSeconds (lateInputs 0).periodUs :=
    periodSeconds_pos _ (lateInputs_period 0)
  have htop : (moveLimits slowMove).maxSpeed≤
      (moveLimits slowMove).most (periodSeconds (lateInputs 0).periodUs) := by
    rw [hmax,RampLimits.most,hrise,lateInputs_dt]
    have hle := le_max_left (8000000 : ℝ) (moveLimits slowMove).fall
    linarith
  refine ⟨hmax,(trapezoidal_within_limits lateInputs rfl hprofile rfl lateInputs_period
    fun _ => rfl).mpr fun n hdone => prudent_of_maxSpeed_le hdt htop ?_⟩
  exact abs_velocity_le slowMove _ _ _
    (trapezoidalMove_at slowMove lateInputs rfl hprofile rfl lateInputs_period n)

end EtherCATMaster.Motion
