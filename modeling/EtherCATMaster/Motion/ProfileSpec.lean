import EtherCATMaster.Motion.Profile
import Mathlib.Tactic.Linarith
import Mathlib.Tactic.NormNum
import Mathlib.Tactic.Positivity

namespace EtherCATMaster.Motion

open EtherCATMaster.Math

variable {R : Type}

def Cia402MotionProfile.Frame (p q : Cia402MotionProfile R) : Prop :=
  q.type=p.type ∧ q.active=p.active ∧ q.targetPosition=p.targetPosition ∧
    q.targetVelocity=p.targetVelocity ∧ q.maxVelocity=p.maxVelocity ∧
    q.acceleration=p.acceleration ∧ q.deceleration=p.deceleration ∧
    q.profileType=p.profileType ∧ q.jerkRatio=p.jerkRatio

theorem Cia402MotionProfile.Frame.refl (p : Cia402MotionProfile R) : p.Frame p :=
  ⟨rfl,rfl,rfl,rfl,rfl,rfl,rfl,rfl,rfl⟩

theorem Cia402MotionProfile.Frame.trans {p q r : Cia402MotionProfile R} (h : p.Frame q)
    (k : q.Frame r) : p.Frame r := by
  obtain ⟨h1,h2,h3,h4,h5,h6,h7,h8,h9⟩ := h
  obtain ⟨k1,k2,k3,k4,k5,k6,k7,k8,k9⟩ := k
  exact ⟨k1.trans h1,k2.trans h2,k3.trans h3,k4.trans h4,k5.trans h5,k6.trans h6,k7.trans h7,
    k8.trans h8,k9.trans h9⟩

variable [LinearOrder R]

@[simp] theorem maxDouble_eq_max (x y : R) : maxDouble x y=max x y := by
  unfold maxDouble
  split_ifs with h
  · exact (max_eq_left h.le).symm
  · exact (max_eq_right (not_lt.mp h)).symm

@[simp] theorem minDouble_eq_min (x y : R) : minDouble x y=min x y := by
  unfold minDouble
  split_ifs with h
  · exact (min_eq_left h.le).symm
  · exact (min_eq_right (not_lt.mp h)).symm

variable [Field R]

theorem slewAcceleration_frame (p : Cia402MotionProfile R) (target dtS : R) :
    p.Frame (slewAcceleration p target dtS) := by
  unfold slewAcceleration
  dsimp only
  split_ifs <;> exact ⟨rfl,rfl,rfl,rfl,rfl,rfl,rfl,rfl,rfl⟩

theorem rampVelocityByProfile_frame (p : Cia402MotionProfile R) (target dtS : R) :
    p.Frame (rampVelocityByProfile p target dtS) := by
  have hs := fun a => slewAcceleration_frame p a dtS
  unfold rampVelocityByProfile
  dsimp only
  split_ifs
  all_goals first
    | exact ⟨rfl,rfl,rfl,rfl,rfl,rfl,rfl,rfl,rfl⟩
    | exact hs _

theorem stepPositionProfileTrapezoidal_frame (p : Cia402MotionProfile R) (dtS : R) :
    p.Frame (stepPositionProfileTrapezoidal p dtS) := by
  unfold stepPositionProfileTrapezoidal
  dsimp only
  split_ifs <;> exact ⟨rfl,rfl,rfl,rfl,rfl,rfl,rfl,rfl,rfl⟩

theorem followPositionPlan_frame (p : Cia402MotionProfile R) (dtS : R) :
    p.Frame (followPositionPlan p dtS) := by
  unfold followPositionPlan
  dsimp only
  split_ifs <;> exact ⟨rfl,rfl,rfl,rfl,rfl,rfl,rfl,rfl,rfl⟩

def Cia402MotionProfile.Landed (p : Cia402MotionProfile R) : Prop :=
  p.done=true → p.position=p.targetPosition

theorem stepPositionProfileTrapezoidal_landed (p : Cia402MotionProfile R) (dtS : R)
    (h : p.Landed) : (stepPositionProfileTrapezoidal p dtS).Landed := by
  unfold stepPositionProfileTrapezoidal
  by_cases hd : p.done=true
  · rw [if_pos hd]
    exact h
  · rw [if_neg hd]
    dsimp only
    split_ifs
    all_goals first
      | exact fun _ => rfl
      | exact fun hn => absurd hn hd

theorem followPositionPlan_landed (p : Cia402MotionProfile R) (dtS : R) (hd : p.done≠true) :
    (followPositionPlan p dtS).Landed := by
  unfold followPositionPlan
  dsimp only
  split_ifs
  · exact fun _ => rfl
  · exact fun hn => absurd hn hd

section Smooth

variable [HasSqrt R]

theorem scurveBuildPositionPlan_frame (p : Cia402MotionProfile R) :
    p.Frame (scurveBuildPositionPlan p).1 ∧ (scurveBuildPositionPlan p).1.done=p.done ∧
    (scurveBuildPositionPlan p).1.position=p.position ∧
    (scurveBuildPositionPlan p).1.velocity=p.velocity := by
  unfold scurveBuildPositionPlan
  dsimp only
  split_ifs <;> exact ⟨⟨rfl,rfl,rfl,rfl,rfl,rfl,rfl,rfl,rfl⟩,rfl,rfl,rfl⟩

theorem stepPositionProfile_frame (p : Cia402MotionProfile R) (dtS : R) :
    p.Frame (stepPositionProfile p dtS) := by
  have hb := scurveBuildPositionPlan_frame p
  unfold stepPositionProfile stepPositionProfileSmooth
  dsimp only
  split_ifs
  · exact stepPositionProfileTrapezoidal_frame p dtS
  · exact .refl p
  · exact followPositionPlan_frame p dtS
  · exact hb.1.trans (followPositionPlan_frame _ dtS)
  · exact hb.1.trans (stepPositionProfileTrapezoidal_frame _ dtS)

theorem stepPositionProfile_landed (p : Cia402MotionProfile R) (dtS : R) (h : p.Landed) :
    (stepPositionProfile p dtS).Landed := by
  obtain ⟨hf,hdone,hpos,_⟩ := scurveBuildPositionPlan_frame p
  have hb : (scurveBuildPositionPlan p).1.Landed := by
    intro hd
    rw [hpos,hf.2.2.1]
    exact h (hdone.symm.trans hd)
  unfold stepPositionProfile stepPositionProfileSmooth
  dsimp only
  split_ifs with h1 h2 h3 h4
  · exact stepPositionProfileTrapezoidal_landed p dtS h
  · exact h
  · exact followPositionPlan_landed p dtS h2
  · exact followPositionPlan_landed _ dtS (by rw [hdone]; exact h2)
  · exact stepPositionProfileTrapezoidal_landed _ dtS hb

theorem stepPositionProfile_done (p : Cia402MotionProfile R) (dtS : R) (h : p.done=true) :
    stepPositionProfile p dtS=p := by
  unfold stepPositionProfile stepPositionProfileTrapezoidal stepPositionProfileSmooth
  rw [if_pos h,if_pos h,ite_self]

end Smooth

theorem cia402ProfileBegin_active (command : Cia402MotionCommand R)
    (actualPosition actualVelocity : Int32) (h : command.type≠.none) :
    (cia402ProfileBegin command actualPosition actualVelocity).active=true ∧
    (cia402ProfileBegin command actualPosition actualVelocity).type=command.type := by
  unfold cia402ProfileBegin
  cases hc : command.type with
  | none => exact absurd hc h
  | servoStop => exact ⟨rfl,rfl⟩
  | jogVelocity => exact ⟨rfl,rfl⟩
  | home => exact ⟨rfl,rfl⟩
  | profilePosition =>
    dsimp only
    split_ifs <;> exact ⟨rfl,rfl⟩

theorem profileInForce_active (p : Cia402MotionProfile R) (command : Cia402MotionCommand R)
    (actualPosition actualVelocity : Int32) (h : command.type≠.none) :
    (profileInForce p command actualPosition actualVelocity).active=true ∧
    (profileInForce p command actualPosition actualVelocity).type=command.type := by
  unfold profileInForce
  split_ifs with hn
  · exact cia402ProfileBegin_active command actualPosition actualVelocity h
  · rw [not_or,not_not] at hn
    exact ⟨by simpa using hn.1,hn.2⟩

theorem profileInForce_continues (p : Cia402MotionProfile R) (command : Cia402MotionCommand R)
    (actualPosition actualVelocity : Int32) (ha : p.active=true) (ht : p.type=command.type) :
    profileInForce p command actualPosition actualVelocity=p := by
  unfold profileInForce
  rw [if_neg]
  simp [ha,ht]

theorem profileInForce_begins (p : Cia402MotionProfile R) (command : Cia402MotionCommand R)
    (actualPosition actualVelocity : Int32) (ha : p.active=false) :
    profileInForce p command actualPosition actualVelocity=
      cia402ProfileBegin command actualPosition actualVelocity := by
  unfold profileInForce
  rw [if_pos (Or.inl ha)]

section Step

variable [FloorRing R] [HasSqrt R]

theorem cia402ProfileStep_active (p : Cia402MotionProfile R) (command : Cia402MotionCommand R)
    (actualPosition actualVelocity periodUs : Int32) (output : Cia402PdoOutput)
    (h : command.type≠.none) :
    (cia402ProfileStep p command actualPosition actualVelocity periodUs output).1.active=true ∧
    (cia402ProfileStep p command actualPosition actualVelocity periodUs output).1.type=
      command.type := by
  have hf := profileInForce_active p command actualPosition actualVelocity h
  have hr := fun v => rampVelocityByProfile_frame
    (profileInForce p command actualPosition actualVelocity) v (periodSeconds periodUs)
  have hp := stepPositionProfile_frame
    (profileInForce p command actualPosition actualVelocity) (periodSeconds periodUs)
  unfold cia402ProfileStep
  cases hc : command.type with
  | none => exact absurd hc h
  | profilePosition => exact ⟨hp.2.1.trans hf.1,hp.1.trans (hf.2.trans hc)⟩
  | servoStop => exact ⟨(hr 0).2.1.trans hf.1,(hr 0).1.trans (hf.2.trans hc)⟩
  | jogVelocity => exact ⟨(hr _).2.1.trans hf.1,(hr _).1.trans (hf.2.trans hc)⟩
  | home => exact ⟨(hr _).2.1.trans hf.1,(hr _).1.trans (hf.2.trans hc)⟩

theorem cia402ProfileStep_position (p : Cia402MotionProfile R) (command : Cia402MotionCommand R)
    (actualPosition actualVelocity periodUs : Int32) (output : Cia402PdoOutput)
    (h : command.type≠.none) (hp : command.type≠.profilePosition) :
    (cia402ProfileStep p command actualPosition actualVelocity periodUs
      output).2.1.targetPosition=actualPosition := by
  unfold cia402ProfileStep
  cases hc : command.type with
  | none => exact absurd hc h
  | profilePosition => exact absurd hc hp
  | servoStop => rfl
  | jogVelocity => rfl
  | home => rfl

theorem cia402ProfileStep_controlword (p : Cia402MotionProfile R)
    (command : Cia402MotionCommand R) (actualPosition actualVelocity periodUs : Int32)
    (output : Cia402PdoOutput) :
    (cia402ProfileStep p command actualPosition actualVelocity periodUs output).2.1.controlword=
      match command.type with
      | .none => output.controlword
      | .servoStop => 0x010f
      | .home => 0x001f
      | .jogVelocity => 0x000f
      | .profilePosition => 0x000f := by
  unfold cia402ProfileStep
  cases command.type <;> rfl

end Step

section Ordered

theorem cia402ProfileBegin_start (command : Cia402MotionCommand R)
    (actualPosition actualVelocity : Int32) (h : command.type=.profilePosition) :
    ((cia402ProfileBegin command actualPosition actualVelocity).done=true ∧
      (cia402ProfileBegin command actualPosition actualVelocity).position=
        (cia402ProfileBegin command actualPosition actualVelocity).targetPosition ∧
      (cia402ProfileBegin command actualPosition actualVelocity).velocity=0 ∧
      absDouble ((cia402ProfileBegin command actualPosition actualVelocity).targetPosition-
        (actualPosition.toInt : R)) ≤ positionEpsilon) ∨
    ((cia402ProfileBegin command actualPosition actualVelocity).done=false ∧
      (cia402ProfileBegin command actualPosition actualVelocity).position=
        (actualPosition.toInt : R) ∧
      (cia402ProfileBegin command actualPosition actualVelocity).velocity=
        (actualVelocity.toInt : R) ∧
      (cia402ProfileBegin command actualPosition actualVelocity).plannerValid=false ∧
      ¬(absDouble ((cia402ProfileBegin command actualPosition actualVelocity).targetPosition-
          (actualPosition.toInt : R)) ≤ positionEpsilon ∧
        absDouble (actualVelocity.toInt : R) ≤ velocityEpsilon)) := by
  unfold cia402ProfileBegin
  rw [h]
  dsimp only
  generalize (if command.relative then _ else _ : R)=target
  split_ifs with hn
  · exact .inl ⟨rfl,rfl,rfl,hn.1⟩
  · exact .inr ⟨rfl,rfl,rfl,rfl,hn⟩

variable [IsStrictOrderedRing R]

@[simp] theorem absDouble_eq_abs (x : R) : absDouble x=|x| := by
  unfold absDouble
  split_ifs with h
  · exact (abs_of_neg h).symm
  · exact (abs_of_nonneg (not_lt.mp h)).symm

/-- The value of int32_t nearest to an integer. -/
def saturateI32 (n : Int) : Int32 :=
  if n>2147483647 then Int32.maxValue
  else if n< -2147483648 then Int32.minValue
  else Int32.ofInt n

theorem roundToI32_intCast [FloorRing R] (n : Int) : roundToI32 (n : R)=saturateI32 n := by
  have hhi : (n : R)>2147483647 ↔ n>2147483647 := by exact_mod_cast Iff.rfl
  have hlo : (n : R)< -2147483648 ↔ n< -2147483648 := by exact_mod_cast Iff.rfl
  have hfloor : ⌊(n : R)+1/2⌋=n := by
    rw [Int.floor_eq_iff]
    constructor <;> linarith
  have hceil : ⌈(n : R)-1/2⌉=n := by
    rw [Int.ceil_eq_iff]
    constructor <;> linarith
  unfold roundToI32 saturateI32
  simp only [hhi,hlo,hfloor,hceil,ite_self]

theorem roundToI32_zero [FloorRing R] : roundToI32 (0 : R)=0 := by
  have h := roundToI32_intCast (R := R) 0
  rw [Int.cast_zero] at h
  rw [h]
  decide

/-- The target of a move begun at the given position, before saturation. -/
def Cia402MotionCommand.moveTarget (command : Cia402MotionCommand R) (begun : Int32) : Int :=
  if command.relative then begun.toInt+command.targetPosition.toInt
  else command.targetPosition.toInt

/-- An active position profile toward the target of the command. -/
structure Carries (p : Cia402MotionProfile R) (command : Cia402MotionCommand R)
    (begun : Int32) : Prop where
  active : p.active=true
  type : p.type=.profilePosition
  landed : p.Landed
  target : p.targetPosition=(command.moveTarget begun : R)

section

omit [IsStrictOrderedRing R]

theorem cia402ProfileBegin_limits (command : Cia402MotionCommand R)
    (actualPosition actualVelocity : Int32) (h : command.type=.profilePosition) :
    (cia402ProfileBegin command actualPosition actualVelocity).targetPosition=
      (command.moveTarget actualPosition : R) ∧
    (cia402ProfileBegin command actualPosition actualVelocity).maxVelocity=
      configuredSpeed command.profileVelocity ∧
    (cia402ProfileBegin command actualPosition actualVelocity).acceleration=
      configuredAccel command.acceleration (configuredSpeed command.profileVelocity) ∧
    (cia402ProfileBegin command actualPosition actualVelocity).deceleration=
      configuredAccel command.deceleration (configuredSpeed command.profileVelocity) ∧
    (cia402ProfileBegin command actualPosition actualVelocity).profileType=
      normalizeProfileType command.profileType ∧
    (cia402ProfileBegin command actualPosition actualVelocity).jerkRatio=
      normalizeJerkRatio command.jerkRatio := by
  have htarget : (if command.relative then
      (actualPosition.toInt : R)+(command.targetPosition.toInt : R)
      else (command.targetPosition.toInt : R))=(command.moveTarget actualPosition : R) := by
    unfold Cia402MotionCommand.moveTarget
    split_ifs
    · push_cast
      rfl
    · rfl
  unfold cia402ProfileBegin
  rw [h]
  dsimp only
  rw [htarget]
  split_ifs <;> exact ⟨rfl,rfl,rfl,rfl,rfl,rfl⟩

theorem carries_begin (command : Cia402MotionCommand R) (actualPosition actualVelocity : Int32)
    (h : command.type=.profilePosition) :
    Carries (cia402ProfileBegin command actualPosition actualVelocity) command actualPosition := by
  have ha := cia402ProfileBegin_active command actualPosition actualVelocity (by rw [h]; decide)
  refine ⟨ha.1,ha.2.trans h,fun hd => ?_,
    (cia402ProfileBegin_limits command actualPosition actualVelocity h).1⟩
  rcases cia402ProfileBegin_start command actualPosition actualVelocity h with hs|hs
  · exact hs.2.1
  · exact absurd (hs.1.symm.trans hd) (by decide)

end

variable [FloorRing R] [HasSqrt R]

theorem servoStop_done (p : Cia402MotionProfile R) (command : Cia402MotionCommand R)
    (actualPosition actualVelocity periodUs : Int32) (output : Cia402PdoOutput)
    (h : command.type=.servoStop)
    (hd : (cia402ProfileStep p command actualPosition actualVelocity periodUs output).2.2=true) :
    (cia402ProfileStep p command actualPosition actualVelocity periodUs
      output).2.1.targetVelocity=0 ∧
    (cia402ProfileStep p command actualPosition actualVelocity periodUs output).1.velocity=0 := by
  unfold cia402ProfileStep at hd ⊢
  simp only [h,decide_eq_true_eq] at hd ⊢
  simp only [Cia402MotionProfile.emitted,if_pos hd]
  exact ⟨roundToI32_zero,trivial⟩

theorem servoStop_settled (p : Cia402MotionProfile R) (command : Cia402MotionCommand R)
    (actualPosition actualVelocity periodUs : Int32) (output : Cia402PdoOutput)
    (h : command.type=.servoStop) (ha : p.active=true) (ht : p.type=.servoStop)
    (hv : p.velocity=0) :
    (cia402ProfileStep p command actualPosition actualVelocity periodUs output).2.2=true := by
  have hf := profileInForce_continues p command actualPosition actualVelocity ha (ht.trans h.symm)
  have hz : (rampVelocityByProfile p 0 (periodSeconds periodUs)).velocity=0 := by
    unfold rampVelocityByProfile rampVelocity
    simp [hv,velocityEpsilon]
    split_ifs <;> rfl
  unfold cia402ProfileStep
  simp only [h,hf,decide_eq_true_eq]
  change absDouble (rampVelocityByProfile p 0 (periodSeconds periodUs)).velocity ≤ velocityEpsilon
  rw [hz]
  simp [velocityEpsilon]

theorem carries_step (p : Cia402MotionProfile R) (command : Cia402MotionCommand R)
    (actualPosition actualVelocity periodUs begun : Int32) (output : Cia402PdoOutput)
    (h : command.type=.profilePosition)
    (hp : Carries (profileInForce p command actualPosition actualVelocity) command begun) :
    Carries (cia402ProfileStep p command actualPosition actualVelocity periodUs output).1
      command begun ∧
    ((cia402ProfileStep p command actualPosition actualVelocity periodUs output).2.2=true →
      (cia402ProfileStep p command actualPosition actualVelocity periodUs
        output).2.1.targetPosition=saturateI32 (command.moveTarget begun)) := by
  have hf := stepPositionProfile_frame (profileInForce p command actualPosition actualVelocity)
    (periodSeconds periodUs)
  have hl := stepPositionProfile_landed (profileInForce p command actualPosition actualVelocity)
    (periodSeconds periodUs) hp.landed
  unfold cia402ProfileStep
  rw [h]
  dsimp only
  refine ⟨⟨hf.2.1.trans hp.active,hf.1.trans hp.type,hl,hf.2.2.1.trans hp.target⟩,fun hd => ?_⟩
  rw [hl hd,hf.2.2.1,hp.target,roundToI32_intCast]

end Ordered

end EtherCATMaster.Motion
