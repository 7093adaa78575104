import EtherCATMaster.Motion.ProfileSpec
import Mathlib.Analysis.Real.Sqrt

namespace EtherCATMaster.Motion

open scoped EtherCATMaster.Math

/-- Doubles read as exact reals, with their root. -/
noncomputable instance : HasSqrt ℝ := ⟨Real.sqrt⟩

/-- The arguments of one call of `cia402_profile_step`. -/
structure ProfileInput where
  actualPosition : Int32
  actualVelocity : Int32
  periodUs : Int32
  output : Cia402PdoOutput
  deriving DecidableEq, Repr

variable {R : Type}

/-- A step of a walk between two points: ahead, and not past the end. -/
def Toward {α : Type} [LinearOrder α] (start finish before after : α) : Prop :=
  if start ≤ finish then before ≤ after ∧ after ≤ finish else after ≤ before ∧ finish ≤ after

variable [Field R]

/-- A profile that has come to rest on its target. -/
structure Arrived (p : Cia402MotionProfile R) : Prop where
  done : p.done=true
  position : p.position=p.targetPosition
  velocity : p.velocity=0

variable [LinearOrder R]

section Run

variable [FloorRing R] [HasSqrt R] (command : Cia402MotionCommand R) (inputs : ℕ → ProfileInput)

/-- The profile after the first `n` calls of `cia402_profile_step`, from a reset one. -/
def profileAt : ℕ → Cia402MotionProfile R
  | 0 => cia402ProfileReset
  | n+1 => (cia402ProfileStep (profileAt n) command (inputs n).actualPosition
      (inputs n).actualVelocity (inputs n).periodUs (inputs n).output).1

/-- What call number `n` writes to the process data. -/
def outputAt (n : ℕ) : Cia402PdoOutput :=
  (cia402ProfileStep (profileAt command inputs n) command (inputs n).actualPosition
    (inputs n).actualVelocity (inputs n).periodUs (inputs n).output).2.1

/-- What call number `n` returns. -/
def doneAt (n : ℕ) : Bool :=
  (cia402ProfileStep (profileAt command inputs n) command (inputs n).actualPosition
    (inputs n).actualVelocity (inputs n).periodUs (inputs n).output).2.2

/-- Where the move stands before call number `n`: at the actual position of the first call,
then where the calls have brought it. -/
def positionAt : ℕ → R
  | 0 => ((inputs 0).actualPosition.toInt : R)
  | n+1 => (profileAt command inputs (n+1)).position

/-- The target position that the drive has before call number `n`: its own position, then what
the calls have written. -/
def emittedAt : ℕ → Int32
  | 0 => (inputs 0).actualPosition
  | n+1 => (outputAt command inputs n).targetPosition

/-- The profile that call number `n` works on: begun in the first call, then continued. -/
def currentAt (n : ℕ) : Cia402MotionProfile R :=
  profileInForce (profileAt command inputs n) command (inputs n).actualPosition
    (inputs n).actualVelocity

/-- The position step of call number `n`. -/
def steppedAt (n : ℕ) : Cia402MotionProfile R :=
  stepPositionProfile (currentAt command inputs n) (periodSeconds (inputs n).periodUs)

theorem currentAt_zero :
    currentAt command inputs 0=
      cia402ProfileBegin command (inputs 0).actualPosition (inputs 0).actualVelocity :=
  profileInForce_begins _ _ _ _ rfl

theorem profileAt_succ (h : command.type=.profilePosition) (n : ℕ) :
    profileAt command inputs (n+1)=
      (steppedAt command inputs n).emitted (outputAt command inputs n) ∧
    (outputAt command inputs n).targetPosition=
      roundToI32 (steppedAt command inputs n).position ∧
    (outputAt command inputs n).targetVelocity=
      roundToI32 (steppedAt command inputs n).velocity ∧
    doneAt command inputs n=(steppedAt command inputs n).done := by
  simp only [profileAt,outputAt,doneAt,cia402ProfileStep,h]
  exact ⟨rfl,rfl,rfl,rfl⟩

theorem currentAt_succ (h : command.type=.profilePosition) (n : ℕ) :
    currentAt command inputs (n+1)=
      (steppedAt command inputs n).emitted (outputAt command inputs n) := by
  have ha := cia402ProfileStep_active (profileAt command inputs n) command
    (inputs n).actualPosition (inputs n).actualVelocity (inputs n).periodUs (inputs n).output
    (by rw [h]; decide)
  rw [← (profileAt_succ command inputs h n).1]
  exact profileInForce_continues _ _ _ _ ha.1 ha.2

theorem profileAt_eq_currentAt (h : command.type=.profilePosition) (n : ℕ) :
    profileAt command inputs (n+1)=currentAt command inputs (n+1) := by
  rw [currentAt_succ command inputs h n,(profileAt_succ command inputs h n).1]

theorem arrived_stays (h : command.type=.profilePosition) (N : ℕ)
    (hN : Arrived (currentAt command inputs N)) (n : ℕ) (hn : N ≤ n) :
    Arrived (steppedAt command inputs n) := by
  have hstep : ∀ n,Arrived (currentAt command inputs n) → Arrived (steppedAt command inputs n) := by
    intro n ha
    rw [steppedAt,stepPositionProfile_done _ _ ha.done]
    exact ha
  induction n, hn using Nat.le_induction with
  | base => exact hstep N hN
  | succ n _ ih =>
    apply hstep
    rw [currentAt_succ command inputs h n]
    exact ⟨ih.done,ih.position,ih.velocity⟩

theorem currentAt_induction (h : command.type=.profilePosition)
    (P : ℕ → Cia402MotionProfile R → Prop)
    (houtput : ∀ n p out,P n p → P n (Cia402MotionProfile.emitted p out))
    (hbegin : P 0 (cia402ProfileBegin command (inputs 0).actualPosition
      (inputs 0).actualVelocity))
    (hstep : ∀ n p,P n p → P (n+1) (stepPositionProfile p (periodSeconds (inputs n).periodUs)))
    (n : ℕ) : P n (currentAt command inputs n) := by
  induction n with
  | zero =>
    rw [currentAt_zero]
    exact hbegin
  | succ n ih =>
    rw [currentAt_succ command inputs h n]
    exact houtput _ _ _ (hstep n _ ih)

end Run

section Limits

variable [IsStrictOrderedRing R]

theorem configuredSpeed_eq (value : Int32) :
    ∃ n : ℕ,1 ≤ n ∧ n ≤ 2147483648 ∧ (configuredSpeed value : R)=n := by
  have hlt := value.toInt_lt
  have hle := value.le_toInt
  unfold configuredSpeed
  dsimp only
  rw [absDouble_eq_abs]
  split_ifs with h
  · refine ⟨value.toInt.natAbs,?_,?_,by rw [Nat.cast_natAbs,Int.cast_abs]⟩
    · have hn : value.toInt≠0 := by
        intro hz
        simp [hz] at h
      omega
    · omega
  · exact ⟨1000,by norm_num,by norm_num,by norm_num⟩

theorem one_le_configuredSpeed (value : Int32) : (1 : R) ≤ configuredSpeed value := by
  obtain ⟨n,hn,_,he⟩ := configuredSpeed_eq (R := R) value
  rw [he]
  exact_mod_cast hn

theorem one_le_configuredAccel (value : UInt32) (speed : R) :
    (1 : R) ≤ configuredAccel value speed := by
  unfold configuredAccel
  split_ifs with h
  · have hn : 0<value.toNat := by simpa using UInt32.lt_iff_toNat_lt.mp h
    exact_mod_cast hn
  · rw [maxDouble_eq_max]
    exact le_max_of_le_left (by norm_num)

theorem periodSeconds_pos (periodUs : Int32) (h : 0<periodUs) :
    (0 : R)<periodSeconds periodUs := by
  have hn : 0<periodUs.toInt := by simpa using Int32.lt_iff_toInt_lt.mp h
  unfold periodSeconds
  rw [if_pos h]
  have hc : (0 : R)<(periodUs.toInt : R) := by exact_mod_cast hn
  positivity

/-- A move begun at rest stands where the drive stands. Distances are whole numbers, so it is
done at once only if that is its target. -/
theorem begin_at_rest (command : Cia402MotionCommand R) (actualPosition : Int32)
    (h : command.type=.profilePosition) :
    (cia402ProfileBegin command actualPosition 0).position=(actualPosition.toInt : R) ∧
    (cia402ProfileBegin command actualPosition 0).velocity=0 ∧
    (((cia402ProfileBegin command actualPosition 0).done=true ∧
      command.moveTarget actualPosition=actualPosition.toInt) ∨
    ((cia402ProfileBegin command actualPosition 0).done=false ∧
      command.moveTarget actualPosition≠actualPosition.toInt ∧
      (cia402ProfileBegin command actualPosition 0).plannerValid=false)) := by
  have ht := (cia402ProfileBegin_limits command actualPosition 0 h).1
  have hzero : ((0 : Int32).toInt : R)=0 := by
    rw [show (0 : Int32).toInt=0 from rfl,Int.cast_zero]
  rcases cia402ProfileBegin_start command actualPosition 0 h with
    ⟨hdone,hpos,hvel,hnear⟩|⟨hdone,hpos,hvel,hplan,hfar⟩
  · rw [ht,absDouble_eq_abs,positionEpsilon,← Int.cast_sub,← Int.cast_abs] at hnear
    have hlt : ((|command.moveTarget actualPosition-actualPosition.toInt| : ℤ) : R)<1 := by
      linarith
    have hsame : command.moveTarget actualPosition=actualPosition.toInt :=
      sub_eq_zero.mp (Int.abs_lt_one_iff.mp (by exact_mod_cast hlt))
    exact ⟨by rw [hpos,ht,hsame],hvel,.inl ⟨hdone,hsame⟩⟩
  · refine ⟨hpos,hvel.trans hzero,.inr ⟨hdone,fun hsame => ?_,hplan⟩⟩
    apply hfar
    rw [ht,hsame,sub_self,hzero,absDouble_eq_abs]
    simp [positionEpsilon,velocityEpsilon]

theorem currentAt_position [FloorRing R] [HasSqrt R] (command : Cia402MotionCommand R)
    (inputs : ℕ → ProfileInput) (h : command.type=.profilePosition)
    (hrest : (inputs 0).actualVelocity=0) (n : ℕ) :
    (currentAt command inputs n).position=positionAt command inputs n := by
  cases n with
  | zero =>
    rw [currentAt_zero,hrest]
    exact (begin_at_rest command _ h).1
  | succ n => rw [positionAt,profileAt_eq_currentAt command inputs h n]

def directionOf (start target : R) : R := if start ≤ target then 1 else -1

section

omit [IsStrictOrderedRing R]

theorem directionOf_unit (start target : R) :
    directionOf start target=1 ∨ directionOf start target= -1 := by
  unfold directionOf
  split_ifs
  · exact .inl rfl
  · exact .inr rfl

end

theorem toward_of_direction (start target before after : R)
    (h1 : 0 ≤ directionOf start target*(after-before))
    (h2 : 0 ≤ directionOf start target*(target-after)) : Toward start target before after := by
  unfold directionOf at h1 h2
  unfold Toward
  split_ifs at h1 h2 ⊢
  · exact ⟨by linarith,by linarith⟩
  · exact ⟨by linarith,by linarith⟩

theorem directionOf_mul_distance (start target : R) :
    directionOf start target*|target-start|=target-start := by
  unfold directionOf
  split_ifs with h
  · rw [one_mul,abs_of_nonneg (sub_nonneg.mpr h)]
  · rw [abs_of_neg (sub_neg.mpr (not_le.mp h))]
    ring

section

omit [IsStrictOrderedRing R]

theorem directionOf_mul_self (start target : R) :
    directionOf start target*directionOf start target=1 := by
  rcases directionOf_unit start target with hd|hd <;> rw [hd] <;> norm_num

end

theorem abs_directionOf (start target : R) : |directionOf start target|=1 := by
  rcases directionOf_unit start target with hd|hd <;> rw [hd] <;> simp

end Limits

end EtherCATMaster.Motion
