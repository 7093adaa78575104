import EtherCATMaster.Backend.System

namespace EtherCATMaster.Backend

open EtherCATMaster.Motion
open scoped EtherCATMaster.Math

variable {R : Type}

/-- The thread variables that decide outputs; the rest are times, counters and statistics. -/
structure Control (R : Type) where
  generationSeen : UInt32
  sequenceDone : Bool
  sequenceFailed : Bool
  idleHoldValid : Bool
  idleHoldPosition : Int32
  profile : Cia402MotionProfile R

def RtThread.control (th : RtThread R) : Control R :=
  ⟨th.commandGenerationSeen,th.sequenceDone,th.sequenceFailed,th.idleHoldValid,
    th.idleHoldPosition,th.profile⟩

theorem timeLoop_control (th : RtThread R) (options : BackendOptions) (inp : CycleInput) :
    (timeLoop th options inp).control=th.control := by
  unfold timeLoop
  split_ifs <;> rfl

theorem observeReset_control (th : RtThread R) (command : BackendCommand R) :
    (observeReset th command).control=th.control := by
  unfold observeReset
  split_ifs <;> rfl

theorem countErrors_control (th : RtThread R) (inp : CycleInput) :
    (countErrors th inp).control=th.control := by
  unfold countErrors
  dsimp only
  split_ifs <;> rfl

theorem holdIdle_motion (th : RtThread R) (command : BackendCommand R) (safety : Bool)
    (state : Cia402State) (actual : Int32) :
    (holdIdle th command safety state actual).1.sequenceDone=th.sequenceDone ∧
    (holdIdle th command safety state actual).1.sequenceFailed=th.sequenceFailed ∧
    (holdIdle th command safety state actual).1.profile=th.profile ∧
    (holdIdle th command safety state actual).1.commandGenerationSeen=
      th.commandGenerationSeen := by
  unfold holdIdle
  split_ifs <;> exact ⟨rfl,rfl,rfl,rfl⟩

theorem advanceSequence_frame (th : RtThread R) (options : BackendOptions) (reached : Bool) :
    (advanceSequence th options reached).commandGenerationSeen=th.commandGenerationSeen ∧
    (advanceSequence th options reached).idleHoldValid=th.idleHoldValid ∧
    (advanceSequence th options reached).idleHoldPosition=th.idleHoldPosition ∧
    (advanceSequence th options reached).profile=th.profile := by
  unfold advanceSequence
  dsimp only
  split_ifs <;> exact ⟨rfl,rfl,rfl,rfl⟩

theorem advanceSequence_done (th : RtThread R) (options : BackendOptions) (reached : Bool) :
    (advanceSequence th options reached).sequenceDone=(th.sequenceDone || reached) := by
  unfold advanceSequence
  dsimp only
  cases hd : th.sequenceDone <;> cases reached <;> simp [hd]
  split_ifs <;> simp [hd]

theorem advanceSequence_failed (th : RtThread R) (options : BackendOptions) (reached : Bool) :
    (th.sequenceFailed=true → (advanceSequence th options reached).sequenceFailed=true) ∧
    ((th.sequenceDone || reached)=true →
      (advanceSequence th options reached).sequenceFailed=th.sequenceFailed) := by
  unfold advanceSequence
  dsimp only
  cases hd : th.sequenceDone <;> cases reached <;> cases hf : th.sequenceFailed <;>
    simp [hd,hf]

variable [Field R]

def Control.restart (c : Control R) (command : BackendCommand R) : Control R :=
  { c with
    generationSeen := command.generation
    sequenceDone := command.sequence=.none
    sequenceFailed := false
    idleHoldValid := if command.motion.type=.none then false else c.idleHoldValid
    profile := cia402ProfileReset }

theorem restart_control (th : RtThread R) (command : BackendCommand R) :
    (th.restart command).control=th.control.restart command := rfl

def commandInForce (s : Sys R) (inp : CycleInput) : BackendCommand R :=
  (checkClientTimeout s.rt inp.loopTimeNs).command

def observed (s : Sys R) (inp : CycleInput) : RtThread R :=
  countErrors (observeGeneration
    (observeReset (timeLoop s.th s.rt.options inp) (commandInForce s inp))
    (commandInForce s inp)) inp

theorem observed_control (s : Sys R) (inp : CycleInput) :
    (observed s inp).control=
      if (commandInForce s inp).generation≠s.th.commandGenerationSeen then
        s.th.control.restart (commandInForce s inp)
      else s.th.control := by
  let before := observeReset (timeLoop s.th s.rt.options inp) (commandInForce s inp)
  have hb : before.control=s.th.control :=
    (observeReset_control _ _).trans (timeLoop_control _ _ _)
  have hseen : before.commandGenerationSeen=s.th.commandGenerationSeen :=
    congrArg Control.generationSeen hb
  unfold observed
  rw [countErrors_control]
  change (observeGeneration before _).control=_
  unfold observeGeneration
  rw [hseen]
  split_ifs with hg
  · rw [restart_control,hb]
  · exact hb

theorem commandInForce_of_fires (s : Sys R) (inp : CycleInput)
    (h : SafetyStopFires s.rt inp.loopTimeNs) :
    commandInForce s inp=s.rt.command.halted ∧
      (checkClientTimeout s.rt inp.loopTimeNs).safetyStopActive=true := by
  unfold commandInForce checkClientTimeout
  rw [if_pos h]
  exact ⟨rfl,rfl⟩

theorem commandInForce_of_not_fires (s : Sys R) (inp : CycleInput)
    (h : ¬SafetyStopFires s.rt inp.loopTimeNs) :
    commandInForce s inp=s.rt.command ∧
      (checkClientTimeout s.rt inp.loopTimeNs).safetyStopActive=s.rt.safetyStopActive := by
  unfold commandInForce checkClientTimeout
  rw [if_neg h]
  exact ⟨rfl,rfl⟩

variable [LinearOrder R]

def sequenceWord (s : Sys R) (inp : CycleInput) : UInt16 × Bool :=
  cia402SequenceControlword (commandInForce s inp).sequence inp.driveState
    (commandInForce s inp).controlword

def heldIdle (s : Sys R) (inp : CycleInput) : RtThread R × Int32 × TargetPolicy :=
  holdIdle (observed s inp) (commandInForce s inp)
    (checkClientTimeout s.rt inp.loopTimeNs).safetyStopActive inp.driveState inp.actualPosition

def baseOutput (s : Sys R) (inp : CycleInput) : Cia402PdoOutput :=
  ⟨(sequenceWord s inp).1,(heldIdle s inp).2.1,(commandInForce s inp).targetVelocity,
    if (commandInForce s inp).mode≠0 then (commandInForce s inp).mode else inp.modeDisplay⟩

def sequenced (s : Sys R) (inp : CycleInput) : RtThread R :=
  advanceSequence (heldIdle s inp).1 s.rt.options (sequenceWord s inp).2

section

omit [LinearOrder R]

theorem sequenced_done (s : Sys R) (inp : CycleInput) :
    (sequenced s inp).sequenceDone=((observed s inp).sequenceDone || (sequenceWord s inp).2) := by
  unfold sequenced
  rw [advanceSequence_done]
  unfold heldIdle
  rw [(holdIdle_motion _ _ _ _ _).1]

theorem sequenced_failed (s : Sys R) (inp : CycleInput) :
    ((observed s inp).sequenceFailed=true → (sequenced s inp).sequenceFailed=true) ∧
    ((sequenced s inp).sequenceDone=true →
      (sequenced s inp).sequenceFailed=(observed s inp).sequenceFailed) := by
  have hm := holdIdle_motion (observed s inp) (commandInForce s inp)
    (checkClientTimeout s.rt inp.loopTimeNs).safetyStopActive inp.driveState inp.actualPosition
  have ha := advanceSequence_failed (heldIdle s inp).1 s.rt.options (sequenceWord s inp).2
  refine ⟨fun h => ha.1 (hm.2.1.trans h),fun h => ?_⟩
  have hd : ((heldIdle s inp).1.sequenceDone || (sequenceWord s inp).2)=true := by
    rw [← advanceSequence_done (heldIdle s inp).1 s.rt.options]
    exact h
  exact (ha.2 hd).trans hm.2.1

theorem sequenced_frame (s : Sys R) (inp : CycleInput) :
    (sequenced s inp).commandGenerationSeen=(observed s inp).commandGenerationSeen ∧
    (sequenced s inp).profile=(observed s inp).profile := by
  have hm := holdIdle_motion (observed s inp) (commandInForce s inp)
    (checkClientTimeout s.rt inp.loopTimeNs).safetyStopActive inp.driveState inp.actualPosition
  have ha := advanceSequence_frame (heldIdle s inp).1 s.rt.options (sequenceWord s inp).2
  exact ⟨ha.1.trans hm.2.2.2,ha.2.2.2.trans hm.2.2.1⟩

end

def ProfileRuns (s : Sys R) (inp : CycleInput) : Prop :=
  (commandInForce s inp).motion.type≠.none ∧ (sequenced s inp).sequenceDone=true ∧
    (sequenced s inp).sequenceFailed=false

instance (s : Sys R) (inp : CycleInput) : Decidable (ProfileRuns s inp) :=
  inferInstanceAs (Decidable (_ ∧ _))

variable [FloorRing R] [HasSqrt R]

def profileStepped (s : Sys R) (inp : CycleInput) :
    Cia402MotionProfile R × Cia402PdoOutput × Bool :=
  cia402ProfileStep (observed s inp).profile (commandInForce s inp).motion inp.actualPosition
    inp.actualVelocity s.rt.options.periodUs (baseOutput s inp)

theorem cycleReport_reached (s : Sys R) (inp : CycleInput) :
    (cycleReport s inp).sequenceTargetReached=(sequenceWord s inp).2 := rfl

theorem step_cycle_runtime (s : Sys R) (inp : CycleInput) :
    (step s (.cycle inp)).rt.command=commandInForce s inp ∧
    (step s (.cycle inp)).rt.safetyStopActive=
      (checkClientTimeout s.rt inp.loopTimeNs).safetyStopActive ∧
    (step s (.cycle inp)).rt.lastClientMessageNs=s.rt.lastClientMessageNs ∧
    (step s (.cycle inp)).rt.options=s.rt.options ∧
    (step s (.cycle inp)).client=s.client := by
  refine ⟨rfl,rfl,?_,?_,rfl⟩
  · change (checkClientTimeout s.rt inp.loopTimeNs).lastClientMessageNs=_
    unfold checkClientTimeout
    split_ifs <;> rfl
  · change (checkClientTimeout s.rt inp.loopTimeNs).options=_
    unfold checkClientTimeout
    split_ifs <;> rfl

theorem cycle_idle (s : Sys R) (inp : CycleInput)
    (h : (commandInForce s inp).motion.type=.none) :
    emitted s inp=baseOutput s inp ∧
    (cycleReport s inp).targetPolicy=(heldIdle s inp).2.2 ∧
    (step s (.cycle inp)).th.control=
      { (sequenced s inp).control with profile := cia402ProfileReset } := by
  have hr : runMotion (sequenced s inp) (commandInForce s inp) s.rt.options inp
      (baseOutput s inp) (heldIdle s inp).2.2 s.th.profile.done=
      ({ sequenced s inp with profile := cia402ProfileReset },baseOutput s inp,
        (heldIdle s inp).2.2,s.th.profile.done) := by
    simp [runMotion,h]
  refine ⟨?_,?_,?_⟩
  · exact congrArg (fun x => x.2.1) hr
  · exact congrArg (fun x => x.2.2.1) hr
  · exact congrArg (fun x => x.1.control) hr

theorem cycle_waiting (s : Sys R) (inp : CycleInput)
    (hm : (commandInForce s inp).motion.type≠.none) (h : ¬ProfileRuns s inp) :
    emitted s inp=baseOutput s inp ∧
    (cycleReport s inp).targetPolicy=.trackActual ∧ (cycleReport s inp).profileDone=false ∧
    (step s (.cycle inp)).th.control=(sequenced s inp).control := by
  have hr : runMotion (sequenced s inp) (commandInForce s inp) s.rt.options inp
      (baseOutput s inp) (heldIdle s inp).2.2 s.th.profile.done=
      (sequenced s inp,baseOutput s inp,.trackActual,false) := by
    unfold ProfileRuns at h
    unfold runMotion
    rw [if_neg h,if_pos hm]
  refine ⟨?_,?_,?_,?_⟩
  · exact congrArg (fun x => x.2.1) hr
  · exact congrArg (fun x => x.2.2.1) hr
  · exact congrArg (fun x => x.2.2.2) hr
  · exact congrArg (fun x => x.1.control) hr

theorem cycle_runs (s : Sys R) (inp : CycleInput) (h : ProfileRuns s inp) :
    emitted s inp=(profileStepped s inp).2.1 ∧
    (cycleReport s inp).targetPolicy=.motionProfile ∧
    (cycleReport s inp).profileDone=(profileStepped s inp).2.2 ∧
    (step s (.cycle inp)).th.control=
      { (sequenced s inp).control with profile := (profileStepped s inp).1 } := by
  have hr : runMotion (sequenced s inp) (commandInForce s inp) s.rt.options inp
      (baseOutput s inp) (heldIdle s inp).2.2 s.th.profile.done=
      ({ sequenced s inp with profile := (profileStepped s inp).1 },(profileStepped s inp).2.1,
        .motionProfile,(profileStepped s inp).2.2) := by
    unfold ProfileRuns at h
    unfold runMotion
    rw [if_pos h]
    simp only [(sequenced_frame s inp).2]
    rfl
  refine ⟨?_,?_,?_,?_⟩
  · exact congrArg (fun x => x.2.1) hr
  · exact congrArg (fun x => x.2.2.1) hr
  · exact congrArg (fun x => x.2.2.2) hr
  · exact congrArg (fun x => x.1.control) hr

theorem step_cycle_latch (s : Sys R) (inp : CycleInput) :
    (step s (.cycle inp)).th.sequenceDone=(sequenced s inp).sequenceDone ∧
    (step s (.cycle inp)).th.sequenceFailed=(sequenced s inp).sequenceFailed ∧
    (step s (.cycle inp)).th.commandGenerationSeen=(observed s inp).commandGenerationSeen ∧
    (step s (.cycle inp)).th.idleHoldValid=(sequenced s inp).idleHoldValid ∧
    (step s (.cycle inp)).th.idleHoldPosition=(sequenced s inp).idleHoldPosition := by
  have key : ∀ p,(step s (.cycle inp)).th.control={ (sequenced s inp).control with profile := p } →
      (step s (.cycle inp)).th.sequenceDone=(sequenced s inp).sequenceDone ∧
      (step s (.cycle inp)).th.sequenceFailed=(sequenced s inp).sequenceFailed ∧
      (step s (.cycle inp)).th.commandGenerationSeen=(observed s inp).commandGenerationSeen ∧
      (step s (.cycle inp)).th.idleHoldValid=(sequenced s inp).idleHoldValid ∧
      (step s (.cycle inp)).th.idleHoldPosition=(sequenced s inp).idleHoldPosition := by
    intro p hp
    exact ⟨congrArg Control.sequenceDone hp,congrArg Control.sequenceFailed hp,
      (congrArg Control.generationSeen hp).trans (sequenced_frame s inp).1,
      congrArg Control.idleHoldValid hp,congrArg Control.idleHoldPosition hp⟩
  by_cases hm : (commandInForce s inp).motion.type=.none
  · exact key _ (cycle_idle s inp hm).2.2
  by_cases hr : ProfileRuns s inp
  · exact key _ (cycle_runs s inp hr).2.2.2
  · exact key (sequenced s inp).profile (cycle_waiting s inp hm hr).2.2.2

section

omit [LinearOrder R] [FloorRing R] [HasSqrt R]

theorem baseOutput_position_of_motion (s : Sys R) (inp : CycleInput)
    (hm : (commandInForce s inp).motion.type≠.none) :
    (baseOutput s inp).targetPosition=inp.actualPosition := by
  change (heldIdle s inp).2.1=_
  unfold heldIdle holdIdle
  rw [if_neg hm]

theorem baseOutput_position_of_track (s : Sys R) (inp : CycleInput)
    (ht : trackActual (commandInForce s inp)
      (checkClientTimeout s.rt inp.loopTimeNs).safetyStopActive inp.driveState
      (observed s inp).sequenceDone=true) :
    (baseOutput s inp).targetPosition=inp.actualPosition := by
  change (heldIdle s inp).2.1=_
  unfold heldIdle holdIdle
  rw [ht]
  split_ifs <;> first | rfl | simp_all

theorem heldIdle_idle (s : Sys R) (inp : CycleInput)
    (h : (commandInForce s inp).motion.type=.none) :
    (heldIdle s inp).1.idleHoldValid=true ∧
    (heldIdle s inp).2.1=(heldIdle s inp).1.idleHoldPosition ∧
    (heldIdle s inp).2.1=
      if (trackActual (commandInForce s inp)
          (checkClientTimeout s.rt inp.loopTimeNs).safetyStopActive inp.driveState
          (observed s inp).sequenceDone || !(observed s inp).idleHoldValid)=true then
        inp.actualPosition
      else (observed s inp).idleHoldPosition := by
  unfold heldIdle holdIdle
  rw [if_pos h]
  split_ifs with ht
  · exact ⟨rfl,rfl,rfl⟩
  · refine ⟨?_,rfl,rfl⟩
    simp only [Bool.or_eq_true,not_or,Bool.not_eq_true'] at ht
    simpa using ht.2

end

theorem step_cycle_hold (s : Sys R) (inp : CycleInput) :
    (step s (.cycle inp)).th.idleHoldValid=(heldIdle s inp).1.idleHoldValid ∧
    (step s (.cycle inp)).th.idleHoldPosition=(heldIdle s inp).1.idleHoldPosition := by
  have hl := step_cycle_latch s inp
  have ha := advanceSequence_frame (heldIdle s inp).1 s.rt.options (sequenceWord s inp).2
  exact ⟨hl.2.2.2.1.trans ha.2.1,hl.2.2.2.2.trans ha.2.2.1⟩

end EtherCATMaster.Backend
