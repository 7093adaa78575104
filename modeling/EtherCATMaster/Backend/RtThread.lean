import EtherCATMaster.Backend.Runtime

namespace EtherCATMaster.Backend

open EtherCATMaster.Motion
open scoped EtherCATMaster.Math

inductive WcState where
  | zero
  | incomplete
  | complete
  deriving DecidableEq, Repr

/-- What one cycle reads: the clock, the drive's TxPDO and the master's domain and slave
states. -/
structure CycleInput where
  loopTimeNs : Int
  statusword : UInt16
  actualPosition : Int32
  actualVelocity : Int32 := 0
  modeDisplay : Int8 := 0
  wcState : WcState := .complete
  workingCounter : UInt32 := 1
  operational : Bool := true
  deriving DecidableEq, Repr

def CycleInput.driveState (inp : CycleInput) : Cia402State := cia402StateFromStatus inp.statusword

/-- Loop statistics that a changed `reset_generation` clears. -/
structure LoopStatistics where
  minLoopUs : Int
  maxLoopUs : Int
  sumLoopUs : Int
  maxPeriodErrorUs : Int
  timingSamples : Int32
  expectedWkc : UInt32
  wkcErrors : Int32
  stateErrors : Int32
  deriving DecidableEq, Repr

def LoopStatistics.cleared : LoopStatistics := ⟨9223372036854775807,0,0,0,0,0,0,0⟩

/-- Local variables of `rt_thread_main` that live across cycles, with the process data last
written to the domain. -/
structure RtThread (R : Type) where
  cycle : Int32
  commandGenerationSeen : UInt32
  resetGenerationSeen : UInt32
  sequenceDone : Bool
  sequenceFailed : Bool
  sequenceStartCycle : Int32
  sequenceDoneCycle : Int32
  idleHoldValid : Bool
  idleHoldPosition : Int32
  profile : Cia402MotionProfile R
  previousLoopTimeNs : Int
  opSeen : Bool
  statistics : LoopStatistics
  written : Cia402PdoOutput

inductive TargetPolicy where
  | trackActual
  | holdActual
  | motionProfile
  deriving DecidableEq, Repr

/-- What one cycle computed. -/
structure CycleReport (R : Type) where
  command : BackendCommand R
  safetyStopActive : Bool
  sequenceTargetReached : Bool
  targetPolicy : TargetPolicy
  profileDone : Bool
  output : Cia402PdoOutput

variable {R : Type} [Field R] [LinearOrder R]

def rtThreadInit (startNs : Int) : RtThread R where
  cycle := 0
  commandGenerationSeen := 0xffffffff
  resetGenerationSeen := 0
  sequenceDone := true
  sequenceFailed := false
  sequenceStartCycle := 0
  sequenceDoneCycle := -1
  idleHoldValid := false
  idleHoldPosition := 0
  profile := cia402ProfileReset
  previousLoopTimeNs := startNs
  opSeen := false
  statistics := LoopStatistics.cleared
  written := ⟨0,0,0,0⟩

/-- The timing statistics at the head of the loop. -/
def timeLoop (th : RtThread R) (options : BackendOptions) (inp : CycleInput) : RtThread R :=
  if th.cycle>0 then
    let elapsedUs := (inp.loopTimeNs-th.previousLoopTimeNs).tdiv 1000
    let stats := th.statistics
    { th with
      previousLoopTimeNs := inp.loopTimeNs
      statistics :=
        { stats with
          minLoopUs := min stats.minLoopUs elapsedUs
          maxLoopUs := max stats.maxLoopUs elapsedUs
          maxPeriodErrorUs := max stats.maxPeriodErrorUs |elapsedUs-options.periodUs.toInt|
          sumLoopUs := stats.sumLoopUs+elapsedUs
          timingSamples := stats.timingSamples+1 } }
  else { th with previousLoopTimeNs := inp.loopTimeNs }

def ClientTimedOut (rt : BackendRuntime R) (loopTimeNs : Int) : Prop :=
  rt.options.clientTimeoutMs>0 ∧ rt.lastClientMessageNs>0 ∧
    loopTimeNs-rt.lastClientMessageNs>rt.options.clientTimeoutMs.toInt*1000000

instance (rt : BackendRuntime R) (loopTimeNs : Int) : Decidable (ClientTimedOut rt loopTimeNs) :=
  inferInstanceAs (Decidable (_ ∧ _))

def SafetyStopFires (rt : BackendRuntime R) (loopTimeNs : Int) : Prop :=
  ClientTimedOut rt loopTimeNs ∧ rt.safetyStopActive=false

instance (rt : BackendRuntime R) (loopTimeNs : Int) : Decidable (SafetyStopFires rt loopTimeNs) :=
  inferInstanceAs (Decidable (_ ∧ _))

def checkClientTimeout (rt : BackendRuntime R) (loopTimeNs : Int) : BackendRuntime R :=
  if SafetyStopFires rt loopTimeNs then
    runtimeApplySafetyStopLocked rt "Client heartbeat timeout. Safe stop applied."
  else rt

/-- A changed `reset_generation` clears the statistics, and with them the cycle counter. -/
def observeReset (th : RtThread R) (command : BackendCommand R) : RtThread R :=
  if command.resetGeneration≠th.resetGenerationSeen then
    { th with
      resetGenerationSeen := command.resetGeneration
      statistics := LoopStatistics.cleared
      cycle := 0 }
  else th

/-- What a changed command generation sets up. -/
def RtThread.restart (th : RtThread R) (command : BackendCommand R) : RtThread R :=
  { th with
    commandGenerationSeen := command.generation
    sequenceDone := command.sequence=.none
    sequenceFailed := false
    sequenceStartCycle := th.cycle
    sequenceDoneCycle := -1
    profile := cia402ProfileReset
    idleHoldValid := if command.motion.type=.none then false else th.idleHoldValid }

def observeGeneration (th : RtThread R) (command : BackendCommand R) : RtThread R :=
  if command.generation≠th.commandGenerationSeen then th.restart command else th

/-- Working counter and slave state errors. -/
def countErrors (th : RtThread R) (inp : CycleInput) : RtThread R :=
  let stats := th.statistics
  let counted :=
    if inp.wcState=.complete ∧ inp.workingCounter>0 ∧ stats.expectedWkc=0 then
      { stats with expectedWkc := inp.workingCounter }
    else if stats.expectedWkc>0 ∧
        (inp.wcState≠.complete ∨ inp.workingCounter≠stats.expectedWkc) then
      { stats with wkcErrors := stats.wkcErrors+1 }
    else stats
  if inp.operational then { th with statistics := counted, opSeen := true }
  else if th.opSeen then
    { th with statistics := { counted with stateErrors := counted.stateErrors+1 } }
  else { th with statistics := counted }

/-- `track_actual` of the idle branch. -/
def trackActual (command : BackendCommand R) (safetyStopActive : Bool) (driveState : Cia402State)
    (sequenceDone : Bool) : Bool :=
  safetyStopActive || driveState≠.operationEnabled ||
    (command.sequence=.enable && !sequenceDone) ||
    command.sequence=.disable || command.sequence=.faultReset

/-- Idle hold: tracks the actual position, or keeps the position tracked last. Returns the
thread, the target position and the policy. -/
def holdIdle (th : RtThread R) (command : BackendCommand R) (safetyStopActive : Bool)
    (driveState : Cia402State) (actualPosition : Int32) :
    RtThread R × Int32 × TargetPolicy :=
  if command.motion.type=.none then
    if trackActual command safetyStopActive driveState th.sequenceDone || !th.idleHoldValid then
      ({ th with idleHoldPosition := actualPosition, idleHoldValid := true },
        actualPosition,.trackActual)
    else (th,th.idleHoldPosition,.holdActual)
  else (th,actualPosition,.trackActual)

/-- Latches the end of the sequence, or its timeout counted in cycles. -/
def advanceSequence (th : RtThread R) (options : BackendOptions) (targetReached : Bool) :
    RtThread R :=
  let reached :=
    if !th.sequenceDone && targetReached then
      { th with sequenceDone := true, sequenceDoneCycle := th.cycle }
    else th
  if !reached.sequenceDone && !reached.sequenceFailed &&
      ((reached.cycle-reached.sequenceStartCycle).toInt*options.periodUs.toInt).tdiv 1000≥
        options.sequenceTimeoutMs.toInt then
    { reached with sequenceFailed := true }
  else reached

/-- The profile step of an enabled motion, the wait of a motion not yet enabled, and the
reset of the profile without motion. -/
def runMotion [FloorRing R] [HasSqrt R] (th : RtThread R) (command : BackendCommand R)
    (options : BackendOptions) (inp : CycleInput) (output : Cia402PdoOutput)
    (policy : TargetPolicy) (doneBefore : Bool) :
    RtThread R × Cia402PdoOutput × TargetPolicy × Bool :=
  if command.motion.type≠.none ∧ th.sequenceDone=true ∧ th.sequenceFailed=false then
    let stepped := cia402ProfileStep th.profile command.motion inp.actualPosition
      inp.actualVelocity options.periodUs output
    ({ th with profile := stepped.1 },stepped.2.1,.motionProfile,stepped.2.2)
  else if command.motion.type≠.none then (th,output,.trackActual,false)
  else ({ th with profile := cia402ProfileReset },output,policy,doneBefore)

def publishedError (safetyStopActive sequenceFailed : Bool) : String :=
  if safetyStopActive then "Client heartbeat timeout. Safe stop applied."
  else if sequenceFailed then "CiA402 sequence timeout."
  else ""

/-- One pass of the loop of `rt_thread_main`, from the clock reading to the write of the
process data and the published status. -/
def rtCycle [FloorRing R] [HasSqrt R] (rt : BackendRuntime R) (th : RtThread R)
    (inp : CycleInput) : BackendRuntime R × RtThread R × CycleReport R :=
  let timed := timeLoop th rt.options inp
  let locked := checkClientTimeout rt inp.loopTimeNs
  let command := locked.command
  let counted := countErrors (observeGeneration (observeReset timed command) command) inp
  let word := cia402SequenceControlword command.sequence inp.driveState command.controlword
  let held := holdIdle counted command locked.safetyStopActive inp.driveState inp.actualPosition
  let output : Cia402PdoOutput :=
    ⟨word.1,held.2.1,command.targetVelocity,
      if command.mode≠0 then command.mode else inp.modeDisplay⟩
  let moved := runMotion (advanceSequence held.1 rt.options word.2) command rt.options inp output
    held.2.2 th.profile.done
  ({ locked with
      lastError := publishedError locked.safetyStopActive moved.1.sequenceFailed },
    { moved.1 with written := moved.2.1, cycle := moved.1.cycle+1 },
    { command := command
      safetyStopActive := locked.safetyStopActive
      sequenceTargetReached := word.2
      targetPolicy := moved.2.2.1
      profileDone := moved.2.2.2
      output := moved.2.1 })

end EtherCATMaster.Backend
