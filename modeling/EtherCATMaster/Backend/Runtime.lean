import EtherCATMaster.Motion.Profile

namespace EtherCATMaster.Backend

open EtherCATMaster.Motion
open scoped EtherCATMaster.Math

inductive NetCommandType where
  | none
  | start
  | stop
  | resetStatistics
  | servoEnable
  | servoDisable
  | servoFaultReset
  | servoSetMode
  | servoMoveAbs
  | servoJog
  | servoHome
  | servoStop
  | servoMoveRel
  | lmsMoveAbs
  | lmsMoveVel
  | lmsStop
  deriving DecidableEq, Repr

/-- Values of `ECAT_NetCommandType`. A code outside the enumeration falls through to the
`default` label of `runtime_apply_command`. -/
def NetCommandType.ofCode (code : Int32) : Option NetCommandType :=
  if code=0 then some .none
  else if code=1 then some .start
  else if code=2 then some .stop
  else if code=3 then some .resetStatistics
  else if code=10 then some .servoEnable
  else if code=11 then some .servoDisable
  else if code=12 then some .servoFaultReset
  else if code=13 then some .servoSetMode
  else if code=20 then some .servoMoveAbs
  else if code=21 then some .servoJog
  else if code=22 then some .servoHome
  else if code=23 then some .servoStop
  else if code=24 then some .servoMoveRel
  else if code=40 then some .lmsMoveAbs
  else if code=41 then some .lmsMoveVel
  else if code=42 then some .lmsStop
  else Option.none

/-- The fields of `ECAT_NetCommand` that the backend reads. -/
structure NetCommand where
  command : Int32
  targetPosition : Int32 := 0
  targetVelocity : Int32 := 0
  velocity : UInt32 := 0
  acceleration : UInt32 := 0
  deceleration : UInt32 := 0
  mode : Int32 := 0
  searchSpeed : UInt32 := 0
  commandFlags : UInt32 := 0
  profileType : Int32 := 0
  jerkRatioPermille : Int32 := 0
  deriving DecidableEq, Repr

/-- An SDO request; the payload buffer is zeroed before each message, so bytes past the
list are zero. -/
structure NetSdoRequest where
  index : UInt16
  size : Int32
  data : List UInt8
  deriving DecidableEq, Repr

structure BackendOptions where
  periodUs : Int32
  sequenceTimeoutMs : Int32
  clientTimeoutMs : Int32
  deriving DecidableEq, Repr

/-- Defaults of `options_init`. -/
def optionsInit : BackendOptions := ⟨1000,5000,1000⟩

structure BackendCommand (R : Type) where
  controlword : UInt16
  targetPosition : Int32
  targetVelocity : Int32
  mode : Int8
  sequence : Cia402Sequence
  motion : Cia402MotionCommand R
  generation : UInt32
  resetGeneration : UInt32

/-- The shared runtime, guarded by one mutex: every function below is one critical section.
Times are nanoseconds of the monotonic clock. -/
structure BackendRuntime (R : Type) where
  options : BackendOptions
  safetyStopActive : Bool
  safetyStopCount : Int32
  lastClientMessageNs : Int
  command : BackendCommand R
  lastError : String

variable {R : Type} [Field R]

def runtimeInit (options : BackendOptions) (nowNs : Int) : BackendRuntime R where
  options := options
  safetyStopActive := false
  safetyStopCount := 0
  lastClientMessageNs := nowNs
  command := ⟨0,0,0,0,.none,cia402MotionInit,0,0⟩
  lastError := ""

def runtimeResetStatisticsLocked (rt : BackendRuntime R) : BackendRuntime R :=
  { rt with
    command := { rt.command with resetGeneration := rt.command.resetGeneration+1 }
    safetyStopCount := 0 }

def backendCommandSafeStop (command : BackendCommand R) : BackendCommand R :=
  { command with
    controlword := 0
    targetVelocity := 0
    sequence := .none
    motion := cia402MotionInit }

def netCmdFlagProfileValid : UInt32 := 0x00000001

def backendApplyMotionProfile (motion : Cia402MotionCommand R) (netCommand : NetCommand)
    (forceLms : Bool) : Cia402MotionCommand R :=
  if forceLms then { motion with profileType := 0, jerkRatio := 35/100 }
  else if netCommand.commandFlags &&& netCmdFlagProfileValid≠0 then
    { motion with
      profileType := netCommand.profileType
      jerkRatio := (netCommand.jerkRatioPermille.toInt : R)/1000 }
  else motion

def runtimeMarkClientMessage (rt : BackendRuntime R) (nowNs : Int) : BackendRuntime R :=
  { rt with lastClientMessageNs := nowNs, safetyStopActive := false }

def runtimeApplySafetyStopLocked (rt : BackendRuntime R) (reason : String) : BackendRuntime R :=
  let stopped := backendCommandSafeStop rt.command
  { rt with
    command := { stopped with generation := stopped.generation+1 }
    safetyStopActive := true
    safetyStopCount := rt.safetyStopCount+1
    lastError := reason }

/-- The assignments that end every command case: a sequence, a motion and a new generation. -/
def BackendCommand.start (command : BackendCommand R) (sequence : Cia402Sequence)
    (motion : Cia402MotionCommand R) : BackendCommand R :=
  { command with sequence := sequence, motion := motion, generation := command.generation+1 }

/-- The motion of a position move; absolute and relative moves share it. -/
def moveMotion (netCommand : NetCommand) (forceLms relative : Bool) : Cia402MotionCommand R :=
  { backendApplyMotionProfile cia402MotionInit netCommand forceLms with
    type := .profilePosition
    mode := Cia402Mode.csp.code
    targetPosition := netCommand.targetPosition
    profileVelocity := netCommand.velocity.toInt32
    acceleration := netCommand.acceleration
    deceleration := netCommand.deceleration
    relative := relative }

def jogMotion (netCommand : NetCommand) (forceLms : Bool) : Cia402MotionCommand R :=
  { backendApplyMotionProfile cia402MotionInit netCommand forceLms with
    type := .jogVelocity
    mode := Cia402Mode.csv.code
    targetVelocity := netCommand.targetVelocity
    acceleration := netCommand.acceleration
    deceleration := netCommand.deceleration }

def homeMotion (netCommand : NetCommand) : Cia402MotionCommand R :=
  { backendApplyMotionProfile cia402MotionInit netCommand false with
    type := .home
    mode := Cia402Mode.homing.code
    targetVelocity := netCommand.searchSpeed.toInt32
    acceleration := netCommand.acceleration
    deceleration := netCommand.deceleration }

def stopMotion (netCommand : NetCommand) (forceLms : Bool) : Cia402MotionCommand R :=
  { backendApplyMotionProfile cia402MotionInit netCommand forceLms with
    type := .servoStop
    mode := Cia402Mode.csv.code
    deceleration := netCommand.deceleration }

/-- The LMS variant of a command only forces the LMS profile. -/
def runtimeApplyCommand (rt : BackendRuntime R) (netCommand : NetCommand) : BackendRuntime R :=
  let command := rt.command
  let moving := { command with targetPosition := netCommand.targetPosition }
  let turning := { command with targetVelocity := netCommand.targetVelocity }
  match NetCommandType.ofCode netCommand.command with
  | some .none => rt
  | some .start => rt
  | some .stop =>
      let stopped := backendCommandSafeStop command
      { rt with command := { stopped with generation := stopped.generation+1 } }
  | some .resetStatistics => runtimeResetStatisticsLocked rt
  | some .servoFaultReset => { rt with command := command.start .faultReset cia402MotionInit }
  | some .servoEnable => { rt with command := command.start .enable cia402MotionInit }
  | some .servoDisable => { rt with command := command.start .disable cia402MotionInit }
  | some .servoSetMode =>
      { rt with
        command := { command with mode := netCommand.mode.toInt8 }.start .none cia402MotionInit }
  | some .servoMoveAbs =>
      { rt with command := moving.start .enable (moveMotion netCommand false false) }
  | some .lmsMoveAbs =>
      { rt with command := moving.start .enable (moveMotion netCommand true false) }
  | some .servoMoveRel =>
      { rt with command := moving.start .enable (moveMotion netCommand false true) }
  | some .servoJog => { rt with command := turning.start .enable (jogMotion netCommand false) }
  | some .lmsMoveVel => { rt with command := turning.start .enable (jogMotion netCommand true) }
  | some .servoHome => { rt with command := command.start .enable (homeMotion netCommand) }
  | some .servoStop => { rt with command := command.start .none (stopMotion netCommand false) }
  | some .lmsStop => { rt with command := command.start .none (stopMotion netCommand true) }
  | Option.none => { rt with lastError := "Unsupported backend command." }

def readLeU16 (data : List UInt8) : UInt16 :=
  (data.getD 0 0).toUInt16 ||| ((data.getD 1 0).toUInt16<<<8)

def readLeI32 (data : List UInt8) : Int32 :=
  ((data.getD 0 0).toUInt32 ||| ((data.getD 1 0).toUInt32<<<8) |||
    ((data.getD 2 0).toUInt32<<<16) ||| ((data.getD 3 0).toUInt32<<<24)).toInt32

/-- New runtime and the result of the reply. -/
def runtimeWriteCachedSdo (rt : BackendRuntime R) (request : NetSdoRequest) :
    BackendRuntime R × Int32 :=
  let command := rt.command
  if request.size ≤ 0 then (rt,-1)
  else if request.index=0x6040 then
    if request.size<2 then (rt,-1)
    else
      ({ rt with
        command := { command with controlword := readLeU16 request.data }.start .none
          cia402MotionInit },0)
  else if request.index=0x6060 then
    ({ rt with
      command := { command with mode := (request.data.getD 0 0).toInt8 }.start .none
        cia402MotionInit },0)
  else if request.index=0x607a then
    if request.size<4 then (rt,-1)
    else
      ({ rt with
        command := { command with targetPosition := readLeI32 request.data }.start .none
          cia402MotionInit },0)
  else if request.index=0x60ff then
    if request.size<4 then (rt,-1)
    else
      ({ rt with
        command := { command with targetVelocity := readLeI32 request.data }.start .none
          cia402MotionInit },0)
  else (rt,-1)

end EtherCATMaster.Backend
