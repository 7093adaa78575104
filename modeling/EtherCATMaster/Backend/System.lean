import EtherCATMaster.Backend.RtThread
import EtherCATMaster.Framework.Run

namespace EtherCATMaster.Backend

open EtherCATMaster.Motion
open scoped EtherCATMaster.Math

/-- A message of a connected client, after the greeting. -/
inductive ClientMessage where
  | command (netCommand : NetCommand)
  | sdoRead
  | sdoWrite (request : NetSdoRequest)
  | unsupported
  deriving DecidableEq, Repr

/-- The client thread between two critical sections of `handle_client`. -/
inductive ClientPc where
  | waiting
  | received (message : ClientMessage)
  deriving DecidableEq, Repr

/-- A reading of CLOCK_MONOTONIC. The clock counts from the boot of the machine, so a running
process reads a positive time. -/
structure ClockNs where
  ns : Int
  pos : 0<ns
  deriving DecidableEq, Repr

/-- A reading of so many nanoseconds, at least one. -/
def clockAt (ns : Nat) : ClockNs := ⟨max 1 ns,lt_max_of_lt_left one_pos⟩

/-- Steps of the two threads. `receive` is the arrival of a message with
`runtime_mark_client_message`; `dispatch` is the branch of `handle_client` that serves it. -/
inductive Event where
  | receive (now : ClockNs) (message : ClientMessage)
  | dispatch
  | cycle (inp : CycleInput)
  deriving DecidableEq, Repr

structure Sys (R : Type) where
  rt : BackendRuntime R
  th : RtThread R
  client : ClientPc

variable {R : Type} [Field R] [LinearOrder R]

def sysInit (options : BackendOptions) (start : ClockNs) : Sys R :=
  ⟨runtimeInit options start.ns,rtThreadInit start.ns,.waiting⟩

/-- The branch of `handle_client` for one message. Cached SDO reads and unsupported messages
are answered without touching the runtime. -/
def handleMessage (rt : BackendRuntime R) : ClientMessage → BackendRuntime R
  | .command netCommand => runtimeApplyCommand rt netCommand
  | .sdoRead => rt
  | .sdoWrite request => (runtimeWriteCachedSdo rt request).1
  | .unsupported => rt

/-- One atomic step. The client thread is sequential: it receives only when it waits and
dispatches only what it received, and a step it cannot take changes nothing. -/
def step [FloorRing R] [HasSqrt R] (s : Sys R) : Event → Sys R
  | .receive now message =>
      match s.client with
      | .waiting =>
          { s with rt := runtimeMarkClientMessage s.rt now.ns, client := .received message }
      | .received _ => s
  | .dispatch =>
      match s.client with
      | .waiting => s
      | .received message => { s with rt := handleMessage s.rt message, client := .waiting }
  | .cycle inp =>
      let cycled := rtCycle s.rt s.th inp
      { s with rt := cycled.1, th := cycled.2.1 }

/-- What the cycle with input `inp` reports when it runs in state `s`. -/
def cycleReport [FloorRing R] [HasSqrt R] (s : Sys R) (inp : CycleInput) : CycleReport R :=
  (rtCycle s.rt s.th inp).2.2

def emitted [FloorRing R] [HasSqrt R] (s : Sys R) (inp : CycleInput) : Cia402PdoOutput :=
  (cycleReport s inp).output

/-- What a message asks of the command record. -/
inductive Request where
  | keep
  | resetStatistics
  | stop
  | faultReset
  | enable
  | disable
  | setMode (mode : Int8)
  | setControlword (controlword : UInt16)
  | setTargetPosition (position : Int32)
  | setTargetVelocity (velocity : Int32)
  | move (netCommand : NetCommand) (lms relative : Bool)
  | jog (netCommand : NetCommand) (lms : Bool)
  | home (netCommand : NetCommand)
  | servoStop (netCommand : NetCommand) (lms : Bool)
  deriving DecidableEq, Repr

def NetCommand.request (netCommand : NetCommand) : Request :=
  match NetCommandType.ofCode netCommand.command with
  | some .none => .keep
  | some .start => .keep
  | some .stop => .stop
  | some .resetStatistics => .resetStatistics
  | some .servoFaultReset => .faultReset
  | some .servoEnable => .enable
  | some .servoDisable => .disable
  | some .servoSetMode => .setMode netCommand.mode.toInt8
  | some .servoMoveAbs => .move netCommand false false
  | some .lmsMoveAbs => .move netCommand true false
  | some .servoMoveRel => .move netCommand false true
  | some .servoJog => .jog netCommand false
  | some .lmsMoveVel => .jog netCommand true
  | some .servoHome => .home netCommand
  | some .servoStop => .servoStop netCommand false
  | some .lmsStop => .servoStop netCommand true
  | Option.none => .keep

/-- A refused write asks for nothing. -/
def NetSdoRequest.request (request : NetSdoRequest) : Request :=
  if request.size ≤ 0 then .keep
  else if request.index=0x6040 then
    if request.size<2 then .keep else .setControlword (readLeU16 request.data)
  else if request.index=0x6060 then .setMode (request.data.getD 0 0).toInt8
  else if request.index=0x607a then
    if request.size<4 then .keep else .setTargetPosition (readLeI32 request.data)
  else if request.index=0x60ff then
    if request.size<4 then .keep else .setTargetVelocity (readLeI32 request.data)
  else .keep

def ClientMessage.request : ClientMessage → Request
  | .command netCommand => netCommand.request
  | .sdoRead => .keep
  | .sdoWrite request => request.request
  | .unsupported => .keep

def BackendCommand.halted (command : BackendCommand R) : BackendCommand R :=
  { backendCommandSafeStop command with generation := command.generation+1 }

/-- The abstract command record: what a request makes of it. -/
def Request.apply (request : Request) (command : BackendCommand R) : BackendCommand R :=
  match request with
  | .keep => command
  | .resetStatistics => { command with resetGeneration := command.resetGeneration+1 }
  | .stop => command.halted
  | .faultReset => command.start .faultReset cia402MotionInit
  | .enable => command.start .enable cia402MotionInit
  | .disable => command.start .disable cia402MotionInit
  | .setMode mode => { command with mode := mode }.start .none cia402MotionInit
  | .setControlword controlword =>
      { command with controlword := controlword }.start .none cia402MotionInit
  | .setTargetPosition position =>
      { command with targetPosition := position }.start .none cia402MotionInit
  | .setTargetVelocity velocity =>
      { command with targetVelocity := velocity }.start .none cia402MotionInit
  | .move netCommand lms relative =>
      { command with targetPosition := netCommand.targetPosition }.start .enable
        (moveMotion netCommand lms relative)
  | .jog netCommand lms =>
      { command with targetVelocity := netCommand.targetVelocity }.start .enable
        (jogMotion netCommand lms)
  | .home netCommand => command.start .enable (homeMotion netCommand)
  | .servoStop netCommand lms => command.start .none (stopMotion netCommand lms)

def Request.advances : Request → Bool
  | .keep => false
  | .resetStatistics => false
  | _ => true

/-- The request that an event hands to the runtime, if it hands over one. -/
def requestOf (s : Sys R) : Event → Option Request
  | .dispatch =>
      match s.client with
      | .waiting => none
      | .received message => some message.request
  | _ => none

omit [LinearOrder R] in
theorem runtimeApplyCommand_command (rt : BackendRuntime R) (netCommand : NetCommand) :
    (runtimeApplyCommand rt netCommand).command=netCommand.request.apply rt.command := by
  unfold runtimeApplyCommand NetCommand.request
  cases h : NetCommandType.ofCode netCommand.command with
  | none => rfl
  | some commandType => cases commandType <;> rfl

omit [LinearOrder R] in
theorem runtimeWriteCachedSdo_command (rt : BackendRuntime R) (request : NetSdoRequest) :
    (runtimeWriteCachedSdo rt request).1.command=request.request.apply rt.command := by
  unfold runtimeWriteCachedSdo NetSdoRequest.request
  split_ifs <;> rfl

omit [LinearOrder R] in
theorem handleMessage_command (rt : BackendRuntime R) (message : ClientMessage) :
    (handleMessage rt message).command=message.request.apply rt.command := by
  cases message with
  | command netCommand => exact runtimeApplyCommand_command rt netCommand
  | sdoRead => rfl
  | sdoWrite request => exact runtimeWriteCachedSdo_command rt request
  | unsupported => rfl

omit [LinearOrder R] in
theorem handleMessage_frame (rt : BackendRuntime R) (message : ClientMessage) :
    (handleMessage rt message).options=rt.options ∧
    (handleMessage rt message).lastClientMessageNs=rt.lastClientMessageNs ∧
    (handleMessage rt message).safetyStopActive=rt.safetyStopActive := by
  cases message with
  | command netCommand =>
    change (runtimeApplyCommand rt netCommand).options=_ ∧
      (runtimeApplyCommand rt netCommand).lastClientMessageNs=_ ∧
      (runtimeApplyCommand rt netCommand).safetyStopActive=_
    unfold runtimeApplyCommand
    cases h : NetCommandType.ofCode netCommand.command with
    | none => exact ⟨rfl,rfl,rfl⟩
    | some commandType => cases commandType <;> exact ⟨rfl,rfl,rfl⟩
  | sdoRead => exact ⟨rfl,rfl,rfl⟩
  | sdoWrite request =>
    change (runtimeWriteCachedSdo rt request).1.options=_ ∧
      (runtimeWriteCachedSdo rt request).1.lastClientMessageNs=_ ∧
      (runtimeWriteCachedSdo rt request).1.safetyStopActive=_
    unfold runtimeWriteCachedSdo
    split_ifs <;> exact ⟨rfl,rfl,rfl⟩
  | unsupported => exact ⟨rfl,rfl,rfl⟩

end EtherCATMaster.Backend
