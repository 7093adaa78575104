import Mathlib.Data.Nat.Notation

namespace EtherCATMaster.Motion

inductive Cia402State where
  | notReady
  | switchOnDisabled
  | readyToSwitchOn
  | switchedOn
  | operationEnabled
  | quickStopActive
  | faultReactionActive
  | fault
  | unknown
  deriving DecidableEq, Repr

inductive Cia402Sequence where
  | none
  | faultReset
  | shutdown
  | switchOn
  | enable
  | disable
  deriving DecidableEq, Repr

inductive Cia402MotionType where
  | none
  | servoStop
  | jogVelocity
  | profilePosition
  | home
  deriving DecidableEq, Repr

inductive Cia402ProfileType where
  | lms
  | trapezoidal
  | scurve
  | jerkRatio
  deriving DecidableEq, Repr

/-- Modes of operation the backend writes to object 0x6060. -/
inductive Cia402Mode where
  | profilePosition
  | profileVelocity
  | homing
  | csp
  | csv
  | cst
  deriving DecidableEq, Repr

def Cia402Mode.code : Cia402Mode → Int8
  | .profilePosition => 1
  | .profileVelocity => 3
  | .homing => 6
  | .csp => 8
  | .csv => 9
  | .cst => 10

/-- Decodes object 0x6041. The tests are made in the order of the source; the last one
leaves every other bit pattern unknown. -/
def cia402StateFromStatus (statusword : UInt16) : Cia402State :=
  if statusword &&& 0x004f=0x0000 then .notReady
  else if statusword &&& 0x004f=0x0040 then .switchOnDisabled
  else if statusword &&& 0x006f=0x0021 then .readyToSwitchOn
  else if statusword &&& 0x006f=0x0023 then .switchedOn
  else if statusword &&& 0x006f=0x0027 then .operationEnabled
  else if statusword &&& 0x006f=0x0007 then .quickStopActive
  else if statusword &&& 0x004f=0x000f then .faultReactionActive
  else if statusword &&& 0x004f=0x0008 then .fault
  else .unknown

/-- The controlword of one cycle and whether the sequence has reached its target.
It depends on the drive state of that cycle only. -/
def cia402SequenceControlword (sequence : Cia402Sequence) (state : Cia402State)
    (manualControlword : UInt16) : UInt16 × Bool :=
  match sequence with
  | .none => (manualControlword,true)
  | .faultReset =>
      if state=.fault ∨ state=.faultReactionActive then (0x0080,false)
      else (0x0000,true)
  | .shutdown => (0x0006,state=.readyToSwitchOn)
  | .switchOn =>
      if state=.switchedOn ∨ state=.operationEnabled then (0x0007,true)
      else if state=.readyToSwitchOn then (0x0007,false)
      else if state=.fault ∨ state=.faultReactionActive then (0x0080,false)
      else (0x0006,false)
  | .enable =>
      if state=.operationEnabled then (0x000f,true)
      else if state=.switchedOn then (0x000f,false)
      else if state=.readyToSwitchOn then (0x0007,false)
      else if state=.fault ∨ state=.faultReactionActive then (0x0080,false)
      else (0x0006,false)
  | .disable => (0x0000,state=.switchOnDisabled)

end EtherCATMaster.Motion
