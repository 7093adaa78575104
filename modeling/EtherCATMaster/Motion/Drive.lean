import EtherCATMaster.Motion.Cia402
import Mathlib.Logic.Basic

namespace EtherCATMaster.Motion

/-- Commands of the CiA-402 device control. -/
inductive DeviceCommand where
  | shutdown
  | switchOn
  | enableOperation
  | disableVoltage
  | quickStop
  deriving DecidableEq, Repr

def deviceCommand (word : UInt16) : DeviceCommand :=
  if word &&& 0x0002=0 then .disableVoltage
  else if word &&& 0x0004=0 then .quickStop
  else if word &&& 0x0001=0 then .shutdown
  else if word &&& 0x0008=0 then .switchOn
  else .enableOperation

def resetBit (word : UInt16) : Bool := word &&& 0x0080≠0

/-- The state that a drive is commanded to by a controlword, given the word before it: a fault
is reset by a rising edge only, and a set reset bit carries no other command. -/
def commandedState (before word : UInt16) (state : Cia402State) : Cia402State :=
  if state=.fault then
    if resetBit word ∧ resetBit before=false then .switchOnDisabled else .fault
  else if resetBit word then state
  else
    match state,deviceCommand word with
    | .switchOnDisabled,.shutdown => .readyToSwitchOn
    | .readyToSwitchOn,.switchOn => .switchedOn
    | .readyToSwitchOn,.enableOperation => .operationEnabled
    | .readyToSwitchOn,.disableVoltage => .switchOnDisabled
    | .readyToSwitchOn,.quickStop => .switchOnDisabled
    | .switchedOn,.enableOperation => .operationEnabled
    | .switchedOn,.shutdown => .readyToSwitchOn
    | .switchedOn,.disableVoltage => .switchOnDisabled
    | .switchedOn,.quickStop => .switchOnDisabled
    | .operationEnabled,.switchOn => .switchedOn
    | .operationEnabled,.shutdown => .readyToSwitchOn
    | .operationEnabled,.disableVoltage => .switchOnDisabled
    | .operationEnabled,.quickStop => .quickStopActive
    | .quickStopActive,.enableOperation => .operationEnabled
    | .quickStopActive,.disableVoltage => .switchOnDisabled
    | state,_ => state

def Energises (before word : UInt16) (state : Cia402State) : Prop :=
  state≠.operationEnabled ∧ commandedState before word state=.operationEnabled

instance (before word : UInt16) (state : Cia402State) :
    Decidable (Energises before word state) := inferInstanceAs (Decidable (_ ∧ _))

/-- Transitions a drive makes without a command: the end of its self test, of a quick stop and
of a fault reaction, and the entry into a fault reaction. -/
def Spontaneous (state next : Cia402State) : Prop :=
  (state=.notReady ∧ next=.switchOnDisabled) ∨
  (state=.quickStopActive ∧ next=.switchOnDisabled) ∨
  (state=.faultReactionActive ∧ next=.fault) ∨
  (state≠.fault ∧ next=.faultReactionActive)

instance (state next : Cia402State) : Decidable (Spontaneous state next) :=
  inferInstanceAs (Decidable (_ ∨ _))

/-- A step of a drive that follows the state machine with any delay: it stays, makes a
transition of its own, or obeys one of the words of the stream so far, given newest first. -/
def DriveMay (state next : Cia402State) : List UInt16 → Prop
  | [] => next=state ∨ Spontaneous state next
  | [word] => next=state ∨ Spontaneous state next ∨ next=commandedState 0 word state
  | word::before::words =>
      next=commandedState before word state ∨ DriveMay state next (before::words)

instance driveMayDecidable (state next : Cia402State) :
    ∀ words,Decidable (DriveMay state next words)
  | [] => inferInstanceAs (Decidable (_ ∨ _))
  | [_] => inferInstanceAs (Decidable (_ ∨ _ ∨ _))
  | word::before::words =>
      haveI := driveMayDecidable state next (before::words)
      inferInstanceAs (Decidable (_=commandedState before word state ∨
        DriveMay state next (before::words)))

theorem energises_iff (before word : UInt16) (state : Cia402State) :
    Energises before word state ↔
      resetBit word=false ∧ deviceCommand word=.enableOperation ∧
        (state=.readyToSwitchOn ∨ state=.switchedOn ∨ state=.quickStopActive) := by
  unfold Energises commandedState
  cases resetBit word <;> cases resetBit before <;> cases deviceCommand word <;>
    cases state <;> simp

end EtherCATMaster.Motion
