import EtherCATMaster.Clock.Topology
import Mathlib.Data.List.Basic

namespace EtherCATMaster.Clock

/-- A register that `ecx_configdc` writes to a slave. -/
inductive DcWrite where
  | sysOffset (value : UInt64)
  | sysDelay (value : Int32)
  deriving DecidableEq

/-- The state of `ecx_configdc`. `dcNext` and `dcPrevious` are the fields of `slavelist`, the first
slave of the chain is `dcNext 0`. -/
structure DcState where
  slavelist : Nat → Slave
  dcNext : Nat → Nat
  dcPrevious : Nat → Nat
  grouphasdc : Nat → Bool
  groupDcNext : Nat → Nat
  parenthold : Nat
  prevDcSlave : Nat
  written : List (Nat × DcWrite)

def Slave.porttime (s : Slave) : Nat → Int32
  | 0 => s.dcRtA
  | 1 => s.dcRtB
  | 2 => s.dcRtC
  | 3 => s.dcRtD
  | _ => 0

/-- The first of `ports` that is active, `port` itself when none is. -/
def firstActive (aport : UInt8) (port : Nat) (ports : List Nat) : Nat :=
  (ports.find? (fun p => aport &&& portMask p≠0)).getD port

/-- The active port that a frame comes from before it leaves through `port`. -/
def prevport (aport : UInt8) (port : Nat) : Nat :=
  match port with
  | 0 => firstActive aport 0 [2,1,3]
  | 1 => firstActive aport 1 [3,0,2]
  | 2 => firstActive aport 2 [1,3,0]
  | 3 => firstActive aport 3 [0,2,1]
  | _ => port

def parentport (b : UInt8) : Nat × UInt8 :=
  if b &&& portMask 3≠0 then (3,b &&& ~~~portMask 3)
  else if b &&& portMask 1≠0 then (1,b &&& ~~~portMask 1)
  else if b &&& portMask 2≠0 then (2,b &&& ~~~portMask 2)
  else if b &&& portMask 0≠0 then (0,b &&& ~~~portMask 0)
  else (0,b)

/-- `plist` and `tlist`: the active ports and their times. -/
def Slave.portList (s : Slave) : List (Nat × Int32) :=
  ([0,3,1,2].filter (fun p => s.activeports &&& portMask p≠0)).map (fun p => (p,s.porttime p))

/-- The port with the lowest time, the first of them. A slave that answers has an active port. -/
def lowest : List (Nat × Int32) → Nat
  | [] => 0
  | first :: rest => (rest.foldl (fun e x => if x.2 < e.2 then x else e) first).1

def Slave.latch (s : Slave) (r : Registers) : Slave :=
  let s :=
    { s with dcRtA := r.dcTime 0, dcRtB := r.dcTime 1, dcRtC := r.dcTime 2, dcRtD := r.dcTime 3 }
  { s with
    entryport := lowest s.portList
    consumedports := s.activeports &&& ~~~portMask (lowest s.portList) }

def Slave.unlatched (s : Slave) : Slave :=
  { s with dcRtA := 0, dcRtB := 0, dcRtC := 0, dcRtD := 0, consumedports := s.activeports }

/-- The search for the nearest parent with a clock; the second number is the slave below it. A
parent has a smaller number than its child, `slave` steps are enough. -/
def dcParent (slavelist : Nat → Slave) : Nat → Nat → Nat × Nat
  | 0,slave => (0,slave)
  | n+1,slave =>
      let parent := (slavelist slave).parent
      if parent=0 ∨ (slavelist parent).hasdc then (parent,slave) else dcParent slavelist n parent

/-- `dt3`: from the parent's previous port to `port`. -/
def Slave.dt3 (p : Slave) (port : Nat) : Int32 :=
  p.porttime port-p.porttime (prevport p.activeports port)

/-- `dt1`: what the children of the slave take. -/
def Slave.dt1 (s : Slave) : Int32 :=
  if s.topology>1 then
    s.porttime (prevport s.activeports s.entryport)-s.porttime s.entryport
  else 0

/-- `dt2`: what the children before take. `following` says that there are some. -/
def Slave.dt2 (p : Slave) (port : Nat) (following : Bool) : Int32 :=
  if following then p.porttime (prevport p.activeports port)-p.porttime p.entryport else 0

/-- The delay of slave `s` at port `port` of its parent `p`. -/
def propagation (s p : Slave) (port : Nat) (following : Bool) : Int32 :=
  let dt3 := p.dt3 port
  let dt1 := if s.dt1>dt3 then -s.dt1 else s.dt1
  let dt2 := p.dt2 port following
  let dt2 := if dt2<0 then -dt2 else dt2
  (dt3-dt1)/2+dt2+p.pdelay

/-- A slave with a clock is put in the chain. -/
def DcState.chain (d : DcState) (i : Nat) : DcState :=
  if (d.slavelist 0).hasdc then
    { d with
      dcNext := Function.update d.dcNext d.prevDcSlave i
      dcPrevious := Function.update d.dcPrevious i d.prevDcSlave
      parenthold := 0
      prevDcSlave := i }
  else
    { d with
      slavelist := Function.update d.slavelist 0 { d.slavelist 0 with hasdc := true }
      dcNext := Function.update d.dcNext 0 i
      dcPrevious := Function.update d.dcPrevious i 0
      grouphasdc := Function.update d.grouphasdc (d.slavelist i).group true
      groupDcNext := Function.update d.groupDcNext (d.slavelist i).group i
      parenthold := 0
      prevDcSlave := i }

/-- Slave `i` takes a port of its parent and its delay is computed. -/
def measure (slavelist : Nat → Slave) (i parent child : Nat) : Nat → Slave :=
  let taken := parentport (slavelist parent).consumedports
  let slavelist := Function.update slavelist parent
    { slavelist parent with consumedports := taken.2 }
  let port :=
    if (slavelist parent).topology=1 then (slavelist parent).entryport else taken.1
  Function.update slavelist i
    { slavelist i with
      parentport := port
      pdelay := propagation (slavelist i) (slavelist parent) port (child-parent>1) }

/-- The times of slave `i` are read, every register is. Its offset to the master is written. -/
def DcState.readTimes (d : DcState) (reg : Nat → Registers) (mastertime : UInt64) (i : Nat) :
    DcState :=
  { d with
    slavelist := Function.update d.slavelist i ((d.slavelist i).latch (reg i))
    written := d.written ++ [(i,.sysOffset (-(reg i).dcSof+mastertime))] }

/-- One pass of the loop for a slave with a clock. -/
def DcState.withClock (d : DcState) (reg : Nat → Registers) (mastertime : UInt64) (i : Nat) :
    DcState :=
  let d := (d.chain i).readTimes reg mastertime i
  let r := dcParent d.slavelist i i
  if r.1>0 then
    { d with
      slavelist := measure d.slavelist i r.1 r.2
      written := d.written ++ [(i,.sysDelay (measure d.slavelist i r.1 r.2 i).pdelay)] }
  else d

/-- One pass of the loop for a slave without. When a branch has no clock, its port is consumed. -/
def DcState.withoutClock (d : DcState) (i : Nat) : DcState :=
  let slavelist := Function.update d.slavelist i (d.slavelist i).unlatched
  let parent := (slavelist i).parent
  let hold := if parent>0 ∧ (slavelist parent).topology>2 then parent else d.parenthold
  if hold≠0 ∧ (slavelist i).topology=1 then
    { d with
      slavelist := Function.update slavelist hold
        { slavelist hold with consumedports := (parentport (slavelist hold).consumedports).2 }
      parenthold := 0 }
  else { d with slavelist := slavelist, parenthold := hold }

def DcState.slave (reg : Nat → Registers) (mastertime : UInt64) (d : DcState) (i : Nat) :
    DcState :=
  if (d.slavelist i).hasdc then d.withClock reg mastertime i else d.withoutClock i

/-- `ecx_configdc` begins with the list that `ecx_config_init` has left. -/
def DcState.start (slavelist : Nat → Slave) : DcState where
  slavelist := Function.update slavelist 0 { slavelist 0 with hasdc := false }
  dcNext := fun _ => 0
  dcPrevious := fun _ => 0
  grouphasdc := fun _ => false
  groupDcNext := fun _ => 0
  parenthold := 0
  prevDcSlave := 0
  written := []

def configdc (reg : Nat → Registers) (mastertime : UInt64) (slavecount : Nat)
    (slavelist : Nat → Slave) : DcState :=
  (List.range' 1 slavecount).foldl (DcState.slave reg mastertime) (DcState.start slavelist)

end EtherCATMaster.Clock
