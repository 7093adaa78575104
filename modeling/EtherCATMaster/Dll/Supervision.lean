import EtherCATMaster.Framework.Run
import EtherCATMaster.Framework.Slots

namespace EtherCATMaster.Dll

open EtherCATMaster.Framework

def ecStateNone : UInt16 := 0x00
def ecStateInit : UInt16 := 0x01
def ecStateSafeOp : UInt16 := 0x04
def ecStateOperational : UInt16 := 0x08
def ecStateAck : UInt16 := 0x10
def ecStateError : UInt16 := 0x10

/-- The part of `ec_slavet` that supervision works on. -/
structure SupervisedSlave where
  group : UInt8
  state : UInt16
  islost : Bool
  deriving DecidableEq, Repr

/-- What is read of a slave in a pass, and how the calls that work on it end. -/
structure SlaveAnswers where
  /-- The state that `ecx_readstate` reads. -/
  read : UInt16
  /-- The state that `ecx_statecheck` reads, if it is called. -/
  checked : UInt16
  reconfigured : Int
  /-- The state that `ecx_reconfig_slave` leaves. -/
  reconfigState : UInt16
  recovered : Int

/-- What a pass does about a slave. -/
inductive SlaveAction where
  | docheckstate
  | writestate (state : UInt16)
  | reconfig
  | statecheck
  | recover
  deriving DecidableEq, Repr

/-- `slavelist`, and the flag of the group. -/
structure Supervision where
  slavelist : ℕ → SupervisedSlave
  docheckstate : Bool

/-- A list as it is after the scan: no slave is marked lost. -/
def scanned (groups : ℕ → UInt8) (states : ℕ → UInt16) (docheckstate : Bool) : Supervision :=
  ⟨fun i => ⟨groups i,states i,false⟩,docheckstate⟩

/-- `ecx_readstate`, as far as the slaves go. No pass looks at the entry for all of them. -/
def readStates (slavecount : ℕ) (answers : ℕ → SlaveAnswers) (slavelist : ℕ → SupervisedSlave) :
    ℕ → SupervisedSlave := fun i =>
  if 1 ≤ i ∧ i ≤ slavecount then { slavelist i with state := (answers i).read } else slavelist i

def supervise (visit : SlaveAnswers → SupervisedSlave → SupervisedSlave × List SlaveAction)
    (slavecount : ℕ) (s : Supervision) (answers : ℕ → SlaveAnswers) :
    Supervision × List (ℕ × SlaveAction) :=
  let r := visitSlots (fun i => visit (answers i)) slavecount
    (readStates slavecount answers s.slavelist)
  (⟨r.1,r.2.any fun a => a.2=.docheckstate⟩,r.2)

/-- A slave that does not answer: what both programs do about one that is not marked yet. -/
def checkSilent (answers : SlaveAnswers) (slave : SupervisedSlave) :
    SupervisedSlave × List SlaveAction :=
  let slave := { slave with state := answers.checked }
  (if slave.state=ecStateNone then { slave with islost := true } else slave,
    [.docheckstate,.statecheck])

def requestState (state : UInt16) (slave : SupervisedSlave) :
    SupervisedSlave × List SlaveAction :=
  ({ slave with state := state },[.docheckstate,.writestate state])

/-- One round of `recover_or_report_slaves`. -/
def recoverOrReportSlave (answers : SlaveAnswers) (slave : SupervisedSlave) :
    SupervisedSlave × List SlaveAction :=
  if slave.state=ecStateOperational then (slave,[])
  else if slave.state=ecStateSafeOp+ecStateError then requestState (ecStateSafeOp+ecStateAck) slave
  else if slave.state=ecStateSafeOp then requestState ecStateOperational slave
  else if slave.state>ecStateNone then
    -- the result is not looked at
    ({ slave with state := answers.reconfigState },[.docheckstate,.reconfig])
  else if slave.islost=false then checkSilent answers slave
  else (slave,[.docheckstate,.recover])

/-- `recover_or_report_slaves` -/
def recoverOrReportSlaves (slavecount : ℕ) (s : Supervision) (answers : ℕ → SlaveAnswers) :
    Supervision × List (ℕ × SlaveAction) := supervise recoverOrReportSlave slavecount s answers

/-- What supervision is for, over one pass: a lost slave that is still silent is worked on, and one
that is back in operation is not marked lost any more. -/
def Recovers (pass : Supervision → (ℕ → SlaveAnswers) → Supervision × List (ℕ × SlaveAction))
    (slavecount : ℕ) (s : Supervision) (answers : ℕ → SlaveAnswers) : Prop :=
  ∀ i,1 ≤ i → i ≤ slavecount →
    ((s.slavelist i).islost=true → (answers i).read=ecStateNone →
      (i,.recover) ∈ (pass s answers).2) ∧
    ((answers i).read=ecStateOperational → ((pass s answers).1.slavelist i).islost=false)

/-- No slave that is marked lost reads this state. -/
def NoneLostReads (state : UInt16) (slavecount : ℕ) (s : Supervision)
    (answers : ℕ → SlaveAnswers) : Prop :=
  ∀ i,1 ≤ i → i ≤ slavecount → (s.slavelist i).islost=true → (answers i).read≠state

section Visit

variable (visit : SlaveAnswers → SupervisedSlave → SupervisedSlave × List SlaveAction)
  {slavecount : ℕ} {s : Supervision} {answers : ℕ → SlaveAnswers} {i : ℕ}

theorem supervise_slot (hpos : 1 ≤ i) (hle : i ≤ slavecount) :
    (supervise visit slavecount s answers).1.slavelist i=
      (visit (answers i) { s.slavelist i with state := (answers i).read }).1 := by
  have hread : readStates slavecount answers s.slavelist i=
      { s.slavelist i with state := (answers i).read } := if_pos ⟨hpos,hle⟩
  rw [← hread]
  exact visitSlots_slot _ _ hpos hle

theorem mem_supervise {action : SlaveAction} : (i,action) ∈ (supervise visit slavecount s answers).2 ↔
    (1 ≤ i ∧ i ≤ slavecount) ∧
      action ∈ (visit (answers i) { s.slavelist i with state := (answers i).read }).2 := by
  apply (mem_visitSlots _ _).trans
  apply and_congr_right
  intro hin
  rw [readStates,if_pos hin]

theorem supervise_keeps {P : SupervisedSlave → Prop} (hstate : ∀ slave state,P slave →
      P { slave with state := state })
    (hvisit : ∀ a slave,P slave → P (visit a slave).1) (h : P (s.slavelist i)) :
    P ((supervise visit slavecount s answers).1.slavelist i) := by
  by_cases hin : 1 ≤ i ∧ i ≤ slavecount
  · rw [supervise_slot visit hin.1 hin.2]
    exact hvisit _ _ (hstate _ _ h)
  · have hkept : (supervise visit slavecount s answers).1.slavelist i=s.slavelist i := by
      apply (visitSlots_outside _ _ hin).trans
      rw [readStates,if_neg hin]
    rw [hkept]
    exact h

theorem recovers_iff (slavecount : ℕ) (s : Supervision) (answers : ℕ → SlaveAnswers) :
    Recovers (supervise visit slavecount) slavecount s answers ↔ ∀ i,1 ≤ i → i ≤ slavecount →
      ((s.slavelist i).islost=true → (answers i).read=ecStateNone → .recover ∈
        (visit (answers i) { s.slavelist i with state := (answers i).read }).2) ∧
      ((answers i).read=ecStateOperational →
        (visit (answers i) { s.slavelist i with state := (answers i).read }).1.islost=false) := by
  apply forall_congr'
  intro i
  apply forall₂_congr
  intro hpos hle
  have hin : 1 ≤ i ∧ i ≤ slavecount := ⟨hpos,hle⟩
  rw [supervise_slot visit hpos hle,mem_supervise,and_iff_right hin]

end Visit

theorem recoverOrReportSlave_operational (answers : SlaveAnswers) (slave : SupervisedSlave)
    (h : slave.state=ecStateOperational) :
    (recoverOrReportSlave answers slave).1.islost=slave.islost := by
  rw [recoverOrReportSlave,if_pos h]

theorem recoverOrReportSlave_lost (answers : SlaveAnswers) (slave : SupervisedSlave)
    (hlost : slave.islost=true) (h : slave.state=ecStateNone) :
    .recover ∈ (recoverOrReportSlave answers slave).2 := by
  have hrecover : recoverOrReportSlave answers slave=(slave,[.docheckstate,.recover]) := by
    rw [recoverOrReportSlave,h,hlost]
    rfl
  rw [hrecover]
  exact List.mem_cons_of_mem _ List.mem_cons_self

theorem recoverOrReport_recovers_iff (slavecount : ℕ) (s : Supervision)
    (answers : ℕ → SlaveAnswers) :
    Recovers (recoverOrReportSlaves slavecount) slavecount s answers ↔
      NoneLostReads ecStateOperational slavecount s answers := by
  apply (recovers_iff recoverOrReportSlave slavecount s answers).trans
  apply forall_congr'
  intro i
  apply forall₂_congr
  intro _ _
  constructor
  · intro h hlost hread
    have hcleared := h.2 hread
    rw [recoverOrReportSlave_operational _ _ hread] at hcleared
    change (s.slavelist i).islost=false at hcleared
    rw [hlost] at hcleared
    cases hcleared
  · intro h
    refine ⟨fun hlost hread => recoverOrReportSlave_lost _ _ hlost hread,fun hread => ?_⟩
    rw [recoverOrReportSlave_operational _ _ hread]
    exact Bool.eq_false_iff.mpr fun hlost => h hlost hread

end EtherCATMaster.Dll
