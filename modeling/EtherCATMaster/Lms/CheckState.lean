import EtherCATMaster.Dll.Supervision

namespace EtherCATMaster.Lms

open EtherCATMaster.Framework EtherCATMaster.Dll

/-- One round of `fieldbus_check_state`. -/
def fieldbusCheckSlave (group : UInt8) (answers : SlaveAnswers) (slave : SupervisedSlave) :
    SupervisedSlave × List SlaveAction :=
  if slave.group≠group then (slave,[])
  else if slave.state≠ecStateOperational then
    if slave.state=ecStateSafeOp+ecStateError then requestState (ecStateSafeOp+ecStateAck) slave
    else if slave.state=ecStateSafeOp then requestState ecStateOperational slave
    else if slave.state>ecStateNone then
      let slave := { slave with state := answers.reconfigState }
      (if answers.reconfigured≠0 then { slave with islost := false } else slave,
        [.docheckstate,.reconfig])
    else if slave.islost=false then checkSilent answers slave
    else (slave,[.docheckstate])
  else if slave.islost=true then
    if slave.state≠ecStateNone then ({ slave with islost := false },[])
    -- the branch is under the state OPERATIONAL
    else (if answers.recovered≠0 then { slave with islost := false } else slave,[.recover])
  else (slave,[])

/-- `fieldbus_check_state` -/
def fieldbusCheckState (group : UInt8) (slavecount : ℕ) (s : Supervision)
    (answers : ℕ → SlaveAnswers) : Supervision × List (ℕ × SlaveAction) :=
  supervise (fieldbusCheckSlave group) slavecount s answers

/-- The first half of a round of `ecatcheck`, in the sample with the same task. -/
def ecatcheckState (group : UInt8) (answers : SlaveAnswers) (slave : SupervisedSlave) :
    SupervisedSlave × List SlaveAction :=
  if slave.group=group ∧ slave.state≠ecStateOperational then
    if slave.state=ecStateSafeOp+ecStateError then requestState (ecStateSafeOp+ecStateAck) slave
    else if slave.state=ecStateSafeOp then requestState ecStateOperational slave
    else if slave.state>ecStateNone then
      let slave := { slave with state := answers.reconfigState }
      (if answers.reconfigured≥2 then { slave with islost := false } else slave,
        [.docheckstate,.reconfig])
    else if slave.islost=false then checkSilent answers slave
    else (slave,[.docheckstate])
  else (slave,[])

/-- One round of `ecatcheck`. What it does about a lost slave is under no condition on the state
before. -/
def ecatcheckSlave (group : UInt8) (answers : SlaveAnswers) (slave : SupervisedSlave) :
    SupervisedSlave × List SlaveAction :=
  let (slave,actions) := ecatcheckState group answers slave
  if slave.islost=true then
    if slave.state ≤ ecStateInit then
      (if answers.recovered≠0 then { slave with islost := false } else slave,actions++[.recover])
    else ({ slave with islost := false },actions)
  else (slave,actions)

section Sample

variable (group : UInt8) (answers : SlaveAnswers) {slave : SupervisedSlave}

theorem ecatcheckState_lost (hlost : slave.islost=true) (h : slave.state=ecStateNone) :
    (ecatcheckState group answers slave).1=slave := by
  have hsilent : ¬ecStateNone=ecStateSafeOp+ecStateError ∧ ¬ecStateNone=ecStateSafeOp ∧
      ¬ecStateNone>ecStateNone := by decide
  have hmarked : ¬slave.islost=false := by simp [hlost]
  unfold ecatcheckState
  rw [h,if_neg hsilent.1,if_neg hsilent.2.1,if_neg hsilent.2.2,if_neg hmarked]
  split_ifs <;> rfl

theorem ecatcheckState_operational (h : slave.state=ecStateOperational) :
    (ecatcheckState group answers slave).1=slave := by
  rw [ecatcheckState,if_neg fun hin => hin.2 h]

theorem ecatcheckSlave_lost (hlost : slave.islost=true) (h : slave.state=ecStateNone) :
    .recover ∈ (ecatcheckSlave group answers slave).2 := by
  have hinit : ecStateNone ≤ ecStateInit := by decide
  unfold ecatcheckSlave
  simp only [ecatcheckState_lost group answers hlost h,if_pos hlost,h,if_pos hinit]
  exact List.mem_append_right _ List.mem_cons_self

theorem ecatcheckSlave_operational (h : slave.state=ecStateOperational) :
    (ecatcheckSlave group answers slave).1.islost=false := by
  have hinit : ¬ecStateOperational ≤ ecStateInit := by decide
  unfold ecatcheckSlave
  simp only [ecatcheckState_operational group answers h,h,if_neg hinit]
  split_ifs with hlost
  · rfl
  · exact Bool.eq_false_iff.mpr hlost

theorem ecatcheck_recovers (slavecount : ℕ) (s : Supervision)
    (passes : List (ℕ → SlaveAnswers)) :
    Along (fun s answers => (supervise (ecatcheckSlave group) slavecount s answers).1)
      (Recovers (supervise (ecatcheckSlave group) slavecount) slavecount) s passes := by
  refine along_of_invariant (C := fun _ _ => True) (I := fun _ => True) (fun _ _ _ _ => trivial) ?_
    trivial along_true
  intro s answers _ _
  apply (recovers_iff (ecatcheckSlave group) slavecount s answers).mpr
  intro i _ _
  exact ⟨fun hlost hread => ecatcheckSlave_lost group _ hlost hread,
    fun hread => ecatcheckSlave_operational group _ hread⟩

end Sample

section Visit

variable (group : UInt8) (answers : SlaveAnswers) {slave : SupervisedSlave}

theorem fieldbusCheckSlave_never_recovers :
    .recover ∉ (fieldbusCheckSlave group answers slave).2 := by
  unfold fieldbusCheckSlave
  by_cases hgroup : slave.group≠group
  · rw [if_pos hgroup]
    simp
  by_cases hop : slave.state=ecStateOperational
  · have hstate : slave.state≠ecStateNone := by
      rw [hop]
      decide
    rw [if_neg hgroup,if_neg (not_not.mpr hop),if_pos hstate]
    split_ifs <;> simp
  · rw [if_neg hgroup,if_pos hop]
    split_ifs <;> simp [requestState,checkSilent]

theorem fieldbusCheckSlave_operational (hmark : slave.group≠group → slave.islost=false)
    (h : slave.state=ecStateOperational) :
    (fieldbusCheckSlave group answers slave).1.islost=false := by
  have hstate : slave.state≠ecStateNone := by
    rw [h]
    decide
  unfold fieldbusCheckSlave
  by_cases hgroup : slave.group≠group
  · rw [if_pos hgroup]
    exact hmark hgroup
  · rw [if_neg hgroup,if_neg (not_not.mpr h),if_pos hstate]
    split_ifs with hlost
    · rfl
    · exact Bool.eq_false_iff.mpr hlost

def OwnMark (slave : SupervisedSlave) : Prop := slave.group≠group → slave.islost=false

theorem fieldbusCheckSlave_own (h : OwnMark group slave) :
    OwnMark group (fieldbusCheckSlave group answers slave).1 := by
  by_cases hgroup : slave.group≠group
  · rw [fieldbusCheckSlave,if_pos hgroup]
    exact h
  · have hsame : (fieldbusCheckSlave group answers slave).1.group=slave.group := by
      unfold fieldbusCheckSlave checkSilent requestState
      dsimp only
      split_ifs <;> rfl
    intro hother
    rw [hsame] at hother
    exact absurd hother hgroup

end Visit

variable (group : UInt8) (slavecount : ℕ)

theorem fieldbusCheckState_recovers_iff {s : Supervision} (h : ∀ i,OwnMark group (s.slavelist i))
    (answers : ℕ → SlaveAnswers) :
    Recovers (fieldbusCheckState group slavecount) slavecount s answers ↔
      NoneLostReads ecStateNone slavecount s answers := by
  apply (recovers_iff (fieldbusCheckSlave group) slavecount s answers).trans
  apply forall_congr'
  intro i
  apply forall₂_congr
  intro _ _
  constructor
  · intro h hlost hread
    exact fieldbusCheckSlave_never_recovers group _ (h.1 hlost hread)
  · intro hnone
    exact ⟨fun hlost hread => absurd hread (hnone hlost),
      fun hread => fieldbusCheckSlave_operational group _ (h i) hread⟩

theorem never_recovered (s : Supervision) (passes : List (ℕ → SlaveAnswers)) :
    ¬Occurs (fun s answers => (fieldbusCheckState group slavecount s answers).1)
      (fun s answers => ∃ i,(i,.recover) ∈ (fieldbusCheckState group slavecount s answers).2)
      s passes := by
  refine not_occurs_of_invariant (C := fun _ _ => True) (I := fun _ => True)
    (fun _ _ _ _ => trivial) ?_ trivial along_true
  intro s answers _ _ hrecover
  obtain ⟨i,hi⟩ := hrecover
  exact fieldbusCheckSlave_never_recovers group _ ((mem_supervise _).mp hi).2

/-- Over every run of passes after a scan: `recover_or_report_slaves` recovers and clears lost slaves
if and only if none of them ever reads OPERATIONAL, `fieldbus_check_state` if and only if none of
them ever stays silent. -/
theorem lost_slaves_iff (groups : ℕ → UInt8) (states : ℕ → UInt16) (docheckstate : Bool)
    (passes : List (ℕ → SlaveAnswers)) :
    (Along (fun s answers => (recoverOrReportSlaves slavecount s answers).1)
        (Recovers (recoverOrReportSlaves slavecount) slavecount)
        (scanned groups states docheckstate) passes ↔
      Along (fun s answers => (recoverOrReportSlaves slavecount s answers).1)
        (NoneLostReads ecStateOperational slavecount)
        (scanned groups states docheckstate) passes) ∧
    (Along (fun s answers => (fieldbusCheckState group slavecount s answers).1)
        (Recovers (fieldbusCheckState group slavecount) slavecount)
        (scanned groups states docheckstate) passes ↔
      Along (fun s answers => (fieldbusCheckState group slavecount s answers).1)
        (NoneLostReads ecStateNone slavecount)
        (scanned groups states docheckstate) passes) := by
  constructor
  · refine along_iff_of_invariant (C := fun _ _ => True) (I := fun _ => True)
      (fun _ _ _ _ => trivial) ?_ trivial along_true
    intro s answers _ _
    exact recoverOrReport_recovers_iff slavecount s answers
  · refine along_iff_of_invariant (C := fun _ _ => True)
      (I := fun s : Supervision => ∀ i,OwnMark group (s.slavelist i)) ?_ ?_ (fun _ _ => rfl)
      along_true
    · intro s answers h _ i
      exact supervise_keeps (fieldbusCheckSlave group) (fun _ _ hown => hown)
        (fun a _ hown => fieldbusCheckSlave_own group a hown) (h i)
    · intro s answers h _
      exact fieldbusCheckState_recovers_iff group slavecount h answers

/-- All slaves read this state and answer nothing else. -/
def allRead (state : UInt16) : ℕ → SlaveAnswers := fun _ => ⟨state,0,0,0,0⟩

/-- One slave that falls silent. When it is back in operation, the first pass leaves it marked; while
it stays silent, the second leaves it alone. -/
theorem lost_slave_left :
    ¬Along (fun s answers => (recoverOrReportSlaves 1 s answers).1)
      (Recovers (recoverOrReportSlaves 1) 1) (scanned (fun _ => 0) (fun _ => 8) false)
      [allRead ecStateNone,allRead ecStateOperational] ∧
    ¬Along (fun s answers => (fieldbusCheckState 0 1 s answers).1)
      (Recovers (fieldbusCheckState 0 1) 1) (scanned (fun _ => 0) (fun _ => 8) false)
      [allRead ecStateNone,allRead ecStateNone] := by
  constructor
  · intro h
    have hcleared := (h.2.1 1 (by decide) (by decide)).2 rfl
    revert hcleared
    decide
  · intro h
    have hcalled := (h.2.1 1 (by decide) (by decide)).1 (by decide) rfl
    revert hcalled
    decide

end EtherCATMaster.Lms
