import EtherCATMaster.Backend.Generation
import EtherCATMaster.Motion.Drive
import EtherCATMaster.Motion.ProfileSpec
import Mathlib

namespace EtherCATMaster.Backend

open EtherCATMaster.Motion EtherCATMaster.Framework
open scoped EtherCATMaster.Math

variable {R : Type}

/-- Requests whose sequence resets a fault. -/
def Request.resetsFault : Request → Bool
  | .faultReset | .enable | .move _ _ _ | .jog _ _ | .home _ => true
  | _ => false

def ResetCommand (command : BackendCommand R) : Prop :=
  (command.sequence=.enable ∧ command.motion.type≠.servoStop) ∨
  (command.sequence=.faultReset ∧ command.motion.type=.none)

variable [Field R]

theorem resetCommand_apply (r : Request) (command : BackendCommand R)
    (h : r.resetsFault=true) : ResetCommand (r.apply command) := by
  cases r with
  | faultReset => exact .inr ⟨rfl,rfl⟩
  | enable => exact .inl ⟨rfl,by simp [Request.apply,BackendCommand.start,cia402MotionInit]⟩
  | move netCommand lms relative =>
    exact .inl ⟨rfl,by simp [Request.apply,BackendCommand.start,moveMotion]⟩
  | jog netCommand lms => exact .inl ⟨rfl,by simp [Request.apply,BackendCommand.start,jogMotion]⟩
  | home netCommand => exact .inl ⟨rfl,by simp [Request.apply,BackendCommand.start,homeMotion]⟩
  | _ => cases h

def Faulted (state : Cia402State) : Prop := state=.fault ∨ state=.faultReactionActive

instance (state : Cia402State) : Decidable (Faulted state) := inferInstanceAs (Decidable (_ ∨ _))

/-- The thread has latched the end of the enable sequence of a motion, and overwrites the
controlword with that of the profile. -/
def MotionLatched (s : Sys R) : Prop :=
  s.rt.command.motion.type≠.none ∧ s.th.commandGenerationSeen=s.rt.command.generation ∧
    s.th.sequenceDone=true ∧ s.th.sequenceFailed=false

instance (s : Sys R) : Decidable (MotionLatched s) := inferInstanceAs (Decidable (_ ∧ _))

def Undisturbed (s : Sys R) : Event → Prop
  | .cycle inp => ¬SafetyStopFires s.rt inp.loopTimeNs
  | e => replacesCommand s e=false

instance (s : Sys R) : ∀ e,Decidable (Undisturbed s e)
  | .cycle _ => inferInstanceAs (Decidable (¬_))
  | .receive _ _ => inferInstanceAs (Decidable (_=_))
  | .dispatch => inferInstanceAs (Decidable (_=_))

def ReadsFault : Event → Prop
  | .cycle inp => inp.driveState=.fault
  | _ => False

instance : ∀ e,Decidable (ReadsFault e)
  | .cycle _ => inferInstanceAs (Decidable (_=_))
  | .receive _ _ => isFalse id
  | .dispatch => isFalse id

/-- The drive as the backend sees it since the request: the state read last, and whether a
rising edge of the reset bit has been emitted to it in FAULT. -/
structure FaultWatch where
  last : Option Cia402State
  edge : Bool
  deriving DecidableEq, Repr

def FaultWatch.start : FaultWatch := ⟨none,false⟩

/-- The edge can be seen in the first FAULT cycle: no word before it has set the reset bit, and
no profile overwrites the word. -/
def EdgeFree (p : Sys R × FaultWatch) : Prop :=
  ¬MotionLatched p.1 ∧
    (p.2.last=none → resetBit p.1.th.written.controlword=false) ∧
    p.2.last≠some .faultReactionActive

instance (p : Sys R × FaultWatch) : Decidable (EdgeFree p) := inferInstanceAs (Decidable (_ ∧ _))

def LeavesFaultOnEdge (w : FaultWatch) : Event → Prop
  | .cycle inp => w.last=some .fault → w.edge=false → inp.driveState=.fault
  | _ => True

instance (w : FaultWatch) : ∀ e,Decidable (LeavesFaultOnEdge w e)
  | .cycle _ => inferInstanceAs (Decidable (_ → _ → _))
  | .receive _ _ => isTrue trivial
  | .dispatch => isTrue trivial

theorem sequence_not_reached (s : Sys R) (inp : CycleInput)
    (hc : ResetCommand (commandInForce s inp)) (hd : Faulted inp.driveState) :
    (sequenceWord s inp).2=false := by
  unfold sequenceWord cia402SequenceControlword
  rcases hc with ⟨hs,_⟩|⟨hs,_⟩ <;> rcases hd with hd|hd <;> simp [hs,hd]

theorem sequenceWord_resetBit (s : Sys R) (inp : CycleInput)
    (hc : ResetCommand (commandInForce s inp)) :
    resetBit (sequenceWord s inp).1=decide (Faulted inp.driveState) := by
  unfold sequenceWord cia402SequenceControlword Faulted
  rcases hc with ⟨hs,_⟩|⟨hs,_⟩ <;> cases inp.driveState <;> simp [hs] <;>
    decide

theorem profileRuns_iff_latched (s : Sys R) (inp : CycleInput) (hc : ResetCommand s.rt.command)
    (hf : ¬SafetyStopFires s.rt inp.loopTimeNs) (hd : Faulted inp.driveState) :
    ProfileRuns s inp ↔ MotionLatched s := by
  have hcmd := (commandInForce_of_not_fires s inp hf).1
  have hdone : (sequenced s inp).sequenceDone=(observed s inp).sequenceDone := by
    rw [sequenced_done,sequence_not_reached s inp (by rw [hcmd]; exact hc) hd,Bool.or_false]
  have hfail := sequenced_failed s inp
  have hctl := observed_control s inp
  rw [hcmd] at hctl
  unfold ProfileRuns MotionLatched
  rw [hcmd]
  by_cases hg : s.th.commandGenerationSeen=s.rt.command.generation
  · rw [if_neg (by rw [hg]; simp)] at hctl
    have h1 : (observed s inp).sequenceDone=s.th.sequenceDone :=
      congrArg Control.sequenceDone hctl
    have h2 : (observed s inp).sequenceFailed=s.th.sequenceFailed :=
      congrArg Control.sequenceFailed hctl
    constructor
    · rintro ⟨hm,hsd,hsf⟩
      exact ⟨hm,hg,h1.symm.trans (hdone.symm.trans hsd),h2.symm.trans ((hfail.2 hsd).symm.trans hsf)⟩
    · rintro ⟨hm,_,hsd,hsf⟩
      have hsd' := hdone.trans (h1.trans hsd)
      exact ⟨hm,hsd',(hfail.2 hsd').trans (h2.trans hsf)⟩
  · -- A new command starts its latch anew, and both sides fail.
    rw [if_pos (Ne.symm hg)] at hctl
    have h1 : (observed s inp).sequenceDone=decide (s.rt.command.sequence=.none) :=
      congrArg Control.sequenceDone hctl
    have hn : s.rt.command.sequence≠.none := by
      rcases hc with ⟨hs,_⟩|⟨hs,_⟩ <;> rw [hs] <;> decide
    constructor
    · rintro ⟨_,hsd,_⟩
      rw [hdone,h1,decide_eq_false hn] at hsd
      cases hsd
    · exact fun h => absurd h.2.1 hg

variable [LinearOrder R] [FloorRing R] [HasSqrt R]

/-- A cycle in FAULT whose word sets the reset bit that its predecessor had clear. -/
def ResetEdge (s : Sys R) : Event → Prop
  | .cycle inp => inp.driveState=.fault ∧ resetBit (emitted s inp).controlword=true ∧
      resetBit s.th.written.controlword=false
  | _ => False

instance (s : Sys R) : ∀ e,Decidable (ResetEdge s e)
  | .cycle inp => inferInstanceAs (Decidable (_ ∧ resetBit (emitted s inp).controlword=true ∧ _))
  | .receive _ _ => isFalse id
  | .dispatch => isFalse id

def FaultWatch.observe (w : FaultWatch) (s : Sys R) : Event → FaultWatch
  | .cycle inp => ⟨some inp.driveState,w.edge || decide (ResetEdge s (.cycle inp))⟩
  | _ => w

def faultStep (p : Sys R × FaultWatch) (e : Event) : Sys R × FaultWatch :=
  watched step FaultWatch.observe p e

/-- The conditions on the steps after the request. -/
def ResetRuns (p : Sys R × FaultWatch) (e : Event) : Prop :=
  Undisturbed p.1 e ∧ LeavesFaultOnEdge p.2 e

instance (p : Sys R × FaultWatch) (e : Event) : Decidable (ResetRuns p e) :=
  inferInstanceAs (Decidable (_ ∧ _))

theorem motionLatched_step (s : Sys R) (inp : CycleInput) :
    MotionLatched (step s (.cycle inp)) ↔ ProfileRuns s inp := by
  obtain ⟨hd,hf,hg,_⟩ := step_cycle_latch s inp
  unfold MotionLatched ProfileRuns
  rw [hd,hf,hg,observed_generation,(step_cycle_runtime s inp).1]
  simp

theorem emitted_resetBit (s : Sys R) (inp : CycleInput) (hc : ResetCommand s.rt.command)
    (hf : ¬SafetyStopFires s.rt inp.loopTimeNs) :
    resetBit (emitted s inp).controlword=
      decide (Faulted inp.driveState ∧ ¬MotionLatched s) := by
  have hcmd := (commandInForce_of_not_fires s inp hf).1
  have hc' : ResetCommand (commandInForce s inp) := by rw [hcmd]; exact hc
  have hword := sequenceWord_resetBit s inp hc'
  by_cases hr : ProfileRuns s inp
  · have hz : resetBit (emitted s inp).controlword=false := by
      rw [(cycle_runs s inp hr).1]
      unfold profileStepped
      rw [cia402ProfileStep_controlword]
      cases hm : (commandInForce s inp).motion.type with
      | none => exact absurd hm hr.1
      | servoStop =>
        rcases hc' with ⟨_,h⟩|⟨_,h⟩
        · exact absurd hm h
        · exact absurd h hr.1
      | jogVelocity => show resetBit 0x000f=false; decide
      | profilePosition => show resetBit 0x000f=false; decide
      | home => show resetBit 0x001f=false; decide
    rw [hz,eq_comm,decide_eq_false_iff_not]
    intro ⟨hd,hl⟩
    exact hl ((profileRuns_iff_latched s inp hc hf hd).mp hr)
  · have hbase : emitted s inp=baseOutput s inp := by
      by_cases hm : (commandInForce s inp).motion.type=.none
      · exact (cycle_idle s inp hm).1
      · exact (cycle_waiting s inp hm hr).1
    rw [hbase]
    change resetBit (sequenceWord s inp).1=_
    rw [hword,decide_eq_decide]
    constructor
    · exact fun hd => ⟨hd,fun hl => hr ((profileRuns_iff_latched s inp hc hf hd).mpr hl)⟩
    · exact fun h => h.1

/-- Before the first FAULT cycle: the last word has the reset bit set exactly in a fault
reaction. -/
structure BeforeFault (p : Sys R × FaultWatch) : Prop where
  command : ResetCommand p.1.rt.command
  edge : p.2.edge=false
  word : ∀ state,p.2.last=some state →
    (resetBit p.1.th.written.controlword=true ↔ state=.faultReactionActive ∧ ¬MotionLatched p.1)

/-- After a first FAULT cycle without edge: the bit is set already, or a profile hides it. -/
structure EdgeMissed (p : Sys R × FaultWatch) : Prop where
  command : ResetCommand p.1.rt.command
  last : p.2.last=some .fault
  edge : p.2.edge=false
  hidden : MotionLatched p.1 ∨ resetBit p.1.th.written.controlword=true

theorem undisturbed_client (s : Sys R) (e : Event) (he : ∀ inp,e≠.cycle inp)
    (hu : replacesCommand s e=false) :
    (step s e).th=s.th ∧ (MotionLatched (step s e) ↔ MotionLatched s) ∧
      (ResetCommand s.rt.command → ResetCommand (step s e).rt.command) := by
  have hth := (step_client s e he).1
  have hcmd := step_client_kept s e he hu
  refine ⟨hth,?_,?_⟩
  · unfold MotionLatched
    rw [hth,hcmd]
  · rw [hcmd]
    exact id

theorem resetCommand_cycle (s : Sys R) (inp : CycleInput) (hc : ResetCommand s.rt.command)
    (hf : ¬SafetyStopFires s.rt inp.loopTimeNs) :
    ResetCommand (step s (.cycle inp)).rt.command := by
  rw [(step_cycle_runtime s inp).1,(commandInForce_of_not_fires s inp hf).1]
  exact hc

theorem resetEdge_iff (s : Sys R) (inp : CycleInput) (hc : ResetCommand s.rt.command)
    (hf : ¬SafetyStopFires s.rt inp.loopTimeNs) (hd : inp.driveState=.fault) :
    ResetEdge s (.cycle inp) ↔
      ¬MotionLatched s ∧ resetBit s.th.written.controlword=false := by
  change (_ ∧ resetBit (emitted s inp).controlword=true ∧ _) ↔ _
  rw [emitted_resetBit s inp hc hf,decide_eq_true_eq]
  constructor
  · exact fun h => ⟨h.2.1.2,h.2.2⟩
  · exact fun h => ⟨hd,⟨Or.inl hd,h.1⟩,h.2⟩

theorem beforeFault_step (p : Sys R × FaultWatch) (e : Event) (hi : BeforeFault p)
    (hc : ResetRuns p e) (hn : ¬ReadsFault e) :
    BeforeFault (faultStep p e) ∧ ¬ResetEdge p.1 e := by
  obtain ⟨s,w⟩ := p
  have client : (∀ inp,e≠.cycle inp) → replacesCommand s e=false → w.observe s e=w →
      BeforeFault (faultStep (s,w) e) := by
    intro he hu hw
    obtain ⟨hth,hl,hcmd⟩ := undisturbed_client s e he hu
    change BeforeFault (step s e,w.observe s e)
    rw [hw]
    refine ⟨hcmd hi.command,hi.edge,fun state hs => ?_⟩
    change resetBit (step s e).th.written.controlword=true ↔ state=_ ∧ ¬MotionLatched (step s e)
    rw [hth,hl]
    exact hi.word state hs
  cases e with
  | receive now message => exact ⟨client (fun _ h => by cases h) hc.1 rfl,id⟩
  | dispatch => exact ⟨client (fun _ h => by cases h) hc.1 rfl,id⟩
  | cycle inp =>
    have hedge : ¬ResetEdge s (.cycle inp) := fun h => hn h.1
    refine ⟨⟨resetCommand_cycle s inp hi.command hc.1,?_,?_⟩,hedge⟩
    · change (w.edge || decide (ResetEdge s (.cycle inp)))=false
      rw [show w.edge=false from hi.edge,decide_eq_false hedge]
      rfl
    · intro state hs
      have hstate : inp.driveState=state := Option.some.inj hs
      subst hstate
      change resetBit (emitted s inp).controlword=true ↔
        inp.driveState=_ ∧ ¬MotionLatched (step s (.cycle inp))
      rw [emitted_resetBit s inp hi.command hc.1,decide_eq_true_eq,motionLatched_step]
      constructor
      · rintro ⟨hd,hl⟩
        have hr := profileRuns_iff_latched s inp hi.command hc.1 hd
        rcases hd with hd|hd
        · exact absurd hd hn
        · exact ⟨hd,fun h => hl (hr.mp h)⟩
      · rintro ⟨hd,hl⟩
        have hr := profileRuns_iff_latched s inp hi.command hc.1 (Or.inr hd)
        exact ⟨Or.inr hd,fun h => hl (hr.mpr h)⟩

theorem resetEdge_first (p : Sys R × FaultWatch) (e : Event) (hi : BeforeFault p)
    (hc : ResetRuns p e) (hq : ReadsFault e) : ResetEdge p.1 e ↔ EdgeFree p := by
  obtain ⟨s,w⟩ := p
  cases e with
  | receive now message => exact absurd hq id
  | dispatch => exact absurd hq id
  | cycle inp =>
    rw [resetEdge_iff s inp hi.command hc.1 hq]
    unfold EdgeFree
    refine and_congr_right fun hl => ?_
    cases hw : w.last with
    | none => simp
    | some state =>
      have hword := hi.word state hw
      constructor
      · intro hz
        refine ⟨fun h => (by cases h),fun h => ?_⟩
        have hbit := hword.mpr ⟨Option.some.inj h,hl⟩
        exact Bool.false_ne_true (hz.symm.trans hbit)
      · intro h
        rw [Bool.eq_false_iff]
        intro hbit
        exact h.2 (congrArg some (hword.mp hbit).1)

theorem edgeMissed_cycle (s : Sys R) (w : FaultWatch) (inp : CycleInput)
    (hc : ResetCommand s.rt.command) (hf : ¬SafetyStopFires s.rt inp.loopTimeNs)
    (hq : inp.driveState=.fault) (hw : w.edge=false) (hno : ¬ResetEdge s (.cycle inp)) :
    EdgeMissed (faultStep (s,w) (.cycle inp)) := by
  refine ⟨resetCommand_cycle s inp hc hf,congrArg some hq,?_,?_⟩
  · change (w.edge || decide (ResetEdge s (.cycle inp)))=false
    rw [hw,decide_eq_false hno]
    rfl
  · change MotionLatched (step s (.cycle inp)) ∨ resetBit (emitted s inp).controlword=true
    rw [motionLatched_step,profileRuns_iff_latched s inp hc hf (Or.inl hq),
      emitted_resetBit s inp hc hf,decide_eq_true_eq]
    by_cases hl : MotionLatched s
    · exact .inl hl
    · exact .inr ⟨Or.inl hq,hl⟩

theorem edgeMissed_step (p : Sys R × FaultWatch) (e : Event) (hi : EdgeMissed p)
    (hc : ResetRuns p e) : EdgeMissed (faultStep p e) ∧ ¬ResetEdge p.1 e := by
  obtain ⟨s,w⟩ := p
  have client : (∀ inp,e≠.cycle inp) → replacesCommand s e=false → w.observe s e=w →
      EdgeMissed (faultStep (s,w) e) := by
    intro he hu hw
    obtain ⟨hth,hl,hcmd⟩ := undisturbed_client s e he hu
    change EdgeMissed (step s e,w.observe s e)
    rw [hw]
    refine ⟨hcmd hi.command,hi.last,hi.edge,?_⟩
    change MotionLatched (step s e) ∨ resetBit (step s e).th.written.controlword=true
    rw [hth,hl]
    exact hi.hidden
  cases e with
  | receive now message => exact ⟨client (fun _ h => by cases h) hc.1 rfl,id⟩
  | dispatch => exact ⟨client (fun _ h => by cases h) hc.1 rfl,id⟩
  | cycle inp =>
    have hd : inp.driveState=.fault := hc.2 hi.last hi.edge
    have hedge : ¬ResetEdge s (.cycle inp) := by
      rw [resetEdge_iff s inp hi.command hc.1 hd]
      rintro ⟨hl,hz⟩
      rcases hi.hidden with h|h
      · exact hl h
      · exact Bool.false_ne_true (hz.symm.trans h)
    exact ⟨edgeMissed_cycle s w inp hi.command hc.1 hd hi.edge hedge,hedge⟩

/-- The state right after the request of the pending dispatch is accepted. -/
def acceptedBy (s : Sys R) : Sys R × FaultWatch := (step s .dispatch,FaultWatch.start)

theorem beforeFault_accepted (s : Sys R) (r : Request) (hr : requestOf s .dispatch=some r)
    (h : r.resetsFault=true) : BeforeFault (acceptedBy s) := by
  have hcmd := (step_client s .dispatch (fun _ hn => by cases hn)).2
  rw [hr] at hcmd
  refine ⟨?_,rfl,fun state hs => by cases hs⟩
  change ResetCommand (step s .dispatch).rt.command
  rw [hcmd]
  exact resetCommand_apply r s.rt.command h

/-- From any state, whatever words were emitted before: after a request that resets a fault,
the edge is emitted in FAULT exactly if the first FAULT cycle can show it. -/
theorem reset_edge_iff_edge_free (s : Sys R) (r : Request) (es : List Event)
    (hr : requestOf s .dispatch=some r) (h : r.resetsFault=true)
    (hc : Along faultStep ResetRuns (acceptedBy s) es) :
    Occurs faultStep (fun p e => ResetEdge p.1 e) (acceptedBy s) es ↔
      AtFirst faultStep (fun _ e => ReadsFault e) (fun p _ => EdgeFree p) (acceptedBy s) es := by
  refine occurs_iff_atFirst beforeFault_step resetEdge_first ?_ (beforeFault_accepted s r hr h) hc
  intro p e rest hi hcond hq hr hrest
  have hno : ¬ResetEdge p.1 e := fun hedge => hr ((resetEdge_first p e hi hcond hq).mp hedge)
  have hmissed : EdgeMissed (faultStep p e) := by
    cases e with
    | receive now message => exact absurd hq id
    | dispatch => exact absurd hq id
    | cycle inp => exact edgeMissed_cycle p.1 p.2 inp hi.command hcond.1 hq hi.edge hno
  exact not_occurs_of_invariant (fun q e hq hcond => (edgeMissed_step q e hq hcond).1)
    (fun q e hq hcond => (edgeMissed_step q e hq hcond).2) hmissed hrest

/-- A backend that has received a fault reset. -/
def resetReceived : Sys ℚ :=
  runFrom step (sysInit optionsInit (clockAt 1000000))
    [.receive (clockAt 2000000) (.command { command := 12 })]

def faultReactionRun : List Event :=
  [.cycle { loopTimeNs := 3000000, statusword := 0x000f, actualPosition := 5 },
    .cycle { loopTimeNs := 4000000, statusword := 0x0008, actualPosition := 5 },
    .cycle { loopTimeNs := 5000000, statusword := 0x0008, actualPosition := 5 }]

/-- The bit rises in the reaction already and stays set in FAULT, where no edge is seen. -/
theorem fault_reaction_hides_reset :
    ¬∀ (options : BackendOptions) (start : ClockNs) (pre es : List Event) (r : Request),
      requestOf (runFrom step (sysInit options start : Sys ℚ) pre) .dispatch=some r →
      r.resetsFault=true →
      Along faultStep ResetRuns (acceptedBy (runFrom step (sysInit options start : Sys ℚ) pre)) es →
      Occurs faultStep (fun _ e => ReadsFault e)
        (acceptedBy (runFrom step (sysInit options start : Sys ℚ) pre)) es →
      Occurs faultStep (fun p e => ResetEdge p.1 e)
        (acceptedBy (runFrom step (sysInit options start : Sys ℚ) pre)) es := by
  intro h
  have hrun := h optionsInit ⟨1000000,by decide⟩
    [.receive (clockAt 2000000) (.command { command := 12 })] faultReactionRun
    .faultReset (by decide +kernel) (by decide) (by decide +kernel) (by decide +kernel)
  exact absurd hrun (by decide +kernel)

/-- The drive has reached FAULT before the reset is accepted. -/
def faultReachedRun : List Event :=
  [.cycle { loopTimeNs := 3000000, statusword := 0x0008, actualPosition := 5 },
    .cycle { loopTimeNs := 4000000, statusword := 0x0040, actualPosition := 5 }]

theorem fault_reached_sees_edge :
    requestOf resetReceived .dispatch=some .faultReset ∧
    Along faultStep ResetRuns (acceptedBy resetReceived) faultReachedRun ∧
    Occurs faultStep (fun p e => ResetEdge p.1 e) (acceptedBy resetReceived) faultReachedRun := by
  have hr : requestOf resetReceived .dispatch=some .faultReset := by decide +kernel
  have hc : Along faultStep ResetRuns (acceptedBy resetReceived) faultReachedRun := by
    decide +kernel
  refine ⟨hr,hc,?_⟩
  rw [reset_edge_iff_edge_free resetReceived .faultReset faultReachedRun hr (by decide) hc]
  decide +kernel

end EtherCATMaster.Backend
