import EtherCATMaster.Backend.Generation
import EtherCATMaster.Framework.TwoRun

namespace EtherCATMaster.Backend

open EtherCATMaster.Motion EtherCATMaster.Framework
open scoped EtherCATMaster.Math

variable {R : Type}

def RtThread.elapsed (th : RtThread R) : Int32 := th.cycle-th.sequenceStartCycle

def RtThread.Pending (th : RtThread R) : Prop := th.sequenceDone=false ∧ th.sequenceFailed=false

instance (th : RtThread R) : Decidable th.Pending := inferInstanceAs (Decidable (_ ∧ _))

/-- Two threads that differ in counters and statistics only, and agree on the time that a
pending sequence has left. -/
structure SameControl (th th' : RtThread R) : Prop where
  control : th.control=th'.control
  elapsed : th.Pending → th.elapsed=th'.elapsed

theorem SameControl.done {th th' : RtThread R} (h : SameControl th th') :
    th.sequenceDone=th'.sequenceDone := congrArg Control.sequenceDone h.control

theorem SameControl.failed {th th' : RtThread R} (h : SameControl th th') :
    th.sequenceFailed=th'.sequenceFailed := congrArg Control.sequenceFailed h.control

theorem SameControl.profile {th th' : RtThread R} (h : SameControl th th') :
    th.profile=th'.profile := congrArg Control.profile h.control

theorem timeLoop_elapsed (th : RtThread R) (options : BackendOptions) (inp : CycleInput) :
    (timeLoop th options inp).elapsed=th.elapsed := by
  simp only [timeLoop]
  split_ifs <;> rfl

theorem countErrors_elapsed (th : RtThread R) (inp : CycleInput) :
    (countErrors th inp).elapsed=th.elapsed := by
  simp only [countErrors]
  split_ifs <;> rfl

theorem holdIdle_elapsed (th : RtThread R) (command : BackendCommand R) (safety : Bool)
    (state : Cia402State) (actual : Int32) :
    (holdIdle th command safety state actual).1.elapsed=th.elapsed := by
  simp only [holdIdle]
  split_ifs <;> rfl

theorem advanceSequence_elapsed (th : RtThread R) (options : BackendOptions) (reached : Bool) :
    (advanceSequence th options reached).elapsed=th.elapsed := by
  simp only [advanceSequence]
  split_ifs <;> rfl

theorem holdIdle_congr {th th' : RtThread R} (h : SameControl th th')
    (command : BackendCommand R) (g : UInt32) (safety : Bool) (state : Cia402State)
    (actual : Int32) :
    SameControl (holdIdle th command safety state actual).1
      (holdIdle th' { command with resetGeneration := g } safety state actual).1 ∧
    (holdIdle th command safety state actual).2=
      (holdIdle th' { command with resetGeneration := g } safety state actual).2 := by
  have hd := h.done
  have hv : th.idleHoldValid=th'.idleHoldValid := congrArg Control.idleHoldValid h.control
  have hx : th.idleHoldPosition=th'.idleHoldPosition :=
    congrArg Control.idleHoldPosition h.control
  have hf := h.failed
  have hpr := h.profile
  have hgen : th.commandGenerationSeen=th'.commandGenerationSeen :=
    congrArg Control.generationSeen h.control
  have hm := holdIdle_motion th command safety state actual
  have ht : trackActual { command with resetGeneration := g } safety state th'.sequenceDone=
      trackActual command safety state th.sequenceDone := by
    rw [hd]
    rfl
  refine ⟨⟨?_,fun hp => ?_⟩,?_⟩
  · simp only [holdIdle,ht,hv]
    split_ifs <;> simp only [RtThread.control,hgen,hd,hf,hpr,hv,hx]
  · rw [holdIdle_elapsed,holdIdle_elapsed]
    exact h.elapsed ⟨hm.1.symm.trans hp.1,hm.2.1.symm.trans hp.2⟩
  · simp only [holdIdle,ht,hv,hx]
    split_ifs <;> rfl

theorem advanceSequence_congr {th th' : RtThread R} (h : SameControl th th')
    (options : BackendOptions) (reached : Bool) :
    SameControl (advanceSequence th options reached) (advanceSequence th' options reached) := by
  have ha := advanceSequence_frame th options reached
  have ha' := advanceSequence_frame th' options reached
  have hfail : (advanceSequence th options reached).sequenceFailed=
      (advanceSequence th' options reached).sequenceFailed := by
    by_cases hp : th.Pending ∧ reached=false
    · have he := h.elapsed hp.1
      have hp' : th'.Pending := ⟨h.done.symm.trans hp.1.1,h.failed.symm.trans hp.1.2⟩
      simp only [RtThread.elapsed] at he
      simp only [advanceSequence,hp.1.1,hp'.1,hp.2,hp.1.2,hp'.2,he,Bool.not_false,Bool.and_false,
        Bool.true_and,if_false,Bool.false_eq_true]
      split_ifs <;> first | rfl | exact hp.1.2.trans hp'.2.symm
    · by_cases hf : th.sequenceFailed=true
      · rw [(advanceSequence_failed th options reached).1 hf,
          (advanceSequence_failed th' options reached).1 (h.failed.symm.trans hf)]
      · have hd : (th.sequenceDone || reached)=true := by
          cases hdone : th.sequenceDone with
          | true => rfl
          | false =>
            cases hrd : reached with
            | true => rfl
            | false => exact absurd ⟨⟨hdone,by simpa using hf⟩,hrd⟩ hp
        rw [(advanceSequence_failed th options reached).2 hd,
          (advanceSequence_failed th' options reached).2 (h.done ▸ hd)]
        exact h.failed
  refine ⟨?_,fun hp => ?_⟩
  · simp only [RtThread.control,ha.1,ha'.1,ha.2.1,ha'.2.1,ha.2.2.1,ha'.2.2.1,ha.2.2.2,ha'.2.2.2,
      advanceSequence_done,hfail,h.done,h.profile]
    rw [show th.commandGenerationSeen=th'.commandGenerationSeen from
        congrArg Control.generationSeen h.control,
      show th.idleHoldValid=th'.idleHoldValid from congrArg Control.idleHoldValid h.control,
      show th.idleHoldPosition=th'.idleHoldPosition from
        congrArg Control.idleHoldPosition h.control]
  · rw [advanceSequence_elapsed,advanceSequence_elapsed]
    have hd := hp.1
    rw [advanceSequence_done] at hd
    have hdone : th.sequenceDone=false := (Bool.or_eq_false_iff.mp hd).1
    refine h.elapsed ⟨hdone,?_⟩
    by_contra hf
    have := (advanceSequence_failed th options reached).1 (by simpa using hf)
    rw [hp.2] at this
    cases this

variable [Field R]

/-- A reset restarts the counter but not the start of the sequence: what a pending sequence
has waited is forgotten. -/
def ResetWhilePending (s : Sys R) (inp : CycleInput) : Prop :=
  (commandInForce s inp).resetGeneration≠s.th.resetGenerationSeen ∧
    (commandInForce s inp).generation=s.th.commandGenerationSeen ∧ s.th.Pending ∧ s.th.cycle≠0

instance (s : Sys R) (inp : CycleInput) : Decidable (ResetWhilePending s inp) :=
  inferInstanceAs (Decidable (_ ∧ _))

/-- The sequence clock of a cycle: a new command starts it, and otherwise only a reset in a
pending sequence disturbs it. -/
theorem observed_elapsed (s : Sys R) (inp : CycleInput) (hr : ¬ResetWhilePending s inp)
    (hp : (observed s inp).Pending) :
    (observed s inp).elapsed=
      if (commandInForce s inp).generation≠s.th.commandGenerationSeen then 0
      else s.th.elapsed := by
  have hc := observed_control s inp
  have hseen : (observeReset (timeLoop s.th s.rt.options inp)
      (commandInForce s inp)).commandGenerationSeen=s.th.commandGenerationSeen :=
    congrArg Control.generationSeen ((observeReset_control _ _).trans (timeLoop_control _ _ _))
  rw [observed,countErrors_elapsed,observeGeneration,hseen]
  split_ifs with hg
  · exact Int32.sub_self _
  rw [if_neg hg] at hc
  have hpend : s.th.Pending :=
    ⟨(congrArg Control.sequenceDone hc).symm.trans hp.1,
      (congrArg Control.sequenceFailed hc).symm.trans hp.2⟩
  have hreset : (timeLoop s.th s.rt.options inp).resetGenerationSeen=s.th.resetGenerationSeen ∧
      (timeLoop s.th s.rt.options inp).cycle=s.th.cycle := by
    simp only [timeLoop]
    split_ifs <;> exact ⟨rfl,rfl⟩
  rw [observeReset,hreset.1]
  split_ifs with hn
  · -- The counter restarts, so by assumption it was zero already.
    have hz : s.th.cycle=0 := by
      by_contra hz
      exact hr ⟨hn,not_not.mp hg,hpend,hz⟩
    rw [← timeLoop_elapsed s.th s.rt.options inp]
    simp only [RtThread.elapsed]
    rw [hreset.2,hz]
  · exact timeLoop_elapsed s.th s.rt.options inp

theorem Request.apply_resets (r : Request) (command : BackendCommand R) (g : UInt32) :
    r.apply { command with resetGeneration := g }={ r.apply command with
      resetGeneration := (r.apply { command with resetGeneration := g }).resetGeneration } := by
  cases r <;> rfl

variable [LinearOrder R]

/-- Two backends that a client keeps apart by resets only. The second may be serving a reset
while the first waits. -/
structure Twin (p : Sys R × Sys R) : Prop where
  options : p.1.rt.options=p.2.rt.options
  safety : p.1.rt.safetyStopActive=p.2.rt.safetyStopActive
  command : p.2.rt.command={ p.1.rt.command with
    resetGeneration := p.2.rt.command.resetGeneration }
  thread : SameControl p.1.th p.2.th

section

omit [LinearOrder R]

theorem Twin.sameCommand {p : Sys R × Sys R} (h : Twin p) (inp : CycleInput)
    (ht : ClientTimedOut p.1.rt inp.loopTimeNs ↔ ClientTimedOut p.2.rt inp.loopTimeNs) :
    (checkClientTimeout p.1.rt inp.loopTimeNs).safetyStopActive=
      (checkClientTimeout p.2.rt inp.loopTimeNs).safetyStopActive ∧
    commandInForce p.2 inp={ commandInForce p.1 inp with
      resetGeneration := (commandInForce p.2 inp).resetGeneration } := by
  have hfires : SafetyStopFires p.1.rt inp.loopTimeNs ↔ SafetyStopFires p.2.rt inp.loopTimeNs := by
    simp only [SafetyStopFires,ht,h.safety]
  by_cases hf : SafetyStopFires p.1.rt inp.loopTimeNs
  · obtain ⟨hc,hs⟩ := commandInForce_of_fires p.1 inp hf
    obtain ⟨hc',hs'⟩ := commandInForce_of_fires p.2 inp (hfires.mp hf)
    rw [hs,hs',hc,hc']
    refine ⟨rfl,?_⟩
    rw [h.command]
    rfl
  · obtain ⟨hc,hs⟩ := commandInForce_of_not_fires p.1 inp hf
    obtain ⟨hc',hs'⟩ := commandInForce_of_not_fires p.2 inp (fun hn => hf (hfires.mpr hn))
    rw [hs,hs',hc,hc']
    exact ⟨h.safety,h.command⟩

theorem Twin.sameControl {p : Sys R × Sys R} (h : Twin p) (inp : CycleInput)
    (ht : ClientTimedOut p.1.rt inp.loopTimeNs ↔ ClientTimedOut p.2.rt inp.loopTimeNs)
    (hr : ¬ResetWhilePending p.1 inp) (hr' : ¬ResetWhilePending p.2 inp) :
    SameControl (observed p.1 inp) (observed p.2 inp) := by
  have hcmd := (h.sameCommand inp ht).2
  have hgen : (commandInForce p.2 inp).generation=
      (commandInForce p.1 inp).generation := by
    rw [hcmd]
  have hseen : p.1.th.commandGenerationSeen=p.2.th.commandGenerationSeen :=
    congrArg Control.generationSeen h.thread.control
  have hcontrol : (observed p.1 inp).control=(observed p.2 inp).control := by
    rw [observed_control,observed_control,hgen,← hseen,h.thread.control]
    split_ifs
    · simp only [Control.restart]
      rw [hcmd]
    · rfl
  refine ⟨hcontrol,fun hp => ?_⟩
  have hp' : (observed p.2 inp).Pending :=
    ⟨(congrArg Control.sequenceDone hcontrol).symm.trans hp.1,
      (congrArg Control.sequenceFailed hcontrol).symm.trans hp.2⟩
  have hc := observed_control p.1 inp
  rw [observed_elapsed p.1 inp hr hp,observed_elapsed p.2 inp hr' hp',hgen,← hseen]
  split_ifs with hg
  · rfl
  rw [if_neg hg] at hc
  exact h.thread.elapsed ⟨(congrArg Control.sequenceDone hc).symm.trans hp.1,
    (congrArg Control.sequenceFailed hc).symm.trans hp.2⟩

end

variable [FloorRing R] [HasSqrt R]

def declaresFailed (s : Sys R) (inp : CycleInput) : Bool :=
  !(observed s inp).sequenceFailed && (step s (.cycle inp)).th.sequenceFailed

/-- What the drive sees of a run, and when a sequence fails. -/
def motionNote (s : Sys R) : Event → List (Cia402PdoOutput × Bool)
  | .cycle inp => [(emitted s inp,declaresFailed s inp)]
  | _ => []

theorem step_cycle_elapsed (s : Sys R) (inp : CycleInput) :
    (step s (.cycle inp)).th.elapsed=(sequenced s inp).elapsed+1 := by
  have hm : ∀ (output : Cia402PdoOutput) (policy : TargetPolicy) (done : Bool),
      (runMotion (sequenced s inp) (commandInForce s inp) s.rt.options inp output policy
        done).1.cycle=(sequenced s inp).cycle ∧
      (runMotion (sequenced s inp) (commandInForce s inp) s.rt.options inp output policy
        done).1.sequenceStartCycle=(sequenced s inp).sequenceStartCycle := by
    intro output policy done
    simp only [runMotion]
    split_ifs <;> exact ⟨rfl,rfl⟩
  have h := hm (baseOutput s inp) (heldIdle s inp).2.2 s.th.profile.done
  change (runMotion (sequenced s inp) (commandInForce s inp) s.rt.options inp (baseOutput s inp)
    (heldIdle s inp).2.2 s.th.profile.done).1.cycle+1-_=_
  rw [h.1]
  change (sequenced s inp).cycle+1-(runMotion (sequenced s inp) (commandInForce s inp)
    s.rt.options inp (baseOutput s inp) (heldIdle s inp).2.2
    s.th.profile.done).1.sequenceStartCycle=_
  rw [h.2]
  simp only [RtThread.elapsed]
  grind

/-- One cycle of twins: the same outputs, the same verdict on the sequence, twins again. -/
theorem Twin.cycle {p : Sys R × Sys R} (h : Twin p) (inp : CycleInput)
    (ht : ClientTimedOut p.1.rt inp.loopTimeNs ↔ ClientTimedOut p.2.rt inp.loopTimeNs)
    (hr : ¬ResetWhilePending p.1 inp) (hr' : ¬ResetWhilePending p.2 inp) :
    Twin (step p.1 (.cycle inp),step p.2 (.cycle inp)) ∧
      motionNote p.1 (.cycle inp)=motionNote p.2 (.cycle inp) := by
  obtain ⟨hsafe,hcmd⟩ := h.sameCommand inp ht
  have hobs := h.sameControl inp ht hr hr'
  have hword : sequenceWord p.1 inp=sequenceWord p.2 inp := by
    simp only [sequenceWord]
    rw [hcmd]
  obtain ⟨hheld,htarget⟩ := holdIdle_congr hobs (commandInForce p.1 inp)
    (commandInForce p.2 inp).resetGeneration
    (checkClientTimeout p.1.rt inp.loopTimeNs).safetyStopActive inp.driveState inp.actualPosition
  rw [← hcmd,hsafe] at hheld htarget
  have hheld' : SameControl (heldIdle p.1 inp).1 (heldIdle p.2 inp).1 := by
    simp only [heldIdle,hsafe]
    exact hheld
  have htarget' : (heldIdle p.1 inp).2=(heldIdle p.2 inp).2 := by
    simp only [heldIdle,hsafe]
    exact htarget
  have hseq : SameControl (sequenced p.1 inp) (sequenced p.2 inp) := by
    simp only [sequenced,← hword,← h.options]
    exact advanceSequence_congr hheld' _ _
  have hbase : baseOutput p.1 inp=baseOutput p.2 inp := by
    simp only [baseOutput,← hword,htarget']
    rw [hcmd]
  have hmotion : (commandInForce p.1 inp).motion=
      (commandInForce p.2 inp).motion := by
    rw [hcmd]
  have hruns : ProfileRuns p.1 inp ↔ ProfileRuns p.2 inp := by
    simp only [ProfileRuns,hmotion,hseq.done,hseq.failed]
  have hprofile : profileStepped p.1 inp=profileStepped p.2 inp := by
    simp only [profileStepped,hobs.profile,hmotion,hbase,h.options]
  have hout : emitted p.1 inp=emitted p.2 inp ∧
      (step p.1 (.cycle inp)).th.control=(step p.2 (.cycle inp)).th.control := by
    by_cases hm : (commandInForce p.1 inp).motion.type=.none
    · have h1 := cycle_idle p.1 inp hm
      have h2 := cycle_idle p.2 inp (hmotion ▸ hm)
      rw [h1.1,h2.1,h1.2.2,h2.2.2,hseq.control]
      exact ⟨hbase,rfl⟩
    by_cases hrun : ProfileRuns p.1 inp
    · have h1 := cycle_runs p.1 inp hrun
      have h2 := cycle_runs p.2 inp (hruns.mp hrun)
      rw [h1.1,h2.1,h1.2.2.2,h2.2.2.2,hseq.control,hprofile]
      exact ⟨rfl,rfl⟩
    · have h1 := cycle_waiting p.1 inp hm hrun
      have h2 := cycle_waiting p.2 inp (hmotion ▸ hm) (fun hn => hrun (hruns.mpr hn))
      rw [h1.1,h2.1,h1.2.2.2,h2.2.2.2,hseq.control]
      exact ⟨hbase,rfl⟩
  have hl := step_cycle_latch p.1 inp
  have hl' := step_cycle_latch p.2 inp
  have hrt := step_cycle_runtime p.1 inp
  have hrt' := step_cycle_runtime p.2 inp
  refine ⟨⟨?_,?_,?_,hout.2,fun hp => ?_⟩,?_⟩
  · exact (hrt.2.2.2.1.trans h.options).trans hrt'.2.2.2.1.symm
  · exact (hrt.2.1.trans hsafe).trans hrt'.2.1.symm
  · change (step p.2 (.cycle inp)).rt.command={ (step p.1 (.cycle inp)).rt.command with
      resetGeneration := (step p.2 (.cycle inp)).rt.command.resetGeneration }
    rw [hrt.1,hrt'.1]
    exact hcmd
  · change (step p.1 (.cycle inp)).th.elapsed=(step p.2 (.cycle inp)).th.elapsed
    rw [step_cycle_elapsed,step_cycle_elapsed,
      hseq.elapsed ⟨hl.1.symm.trans hp.1,hl.2.1.symm.trans hp.2⟩]
  · simp only [motionNote,declaresFailed,hout.1,hobs.failed,hl.2.1,hl'.2.1,hseq.failed]

/-- RESET_STATISTICS commands are added between the other commands: each arrives and is served
while the client of the plain run waits. -/
def InsertsReset (p : Sys R × Sys R) : Paired Event → Prop
  | .both (.cycle _) => True
  | .both _ => p.1.client=p.2.client
  | .added (.receive _ message) =>
      p.1.client=.waiting ∧ p.2.client=.waiting ∧ message.request=.resetStatistics
  | .added .dispatch => p.1.client=.waiting ∧ requestOf p.2 .dispatch=some .resetStatistics
  | .added (.cycle _) => False

instance (p : Sys R × Sys R) : ∀ e,Decidable (InsertsReset p e)
  | .both (.cycle _) => isTrue trivial
  | .both (.receive _ _) => inferInstanceAs (Decidable (_=_))
  | .both .dispatch => inferInstanceAs (Decidable (_=_))
  | .added (.receive _ _) => inferInstanceAs (Decidable (_ ∧ _))
  | .added .dispatch => inferInstanceAs (Decidable (_ ∧ _))
  | .added (.cycle _) => isFalse id

/-- No reset takes effect in a pending sequence, and the added messages, which feed the heartbeat
as every message does, change none of its verdicts. -/
def ResetsApart (p : Sys R × Sys R) : Paired Event → Prop
  | .both (.cycle inp) =>
      ¬ResetWhilePending p.1 inp ∧ ¬ResetWhilePending p.2 inp ∧
        (ClientTimedOut p.1.rt inp.loopTimeNs ↔ ClientTimedOut p.2.rt inp.loopTimeNs)
  | .added (.receive _ _) => p.1.rt.safetyStopActive=false
  | _ => True

instance (p : Sys R × Sys R) : ∀ e,Decidable (ResetsApart p e)
  | .both (.cycle _) => inferInstanceAs (Decidable (_ ∧ _))
  | .both (.receive _ _) => isTrue trivial
  | .both .dispatch => isTrue trivial
  | .added (.receive _ _) => inferInstanceAs (Decidable (_=_))
  | .added .dispatch => isTrue trivial
  | .added (.cycle _) => isTrue trivial

theorem step_dispatch (s : Sys R) :
    (step s .dispatch).rt.options=s.rt.options ∧
    (step s .dispatch).rt.safetyStopActive=s.rt.safetyStopActive ∧
    (step s .dispatch).rt.command=
      (requestOf s .dispatch).elim s.rt.command (fun r => r.apply s.rt.command) ∧
    (step s .dispatch).th=s.th := by
  have hc := step_client s .dispatch (fun _ h => by cases h)
  have hf : (step s .dispatch).rt.options=s.rt.options ∧
      (step s .dispatch).rt.safetyStopActive=s.rt.safetyStopActive := by
    cases hp : s.client with
    | waiting => simp only [step,hp,and_self]
    | received message =>
      have hm := handleMessage_frame s.rt message
      simp only [step,hp]
      exact ⟨hm.1,hm.2.2⟩
  exact ⟨hf.1,hf.2,hc.2,hc.1⟩

theorem twin_both_client {p : Sys R × Sys R} (h : Twin p) (e : Event) (hn : ∀ inp,e≠.cycle inp)
    (hc : p.1.client=p.2.client) : Twin (step p.1 e,step p.2 e) := by
  cases e with
  | receive now message =>
    cases hp : p.1.client with
    | waiting =>
      have hp' := hc.symm.trans hp
      simp only [step,hp,hp']
      exact ⟨h.options,rfl,h.command,h.thread⟩
    | received other =>
      have hp' := hc.symm.trans hp
      simp only [step,hp,hp']
      exact h
  | dispatch =>
    have h1 := step_dispatch p.1
    have h2 := step_dispatch p.2
    have hr : requestOf p.2 .dispatch=requestOf p.1 .dispatch := by
      simp only [requestOf,hc]
    refine ⟨?_,?_,?_,?_⟩
    · exact (h1.1.trans h.options).trans h2.1.symm
    · exact (h1.2.1.trans h.safety).trans h2.2.1.symm
    · change (step p.2 .dispatch).rt.command={ (step p.1 .dispatch).rt.command with
        resetGeneration := (step p.2 .dispatch).rt.command.resetGeneration }
      rw [h1.2.2.1,h2.2.2.1,hr]
      cases requestOf p.1 .dispatch with
      | none => exact h.command
      | some r =>
        simp only [Option.elim_some]
        rw [h.command]
        exact r.apply_resets p.1.rt.command _
    · change SameControl (step p.1 .dispatch).th (step p.2 .dispatch).th
      rw [h1.2.2.2,h2.2.2.2]
      exact h.thread
  | cycle inp => exact absurd rfl (hn inp)

theorem twin_added {p : Sys R × Sys R} (h : Twin p) (e : Event)
    (hi : InsertsReset p (.added e)) (ha : ResetsApart p (.added e)) :
    Twin (p.1,step p.2 e) ∧ motionNote p.2 e=[] := by
  cases e with
  | receive now message =>
    refine ⟨?_,rfl⟩
    simp only [step,hi.2.1]
    exact ⟨h.options,ha,h.command,h.thread⟩
  | dispatch =>
    have h2 := step_dispatch p.2
    rw [hi.2] at h2
    refine ⟨⟨h.options.trans h2.1.symm,h.safety.trans h2.2.1.symm,?_,?_⟩,rfl⟩
    · change (step p.2 .dispatch).rt.command={ p.1.rt.command with
        resetGeneration := (step p.2 .dispatch).rt.command.resetGeneration }
      rw [h2.2.2.1,h.command]
      rfl
    · change SameControl p.1.th (step p.2 .dispatch).th
      rw [h2.2.2.2]
      exact h.thread
  | cycle inp => exact absurd hi id

/-- Whatever resets are added to a run, the drive sees the same outputs and every sequence fails
in the same cycle, as long as no reset takes effect while a sequence is pending. -/
theorem motion_unaffected_by_resets (options : BackendOptions) (start : ClockNs)
    (es : List (Paired Event))
    (hes : Along (pairedStep step) (fun p e => InsertsReset p e ∧ ResetsApart p e)
      ((sysInit options start : Sys R),(sysInit options start : Sys R)) es) :
    observations step motionNote (sysInit options start : Sys R) (Paired.plain es)=
      observations step motionNote (sysInit options start : Sys R) (Paired.full es) := by
  have hstart : Twin ((sysInit options start : Sys R),(sysInit options start : Sys R)) :=
    ⟨rfl,rfl,rfl,rfl,fun _ => rfl⟩
  refine observations_eq_of_relation ?_ ?_ hstart hes
  · intro p e h hc
    cases e with
    | cycle inp => exact h.cycle inp hc.2.2.2 hc.2.1 hc.2.2.1
    | receive now message =>
      exact ⟨twin_both_client h _ (fun _ hn => by cases hn) hc.1,rfl⟩
    | dispatch => exact ⟨twin_both_client h _ (fun _ hn => by cases hn) hc.1,rfl⟩
  · intro p e h hc
    exact twin_added h e hc.1 hc.2

/-- A timeout of three cycles of a millisecond. -/
def shortTimeout : BackendOptions := ⟨1000,3,1000⟩

def briskMove : NetCommand where
  command := 20
  targetPosition := 1000
  velocity := 100000
  acceleration := 100000000
  deceleration := 100000000

/-- A drive that stays in SWITCH_ON_DISABLED for a while after a move was asked for. A reset
arrives in the third cycle. -/
def resetDuringEnableRun : List (Paired Event) :=
  [.both (.receive (clockAt 2000000) (.command briskMove)),
    .both .dispatch,
    .both (.cycle { loopTimeNs := 3000000, statusword := 0x0040, actualPosition := 5 }),
    .both (.cycle { loopTimeNs := 4000000, statusword := 0x0040, actualPosition := 5 }),
    .both (.cycle { loopTimeNs := 5000000, statusword := 0x0040, actualPosition := 5 }),
    .added (.receive (clockAt 5500000) (.command { command := 3 })),
    .added .dispatch,
    .both (.cycle { loopTimeNs := 6000000, statusword := 0x0040, actualPosition := 5 }),
    .both (.cycle { loopTimeNs := 7000000, statusword := 0x0027, actualPosition := 5 })]

/-- The reset forgets the cycles the sequence has waited: it is not declared failed any more,
and the move that should have been given up runs. -/
theorem reset_revives_failed_move :
    ¬∀ (options : BackendOptions) (start : ClockNs) (es : List (Paired Event)),
      Along (pairedStep step) InsertsReset
        ((sysInit options start : Sys ℚ),(sysInit options start : Sys ℚ)) es →
      observations step motionNote (sysInit options start : Sys ℚ) (Paired.plain es)=
        observations step motionNote (sysInit options start : Sys ℚ) (Paired.full es) := by
  intro h
  have hrun := h shortTimeout (clockAt 1000000) resetDuringEnableRun (by decide +kernel)
  exact absurd hrun (by decide +kernel)

/-- A reset before the move and one after its sequence has ended. -/
def resetAroundEnableRun : List (Paired Event) :=
  [.both (.cycle { loopTimeNs := 1500000, statusword := 0x0040, actualPosition := 5 }),
    .added (.receive (clockAt 1600000) (.command { command := 3 })),
    .added .dispatch,
    .both (.receive (clockAt 2000000) (.command briskMove)),
    .both .dispatch,
    .both (.cycle { loopTimeNs := 3000000, statusword := 0x0023, actualPosition := 5 }),
    .both (.cycle { loopTimeNs := 4000000, statusword := 0x0027, actualPosition := 5 }),
    .added (.receive (clockAt 4500000) (.command { command := 3 })),
    .both (.cycle { loopTimeNs := 5000000, statusword := 0x0027, actualPosition := 5 }),
    .added .dispatch,
    .both (.cycle { loopTimeNs := 6000000, statusword := 0x0027, actualPosition := 6 })]

theorem resets_around_move_unseen :
    Along (pairedStep step) (fun p e => InsertsReset p e ∧ ResetsApart p e)
      ((sysInit shortTimeout (clockAt 1000000) : Sys ℚ),
        (sysInit shortTimeout (clockAt 1000000) : Sys ℚ)) resetAroundEnableRun ∧
    observations step motionNote (sysInit shortTimeout (clockAt 1000000) : Sys ℚ)
        (Paired.plain resetAroundEnableRun)=
      observations step motionNote (sysInit shortTimeout (clockAt 1000000) : Sys ℚ)
        (Paired.full resetAroundEnableRun) := by
  have hes : Along (pairedStep step) (fun p e => InsertsReset p e ∧ ResetsApart p e)
      ((sysInit shortTimeout (clockAt 1000000) : Sys ℚ),
        (sysInit shortTimeout (clockAt 1000000) : Sys ℚ)) resetAroundEnableRun := by
    decide +kernel
  exact ⟨hes,motion_unaffected_by_resets shortTimeout (clockAt 1000000) resetAroundEnableRun hes⟩

end EtherCATMaster.Backend
