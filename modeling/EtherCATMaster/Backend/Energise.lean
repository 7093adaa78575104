import EtherCATMaster.Backend.Generation
import EtherCATMaster.Motion.Drive
import EtherCATMaster.Motion.ProfileSpec

namespace EtherCATMaster.Backend

open EtherCATMaster.Motion EtherCATMaster.Framework
open scoped EtherCATMaster.Math

variable {R : Type}

/-- The origin of the command in force. -/
inductive Latest where
  | boot
  | request (r : Request)
  | safeStop
  deriving DecidableEq, Repr

def Latest.switchesOff : Latest → Bool
  | .request .stop | .request .disable | .request .faultReset | .safeStop => true
  | _ => false

def Latest.ramps : Latest → Bool
  | .request (.servoStop _ _) => true
  | _ => false

structure LatestWatch where
  latest : Latest
  tally : Tally
  deriving DecidableEq, Repr

def LatestWatch.boot : LatestWatch := ⟨.boot,Tally.zero⟩

def Latest.afterRequest (latest : Latest) (r : Request) : Latest :=
  if r.advances then .request r else latest

def Latest.afterCycle (latest : Latest) (s : Sys R) (inp : CycleInput) : Latest :=
  if SafetyStopFires s.rt inp.loopTimeNs then .safeStop else latest

def LatestWatch.observe (w : LatestWatch) (s : Sys R) : Event → LatestWatch
  | .cycle inp => ⟨w.latest.afterCycle s inp,w.tally.observe s (.cycle inp)⟩
  | e => ⟨(requestOf s e).elim w.latest w.latest.afterRequest,w.tally.observe s e⟩

theorem latestWatch_client (w : LatestWatch) (s : Sys R) (e : Event) (h : ∀ inp,e≠.cycle inp) :
    w.observe s e=⟨(requestOf s e).elim w.latest w.latest.afterRequest,w.tally.observe s e⟩ := by
  cases e with
  | receive now message => rfl
  | dispatch => rfl
  | cycle inp => exact absurd rfl (h inp)

variable [HasSqrt R] [LinearOrder R] [Field R] [FloorRing R]

def latestStep (p : Sys R × LatestWatch) (e : Event) : Sys R × LatestWatch :=
  watched step LatestWatch.observe p e

/-- The drive beside the backend: the state read last and the words emitted, newest first. -/
structure DriveWatch where
  state : Option Cia402State
  words : List UInt16
  deriving DecidableEq, Repr

def DriveWatch.start : DriveWatch := ⟨none,[]⟩

def DriveWatch.observe (w : DriveWatch) (s : Sys R) : Event → DriveWatch
  | .cycle inp => ⟨some inp.driveState,(emitted s inp).controlword::w.words⟩
  | _ => w

/-- The states read are those of a drive that follows the state machine. -/
def DriveFollows (p : Sys R × DriveWatch) : Event → Prop
  | .cycle inp => p.2.state.elim True (fun state => DriveMay state inp.driveState p.2.words)
  | _ => True

instance (p : Sys R × DriveWatch) : ∀ e,Decidable (DriveFollows p e)
  | .cycle inp =>
      match h : p.2.state with
      | none => isTrue (by simp [DriveFollows,h])
      | some state =>
          decidable_of_iff (DriveMay state inp.driveState p.2.words) (by simp [DriveFollows,h])
  | .receive _ _ => isTrue trivial
  | .dispatch => isTrue trivial

/-- No stop of any kind commands the drive that is read into operation. -/
def AnyStopLaw (p : Sys R × LatestWatch) : Event → Prop
  | .cycle inp =>
      ((p.2.latest.afterCycle p.1 inp).switchesOff=true ∨
        (p.2.latest.afterCycle p.1 inp).ramps=true ∨
        (cycleReport p.1 inp).safetyStopActive=true) →
      ¬Energises p.1.th.written.controlword (emitted p.1 inp).controlword inp.driveState
  | _ => True

instance (p : Sys R × LatestWatch) : ∀ e,Decidable (AnyStopLaw p e)
  | .cycle inp => inferInstanceAs (Decidable ((_ ∨ _ ∨ (cycleReport p.1 inp).safetyStopActive=true) →
      ¬Energises p.1.th.written.controlword (emitted p.1 inp).controlword inp.driveState))
  | .receive _ _ => isTrue trivial
  | .dispatch => isTrue trivial

/-- A command that switches off commands no drive into operation, whatever its state. -/
def SwitchOffLaw (p : Sys R × LatestWatch) : Event → Prop
  | .cycle inp => (p.2.latest.afterCycle p.1 inp).switchesOff=true →
      ∀ state,¬Energises p.1.th.written.controlword (emitted p.1 inp).controlword state
  | _ => True

/-- A stop by a ramp emits the halt controlword in every cycle. -/
def HaltLaw (p : Sys R × LatestWatch) : Event → Prop
  | .cycle inp => (p.2.latest.afterCycle p.1 inp).ramps=true →
      (emitted p.1 inp).controlword=0x010f
  | _ => True

/-- The requests between two cycles do not wrap the generation. -/
def NoWrap (p : Sys R × LatestWatch) : Event → Prop
  | .cycle _ => p.2.tally.pending<2^32-1
  | _ => True

instance (p : Sys R × LatestWatch) : ∀ e,Decidable (NoWrap p e)
  | .cycle _ => inferInstanceAs (Decidable (_<_))
  | .receive _ _ => isTrue trivial
  | .dispatch => isTrue trivial

/-- What the latest command left in the record. -/
def Latest.Left (latest : Latest) (command : BackendCommand R) : Prop :=
  match latest with
  | .request .stop | .safeStop =>
      command.controlword=0 ∧ command.sequence=.none ∧ command.motion.type=.none
  | .request .disable => command.sequence=.disable ∧ command.motion.type=.none
  | .request .faultReset => command.sequence=.faultReset ∧ command.motion.type=.none
  | .request (.servoStop _ _) => command.sequence=.none ∧ command.motion.type=.servoStop
  | _ => True

section

omit [HasSqrt R] [LinearOrder R] [FloorRing R]

theorem left_request (r : Request) (command : BackendCommand R) :
    (Latest.request r).Left (r.apply command) := by
  cases r with
  | stop => exact ⟨rfl,rfl,rfl⟩
  | disable => exact ⟨rfl,rfl⟩
  | faultReset => exact ⟨rfl,rfl⟩
  | servoStop netCommand lms => exact ⟨rfl,rfl⟩
  | _ => trivial

end

section

omit [HasSqrt R] [LinearOrder R] [Field R] [FloorRing R]

theorem Latest.Left.kept {latest : Latest} {command : BackendCommand R} (h : latest.Left command)
    (resetGeneration : UInt32) :
    latest.Left { command with resetGeneration := resetGeneration } := by
  cases latest with
  | boot => trivial
  | safeStop => exact h
  | request r => cases r <;> exact h

end

section

omit [HasSqrt R] [LinearOrder R] [FloorRing R]

theorem left_inForce (s : Sys R) (latest : Latest) (inp : CycleInput)
    (h : latest.Left s.rt.command) :
    (latest.afterCycle s inp).Left (commandInForce s inp) := by
  unfold Latest.afterCycle
  by_cases hf : SafetyStopFires s.rt inp.loopTimeNs
  · rw [if_pos hf,(commandInForce_of_fires s inp hf).1]
    exact ⟨rfl,rfl,rfl⟩
  · rw [if_neg hf,(commandInForce_of_not_fires s inp hf).1]
    exact h

end

theorem latestWatch_client_cases (w : LatestWatch) (s : Sys R) (e : Event)
    (he : ∀ inp,e≠.cycle inp) :
    (replacesCommand s e=false ∧ (w.observe s e).latest=w.latest) ∨
    (replacesCommand s e=true ∧ ∃ r,(w.observe s e).latest=.request r ∧
      (step s e).rt.command=r.apply s.rt.command) := by
  have hcmd := (step_client s e he).2
  rw [latestWatch_client w s e he]
  cases hr : requestOf s e with
  | none => exact .inl ⟨replacesCommand_none s e hr,rfl⟩
  | some r =>
    rw [hr] at hcmd
    have ha := replacesCommand_some s e r hr
    cases hadv : r.advances with
    | false => exact .inl ⟨ha.trans hadv,by simp [Latest.afterRequest,hadv]⟩
    | true => exact .inr ⟨ha.trans hadv,r,by simp [Latest.afterRequest,hadv],hcmd⟩

theorem left_step (p : Sys R × LatestWatch) (e : Event) (h : p.2.latest.Left p.1.rt.command) :
    (latestStep p e).2.latest.Left (latestStep p e).1.rt.command := by
  obtain ⟨s,w⟩ := p
  have client : (∀ inp,e≠.cycle inp) →
      (w.observe s e).latest.Left (step s e).rt.command := by
    intro he
    rcases latestWatch_client_cases w s e he with ⟨hk,hl⟩|⟨_,r,hl,hcmd⟩
    · rw [hl,step_client_kept s e he hk]
      exact h.kept _
    · rw [hl,hcmd]
      exact left_request r s.rt.command
  cases e with
  | receive now message => exact client (fun _ hn => by cases hn)
  | dispatch => exact client (fun _ hn => by cases hn)
  | cycle inp =>
    change (w.latest.afterCycle s inp).Left (step s (.cycle inp)).rt.command
    rw [(step_cycle_runtime s inp).1]
    exact left_inForce s w.latest inp h

theorem switchesOff_word (s : Sys R) (inp : CycleInput) (latest : Latest)
    (hoff : latest.switchesOff=true) (h : latest.Left (commandInForce s inp)) :
    (emitted s inp).controlword=0x0000 ∨ (emitted s inp).controlword=0x0080 := by
  have base : (commandInForce s inp).motion.type=.none →
      (emitted s inp).controlword=(cia402SequenceControlword (commandInForce s inp).sequence
        inp.driveState (commandInForce s inp).controlword).1 := by
    intro hm
    rw [(cycle_idle s inp hm).1]
    rfl
  have stopped : (commandInForce s inp).controlword=0 ∧ (commandInForce s inp).sequence=.none ∧
      (commandInForce s inp).motion.type=.none → (emitted s inp).controlword=0x0000 := by
    intro ⟨hw,hs,hm⟩
    rw [base hm,hs]
    exact hw
  cases latest with
  | boot => cases hoff
  | safeStop => exact .inl (stopped h)
  | request r =>
    cases r with
    | stop => exact .inl (stopped h)
    | disable =>
      rw [base h.2,h.1]
      exact .inl rfl
    | faultReset =>
      rw [base h.2,h.1]
      unfold cia402SequenceControlword
      dsimp only
      split_ifs
      · exact .inr rfl
      · exact .inl rfl
    | _ => cases hoff

theorem switchOffLaw_of_left (p : Sys R × LatestWatch) (e : Event)
    (h : p.2.latest.Left p.1.rt.command) : SwitchOffLaw p e := by
  cases e with
  | receive now message => trivial
  | dispatch => trivial
  | cycle inp =>
    intro hoff state hen
    have hcommand := ((energises_iff _ _ state).mp hen).2.1
    rcases switchesOff_word p.1 inp _ hoff (left_inForce p.1 p.2.latest inp h) with hw|hw
    · rw [hw] at hcommand
      exact absurd hcommand (by decide)
    · rw [hw] at hcommand
      exact absurd hcommand (by decide)

/-- While a stop by a ramp is in force, its sequence counts as done and cannot fail. -/
structure HaltInvariant (p : Sys R × LatestWatch) : Prop where
  synced : Synced p.1 p.2.tally
  left : p.2.latest.Left p.1.rt.command
  latch : p.2.latest.ramps=true → p.2.tally.started=true → p.2.tally.pending=0 →
    p.1.th.sequenceDone=true ∧ p.1.th.sequenceFailed=false

section

omit [HasSqrt R] [LinearOrder R] [FloorRing R]

theorem haltInvariant_init (options : BackendOptions) (start : ClockNs) :
    HaltInvariant ((sysInit options start : Sys R),LatestWatch.boot) :=
  ⟨synced_init options start,trivial,fun h => (by cases h)⟩

end

section

omit [HasSqrt R] [LinearOrder R] [Field R] [FloorRing R]

theorem ramps_left {latest : Latest} {command : BackendCommand R} (hr : latest.ramps=true)
    (h : latest.Left command) : command.sequence=.none ∧ command.motion.type=.servoStop := by
  cases latest with
  | request r =>
    cases r with
    | servoStop netCommand lms => exact h
    | _ => cases hr
  | _ => cases hr

end

section

omit [HasSqrt R] [LinearOrder R] [FloorRing R]

theorem halt_runs (p : Sys R × LatestWatch) (inp : CycleInput) (hi : HaltInvariant p)
    (hb : p.2.tally.pending<2^32-1) (hr : (p.2.latest.afterCycle p.1 inp).ramps=true) :
    ProfileRuns p.1 inp ∧ (commandInForce p.1 inp).motion.type=.servoStop := by
  obtain ⟨s,w⟩ := p
  obtain ⟨hs,hm⟩ := ramps_left hr (left_inForce s w.latest inp hi.left)
  have hnf : ¬SafetyStopFires s.rt inp.loopTimeNs := by
    intro hf
    rw [Latest.afterCycle,if_pos hf] at hr
    cases hr
  have hlatest : w.latest.ramps=true := by
    rw [Latest.afterCycle,if_neg hnf] at hr
    exact hr
  have hob : (observed s inp).sequenceDone=true ∧ (observed s inp).sequenceFailed=false := by
    rw [observed_done_of_synced s w.tally inp hi.synced hb,
      observed_failed_of_synced s w.tally inp hi.synced hb]
    by_cases hf : Fresh s w.tally inp
    · simp [hf,hs]
    · obtain ⟨h1,h2,_⟩ := not_fresh hf
      obtain ⟨hdone,hfailed⟩ : s.th.sequenceDone=true ∧ s.th.sequenceFailed=false :=
        hi.latch hlatest h1 h2
      rw [if_neg hf,hdone,hfailed,Bool.and_false]
      exact ⟨rfl,rfl⟩
  have hdone : (sequenced s inp).sequenceDone=true := by
    rw [sequenced_done,hob.1,Bool.true_or]
  refine ⟨⟨?_,hdone,((sequenced_failed s inp).2 hdone).trans hob.2⟩,hm⟩
  rw [hm]
  decide

end

theorem haltInvariant_step (p : Sys R × LatestWatch) (e : Event) (hi : HaltInvariant p)
    (hc : NoWrap p e) : HaltInvariant (latestStep p e) := by
  have hleft := left_step p e hi.left
  obtain ⟨s,w⟩ := p
  have hsync := synced_step s w.tally e hi.synced
  have client : (∀ inp,e≠.cycle inp) → HaltInvariant (latestStep (s,w) e) := by
    intro he
    have ht := tally_client s w.tally e he
    refine ⟨by rw [latestStep,watched,latestWatch_client w s e he]; exact hsync,hleft,?_⟩
    change (w.observe s e).latest.ramps=true → (w.observe s e).tally.started=true →
      (w.observe s e).tally.pending=0 →
      (step s e).th.sequenceDone=true ∧ (step s e).th.sequenceFailed=false
    rw [(step_client s e he).1]
    rcases latestWatch_client_cases w s e he with ⟨hk,hl⟩|⟨ha,_⟩
    · rw [hl]
      rw [latestWatch_client w s e he,ht,hk]
      exact hi.latch
    · rw [latestWatch_client w s e he,ht,ha]
      exact fun _ _ h => absurd h (Nat.succ_ne_zero _)
  cases e with
  | receive now message => exact client (fun _ hn => by cases hn)
  | dispatch => exact client (fun _ hn => by cases hn)
  | cycle inp =>
    refine ⟨hsync,hleft,fun hr _ _ => ?_⟩
    obtain ⟨hruns,_⟩ := halt_runs (s,w) inp hi hc hr
    have hlatch := step_cycle_latch s inp
    exact ⟨hlatch.1.trans hruns.2.1,hlatch.2.1.trans hruns.2.2⟩

theorem haltLaw_of_invariant (p : Sys R × LatestWatch) (e : Event) (hi : HaltInvariant p)
    (hc : NoWrap p e) : HaltLaw p e := by
  cases e with
  | receive now message => trivial
  | dispatch => trivial
  | cycle inp =>
    intro hr
    obtain ⟨hruns,hm⟩ := halt_runs p inp hi hc hr
    rw [(cycle_runs p.1 inp hruns).1]
    unfold profileStepped
    rw [cia402ProfileStep_controlword,hm]

/-- Commands that switch off never command a drive into operation, in any run; a stop by a
ramp holds the halt controlword from the first cycle on, which takes a drive that is switched on
into operation. -/
theorem switch_off_never_energises (options : BackendOptions) (start : ClockNs)
    (es : List Event) :
    Along latestStep SwitchOffLaw ((sysInit options start : Sys R),LatestWatch.boot) es ∧
    (Along latestStep NoWrap ((sysInit options start : Sys R),LatestWatch.boot) es →
      Along latestStep HaltLaw ((sysInit options start : Sys R),LatestWatch.boot) es) ∧
    ∀ before,Energises before 0x010F .switchedOn := by
  refine ⟨?_,?_,fun before => (energises_iff before 0x010F .switchedOn).mpr
    ⟨by decide,by decide,.inr (.inl rfl)⟩⟩
  · have hall : Along latestStep (fun _ _ => True)
        ((sysInit options start : Sys R),LatestWatch.boot) es := along_true
    exact along_of_invariant (I := fun p : Sys R × LatestWatch => p.2.latest.Left p.1.rt.command)
      (fun p e h _ => left_step p e h) (fun p e h _ => switchOffLaw_of_left p e h) trivial hall
  · intro hc
    exact along_of_invariant haltInvariant_step haltLaw_of_invariant
      (haltInvariant_init options start) hc

/-- A servo enable that has brought the drive to SWITCHED_ON, and a servo stop. -/
def stopWhileSwitchedOnRun : List Event :=
  [.receive (clockAt 2000000) (.command { command := 10 }),
    .dispatch,
    .cycle { loopTimeNs := 3000000, statusword := 0x0040, actualPosition := 5 },
    .cycle { loopTimeNs := 4000000, statusword := 0x0021, actualPosition := 5 },
    .receive (clockAt 4500000) (.command { command := 23 }),
    .dispatch,
    .cycle { loopTimeNs := 5000000, statusword := 0x0023, actualPosition := 5 }]

/-- The halt controlword of the stop also holds the bits that enable the operation. -/
theorem servo_stop_energises :
    ¬∀ (options : BackendOptions) (start : ClockNs) (es : List Event),
      Along (watched step DriveWatch.observe) DriveFollows
        ((sysInit options start : Sys ℚ),DriveWatch.start) es →
      Along latestStep AnyStopLaw ((sysInit options start : Sys ℚ),LatestWatch.boot) es := by
  intro h
  have hdrive : Along (watched step DriveWatch.observe) DriveFollows
      ((sysInit optionsInit ⟨1000000,by decide⟩ : Sys ℚ),DriveWatch.start)
      stopWhileSwitchedOnRun := by decide +kernel
  have hrun := h optionsInit ⟨1000000,by decide⟩ stopWhileSwitchedOnRun hdrive
  exact absurd hrun (by decide +kernel)

theorem stop_while_switched_on_halts :
    Along latestStep NoWrap
      ((sysInit optionsInit ⟨1000000,by decide⟩ : Sys ℚ),LatestWatch.boot)
      stopWhileSwitchedOnRun ∧
    Along latestStep SwitchOffLaw
      ((sysInit optionsInit ⟨1000000,by decide⟩ : Sys ℚ),LatestWatch.boot)
      stopWhileSwitchedOnRun ∧
    Along latestStep HaltLaw
      ((sysInit optionsInit ⟨1000000,by decide⟩ : Sys ℚ),LatestWatch.boot)
      stopWhileSwitchedOnRun := by
  have hc : Along latestStep NoWrap
      ((sysInit optionsInit ⟨1000000,by decide⟩ : Sys ℚ),LatestWatch.boot)
      stopWhileSwitchedOnRun := by decide +kernel
  have h := switch_off_never_energises (R := ℚ) optionsInit ⟨1000000,by decide⟩
    stopWhileSwitchedOnRun
  exact ⟨hc,h.1,h.2.1 hc⟩

end EtherCATMaster.Backend
