import EtherCATMaster.Backend.Generation
import EtherCATMaster.Motion.ProfileSpec

namespace EtherCATMaster.Backend

open EtherCATMaster.Motion EtherCATMaster.Framework
open scoped EtherCATMaster.Math

variable {R : Type}

def Request.startsMotion : Request → Bool
  | .move _ _ _ | .jog _ _ | .home _ => true
  | _ => false

/-- Requests that put another sequence in the place of ENABLE. -/
def Request.leavesEnable : Request → Bool
  | .faultReset | .disable => true
  | _ => false

/-- Observer of the enabling of the drive: `waiting` from the acceptance of a motion until the
sequence first reports its target, `enabled` once a cycle has read OPERATION_ENABLED since the
command in force was accepted. -/
structure EnableWatch where
  tally : Tally
  waiting : Bool
  enabled : Bool
  deriving DecidableEq, Repr

def EnableWatch.idle : EnableWatch := ⟨Tally.zero,false,false⟩

/-- A motion that waits over a stored velocity finds the drive enabled, and keeps its sequence
until then; and the requests between two cycles do not wrap the generation. -/
def MotionsWaitAtRest (p : Sys R × EnableWatch) : Event → Prop
  | .cycle inp => p.2.tally.pending<2^32-1 ∧
      (p.2.waiting=true → p.1.rt.command.targetVelocity≠0 → p.1.rt.command.sequence=.enable →
        ¬SafetyStopFires p.1.rt inp.loopTimeNs → inp.driveState=.operationEnabled)
  | e => p.2.waiting=true → (requestOf p.1 e).any Request.leavesEnable=true →
      p.1.rt.command.targetVelocity=0

instance (p : Sys R × EnableWatch) : ∀ e,Decidable (MotionsWaitAtRest p e)
  | .cycle _ => inferInstanceAs (Decidable (_ ∧ _))
  | .receive _ _ => inferInstanceAs (Decidable (_ → _))
  | .dispatch => inferInstanceAs (Decidable (_ → _))

/-- The drive does not leave OPERATION_ENABLED under a position move that an earlier cycle
found enabled, unless the sequence of the move had timed out; and the requests between two
cycles do not wrap the generation. -/
def MovesStayEnabled (p : Sys R × EnableWatch) : Event → Prop
  | .cycle inp => p.2.tally.pending<2^32-1 ∧
      (inp.driveState≠.operationEnabled → ¬SafetyStopFires p.1.rt inp.loopTimeNs →
        p.1.rt.command.motion.type=.profilePosition → p.2.enabled=true →
          p.1.th.sequenceFailed=true)
  | _ => True

instance (p : Sys R × EnableWatch) : ∀ e,Decidable (MovesStayEnabled p e)
  | .cycle _ => inferInstanceAs (Decidable (_ ∧ _))
  | .receive _ _ => isTrue trivial
  | .dispatch => isTrue trivial

variable [LinearOrder R] [Field R] [FloorRing R] [HasSqrt R]

def EnableWatch.observe (w : EnableWatch) (s : Sys R) : Event → EnableWatch
  | .cycle inp =>
      ⟨w.tally.observe s (.cycle inp),
        w.waiting && !(cycleReport s inp).sequenceTargetReached,
        (w.enabled && !decide (SafetyStopFires s.rt inp.loopTimeNs)) ||
          inp.driveState=.operationEnabled⟩
  | e =>
      ⟨w.tally.observe s e,
        w.waiting || (requestOf s e).any Request.startsMotion,
        w.enabled && !replacesCommand s e⟩

def enableStep (p : Sys R × EnableWatch) (e : Event) : Sys R × EnableWatch :=
  watched step EnableWatch.observe p e

/-- Until the sequence reports its target, a cycle tracks the position and emits no velocity. -/
def PassiveLaw (p : Sys R × EnableWatch) : Event → Prop
  | .cycle inp => p.2.waiting=true → (cycleReport p.1 inp).sequenceTargetReached=false →
      (emitted p.1 inp).targetPosition=inp.actualPosition ∧ (emitted p.1 inp).targetVelocity=0
  | _ => True

instance (p : Sys R × EnableWatch) : ∀ e,Decidable (PassiveLaw p e)
  | .cycle inp => inferInstanceAs (Decidable (p.2.waiting=true →
      (cycleReport p.1 inp).sequenceTargetReached=false → _ ∧ _))
  | .receive _ _ => isTrue trivial
  | .dispatch => isTrue trivial

/-- A drive that is not enabled is commanded to where it is. -/
def NoRunawayLaw (p : Sys R × EnableWatch) : Event → Prop
  | .cycle inp => inp.driveState≠.operationEnabled →
      (emitted p.1 inp).targetPosition=inp.actualPosition
  | _ => True

instance (p : Sys R × EnableWatch) : ∀ e,Decidable (NoRunawayLaw p e)
  | .cycle _ => inferInstanceAs (Decidable (_ → _))
  | .receive _ _ => isTrue trivial
  | .dispatch => isTrue trivial

def Underway (sequence : Cia402Sequence) : Prop :=
  sequence=.enable ∨ sequence=.disable ∨ sequence=.faultReset

structure PassiveInvariant (p : Sys R × EnableWatch) : Prop where
  synced : Synced p.1 p.2.tally
  passive : p.2.waiting=true → p.1.rt.command.sequence=.none ∨
    p.1.rt.command.sequence=.enable ∨
    (p.1.rt.command.targetVelocity=0 ∧ Underway p.1.rt.command.sequence)
  latch : p.2.waiting=true → p.2.tally.started=true → p.2.tally.pending=0 →
    p.1.rt.command.sequence≠.none → p.1.th.sequenceDone=false

section

omit [LinearOrder R] [FloorRing R] [HasSqrt R]

theorem passiveInvariant_init (options : BackendOptions) (start : ClockNs) :
    PassiveInvariant ((sysInit options start : Sys R),EnableWatch.idle) :=
  ⟨synced_init options start,fun h => by simp [EnableWatch.idle] at h,
    fun h => by simp [EnableWatch.idle] at h⟩

/-- Requests as the passive law sees them: they keep sequence and velocity, end in no sequence,
start ENABLE, or start another sequence over the velocity they find. -/
theorem apply_passive (r : Request) (command : BackendCommand R) :
    (r.startsMotion=false ∧ r.advances=false ∧
      (r.apply command).sequence=command.sequence ∧
      (r.apply command).targetVelocity=command.targetVelocity) ∨
    (r.advances=true ∧ (r.apply command).sequence=.none) ∨
    (r.advances=true ∧ (r.apply command).sequence=.enable) ∨
    (r.startsMotion=false ∧ r.advances=true ∧ r.leavesEnable=true ∧
      Underway (r.apply command).sequence ∧
      (r.apply command).targetVelocity=command.targetVelocity) := by
  cases r with
  | keep => exact .inl ⟨rfl,rfl,rfl,rfl⟩
  | resetStatistics => exact .inl ⟨rfl,rfl,rfl,rfl⟩
  | stop => exact .inr (.inl ⟨rfl,rfl⟩)
  | faultReset => exact .inr (.inr (.inr ⟨rfl,rfl,rfl,.inr (.inr rfl),rfl⟩))
  | enable => exact .inr (.inr (.inl ⟨rfl,rfl⟩))
  | disable => exact .inr (.inr (.inr ⟨rfl,rfl,rfl,.inr (.inl rfl),rfl⟩))
  | setMode mode => exact .inr (.inl ⟨rfl,rfl⟩)
  | setControlword controlword => exact .inr (.inl ⟨rfl,rfl⟩)
  | setTargetPosition position => exact .inr (.inl ⟨rfl,rfl⟩)
  | setTargetVelocity velocity => exact .inr (.inl ⟨rfl,rfl⟩)
  | servoStop netCommand lms => exact .inr (.inl ⟨rfl,rfl⟩)
  | move netCommand lms relative => exact .inr (.inr (.inl ⟨rfl,rfl⟩))
  | jog netCommand lms => exact .inr (.inr (.inl ⟨rfl,rfl⟩))
  | home netCommand => exact .inr (.inr (.inl ⟨rfl,rfl⟩))

end

theorem enableWatch_client (w : EnableWatch) (s : Sys R) (e : Event) (h : ∀ inp,e≠.cycle inp) :
    w.observe s e=⟨w.tally.observe s e,w.waiting || (requestOf s e).any Request.startsMotion,
      w.enabled && !replacesCommand s e⟩ := by
  cases e with
  | receive now message => rfl
  | dispatch => rfl
  | cycle inp => exact absurd rfl (h inp)

theorem passiveInvariant_client (p : Sys R × EnableWatch) (e : Event) (he : ∀ inp,e≠.cycle inp)
    (hi : PassiveInvariant p) (hc : MotionsWaitAtRest p e) :
    PassiveInvariant (enableStep p e) := by
  obtain ⟨s,w⟩ := p
  obtain ⟨hth,hcmd⟩ := step_client s e he
  have hrest : w.waiting=true → (requestOf s e).any Request.leavesEnable=true →
      s.rt.command.targetVelocity=0 := by
    cases e with
    | receive now message => exact hc
    | dispatch => exact hc
    | cycle inp => exact absurd rfl (he inp)
  have hsync := synced_step s w.tally e hi.synced
  change PassiveInvariant (step s e,w.observe s e)
  rw [enableWatch_client w s e he]
  cases hr : requestOf s e with
  | none =>
    have ht : w.tally.observe s e=w.tally := by
      rw [tally_client s w.tally e he,replacesCommand_none s e hr]
      rfl
    rw [hr] at hcmd
    refine ⟨hsync,?_,?_⟩ <;> simp only [hcmd,hth,ht,Option.elim_none,Option.any_none,Bool.or_false]
    · exact hi.passive
    · exact hi.latch
  | some r =>
    rw [hr] at hcmd hrest
    have ht := tally_client s w.tally e he
    rw [replacesCommand_some s e r hr] at ht
    -- A request that replaces the command leaves the latch to the next restart.
    have hpend : r.advances=true → (w.tally.observe s e).pending≠0 := by
      intro ha
      rw [ht,ha]
      exact Nat.succ_ne_zero _
    rcases apply_passive r s.rt.command with
      ⟨hm,ha,hs,hv⟩|⟨ha,hs⟩|⟨ha,hs⟩|⟨hm,ha,hl,hs,hv⟩
    · rw [ha] at ht
      refine ⟨hsync,?_,?_⟩ <;>
        simp only [hcmd,hth,ht,hs,hv,hm,Option.elim_some,Option.any_some,Bool.or_false,
          Bool.false_eq_true,if_false]
      · exact hi.passive
      · exact hi.latch
    · refine ⟨hsync,fun _ => ?_,fun _ _ h => absurd h (hpend ha)⟩
      simp only [hcmd,Option.elim_some]
      exact Or.inl hs
    · refine ⟨hsync,fun _ => ?_,fun _ _ h => absurd h (hpend ha)⟩
      simp only [hcmd,Option.elim_some]
      exact Or.inr (Or.inl hs)
    · refine ⟨hsync,fun hw => ?_,fun _ _ h => absurd h (hpend ha)⟩
      have hwait : w.waiting=true := by simpa [hm] using hw
      simp only [hcmd,Option.elim_some]
      exact Or.inr (Or.inr ⟨hv.trans (hrest hwait (by simpa using hl)),hs⟩)

section

omit [LinearOrder R] [FloorRing R] [HasSqrt R]

theorem sequence_of_not_reached (s : Sys R) (inp : CycleInput)
    (h : (sequenceWord s inp).2=false) :
    (commandInForce s inp).sequence≠.none ∧ ¬SafetyStopFires s.rt inp.loopTimeNs := by
  have hn : (commandInForce s inp).sequence≠.none := by
    intro hn
    unfold sequenceWord at h
    rw [hn] at h
    cases h
  refine ⟨hn,fun hf => ?_⟩
  rw [(commandInForce_of_fires s inp hf).1] at hn
  exact hn rfl

theorem enable_reached (s : Sys R) (inp : CycleInput)
    (h : (commandInForce s inp).sequence=.enable) :
    (sequenceWord s inp).2=decide (inp.driveState=.operationEnabled) := by
  unfold sequenceWord cia402SequenceControlword
  rw [h]
  dsimp only
  split_ifs with h1 <;> simp [h1]

theorem trackActual_of_underway (s : Sys R) (inp : CycleInput) (safety done : Bool)
    (h : (sequenceWord s inp).2=false) (hu : Underway (commandInForce s inp).sequence) :
    trackActual (commandInForce s inp) safety inp.driveState done=true := by
  unfold trackActual
  rcases hu with hs|hs|hs
  · have hd : inp.driveState≠.operationEnabled := by
      simpa [enable_reached s inp hs] using h
    simp [hd]
  · simp [hs]
  · simp [hs]

end

theorem passiveInvariant_cycle (p : Sys R × EnableWatch) (inp : CycleInput)
    (hi : PassiveInvariant p) (hc : MotionsWaitAtRest p (.cycle inp)) :
    PassiveInvariant (enableStep p (.cycle inp)) ∧ PassiveLaw p (.cycle inp) := by
  obtain ⟨s,w⟩ := p
  obtain ⟨hb,hrest⟩ := hc
  have hsync := synced_step s w.tally (.cycle inp) hi.synced
  -- What holds of a cycle in which a motion still waits.
  have key : w.waiting=true → (sequenceWord s inp).2=false →
      commandInForce s inp=s.rt.command ∧ (commandInForce s inp).targetVelocity=0 ∧
      Underway (commandInForce s inp).sequence ∧ (sequenced s inp).sequenceDone=false := by
    intro hw hr
    obtain ⟨hn,hf⟩ := sequence_of_not_reached s inp hr
    have hcmd := (commandInForce_of_not_fires s inp hf).1
    have hpassive : (commandInForce s inp).targetVelocity=0 ∧
        Underway (commandInForce s inp).sequence := by
      rcases hi.passive hw with h|h|h
      · exact absurd (by rw [hcmd]; exact h) hn
      · -- A waiting ENABLE has not found the drive enabled.
        have hs : (commandInForce s inp).sequence=.enable := by rw [hcmd]; exact h
        rw [enable_reached s inp hs] at hr
        refine ⟨?_,Or.inl hs⟩
        rw [hcmd]
        by_contra hv
        exact of_decide_eq_false hr (hrest hw hv h hf)
      · rw [hcmd]
        exact h
    have hdone : (observed s inp).sequenceDone=false := by
      rw [observed_done_of_synced s w.tally inp hi.synced hb]
      split_ifs with hf
      · exact decide_eq_false hn
      · obtain ⟨h1,h2,_⟩ := not_fresh hf
        exact hi.latch hw h1 h2 (by rw [← hcmd]; exact hn)
    exact ⟨hcmd,hpassive.1,hpassive.2,by rw [sequenced_done,hdone,hr]; rfl⟩
  refine ⟨⟨hsync,?_,?_⟩,?_⟩
  · intro hw
    obtain ⟨hwait,hr⟩ : w.waiting=true ∧ (sequenceWord s inp).2=false := by
      simpa [enableStep,watched,EnableWatch.observe,cycleReport_reached] using hw
    obtain ⟨_,hv,hu,_⟩ := key hwait hr
    change (step s (.cycle inp)).rt.command.sequence=.none ∨
      (step s (.cycle inp)).rt.command.sequence=.enable ∨
      ((step s (.cycle inp)).rt.command.targetVelocity=0 ∧
        Underway (step s (.cycle inp)).rt.command.sequence)
    rw [(step_cycle_runtime s inp).1]
    exact Or.inr (Or.inr ⟨hv,hu⟩)
  · intro hw _ _ _
    obtain ⟨hwait,hr⟩ : w.waiting=true ∧ (sequenceWord s inp).2=false := by
      simpa [enableStep,watched,EnableWatch.observe,cycleReport_reached] using hw
    exact (step_cycle_latch s inp).1.trans (key hwait hr).2.2.2
  · intro hw hr
    obtain ⟨_,hv,hu,hdone⟩ := key hw hr
    by_cases hm : (commandInForce s inp).motion.type=.none
    · rw [(cycle_idle s inp hm).1]
      exact ⟨baseOutput_position_of_track s inp (trackActual_of_underway s inp _ _ hr hu),hv⟩
    · have hn : ¬ProfileRuns s inp := fun h => Bool.false_ne_true (hdone.symm.trans h.2.1)
      rw [(cycle_waiting s inp hm hn).1]
      exact ⟨baseOutput_position_of_motion s inp hm,hv⟩

/-- Passivity of every run in which motions wait at rest: until the sequence reports its
target, the cycles track the position and emit no velocity. -/
theorem passive_until_enabled_at_rest (options : BackendOptions) (start : ClockNs)
    (es : List Event)
    (hc : Along enableStep MotionsWaitAtRest
      ((sysInit options start : Sys R),EnableWatch.idle) es) :
    Along enableStep PassiveLaw ((sysInit options start : Sys R),EnableWatch.idle) es := by
  exact along_of_threads passiveInvariant_client passiveInvariant_cycle
    (fun _ _ _ => trivial) (fun _ => trivial) (passiveInvariant_init options start) hc

def jogWhileDisabledRun : List Event :=
  [.receive (clockAt 2000000) (.command { command := 21, targetVelocity := 100 }),
    .dispatch,
    .cycle { loopTimeNs := 3000000, statusword := 0x0021, actualPosition := 5 }]

/-- The cycle that switches the drive on already emits the full velocity of the jog. -/
theorem jog_velocity_before_enable :
    ¬∀ (options : BackendOptions) (start : ClockNs) (es : List Event),
      Along enableStep PassiveLaw ((sysInit options start : Sys ℚ),EnableWatch.idle) es := by
  intro h
  have hrun := h optionsInit ⟨1000000,by decide⟩ jogWhileDisabledRun
  exact absurd hrun (by decide +kernel)

/-- A move to a drive that takes the steps to OPERATION_ENABLED one cycle at a time, and a jog
once it is there. -/
def moveThenJogRun : List Event :=
  [.receive (clockAt 2000000) (.command { command := 20, targetPosition := 1000 }),
    .dispatch,
    .cycle { loopTimeNs := 3000000, statusword := 0x0040, actualPosition := 5 },
    .cycle { loopTimeNs := 4000000, statusword := 0x0021, actualPosition := 6 },
    .cycle { loopTimeNs := 5000000, statusword := 0x0023, actualPosition := 7 },
    .cycle { loopTimeNs := 6000000, statusword := 0x0027, actualPosition := 7 },
    .receive (clockAt 7000000) (.command { command := 21, targetVelocity := 100 }),
    .dispatch,
    .cycle { loopTimeNs := 8000000, statusword := 0x0027, actualPosition := 7 }]

theorem move_passive_until_enabled :
    Along enableStep MotionsWaitAtRest
      ((sysInit optionsInit ⟨1000000,by decide⟩ : Sys ℚ),EnableWatch.idle)
      moveThenJogRun ∧
    Along enableStep PassiveLaw
      ((sysInit optionsInit ⟨1000000,by decide⟩ : Sys ℚ),EnableWatch.idle)
      moveThenJogRun := by
  have hc : Along enableStep MotionsWaitAtRest
      ((sysInit optionsInit ⟨1000000,by decide⟩ : Sys ℚ),EnableWatch.idle)
      moveThenJogRun := by decide +kernel
  exact ⟨hc,passive_until_enabled_at_rest optionsInit ⟨1000000,by decide⟩ moveThenJogRun hc⟩

/-- A position move goes through the ENABLE sequence, and its latch is set only by a drive
that was enabled. -/
structure EnabledInvariant (p : Sys R × EnableWatch) : Prop where
  synced : Synced p.1 p.2.tally
  sequence : p.1.rt.command.motion.type=.profilePosition → p.1.rt.command.sequence=.enable
  latch : p.2.tally.started=true → p.2.tally.pending=0 → p.1.rt.command.sequence=.enable →
    p.1.th.sequenceDone=true → p.2.enabled=true

section

omit [LinearOrder R] [FloorRing R] [HasSqrt R]

theorem enabledInvariant_init (options : BackendOptions) (start : ClockNs) :
    EnabledInvariant ((sysInit options start : Sys R),EnableWatch.idle) :=
  ⟨synced_init options start,fun h => (by cases h),fun h => (by cases h)⟩

theorem Request.apply_position_sequence (r : Request) (command : BackendCommand R)
    (h : command.motion.type=.profilePosition → command.sequence=.enable)
    (hm : (r.apply command).motion.type=.profilePosition) :
    (r.apply command).sequence=.enable := by
  cases r with
  | keep => exact h hm
  | resetStatistics => exact h hm
  | move netCommand lms relative => rfl
  | _ => cases hm

end

theorem enabledInvariant_client (p : Sys R × EnableWatch) (e : Event) (he : ∀ inp,e≠.cycle inp)
    (hi : EnabledInvariant p) : EnabledInvariant (enableStep p e) := by
  obtain ⟨s,w⟩ := p
  obtain ⟨hth,hcmd⟩ := step_client s e he
  have hsync := synced_step s w.tally e hi.synced
  have ht := tally_client s w.tally e he
  change EnabledInvariant (step s e,w.observe s e)
  rw [enableWatch_client w s e he]
  refine ⟨hsync,?_,?_⟩
  · change (step s e).rt.command.motion.type=.profilePosition →
      (step s e).rt.command.sequence=.enable
    rw [hcmd]
    cases hr : requestOf s e with
    | none => exact hi.sequence
    | some r => exact r.apply_position_sequence s.rt.command hi.sequence
  · change (w.tally.observe s e).started=true → (w.tally.observe s e).pending=0 →
      (step s e).rt.command.sequence=.enable → (step s e).th.sequenceDone=true →
        (w.enabled && !replacesCommand s e)=true
    rw [ht,hth]
    cases ha : replacesCommand s e with
    | true => exact fun _ h => absurd h (Nat.succ_ne_zero _)
    | false =>
      rw [step_client_kept s e he ha]
      simpa using hi.latch

theorem enabledInvariant_cycle (p : Sys R × EnableWatch) (inp : CycleInput)
    (hi : EnabledInvariant p) (hc : MovesStayEnabled p (.cycle inp)) :
    EnabledInvariant (enableStep p (.cycle inp)) ∧ NoRunawayLaw p (.cycle inp) := by
  obtain ⟨s,w⟩ := p
  obtain ⟨hb,hstay⟩ := hc
  have hsync := synced_step s w.tally (.cycle inp) hi.synced
  have hseq : (commandInForce s inp).motion.type=.profilePosition →
      ¬SafetyStopFires s.rt inp.loopTimeNs ∧ (commandInForce s inp).sequence=.enable := by
    intro hm
    by_cases hf : SafetyStopFires s.rt inp.loopTimeNs
    · rw [(commandInForce_of_fires s inp hf).1] at hm
      cases hm
    · have hcmd := (commandInForce_of_not_fires s inp hf).1
      rw [hcmd] at hm ⊢
      exact ⟨hf,hi.sequence hm⟩
  -- An ENABLE latch found set was set in an enabled cycle of the same command.
  have hset : (commandInForce s inp).sequence=.enable → (observed s inp).sequenceDone=true →
      ¬Fresh s w.tally inp ∧ w.enabled=true := by
    intro hs hd
    rw [observed_done_of_synced s w.tally inp hi.synced hb] at hd
    split_ifs at hd with hf
    · rw [hs] at hd
      cases hd
    · obtain ⟨h1,h2,h3⟩ := not_fresh hf
      rw [(commandInForce_of_not_fires s inp h3).1] at hs
      exact ⟨hf,hi.latch h1 h2 hs hd⟩
  refine ⟨⟨hsync,?_,?_⟩,?_⟩
  · change (step s (.cycle inp)).rt.command.motion.type=.profilePosition →
      (step s (.cycle inp)).rt.command.sequence=.enable
    rw [(step_cycle_runtime s inp).1]
    exact fun hm => (hseq hm).2
  · intro _ _
    change (step s (.cycle inp)).rt.command.sequence=.enable →
      (step s (.cycle inp)).th.sequenceDone=true →
        ((w.enabled && !decide (SafetyStopFires s.rt inp.loopTimeNs)) ||
          decide (inp.driveState=.operationEnabled))=true
    rw [(step_cycle_runtime s inp).1,(step_cycle_latch s inp).1,sequenced_done]
    intro hs hd
    rw [enable_reached s inp hs,Bool.or_eq_true] at hd
    rcases hd with hd|hd
    · obtain ⟨hf,hen⟩ := hset hs hd
      simp [hen,(not_fresh hf).2.2]
    · rw [hd,Bool.or_true]
  · intro hdrive
    by_cases hm : (commandInForce s inp).motion.type=.none
    · rw [(cycle_idle s inp hm).1]
      apply baseOutput_position_of_track
      simp [trackActual,hdrive]
    by_cases hr : ProfileRuns s inp
    · rw [(cycle_runs s inp hr).1]
      by_cases hpos : (commandInForce s inp).motion.type=.profilePosition
      · -- The latch would have to be set, and the move would have failed.
        obtain ⟨hnf,hs⟩ := hseq hpos
        have hd : (observed s inp).sequenceDone=true := by
          have h := hr.2.1
          rw [sequenced_done,enable_reached s inp hs,decide_eq_false hdrive,Bool.or_false] at h
          exact h
        obtain ⟨hf,hen⟩ := hset hs hd
        have hcmd := (commandInForce_of_not_fires s inp hnf).1
        have hfail := hstay hdrive hnf (by rw [← hcmd]; exact hpos) hen
        have hob : (observed s inp).control=s.th.control := by
          rw [observed_of_synced s w.tally inp hi.synced hb,if_neg hf]
        have hseqfail := (sequenced_failed s inp).1
          ((congrArg Control.sequenceFailed hob).trans hfail)
        exact absurd (hseqfail.symm.trans hr.2.2) (by decide)
      · exact cia402ProfileStep_position _ _ _ _ _ _ hm hpos
    · rw [(cycle_waiting s inp hm hr).1]
      exact baseOutput_position_of_motion s inp hm

/-- No run in which enabled moves keep their drive commands a drive that is not enabled away
from where it is. -/
theorem no_runaway_while_enabled (options : BackendOptions) (start : ClockNs) (es : List Event)
    (hc : Along enableStep MovesStayEnabled
      ((sysInit options start : Sys R),EnableWatch.idle) es) :
    Along enableStep NoRunawayLaw ((sysInit options start : Sys R),EnableWatch.idle) es := by
  exact along_of_threads (fun p e he hi _ => enabledInvariant_client p e he hi)
    enabledInvariant_cycle (fun _ _ _ => trivial) (fun _ => trivial)
    (enabledInvariant_init options start) hc

def fastMove : NetCommand where
  command := 20
  targetPosition := 1000000
  velocity := 100000
  acceleration := 100000000

def faultedMoveRun : List Event :=
  [.receive (clockAt 2000000) (.command fastMove),
    .dispatch,
    .cycle { loopTimeNs := 3000000, statusword := 0x0027, actualPosition := 5 },
    .cycle { loopTimeNs := 4000000, statusword := 0x0008, actualPosition := 5 }]

/-- The latch keeps the profile running in FAULT: its second step is commanded to a drive that
stands at 5. -/
theorem faulted_move_runs_away :
    ¬∀ (options : BackendOptions) (start : ClockNs) (es : List Event),
      Along enableStep NoRunawayLaw ((sysInit options start : Sys ℚ),EnableWatch.idle) es := by
  intro h
  have hrun := h optionsInit ⟨1000000,by decide⟩ faultedMoveRun
  exact absurd hrun (by decide +kernel)

/-- A move that is enabled, disabled by the client and faults afterwards. -/
def disabledMoveRun : List Event :=
  [.receive (clockAt 2000000) (.command fastMove),
    .dispatch,
    .cycle { loopTimeNs := 3000000, statusword := 0x0023, actualPosition := 5 },
    .cycle { loopTimeNs := 4000000, statusword := 0x0027, actualPosition := 5 },
    .receive (clockAt 5000000) (.command { command := 11 }),
    .dispatch,
    .cycle { loopTimeNs := 6000000, statusword := 0x0008, actualPosition := 9 }]

theorem disabled_move_stays_put :
    Along enableStep MovesStayEnabled
      ((sysInit optionsInit ⟨1000000,by decide⟩ : Sys ℚ),EnableWatch.idle) disabledMoveRun ∧
    Along enableStep NoRunawayLaw
      ((sysInit optionsInit ⟨1000000,by decide⟩ : Sys ℚ),EnableWatch.idle) disabledMoveRun := by
  have hc : Along enableStep MovesStayEnabled
      ((sysInit optionsInit ⟨1000000,by decide⟩ : Sys ℚ),EnableWatch.idle) disabledMoveRun := by
    decide +kernel
  exact ⟨hc,no_runaway_while_enabled optionsInit ⟨1000000,by decide⟩ disabledMoveRun hc⟩

end EtherCATMaster.Backend
