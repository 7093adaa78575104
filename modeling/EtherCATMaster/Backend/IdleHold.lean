import EtherCATMaster.Backend.Generation

namespace EtherCATMaster.Backend

open EtherCATMaster.Motion EtherCATMaster.Framework
open scoped EtherCATMaster.Math

variable {R : Type}

/-- What is remembered of the previous cycle. -/
structure PreviousCycle where
  driveState : Cia402State
  actualPosition : Int32
  holding : Bool
  targetPosition : Int32
  deriving DecidableEq, Repr

/-- Observer of the idle hold. `reached` and `tracked` speak of the cycles since the current
command generation: whether one has found the sequence at its target, and the position sampled
by the last one that tracked. -/
structure HoldWatch where
  tally : Tally
  reached : Bool
  tracked : Option Int32
  previous : Option PreviousCycle
  deriving DecidableEq, Repr

def HoldWatch.idle : HoldWatch := ⟨Tally.zero,false,none,none⟩

def HoldWatch.reachedBefore (w : HoldWatch) (s : Sys R) (inp : CycleInput) : Bool :=
  if SafetyStopFires s.rt inp.loopTimeNs then false else w.reached

def HoldWatch.trackedBefore (w : HoldWatch) (s : Sys R) (inp : CycleInput) : Option Int32 :=
  if SafetyStopFires s.rt inp.loopTimeNs then none else w.tracked

variable [Field R]

/-- The cycle tracks: safety stop, drive not enabled, enable not done, a sequence that takes
the drive out of operation, or nothing tracked yet in this generation. -/
def Tracks (w : HoldWatch) (s : Sys R) (inp : CycleInput) : Prop :=
  (checkClientTimeout s.rt inp.loopTimeNs).safetyStopActive=true ∨
  inp.driveState≠.operationEnabled ∨
  ((commandInForce s inp).sequence=.enable ∧ w.reachedBefore s inp=false) ∨
  (commandInForce s inp).sequence=.disable ∨
  (commandInForce s inp).sequence=.faultReset ∨
  w.trackedBefore s inp=none

instance (w : HoldWatch) (s : Sys R) (inp : CycleInput) : Decidable (Tracks w s inp) :=
  inferInstanceAs (Decidable (_ ∨ _))

def HoldWatch.trackedNow (w : HoldWatch) (s : Sys R) (inp : CycleInput) : Option Int32 :=
  if Tracks w s inp then some inp.actualPosition else w.trackedBefore s inp

variable [LinearOrder R] [FloorRing R] [HasSqrt R]

def HoldWatch.observe (w : HoldWatch) (s : Sys R) : Event → HoldWatch
  | .cycle inp =>
      ⟨w.tally.observe s (.cycle inp),
        w.reachedBefore s inp || (cycleReport s inp).sequenceTargetReached,
        if (commandInForce s inp).motion.type=.none then w.trackedNow s inp
        else w.trackedBefore s inp,
        some ⟨inp.driveState,inp.actualPosition,
          (commandInForce s inp).motion.type=.none ∧ ¬Tracks w s inp,
          (emitted s inp).targetPosition⟩⟩
  | e =>
      if replacesCommand s e then ⟨w.tally.observe s e,false,none,w.previous⟩
      else { w with tally := w.tally.observe s e }

def holdStep (p : Sys R × HoldWatch) (e : Event) : Sys R × HoldWatch :=
  watched step HoldWatch.observe p e

/-- A cycle without motion emits the position tracked last, keeps it while it holds, and steps
into OPERATION_ENABLED from the position of this cycle or the one before. -/
def HoldLaw (p : Sys R × HoldWatch) : Event → Prop
  | .cycle inp => (commandInForce p.1 inp).motion.type=.none →
      p.2.trackedNow p.1 inp=some (emitted p.1 inp).targetPosition ∧
      (∀ c,p.2.previous=some c → c.holding=true → ¬Tracks p.2 p.1 inp →
        (emitted p.1 inp).targetPosition=c.targetPosition) ∧
      (inp.driveState=.operationEnabled →
        (∀ c,p.2.previous=some c → c.driveState≠.operationEnabled) →
        (emitted p.1 inp).targetPosition=inp.actualPosition ∨
        ∃ c,p.2.previous=some c ∧ (emitted p.1 inp).targetPosition=c.actualPosition)
  | _ => True

/-- The thread's hold is the observer's, once it has seen the generation. -/
structure HoldInvariant (p : Sys R × HoldWatch) : Prop where
  synced : Synced p.1 p.2.tally
  unseen : p.2.tally.started=false ∨ p.2.tally.pending≠0 →
    p.2.reached=false ∧ p.2.tracked=none
  done : p.2.tally.started=true → p.2.tally.pending=0 → p.1.th.sequenceDone=p.2.reached
  held : p.2.tally.started=true → p.2.tally.pending=0 → p.1.rt.command.motion.type=.none →
    p.1.th.idleHoldValid=true ∧ p.2.tracked=some p.1.th.idleHoldPosition
  prior : p.2.tally.started=true → ∃ c,p.2.previous=some c ∧
    (p.2.tally.pending=0 → p.1.rt.command.motion.type=.none →
      (c.driveState≠.operationEnabled → p.2.tracked=some c.actualPosition) ∧
      (c.holding=true → p.2.tracked=some c.targetPosition))

section

omit [LinearOrder R] [FloorRing R] [HasSqrt R]

theorem holdInvariant_init (options : BackendOptions) (start : ClockNs) :
    HoldInvariant ((sysInit options start : Sys R),HoldWatch.idle) :=
  ⟨synced_init options start,fun _ => ⟨rfl,rfl⟩,fun h => (by cases h),fun h => (by cases h),
    fun h => (by cases h)⟩

end

theorem holdWatch_client (w : HoldWatch) (s : Sys R) (e : Event) (h : ∀ inp,e≠.cycle inp) :
    w.observe s e=if replacesCommand s e then ⟨w.tally.observe s e,false,none,w.previous⟩
      else { w with tally := w.tally.observe s e } := by
  cases e with
  | receive now message => rfl
  | dispatch => rfl
  | cycle inp => exact absurd rfl (h inp)

theorem holdInvariant_client (p : Sys R × HoldWatch) (e : Event) (he : ∀ inp,e≠.cycle inp)
    (hi : HoldInvariant p) : HoldInvariant (holdStep p e) := by
  obtain ⟨s,w⟩ := p
  have hth := (step_client s e he).1
  have hsync := synced_step s w.tally e hi.synced
  have ht := tally_client s w.tally e he
  change HoldInvariant (step s e,w.observe s e)
  rw [holdWatch_client w s e he]
  cases ha : replacesCommand s e with
  | true =>
    rw [ha,if_pos rfl] at ht
    have hpend : (w.tally.observe s e).pending≠0 := by
      rw [ht]
      exact Nat.succ_ne_zero _
    rw [if_pos rfl]
    refine ⟨hsync,fun _ => ⟨rfl,rfl⟩,fun _ h => absurd h hpend,fun _ h => absurd h hpend,?_⟩
    intro hst
    rw [ht] at hst
    obtain ⟨c,hc,_⟩ := hi.prior hst
    exact ⟨c,hc,fun h => absurd h hpend⟩
  | false =>
    have hmotion : (step s e).rt.command.motion=s.rt.command.motion := by
      rw [step_client_kept s e he ha]
    rw [ha,if_neg Bool.false_ne_true] at ht
    rw [ht] at hsync
    rw [if_neg Bool.false_ne_true,ht]
    refine ⟨hsync,hi.unseen,?_,?_,?_⟩ <;> simp only [hth,hmotion]
    · exact hi.done
    · exact hi.held
    · exact hi.prior

section

omit [LinearOrder R] [FloorRing R] [HasSqrt R]

theorem before_of_fresh (p : Sys R × HoldWatch) (inp : CycleInput) (hi : HoldInvariant p)
    (hf : Fresh p.1 p.2.tally inp) :
    p.2.reachedBefore p.1 inp=false ∧ p.2.trackedBefore p.1 inp=none := by
  unfold HoldWatch.reachedBefore HoldWatch.trackedBefore
  split_ifs with hs
  · exact ⟨rfl,rfl⟩
  · rcases hf with h|h|h
    · exact hi.unseen (Or.inl h)
    · exact hi.unseen (Or.inr h)
    · exact absurd h hs

theorem before_of_not_fresh (p : Sys R × HoldWatch) (inp : CycleInput) (hi : HoldInvariant p)
    (hf : ¬Fresh p.1 p.2.tally inp) :
    p.2.reachedBefore p.1 inp=p.1.th.sequenceDone ∧
      p.2.trackedBefore p.1 inp=p.2.tracked := by
  obtain ⟨h1,h2,h3⟩ := not_fresh hf
  unfold HoldWatch.reachedBefore HoldWatch.trackedBefore
  rw [if_neg h3,if_neg h3]
  exact ⟨(hi.done h1 h2).symm,rfl⟩

theorem observed_done_or (p : Sys R × HoldWatch) (inp : CycleInput) (hi : HoldInvariant p)
    (hb : p.2.tally.pending<2^32-1) :
    ((observed p.1 inp).sequenceDone || (sequenceWord p.1 inp).2)=
      (p.2.reachedBefore p.1 inp || (sequenceWord p.1 inp).2) := by
  rw [observed_done_of_synced p.1 p.2.tally inp hi.synced hb]
  by_cases hf : Fresh p.1 p.2.tally inp
  · rw [if_pos hf,(before_of_fresh p inp hi hf).1]
    by_cases hs : (commandInForce p.1 inp).sequence=.none
    · have hr : (sequenceWord p.1 inp).2=true := by
        unfold sequenceWord
        rw [hs]
        rfl
      rw [hr,Bool.or_true,Bool.or_true]
    · rw [decide_eq_false hs]
  · rw [if_neg hf,(before_of_not_fresh p inp hi hf).1]

/-- The tracked position is the one the thread emits and holds. -/
theorem trackedNow_eq (p : Sys R × HoldWatch) (inp : CycleInput) (hi : HoldInvariant p)
    (hb : p.2.tally.pending<2^32-1) (hm : (commandInForce p.1 inp).motion.type=.none) :
    p.2.trackedNow p.1 inp=some (heldIdle p.1 inp).2.1 := by
  obtain ⟨s,w⟩ := p
  have hctl := observed_of_synced s w.tally inp hi.synced hb
  rw [(heldIdle_idle s inp hm).2.2]
  change w.trackedNow s inp=_
  unfold HoldWatch.trackedNow
  by_cases hf : Fresh s w.tally inp
  · have hnone : w.trackedBefore s inp=none := (before_of_fresh (s,w) inp hi hf).2
    have hvalid : (observed s inp).idleHoldValid=false := by
      rw [if_pos hf] at hctl
      have h := congrArg Control.idleHoldValid hctl
      simp only [Control.restart,if_pos hm] at h
      exact h
    rw [if_pos (by simp [Tracks,hnone]),if_pos (by simp [hvalid])]
  · obtain ⟨h1,h2,h3⟩ := not_fresh hf
    have hcmd := (commandInForce_of_not_fires s inp h3).1
    obtain ⟨hreached,htracked⟩ : w.reachedBefore s inp=s.th.sequenceDone ∧
      w.trackedBefore s inp=w.tracked := before_of_not_fresh (s,w) inp hi hf
    obtain ⟨hvalid,hpos⟩ : s.th.idleHoldValid=true ∧ w.tracked=some s.th.idleHoldPosition :=
      hi.held h1 h2 (by rw [← hcmd]; exact hm)
    rw [if_neg hf] at hctl
    have hdone : (observed s inp).sequenceDone=s.th.sequenceDone :=
      congrArg Control.sequenceDone hctl
    have hvalid' : (observed s inp).idleHoldValid=true :=
      (congrArg Control.idleHoldValid hctl).trans hvalid
    have hpos' : (observed s inp).idleHoldPosition=s.th.idleHoldPosition :=
      congrArg Control.idleHoldPosition hctl
    -- Both tests read the same data now.
    have htest : Tracks w s inp ↔ (trackActual (commandInForce s inp)
        (checkClientTimeout s.rt inp.loopTimeNs).safetyStopActive inp.driveState
        (observed s inp).sequenceDone || !(observed s inp).idleHoldValid)=true := by
      rw [hdone,hvalid',Tracks,hreached,htracked,hpos]
      simp [trackActual,or_assoc]
    rw [htracked,hpos,hpos']
    by_cases ht : Tracks w s inp
    · rw [if_pos ht,if_pos (htest.mp ht)]
    · rw [if_neg ht,if_neg (fun h => ht (htest.mpr h))]

end

theorem holdInvariant_cycle (p : Sys R × HoldWatch) (inp : CycleInput) (hi : HoldInvariant p)
    (hb : p.2.tally.pending<2^32-1) :
    HoldInvariant (holdStep p (.cycle inp)) ∧ HoldLaw p (.cycle inp) := by
  have hout : (commandInForce p.1 inp).motion.type=.none →
      (emitted p.1 inp).targetPosition=(heldIdle p.1 inp).2.1 := by
    intro hm
    rw [(cycle_idle p.1 inp hm).1]
    rfl
  have hnow : (commandInForce p.1 inp).motion.type=.none →
      p.2.trackedNow p.1 inp=some (emitted p.1 inp).targetPosition := by
    intro hm
    rw [hout hm]
    exact trackedNow_eq p inp hi hb hm
  have hdone := observed_done_or p inp hi hb
  obtain ⟨s,w⟩ := p
  have hsync := synced_step s w.tally (.cycle inp) hi.synced
  have hcmd := (step_cycle_runtime s inp).1
  have hhold := step_cycle_hold s inp
  -- A cycle that does not track works on a generation the thread has seen.
  have hkept : ¬Tracks w s inp → ¬Fresh s w.tally inp := by
    intro ht hf
    have hnone : w.trackedBefore s inp=none := (before_of_fresh (s,w) inp hi hf).2
    exact ht (by simp [Tracks,hnone])
  refine ⟨⟨hsync,fun h => by simp [holdStep,watched,HoldWatch.observe,Tally.observe] at h,
    fun _ _ => ?_,fun _ _ hm => ?_,fun _ => ?_⟩,fun hm => ⟨hnow hm,?_,?_⟩⟩
  · change (step s (.cycle inp)).th.sequenceDone=
      (w.reachedBefore s inp || (cycleReport s inp).sequenceTargetReached)
    rw [(step_cycle_latch s inp).1,sequenced_done,cycleReport_reached]
    exact hdone
  · change (step s (.cycle inp)).rt.command.motion.type=.none at hm
    rw [hcmd] at hm
    change (step s (.cycle inp)).th.idleHoldValid=true ∧
      (if (commandInForce s inp).motion.type=.none then w.trackedNow s inp
        else w.trackedBefore s inp)=some (step s (.cycle inp)).th.idleHoldPosition
    obtain ⟨hv,hp,_⟩ := heldIdle_idle s inp hm
    rw [if_pos hm,hhold.1,hhold.2,← hp]
    exact ⟨hv,(hnow hm).trans (congrArg some (hout hm))⟩
  · refine ⟨_,rfl,fun _ hm => ?_⟩
    change (step s (.cycle inp)).rt.command.motion.type=.none at hm
    rw [hcmd] at hm
    change (inp.driveState≠.operationEnabled →
        (if (commandInForce s inp).motion.type=.none then w.trackedNow s inp
          else w.trackedBefore s inp)=some inp.actualPosition) ∧
      (_ → (if (commandInForce s inp).motion.type=.none then w.trackedNow s inp
          else w.trackedBefore s inp)=some (emitted s inp).targetPosition)
    rw [if_pos hm]
    refine ⟨fun hd => ?_,fun _ => hnow hm⟩
    have ht : Tracks w s inp := Or.inr (Or.inl hd)
    rw [HoldWatch.trackedNow,if_pos ht]
  · intro c hc hh ht
    obtain ⟨h1,h2,h3⟩ := not_fresh (hkept ht)
    obtain ⟨c',hc',hprior⟩ := hi.prior h1
    have hsame : c'=c := Option.some.inj (hc'.symm.trans hc)
    subst hsame
    have hmotion : s.rt.command.motion.type=.none := by
      rw [← (commandInForce_of_not_fires s inp h3).1]
      exact hm
    have htracked := (hprior h2 hmotion).2 hh
    have hn := hnow hm
    change w.trackedNow s inp=_ at hn
    rw [HoldWatch.trackedNow,if_neg ht,(before_of_not_fresh (s,w) inp hi (hkept ht)).2] at hn
    exact Option.some.inj (hn.symm.trans htracked)
  · intro hd hprev
    have hn := hnow hm
    change w.trackedNow s inp=_ at hn
    by_cases ht : Tracks w s inp
    · rw [HoldWatch.trackedNow,if_pos ht] at hn
      exact .inl (Option.some.inj hn).symm
    · obtain ⟨h1,h2,h3⟩ := not_fresh (hkept ht)
      obtain ⟨c,hc,hprior⟩ := hi.prior h1
      have hmotion : s.rt.command.motion.type=.none := by
        rw [← (commandInForce_of_not_fires s inp h3).1]
        exact hm
      have htracked := (hprior h2 hmotion).1 (hprev c hc)
      rw [HoldWatch.trackedNow,if_neg ht,(before_of_not_fresh (s,w) inp hi (hkept ht)).2] at hn
      exact .inr ⟨c,hc,Option.some.inj (hn.symm.trans htracked)⟩

theorem holdWatch_tally (w : HoldWatch) (s : Sys R) (e : Event) :
    (w.observe s e).tally=w.tally.observe s e := by
  cases e with
  | cycle inp => rfl
  | receive now message => rfl
  | dispatch =>
    simp only [HoldWatch.observe]
    split_ifs <;> rfl

/-- Idle hold of every run with fewer than 2^32-1 accepted commands. -/
theorem idle_hold_without_jump (options : BackendOptions) (start : ClockNs) (es : List Event)
    (hc : (runFrom holdStep ((sysInit options start : Sys R),HoldWatch.idle) es).2.tally.accepted<
      2^32-1) :
    Along holdStep HoldLaw ((sysInit options start : Sys R),HoldWatch.idle) es := by
  have hbound := along_pending holdWatch_tally (Nat.le_refl _) hc
  exact along_of_threads (fun p e he hi _ => holdInvariant_client p e he hi) holdInvariant_cycle
    (fun _ _ _ => trivial) (fun _ => trivial) (holdInvariant_init options start) hbound

/-- A servo enable whose drive drifts until it is enabled, and then pushes against the hold. -/
def driftingEnableRun : List Event :=
  [.cycle { loopTimeNs := 2000000, statusword := 0x0040, actualPosition := 3 },
    .receive (clockAt 2500000) (.command { command := 10 }),
    .dispatch,
    .cycle { loopTimeNs := 3000000, statusword := 0x0021, actualPosition := 5 },
    .cycle { loopTimeNs := 4000000, statusword := 0x0023, actualPosition := 6 },
    .cycle { loopTimeNs := 5000000, statusword := 0x0027, actualPosition := 7 },
    .cycle { loopTimeNs := 6000000, statusword := 0x0027, actualPosition := 9 }]

theorem drifting_enable_holds :
    (runFrom holdStep ((sysInit optionsInit ⟨1000000,by decide⟩ : Sys ℚ),HoldWatch.idle)
      driftingEnableRun).2.tally.accepted=1 ∧
    Along holdStep HoldLaw ((sysInit optionsInit ⟨1000000,by decide⟩ : Sys ℚ),HoldWatch.idle)
      driftingEnableRun := by
  have hc : (runFrom holdStep ((sysInit optionsInit ⟨1000000,by decide⟩ : Sys ℚ),HoldWatch.idle)
      driftingEnableRun).2.tally.accepted=1 := by decide +kernel
  exact ⟨hc,idle_hold_without_jump optionsInit ⟨1000000,by decide⟩ driftingEnableRun
    (by rw [hc]; decide)⟩

end EtherCATMaster.Backend
