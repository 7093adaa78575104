import EtherCATMaster.Backend.Generation
import EtherCATMaster.Motion.ProfileSpec

namespace EtherCATMaster.Backend

open EtherCATMaster.Motion EtherCATMaster.Framework
open scoped EtherCATMaster.Math

variable {R : Type}

/-- Requests after which a stopped axis may turn again: jogs, moves, homing and a write of
the target velocity. -/
def Request.releasesStop : Request → Bool
  | .move _ _ _ | .jog _ _ | .home _ | .setTargetVelocity _ => true
  | _ => false

/-- Requests that keep the stored velocity under a command without a ramp. -/
def Request.resumes : Request → Bool
  | .faultReset | .enable | .disable | .setMode _ | .setControlword _ | .setTargetPosition _ =>
      true
  | _ => false

/-- What an observer knows of the last stop: whether one has taken effect since the last
release, and whether the ramp of the servo stop in force is still to report done. -/
structure StopWatch where
  stopped : Bool
  ramping : Bool
  deriving DecidableEq, Repr

def StopWatch.idle : StopWatch := ⟨false,false⟩

/-- A stop without ramp takes effect at once; a request that replaces the command also ends
the ramp it had started. -/
def StopWatch.afterRequest (w : StopWatch) (r : Request) : StopWatch :=
  match r with
  | .stop => ⟨true,false⟩
  | .servoStop _ _ => ⟨w.stopped,true⟩
  | r =>
      if r.releasesStop then ⟨false,false⟩
      else if r.advances then ⟨w.stopped,false⟩
      else w

/-- While a stop is in effect, no request resumes a stored velocity. -/
def NothingResumed (p : Sys R × StopWatch) (e : Event) : Prop :=
  p.2.stopped=true → (requestOf p.1 e).any Request.resumes=true →
    p.1.rt.command.targetVelocity=0

instance (p : Sys R × StopWatch) (e : Event) : Decidable (NothingResumed p e) :=
  inferInstanceAs (Decidable (_ → _))

variable [LinearOrder R] [Field R] [FloorRing R] [HasSqrt R]

def StopWatch.afterCycle (w : StopWatch) (s : Sys R) (inp : CycleInput) : StopWatch :=
  if SafetyStopFires s.rt inp.loopTimeNs then ⟨true,false⟩
  else if w.ramping && (cycleReport s inp).profileDone then ⟨true,false⟩
  else w

def StopWatch.observe (w : StopWatch) (s : Sys R) : Event → StopWatch
  | .cycle inp => w.afterCycle s inp
  | e => (requestOf s e).elim w w.afterRequest

/-- The backend with the observer beside it. -/
def stopStep (p : Sys R × StopWatch) (e : Event) : Sys R × StopWatch :=
  watched step StopWatch.observe p e

/-- While a stop is in effect and no ramp is running, a cycle emits no velocity. -/
def StopLaw (p : Sys R × StopWatch) : Event → Prop
  | .cycle inp =>
      (p.2.afterCycle p.1 inp).stopped=true → (p.2.afterCycle p.1 inp).ramping=false →
        (emitted p.1 inp).targetVelocity=0
  | _ => True

instance (p : Sys R × StopWatch) : ∀ e,Decidable (StopLaw p e)
  | .cycle inp =>
      inferInstanceAs (Decidable ((p.2.afterCycle p.1 inp).stopped=true →
        (p.2.afterCycle p.1 inp).ramping=false → (emitted p.1 inp).targetVelocity=0))
  | .receive _ _ => isTrue trivial
  | .dispatch => isTrue trivial

/-- The stop ramp of the command in force has come to rest. -/
structure Settled (s : Sys R) : Prop where
  seen : s.th.commandGenerationSeen=s.rt.command.generation
  done : s.th.sequenceDone=true
  running : s.th.sequenceFailed=false
  active : s.th.profile.active=true
  type : s.th.profile.type=.servoStop
  velocity : s.th.profile.velocity=0

/-- Under a stop the record holds no velocity, or a stop ramp at rest overrides it. -/
structure StopInvariant (p : Sys R × StopWatch) : Prop where
  ramp : p.2.ramping=true → p.1.rt.command.motion.type=.servoStop
  rest : p.2.stopped=true → p.2.ramping=false →
    (p.1.rt.command.motion.type=.none ∧ p.1.rt.command.targetVelocity=0) ∨
      (p.1.rt.command.motion.type=.servoStop ∧ Settled p.1)

section

omit [LinearOrder R] [FloorRing R] [HasSqrt R]

theorem stopInvariant_init (options : BackendOptions) (start : ClockNs) :
    StopInvariant ((sysInit options start : Sys R),StopWatch.idle) := by
  refine ⟨fun h => ?_,fun h => ?_⟩ <;> simp [StopWatch.idle] at h

theorem afterRequest_cases (w : StopWatch) (r : Request) (command : BackendCommand R) :
    (w.afterRequest r=w ∧ (r.apply command).targetVelocity=command.targetVelocity ∧
      (r.apply command).motion=command.motion ∧
      (r.apply command).generation=command.generation) ∨
    (w.afterRequest r=⟨false,false⟩) ∨
    (w.afterRequest r=⟨true,false⟩ ∧ (r.apply command).targetVelocity=0 ∧
      (r.apply command).motion.type=.none) ∨
    (w.afterRequest r=⟨w.stopped,false⟩ ∧ r.resumes=true ∧
      (r.apply command).targetVelocity=command.targetVelocity ∧
      (r.apply command).motion.type=.none) ∨
    (w.afterRequest r=⟨w.stopped,true⟩ ∧ (r.apply command).motion.type=.servoStop) := by
  cases r with
  | keep => exact .inl ⟨rfl,rfl,rfl,rfl⟩
  | resetStatistics => exact .inl ⟨rfl,rfl,rfl,rfl⟩
  | stop => exact .inr (.inr (.inl ⟨rfl,rfl,rfl⟩))
  | faultReset => exact .inr (.inr (.inr (.inl ⟨rfl,rfl,rfl,rfl⟩)))
  | enable => exact .inr (.inr (.inr (.inl ⟨rfl,rfl,rfl,rfl⟩)))
  | disable => exact .inr (.inr (.inr (.inl ⟨rfl,rfl,rfl,rfl⟩)))
  | setMode mode => exact .inr (.inr (.inr (.inl ⟨rfl,rfl,rfl,rfl⟩)))
  | setControlword controlword => exact .inr (.inr (.inr (.inl ⟨rfl,rfl,rfl,rfl⟩)))
  | setTargetPosition position => exact .inr (.inr (.inr (.inl ⟨rfl,rfl,rfl,rfl⟩)))
  | setTargetVelocity velocity => exact .inr (.inl rfl)
  | move netCommand lms relative => exact .inr (.inl rfl)
  | jog netCommand lms => exact .inr (.inl rfl)
  | home netCommand => exact .inr (.inl rfl)
  | servoStop netCommand lms => exact .inr (.inr (.inr (.inr ⟨rfl,rfl⟩)))

theorem Settled.kept {s s' : Sys R} (k : Settled s) (hth : s'.th=s.th)
    (hg : s'.rt.command.generation=s.rt.command.generation) : Settled s' := by
  refine ⟨?_,?_,?_,?_,?_,?_⟩ <;> rw [hth]
  · rw [hg]
    exact k.seen
  · exact k.done
  · exact k.running
  · exact k.active
  · exact k.type
  · exact k.velocity

/-- Requests that keep command and generation keep what the invariant says of a stop. -/
theorem StopInvariant.kept {s s' : Sys R} {w : StopWatch} (hi : StopInvariant (s,w))
    (hth : s'.th=s.th) (hv : s'.rt.command.targetVelocity=s.rt.command.targetVelocity)
    (hm : s'.rt.command.motion=s.rt.command.motion)
    (hg : s'.rt.command.generation=s.rt.command.generation) : StopInvariant (s',w) := by
  refine ⟨?_,fun h1 h2 => ?_⟩
  · rw [hm]
    exact hi.ramp
  · rw [hm,hv]
    rcases hi.rest h1 h2 with h|⟨h,k⟩
    · exact Or.inl h
    · exact Or.inr ⟨h,k.kept hth hg⟩

end

theorem stopInvariant_client (p : Sys R × StopWatch) (e : Event) (he : ∀ inp,e≠.cycle inp)
    (hi : StopInvariant p) (hc : NothingResumed p e) : StopInvariant (stopStep p e) := by
  obtain ⟨s,w⟩ := p
  obtain ⟨hth,hcmd⟩ := step_client s e he
  have ho : w.observe s e=(requestOf s e).elim w w.afterRequest := by
    cases e with
    | receive now message => rfl
    | dispatch => rfl
    | cycle inp => exact absurd rfl (he inp)
  change StopInvariant (step s e,w.observe s e)
  cases hr : requestOf s e with
  | none =>
    rw [hr] at ho hcmd
    simp only [Option.elim_none] at ho hcmd
    rw [ho]
    exact hi.kept hth (by rw [hcmd]) (by rw [hcmd]) (by rw [hcmd])
  | some r =>
    rw [hr] at ho hcmd
    simp only [Option.elim_some] at ho hcmd
    rw [ho]
    rcases afterRequest_cases w r s.rt.command with
      ⟨hw,hv,hm,hg⟩|hw|⟨hw,hv,hm⟩|⟨hw,hs,hv,hm⟩|⟨hw,hm⟩
    · rw [hw]
      exact hi.kept hth (by rw [hcmd,hv]) (by rw [hcmd,hm]) (by rw [hcmd,hg])
    · rw [hw]
      refine ⟨fun h => ?_,fun h => ?_⟩ <;> simp at h
    · rw [hw]
      refine ⟨fun h => by simp at h,fun _ _ => Or.inl ?_⟩
      simp only [hcmd]
      exact ⟨hm,hv⟩
    · rw [hw]
      refine ⟨fun h => by simp at h,fun h _ => Or.inl ?_⟩
      have hz : s.rt.command.targetVelocity=0 := hc h (by rw [hr]; simpa using hs)
      simp only [hcmd]
      exact ⟨hm,hv.trans hz⟩
    · rw [hw]
      refine ⟨fun _ => ?_,fun _ h => by simp at h⟩
      simp only [hcmd]
      exact hm

section Ordered

variable [IsStrictOrderedRing R]

theorem settled_of_done (s : Sys R) (inp : CycleInput)
    (hm : (commandInForce s inp).motion.type=.servoStop) (hr : ProfileRuns s inp)
    (hd : (profileStepped s inp).2.2=true) :
    Settled (step s (.cycle inp)) ∧ (emitted s inp).targetVelocity=0 := by
  obtain ⟨hout,_,_,hctl⟩ := cycle_runs s inp hr
  have hp : (step s (.cycle inp)).th.profile=(profileStepped s inp).1 :=
    congrArg Control.profile hctl
  have hz := servoStop_done _ _ _ _ _ _ hm hd
  have ha := cia402ProfileStep_active (observed s inp).profile (commandInForce s inp).motion
    inp.actualPosition inp.actualVelocity s.rt.options.periodUs (baseOutput s inp) hr.1
  obtain ⟨hdone,hfailed,_⟩ := step_cycle_latch s inp
  refine ⟨⟨step_cycle_seen s inp,hdone.trans hr.2.1,hfailed.trans hr.2.2,?_,?_,?_⟩,?_⟩
  · rw [hp]
    exact ha.1
  · rw [hp]
    exact ha.2.trans hm
  · rw [hp]
    exact hz.2
  · rw [hout]
    exact hz.1

/-- A ramp at rest runs in every cycle, whatever velocity the record still holds. -/
theorem settled_cycle (s : Sys R) (inp : CycleInput) (hm : s.rt.command.motion.type=.servoStop)
    (hf : ¬SafetyStopFires s.rt inp.loopTimeNs) (k : Settled s) :
    Settled (step s (.cycle inp)) ∧ (emitted s inp).targetVelocity=0 := by
  obtain ⟨hcmd,_⟩ := commandInForce_of_not_fires s inp hf
  have hm' : (commandInForce s inp).motion.type=.servoStop := by rw [hcmd]; exact hm
  have hob : (observed s inp).control=s.th.control := by
    rw [observed_control,if_neg (by rw [hcmd,k.seen]; simp)]
  have hprof : (observed s inp).profile=s.th.profile := congrArg Control.profile hob
  have hdone : (sequenced s inp).sequenceDone=true := by
    rw [sequenced_done,show (observed s inp).sequenceDone=true from
      (congrArg Control.sequenceDone hob).trans k.done]
    rfl
  have hfailed : (sequenced s inp).sequenceFailed=false :=
    ((sequenced_failed s inp).2 hdone).trans
      ((congrArg Control.sequenceFailed hob).trans k.running)
  have hr : ProfileRuns s inp := ⟨by rw [hm']; decide,hdone,hfailed⟩
  apply settled_of_done s inp hm' hr
  unfold profileStepped
  rw [hprof]
  exact servoStop_settled _ _ _ _ _ _ hm' k.active k.type k.velocity

theorem ramp_done_cycle (s : Sys R) (inp : CycleInput) (hm : s.rt.command.motion.type=.servoStop)
    (hf : ¬SafetyStopFires s.rt inp.loopTimeNs) (hd : (cycleReport s inp).profileDone=true) :
    Settled (step s (.cycle inp)) ∧ (emitted s inp).targetVelocity=0 := by
  obtain ⟨hcmd,_⟩ := commandInForce_of_not_fires s inp hf
  have hm' : (commandInForce s inp).motion.type=.servoStop := by rw [hcmd]; exact hm
  have hn : (commandInForce s inp).motion.type≠.none := by rw [hm']; decide
  by_cases hr : ProfileRuns s inp
  · have hdone := (cycle_runs s inp hr).2.2.1
    exact settled_of_done s inp hm' hr (hdone.symm.trans hd)
  · rw [(cycle_waiting s inp hn hr).2.2.1] at hd
    cases hd

theorem stopInvariant_cycle (p : Sys R × StopWatch) (inp : CycleInput) (hi : StopInvariant p) :
    StopInvariant (stopStep p (.cycle inp)) ∧ StopLaw p (.cycle inp) := by
  obtain ⟨s,w⟩ := p
  obtain ⟨hcmd,_⟩ := step_cycle_runtime s inp
  change StopInvariant (step s (.cycle inp),w.afterCycle s inp) ∧
    ((w.afterCycle s inp).stopped=true → (w.afterCycle s inp).ramping=false →
      (emitted s inp).targetVelocity=0)
  by_cases hf : SafetyStopFires s.rt inp.loopTimeNs
  · -- A safe stop: the record is halted and the base output carries its zero velocity.
    have hc := (commandInForce_of_fires s inp hf).1
    have hw : w.afterCycle s inp=⟨true,false⟩ := by simp [StopWatch.afterCycle,hf]
    have hm : (commandInForce s inp).motion.type=.none := by rw [hc]; rfl
    have hv : (commandInForce s inp).targetVelocity=0 := by rw [hc]; rfl
    rw [hw]
    refine ⟨⟨fun h => by simp at h,fun _ _ => Or.inl ?_⟩,fun _ _ => ?_⟩
    · simp only [hcmd]
      exact ⟨hm,hv⟩
    · rw [(cycle_idle s inp hm).1]
      exact hv
  have hc := (commandInForce_of_not_fires s inp hf).1
  have hcmd' : (step s (.cycle inp)).rt.command=s.rt.command := hcmd.trans hc
  by_cases hd : (w.ramping && (cycleReport s inp).profileDone)=true
  · -- The ramp in force reports done.
    have hw : w.afterCycle s inp=⟨true,false⟩ := by simp [StopWatch.afterCycle,hf,hd]
    rw [Bool.and_eq_true] at hd
    have hm := hi.ramp hd.1
    obtain ⟨hset,hz⟩ := ramp_done_cycle s inp hm hf hd.2
    rw [hw]
    refine ⟨⟨fun h => by simp at h,fun _ _ => Or.inr ⟨?_,hset⟩⟩,fun _ _ => hz⟩
    rw [hcmd']
    exact hm
  -- The observer is unchanged.
  have hw : w.afterCycle s inp=w := by simp [StopWatch.afterCycle,hf,hd]
  rw [hw]
  have hlaw : w.stopped=true → w.ramping=false → (emitted s inp).targetVelocity=0 ∧
      ((s.rt.command.motion.type=.none ∧ s.rt.command.targetVelocity=0) ∨
        (s.rt.command.motion.type=.servoStop ∧ Settled (step s (.cycle inp)))) := by
    intro h1 h2
    rcases hi.rest h1 h2 with ⟨hm,hv⟩|⟨hm,k⟩
    · refine ⟨?_,Or.inl ⟨hm,hv⟩⟩
      rw [(cycle_idle s inp (by rw [hc]; exact hm)).1]
      change (commandInForce s inp).targetVelocity=0
      rw [hc]
      exact hv
    · obtain ⟨hset,hz⟩ := settled_cycle s inp hm hf k
      exact ⟨hz,Or.inr ⟨hm,hset⟩⟩
  refine ⟨⟨?_,fun h1 h2 => ?_⟩,fun h1 h2 => (hlaw h1 h2).1⟩ <;> simp only [hcmd']
  · exact hi.ramp
  · exact (hlaw h1 h2).2

end Ordered

/-- A jog, a servo stop that reports done at once, and a servo enable. -/
def staleVelocityRun : List Event :=
  [.receive (clockAt 2000000) (.command { command := 21, targetVelocity := 100 }),
    .dispatch,
    .receive (clockAt 3000000) (.command { command := 23 }),
    .dispatch,
    .cycle { loopTimeNs := 4000000, statusword := 0x0027, actualPosition := 5 },
    .receive (clockAt 5000000) (.command { command := 10 }),
    .dispatch,
    .cycle { loopTimeNs := 6000000, statusword := 0x0027, actualPosition := 5 }]

/-- A jog whose servo stop comes to rest and is kept there before a stop clears its velocity;
an enable and a disable follow. -/
def clearedStopRun : List Event :=
  [.receive (clockAt 2000000) (.command { command := 21, targetVelocity := 100 }),
    .dispatch,
    .receive (clockAt 3000000) (.command { command := 23 }),
    .dispatch,
    .cycle { loopTimeNs := 4000000, statusword := 0x0027, actualPosition := 5 },
    .cycle { loopTimeNs := 5000000, statusword := 0x0021, actualPosition := 5 },
    .receive (clockAt 6000000) (.command { command := 2 }),
    .dispatch,
    .receive (clockAt 7000000) (.command { command := 10 }),
    .dispatch,
    .cycle { loopTimeNs := 8000000, statusword := 0x0027, actualPosition := 5 },
    .receive (clockAt 9000000) (.command { command := 11 }),
    .dispatch,
    .cycle { loopTimeNs := 10000000, statusword := 0x0027, actualPosition := 5 }]

end EtherCATMaster.Backend
