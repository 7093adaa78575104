import EtherCATMaster.Backend.CycleSpec

namespace EtherCATMaster.Backend

open EtherCATMaster.Motion EtherCATMaster.Framework
open scoped EtherCATMaster.Math

variable {R : Type}

def SafeOutput (inp : CycleInput) (output : Cia402PdoOutput) : Prop :=
  output.controlword=0 ∧ output.targetVelocity=0 ∧ output.targetPosition=inp.actualPosition

instance (inp : CycleInput) (output : Cia402PdoOutput) : Decidable (SafeOutput inp output) :=
  inferInstanceAs (Decidable (_ ∧ _))

/-- A command record whose outputs are safe while the target position is tracked. -/
structure BackendCommand.Quiet (command : BackendCommand R) : Prop where
  controlword : command.controlword=0
  velocity : command.targetVelocity=0
  motion : command.motion.type=.none
  sequence : command.sequence=.none ∨ command.sequence=.disable

def Request.keepsQuiet : Request → Bool
  | .keep | .resetStatistics | .stop | .disable | .setMode _ | .setTargetPosition _ => true
  | .setControlword controlword => controlword=0
  | .setTargetVelocity velocity => velocity=0
  | .faultReset | .enable | .move _ _ _ | .jog _ _ | .home _ | .servoStop _ _ => false

variable [Field R]

theorem halted_quiet (command : BackendCommand R) : command.halted.Quiet :=
  ⟨rfl,rfl,rfl,Or.inl rfl⟩

theorem Request.apply_quiet (r : Request) (command : BackendCommand R)
    (hr : r.keepsQuiet=true) (h : command.Quiet) : (r.apply command).Quiet := by
  obtain ⟨hw,hv,hm,hs⟩ := h
  cases r with
  | keep => exact ⟨hw,hv,hm,hs⟩
  | resetStatistics => exact ⟨hw,hv,hm,hs⟩
  | stop => exact halted_quiet command
  | faultReset => simp [Request.keepsQuiet] at hr
  | enable => simp [Request.keepsQuiet] at hr
  | disable => exact ⟨hw,hv,rfl,Or.inr rfl⟩
  | setMode mode => exact ⟨hw,hv,rfl,Or.inl rfl⟩
  | setControlword controlword =>
    have hz : controlword=0 := by simpa [Request.keepsQuiet] using hr
    exact ⟨hz,hv,rfl,Or.inl rfl⟩
  | setTargetPosition position => exact ⟨hw,hv,rfl,Or.inl rfl⟩
  | setTargetVelocity velocity =>
    have hz : velocity=0 := by simpa [Request.keepsQuiet] using hr
    exact ⟨hw,hz,rfl,Or.inl rfl⟩
  | move netCommand lms relative => simp [Request.keepsQuiet] at hr
  | jog netCommand lms => simp [Request.keepsQuiet] at hr
  | home netCommand => simp [Request.keepsQuiet] at hr
  | servoStop netCommand lms => simp [Request.keepsQuiet] at hr

variable [LinearOrder R]

def ClientLate (s : Sys R) (inp : CycleInput) : Prop :=
  inp.loopTimeNs-s.rt.lastClientMessageNs>s.rt.options.clientTimeoutMs.toInt*1000000

instance (s : Sys R) (inp : CycleInput) : Decidable (ClientLate s inp) :=
  inferInstanceAs (Decidable (_>_))

/-- No request that leaves a quiet record otherwise is dispatched while the safety stop is
active: the thread that marked its message before the stop is not late with the request. -/
def NoLateRequest (s : Sys R) (e : Event) : Prop :=
  s.rt.safetyStopActive=true → (requestOf s e).all Request.keepsQuiet=true

instance (s : Sys R) (e : Event) : Decidable (NoLateRequest s e) :=
  inferInstanceAs (Decidable (_ → _))

variable [FloorRing R] [HasSqrt R]

/-- A cycle that finds the client late emits the safe outputs. -/
def HeartbeatLaw (s : Sys R) : Event → Prop
  | .cycle inp => ClientLate s inp → SafeOutput inp (emitted s inp)
  | _ => True

instance (s : Sys R) : ∀ e,Decidable (HeartbeatLaw s e)
  | .cycle inp => inferInstanceAs (Decidable (ClientLate s inp → SafeOutput inp (emitted s inp)))
  | .receive _ _ => isTrue trivial
  | .dispatch => isTrue trivial

/-- What a safety stop leaves behind: while it is active the record is quiet. -/
structure HeartbeatInvariant (s : Sys R) : Prop where
  timeout : s.rt.options.clientTimeoutMs>0
  marked : s.rt.lastClientMessageNs>0
  quiet : s.rt.safetyStopActive=true → s.rt.command.Quiet

section

omit [LinearOrder R] [FloorRing R] [HasSqrt R]

theorem heartbeatInvariant_init (options : BackendOptions) (start : ClockNs)
    (h : options.clientTimeoutMs>0) :
    HeartbeatInvariant (sysInit options start : Sys R) :=
  ⟨h,start.pos,fun hs => by simp [sysInit,runtimeInit] at hs⟩

theorem quiet_in_force (s : Sys R) (inp : CycleInput) (hi : HeartbeatInvariant s)
    (hs : (checkClientTimeout s.rt inp.loopTimeNs).safetyStopActive=true) :
    (commandInForce s inp).Quiet := by
  by_cases hf : SafetyStopFires s.rt inp.loopTimeNs
  · rw [(commandInForce_of_fires s inp hf).1]
    exact halted_quiet s.rt.command
  · have hn := commandInForce_of_not_fires s inp hf
    rw [hn.1]
    exact hi.quiet (hn.2.symm.trans hs)

end

theorem heartbeatInvariant_step (s : Sys R) (e : Event) (hi : HeartbeatInvariant s)
    (hc : NoLateRequest s e) : HeartbeatInvariant (step s e) := by
  cases e with
  | receive now message =>
    cases hp : s.client with
    | waiting =>
      simp only [step,hp]
      exact ⟨hi.timeout,now.pos,fun h => by simp [runtimeMarkClientMessage] at h⟩
    | received old =>
      simp only [step,hp]
      exact hi
  | dispatch =>
    cases hp : s.client with
    | waiting =>
      simp only [step,hp]
      exact hi
    | received message =>
      have hf := handleMessage_frame s.rt message
      simp only [step,hp]
      refine ⟨by rw [hf.1]; exact hi.timeout,by rw [hf.2.1]; exact hi.marked,fun h => ?_⟩
      have ha : s.rt.safetyStopActive=true := hf.2.2.symm.trans h
      have hr : message.request.keepsQuiet=true := by
        simpa [requestOf,hp] using hc ha
      change (handleMessage s.rt message).command.Quiet
      rw [handleMessage_command]
      exact message.request.apply_quiet s.rt.command hr (hi.quiet ha)
  | cycle inp =>
    obtain ⟨hcmd,hsafe,hlast,hopt,_⟩ := step_cycle_runtime s inp
    refine ⟨by rw [hopt]; exact hi.timeout,by rw [hlast]; exact hi.marked,fun h => ?_⟩
    rw [hcmd]
    exact quiet_in_force s inp hi (hsafe.symm.trans h)

theorem emitted_safe_of_quiet (s : Sys R) (inp : CycleInput)
    (hq : (commandInForce s inp).Quiet)
    (hs : (checkClientTimeout s.rt inp.loopTimeNs).safetyStopActive=true) :
    SafeOutput inp (emitted s inp) := by
  rw [(cycle_idle s inp hq.motion).1]
  refine ⟨?_,hq.velocity,?_⟩
  · change (cia402SequenceControlword (commandInForce s inp).sequence inp.driveState
      (commandInForce s inp).controlword).1=0
    rcases hq.sequence with h|h
    · rw [h]; exact hq.controlword
    · rw [h]; rfl
  · apply baseOutput_position_of_track
    simp [trackActual,hs]

section

omit [LinearOrder R] [FloorRing R] [HasSqrt R]

theorem safety_active_of_late (s : Sys R) (inp : CycleInput) (hi : HeartbeatInvariant s)
    (hl : ClientLate s inp) :
    (checkClientTimeout s.rt inp.loopTimeNs).safetyStopActive=true := by
  by_cases hf : SafetyStopFires s.rt inp.loopTimeNs
  · exact (commandInForce_of_fires s inp hf).2
  · rw [(commandInForce_of_not_fires s inp hf).2]
    by_contra hn
    exact hf ⟨⟨hi.timeout,hi.marked,hl⟩,by simpa using hn⟩

end

/-- Heartbeat safety of every run without a late request: whenever the loop time exceeds the
last client message by more than the timeout, the cycle emits the safe outputs. -/
theorem heartbeat_safe_without_late_request (options : BackendOptions) (start : ClockNs)
    (es : List Event) (hto : options.clientTimeoutMs>0)
    (hc : Along step NoLateRequest (sysInit options start : Sys R) es) :
    Along step HeartbeatLaw (sysInit options start : Sys R) es := by
  refine along_of_invariant heartbeatInvariant_step ?_ (heartbeatInvariant_init options start hto) hc
  intro s e hi _
  cases e with
  | receive now message => trivial
  | dispatch => trivial
  | cycle inp =>
    intro hl
    have hs := safety_active_of_late s inp hi hl
    exact emitted_safe_of_quiet s inp (quiet_in_force s inp hi hs) hs

/-- The client thread marks a jog, is held up for more than the timeout, and dispatches the
jog after the safe stop. -/
def lateJogRun : List Event :=
  [.receive (clockAt 2000000) (.command { command := 21, targetVelocity := 100 }),
    .cycle { loopTimeNs := 1002000001, statusword := 0x0023, actualPosition := 5 },
    .dispatch,
    .cycle { loopTimeNs := 1003000001, statusword := 0x0023, actualPosition := 5 }]

/-- The second late cycle finds the latch set, applies no stop and commands the drive with a
velocity of 100 and the enabling controlword. -/
theorem late_jog_breaks_heartbeat :
    ¬∀ (options : BackendOptions) (start : ClockNs) (es : List Event),
      options.clientTimeoutMs>0 → Along step HeartbeatLaw (sysInit options start : Sys ℚ) es := by
  intro h
  have hrun := h optionsInit ⟨1000000,by decide⟩ lateJogRun (by decide)
  exact absurd hrun (by decide +kernel)

/-- A late stop request is harmless. -/
def lateStopRun : List Event :=
  [.receive (clockAt 2000000) (.command { command := 2 }),
    .cycle { loopTimeNs := 1002000001, statusword := 0x0027, actualPosition := 5 },
    .dispatch,
    .cycle { loopTimeNs := 1003000001, statusword := 0x0027, actualPosition := 6 }]

theorem late_stop_heartbeat_safe :
    Along step NoLateRequest (sysInit optionsInit ⟨1000000,by decide⟩ : Sys ℚ) lateStopRun ∧
    Along step HeartbeatLaw (sysInit optionsInit ⟨1000000,by decide⟩ : Sys ℚ) lateStopRun := by
  have hc : Along step NoLateRequest
      (sysInit optionsInit ⟨1000000,by decide⟩ : Sys ℚ) lateStopRun := by decide +kernel
  exact ⟨hc,heartbeat_safe_without_late_request optionsInit ⟨1000000,by decide⟩ lateStopRun
    (by decide) hc⟩

end EtherCATMaster.Backend
