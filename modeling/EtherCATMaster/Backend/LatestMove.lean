import EtherCATMaster.Backend.Generation
import EtherCATMaster.Motion.ProfileSpec

namespace EtherCATMaster.Backend

open EtherCATMaster.Motion EtherCATMaster.Framework
open scoped EtherCATMaster.Math

variable {R : Type}

/-- Target of a move, as the client sent it. -/
structure MoveRequest where
  relative : Bool
  target : Int32
  deriving DecidableEq, Repr

def MoveRequest.goal (m : MoveRequest) (begun : Int32) : Int :=
  if m.relative then begun.toInt+m.target.toInt else m.target.toInt

/-- Observer of moves: the most recently accepted one, and the actual position of the cycle in
which the profile of the command in force began. -/
structure MoveWatch where
  tally : Tally
  move : Option MoveRequest
  begun : Option Int32
  deriving DecidableEq, Repr

def MoveWatch.idle : MoveWatch := ⟨Tally.zero,none,none⟩

def Request.moveRequest : Request → Option MoveRequest
  | .move netCommand _ relative => some ⟨relative,netCommand.targetPosition⟩
  | _ => none

def MoveWatch.begunBefore (w : MoveWatch) (s : Sys R) (inp : CycleInput) : Option Int32 :=
  if SafetyStopFires s.rt inp.loopTimeNs then none else w.begun

def MoveWatch.begunNow (w : MoveWatch) (s : Sys R) (inp : CycleInput) : Int32 :=
  (w.begunBefore s inp).getD inp.actualPosition

variable [Field R]

def MoveWatch.observe (w : MoveWatch) (s : Sys R) : Event → MoveWatch
  | .cycle inp =>
      ⟨w.tally.observe s (.cycle inp),w.move,
        if ProfileRuns s inp then some (w.begunNow s inp) else w.begunBefore s inp⟩
  | e =>
      ⟨w.tally.observe s e,((requestOf s e).bind Request.moveRequest).or w.move,
        if replacesCommand s e then none else w.begun⟩

theorem moveWatch_client (w : MoveWatch) (s : Sys R) (e : Event) (h : ∀ inp,e≠.cycle inp) :
    w.observe s e=⟨w.tally.observe s e,((requestOf s e).bind Request.moveRequest).or w.move,
      if replacesCommand s e then none else w.begun⟩ := by
  cases e with
  | receive now message => rfl
  | dispatch => rfl
  | cycle inp => exact absurd rfl (h inp)

theorem Request.apply_move (r : Request) (command : BackendCommand R) (latest : Option MoveRequest)
    (h : command.motion.type=.profilePosition →
      latest=some ⟨command.motion.relative,command.motion.targetPosition⟩)
    (hm : (r.apply command).motion.type=.profilePosition) :
    r.moveRequest.or latest=
      some ⟨(r.apply command).motion.relative,(r.apply command).motion.targetPosition⟩ := by
  cases r with
  | keep => exact h hm
  | resetStatistics => exact h hm
  | move netCommand lms relative => rfl
  | _ => cases hm

variable [HasSqrt R] [LinearOrder R] [FloorRing R]

def moveStep (p : Sys R × MoveWatch) (e : Event) : Sys R × MoveWatch :=
  watched step MoveWatch.observe p e

/-- A position profile that is reported done emits the goal of the latest move, and the first
profile step of a command finds nothing of an earlier profile. -/
def LatestMoveLaw (p : Sys R × MoveWatch) : Event → Prop
  | .cycle inp =>
      ((commandInForce p.1 inp).motion.type=.profilePosition →
        (cycleReport p.1 inp).profileDone=true →
        ∃ m,p.2.move=some m ∧
          (emitted p.1 inp).targetPosition=saturateI32 (m.goal (p.2.begunNow p.1 inp))) ∧
      (ProfileRuns p.1 inp → p.2.begunBefore p.1 inp=none →
        (observed p.1 inp).profile=cia402ProfileReset)
  | _ => True

/-- The thread's profile is that of the command in force, once it has seen the generation. -/
structure MoveInvariant (p : Sys R × MoveWatch) : Prop where
  synced : Synced p.1 p.2.tally
  move : p.1.rt.command.motion.type=.profilePosition →
    p.2.move=some ⟨p.1.rt.command.motion.relative,p.1.rt.command.motion.targetPosition⟩
  unseen : p.2.tally.started=false ∨ p.2.tally.pending≠0 → p.2.begun=none
  reset : p.2.tally.started=true → p.2.tally.pending=0 → p.2.begun=none →
    p.1.th.profile=cia402ProfileReset
  carries : p.2.tally.started=true → p.2.tally.pending=0 →
    p.1.rt.command.motion.type=.profilePosition → ∀ b,p.2.begun=some b →
    Carries p.1.th.profile p.1.rt.command.motion b

section

omit [HasSqrt R] [LinearOrder R] [FloorRing R]

theorem moveInvariant_init (options : BackendOptions) (start : ClockNs) :
    MoveInvariant ((sysInit options start : Sys R),MoveWatch.idle) :=
  ⟨synced_init options start,fun h => (by cases h),fun _ => rfl,fun h => (by cases h),
    fun h => (by cases h)⟩

end

theorem moveInvariant_client (p : Sys R × MoveWatch) (e : Event) (he : ∀ inp,e≠.cycle inp)
    (hi : MoveInvariant p) : MoveInvariant (moveStep p e) := by
  obtain ⟨s,w⟩ := p
  obtain ⟨hth,hcmd⟩ := step_client s e he
  have hsync := synced_step s w.tally e hi.synced
  have ht := tally_client s w.tally e he
  have hmove : (step s e).rt.command.motion.type=.profilePosition →
      ((requestOf s e).bind Request.moveRequest).or w.move=
        some ⟨(step s e).rt.command.motion.relative,
          (step s e).rt.command.motion.targetPosition⟩ := by
    rw [hcmd]
    cases hr : requestOf s e with
    | none => exact hi.move
    | some r => exact r.apply_move s.rt.command w.move hi.move
  change MoveInvariant (step s e,w.observe s e)
  rw [moveWatch_client w s e he]
  cases ha : replacesCommand s e with
  | true =>
    have hpend : (w.tally.observe s e).pending≠0 := by
      rw [ht,ha]
      exact Nat.succ_ne_zero _
    exact ⟨hsync,hmove,fun _ => rfl,fun _ h => absurd h hpend,fun _ h => absurd h hpend⟩
  | false =>
    have hmotion : (step s e).rt.command.motion=s.rt.command.motion := by
      rw [step_client_kept s e he ha]
    have ht' : w.tally.observe s e=w.tally := by
      rw [ht,ha]
      rfl
    refine ⟨hsync,hmove,?_,?_,?_⟩ <;>
      simp only [hth,hmotion,ht',Bool.false_eq_true,if_false]
    · exact hi.unseen
    · exact hi.reset
    · exact hi.carries

section

omit [HasSqrt R] [LinearOrder R] [FloorRing R]

theorem observed_profile (p : Sys R × MoveWatch) (inp : CycleInput) (hi : MoveInvariant p)
    (hb : p.2.tally.pending<2^32-1) :
    (p.2.begunBefore p.1 inp=none → (observed p.1 inp).profile=cia402ProfileReset) ∧
    ((commandInForce p.1 inp).motion.type=.profilePosition →
      ∀ b,p.2.begunBefore p.1 inp=some b →
        Carries (observed p.1 inp).profile (commandInForce p.1 inp).motion b) := by
  obtain ⟨s,w⟩ := p
  have hctl := observed_of_synced s w.tally inp hi.synced hb
  by_cases hf : Fresh s w.tally inp
  · rw [if_pos hf] at hctl
    have hnone : w.begunBefore s inp=none := by
      unfold MoveWatch.begunBefore
      split_ifs with hs
      · rfl
      · rcases hf with h|h|h
        · exact hi.unseen (Or.inl h)
        · exact hi.unseen (Or.inr h)
        · exact absurd h hs
    refine ⟨fun _ => congrArg Control.profile hctl,fun _ b hsome => ?_⟩
    exact absurd (hnone.symm.trans hsome) (Option.some_ne_none b).symm
  · obtain ⟨h1,h2,h3⟩ := not_fresh hf
    rw [if_neg hf] at hctl
    have hprof : (observed s inp).profile=s.th.profile := congrArg Control.profile hctl
    have hbegun : w.begunBefore s inp=w.begun := by
      unfold MoveWatch.begunBefore
      rw [if_neg h3]
    change (w.begunBefore s inp=none → _) ∧ _
    rw [hprof,(commandInForce_of_not_fires s inp h3).1,hbegun]
    exact ⟨hi.reset h1 h2,fun hm b hsome => hi.carries h1 h2 hm b hsome⟩

end

section Ordered

variable [IsStrictOrderedRing R]

theorem profileStepped_carries (p : Sys R × MoveWatch) (inp : CycleInput) (hi : MoveInvariant p)
    (hb : p.2.tally.pending<2^32-1)
    (hm : (commandInForce p.1 inp).motion.type=.profilePosition) :
    Carries (profileStepped p.1 inp).1 (commandInForce p.1 inp).motion
      (p.2.begunNow p.1 inp) ∧
    ((profileStepped p.1 inp).2.2=true → (profileStepped p.1 inp).2.1.targetPosition=
      saturateI32 ((commandInForce p.1 inp).motion.moveTarget (p.2.begunNow p.1 inp))) := by
  obtain ⟨hreset,hcarries⟩ := observed_profile p inp hi hb
  apply carries_step _ _ _ _ _ _ _ hm
  unfold MoveWatch.begunNow
  cases hbegun : p.2.begunBefore p.1 inp with
  | none =>
    rw [profileInForce_begins _ _ _ _ (by rw [hreset hbegun]; rfl)]
    exact carries_begin _ _ _ hm
  | some b =>
    have h := hcarries hm b hbegun
    rw [profileInForce_continues _ _ _ _ h.active (h.type.trans hm.symm)]
    exact h

section

omit [HasSqrt R] [LinearOrder R] [FloorRing R] [IsStrictOrderedRing R]

theorem move_inForce (p : Sys R × MoveWatch) (inp : CycleInput) (hi : MoveInvariant p)
    (hm : (commandInForce p.1 inp).motion.type=.profilePosition) :
    p.2.move=some ⟨(commandInForce p.1 inp).motion.relative,
      (commandInForce p.1 inp).motion.targetPosition⟩ := by
  by_cases hf : SafetyStopFires p.1.rt inp.loopTimeNs
  · rw [(commandInForce_of_fires p.1 inp hf).1] at hm
    cases hm
  · rw [(commandInForce_of_not_fires p.1 inp hf).1] at hm ⊢
    exact hi.move hm

end

theorem moveInvariant_cycle (p : Sys R × MoveWatch) (inp : CycleInput) (hi : MoveInvariant p)
    (hb : p.2.tally.pending<2^32-1) : MoveInvariant (moveStep p (.cycle inp)) := by
  obtain ⟨hreset,hcarries⟩ := observed_profile p inp hi hb
  have hstepped := profileStepped_carries p inp hi hb
  have hmove := move_inForce p inp hi
  obtain ⟨s,w⟩ := p
  have hsync := synced_step s w.tally (.cycle inp) hi.synced
  have hcmd := (step_cycle_runtime s inp).1
  have key : ∀ begun,(begun=none → (step s (.cycle inp)).th.profile=cia402ProfileReset) →
      ((commandInForce s inp).motion.type=.profilePosition → ∀ b,begun=some b →
        Carries (step s (.cycle inp)).th.profile (commandInForce s inp).motion b) →
      MoveInvariant (step s (.cycle inp),⟨w.tally.observe s (.cycle inp),w.move,begun⟩) := by
    intro begun h1 h2
    refine ⟨hsync,?_,fun h => by simp [Tally.observe] at h,fun _ _ => h1,fun _ _ => ?_⟩
    · simp only [hcmd]
      exact hmove
    · simp only [hcmd]
      exact h2
  change MoveInvariant (step s (.cycle inp),⟨w.tally.observe s (.cycle inp),w.move,
    if ProfileRuns s inp then some (w.begunNow s inp) else w.begunBefore s inp⟩)
  by_cases hm : (commandInForce s inp).motion.type=.none
  · have hp : (step s (.cycle inp)).th.profile=cia402ProfileReset :=
      congrArg Control.profile (cycle_idle s inp hm).2.2
    rw [if_neg (fun h => h.1 hm)]
    exact key _ (fun _ => hp) (fun h => by rw [hm] at h; cases h)
  by_cases hr : ProfileRuns s inp
  · have hp : (step s (.cycle inp)).th.profile=(profileStepped s inp).1 :=
      congrArg Control.profile (cycle_runs s inp hr).2.2.2
    rw [if_pos hr]
    refine key _ (fun h => by cases h) (fun hpos b hsome => ?_)
    rw [hp,← Option.some.inj hsome]
    exact (hstepped hpos).1
  · have hp : (step s (.cycle inp)).th.profile=(observed s inp).profile :=
      (congrArg Control.profile (cycle_waiting s inp hm hr).2.2.2).trans (sequenced_frame s inp).2
    rw [if_neg hr]
    refine key _ (fun h => ?_) (fun hpos b hsome => ?_)
    · rw [hp]
      exact hreset h
    · rw [hp]
      exact hcarries hpos b hsome

theorem latestMoveLaw_of_invariant (p : Sys R × MoveWatch) (inp : CycleInput)
    (hi : MoveInvariant p) (hb : p.2.tally.pending<2^32-1) : LatestMoveLaw p (.cycle inp) := by
  refine ⟨fun hm hd => ?_,fun _ hbegun => (observed_profile p inp hi hb).1 hbegun⟩
  have hn : (commandInForce p.1 inp).motion.type≠.none := by
    rw [hm]
    decide
  by_cases hr : ProfileRuns p.1 inp
  · obtain ⟨hout,_,hdone,_⟩ := cycle_runs p.1 inp hr
    refine ⟨_,move_inForce p inp hi hm,?_⟩
    rw [hout]
    exact (profileStepped_carries p inp hi hb hm).2 (hdone.symm.trans hd)
  · rw [(cycle_waiting p.1 inp hn hr).2.2.1] at hd
    cases hd

/-- The latest move wins in every run with fewer than 2^32-1 accepted commands. -/
theorem latest_move_wins (options : BackendOptions) (start : ClockNs) (es : List Event)
    (hc : (runFrom moveStep ((sysInit options start : Sys R),MoveWatch.idle) es).2.tally.accepted<
      2^32-1) :
    Along moveStep LatestMoveLaw ((sysInit options start : Sys R),MoveWatch.idle) es := by
  have htally : ∀ (w : MoveWatch) (s : Sys R) (e : Event),
      (w.observe s e).tally=w.tally.observe s e := by
    intro w s e
    cases e <;> rfl
  have hbound := along_pending htally (Nat.le_refl _) hc
  exact along_of_threads (fun p e he hi _ => moveInvariant_client p e he hi)
    (fun p inp hi hb => ⟨moveInvariant_cycle p inp hi hb,latestMoveLaw_of_invariant p inp hi hb⟩)
    (fun _ _ _ => trivial) (fun _ => trivial) (moveInvariant_init options start) hbound

end Ordered

/-- A move that is replaced by a relative one while it runs. -/
def replacedMoveRun : List Event :=
  [.receive (clockAt 2000000)
      (.command { command := 20, targetPosition := 900, velocity := 1000 }),
    .dispatch,
    .cycle { loopTimeNs := 3000000, statusword := 0x0027, actualPosition := 5 },
    .receive (clockAt 3500000)
      (.command { command := 24, targetPosition := 1, velocity := 10000000 }),
    .dispatch,
    .cycle { loopTimeNs := 4000000, statusword := 0x0027, actualPosition := 6 },
    .cycle { loopTimeNs := 5000000, statusword := 0x0027, actualPosition := 6 }]

theorem replaced_move_lands :
    (runFrom moveStep ((sysInit optionsInit ⟨1000000,by decide⟩ : Sys ℚ),MoveWatch.idle)
      replacedMoveRun).2.tally.accepted=2 ∧
    Along moveStep LatestMoveLaw
      ((sysInit optionsInit ⟨1000000,by decide⟩ : Sys ℚ),MoveWatch.idle) replacedMoveRun := by
  have hc : (runFrom moveStep ((sysInit optionsInit ⟨1000000,by decide⟩ : Sys ℚ),MoveWatch.idle)
      replacedMoveRun).2.tally.accepted=2 := by decide +kernel
  exact ⟨hc,latest_move_wins optionsInit ⟨1000000,by decide⟩ replacedMoveRun
    (by rw [hc]; decide)⟩

end EtherCATMaster.Backend
