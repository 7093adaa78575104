import EtherCATMaster.Backend.StatisticsReset

namespace EtherCATMaster.Backend

open EtherCATMaster.Motion EtherCATMaster.Framework
open scoped EtherCATMaster.Math

variable {R : Type}

/-- The `int` counters of the loop, with the reset they were last cleared for. -/
structure Counters where
  cycle : Int32
  sequenceStart : Int32
  timingSamples : Int32
  wkcErrors : Int32
  stateErrors : Int32
  resetSeen : UInt32
  deriving DecidableEq, Repr

def RtThread.counters (th : RtThread R) : Counters :=
  ⟨th.cycle,th.sequenceStartCycle,th.statistics.timingSamples,th.statistics.wkcErrors,
    th.statistics.stateErrors,th.resetGenerationSeen⟩

def Steps (before after : Int32) : Prop := after=before ∨ after.toInt=before.toInt+1

instance (before after : Int32) : Decidable (Steps before after) :=
  inferInstanceAs (Decidable (_ ∨ _))

theorem timeLoop_counters (th : RtThread R) (options : BackendOptions) (inp : CycleInput) :
    (timeLoop th options inp).counters={ th.counters with
      timingSamples :=
        if th.cycle>0 then th.statistics.timingSamples+1 else th.statistics.timingSamples } := by
  unfold timeLoop
  split_ifs <;> rfl

theorem countErrors_counters (th : RtThread R) (inp : CycleInput) :
    ∃ wkc state : Int32,(countErrors th inp).counters=
      { th.counters with wkcErrors := wkc, stateErrors := state } ∧
      (wkc=th.statistics.wkcErrors ∨ wkc=th.statistics.wkcErrors+1) ∧
      (state=th.statistics.stateErrors ∨ state=th.statistics.stateErrors+1) := by
  unfold countErrors
  dsimp only
  split_ifs
  all_goals refine ⟨_,_,rfl,?_,?_⟩
  all_goals first | exact .inl rfl | exact .inr rfl

theorem tally_client_started (t : Tally) (s : Sys R) (e : Event) (h : ∀ inp,e≠.cycle inp) :
    (t.observe s e).started=t.started := by
  rw [tally_client s t e h]
  split_ifs <;> rfl

variable [LinearOrder R] [Field R]

theorem toInt_succ {x : Int32} {n : Nat} (hx : x.toInt ≤ n) (hn : n<2^31-1) :
    (x+1).toInt=x.toInt+1 := by
  have hlow := x.le_toInt
  rw [Int32.toInt_add]
  change (x.toInt+1).bmod (2^32)=x.toInt+1
  exact Int.bmod_eq_of_le (by omega) (by omega)

theorem toInt_sub_of_nonneg {x y : Int32} (hx : 0 ≤ x.toInt) (hy : 0 ≤ y.toInt) :
    (x-y).toInt=x.toInt-y.toInt := by
  have hx' := x.toInt_lt
  have hy' := y.toInt_lt
  rw [Int32.toInt_sub]
  exact Int.bmod_eq_of_le (by omega) (by omega)

/-- Counters of a thread that has run `n` cycles since they were cleared. The first of these is
not timed. -/
structure Counters.Within (c : Counters) (n : Nat) : Prop where
  cycle : c.cycle.toInt=n
  start : 0 ≤ c.sequenceStart.toInt
  timing : 0 ≤ c.timingSamples.toInt ∧ c.timingSamples.toInt ≤ (n-1 : Nat)
  wkc : 0 ≤ c.wkcErrors.toInt ∧ c.wkcErrors.toInt ≤ n
  state : 0 ≤ c.stateErrors.toInt ∧ c.stateErrors.toInt ≤ n

def compared (s : Sys R) (inp : CycleInput) : RtThread R :=
  observeGeneration (observeReset (timeLoop s.th s.rt.options inp) (commandInForce s inp))
    (commandInForce s inp)

def SeesReset (s : Sys R) (inp : CycleInput) : Prop :=
  (commandInForce s inp).resetGeneration≠s.th.resetGenerationSeen

instance (s : Sys R) (inp : CycleInput) : Decidable (SeesReset s inp) :=
  inferInstanceAs (Decidable (_≠_))

section

omit [LinearOrder R]

theorem observeGeneration_counters (th : RtThread R) (command : BackendCommand R) :
    (observeGeneration th command).counters={ th.counters with
      sequenceStart :=
        if command.generation≠th.commandGenerationSeen then th.cycle
        else th.sequenceStartCycle } := by
  unfold observeGeneration
  split_ifs <;> rfl

theorem compared_counters (s : Sys R) (inp : CycleInput) :
    (SeesReset s inp → ∃ start : Int32,(compared s inp).counters=
      ⟨0,start,0,0,0,(commandInForce s inp).resetGeneration⟩ ∧
      (start=0 ∨ start=s.th.sequenceStartCycle)) ∧
    (¬SeesReset s inp → ∃ start : Int32,(compared s inp).counters=
      { (timeLoop s.th s.rt.options inp).counters with sequenceStart := start } ∧
      (start=s.th.cycle ∨ start=s.th.sequenceStartCycle)) := by
  have ht := timeLoop_counters s.th s.rt.options inp
  have hseen : (timeLoop s.th s.rt.options inp).resetGenerationSeen=s.th.resetGenerationSeen :=
    congrArg Counters.resetSeen ht
  have hstart : (timeLoop s.th s.rt.options inp).sequenceStartCycle=s.th.sequenceStartCycle :=
    congrArg Counters.sequenceStart ht
  have hcycle : (timeLoop s.th s.rt.options inp).cycle=s.th.cycle := congrArg Counters.cycle ht
  constructor
  · intro h
    have hr : observeReset (timeLoop s.th s.rt.options inp) (commandInForce s inp)=
        { timeLoop s.th s.rt.options inp with
          resetGenerationSeen := (commandInForce s inp).resetGeneration
          statistics := LoopStatistics.cleared
          cycle := 0 } := by
      unfold observeReset
      rw [hseen]
      exact if_pos h
    refine ⟨_,by unfold compared; rw [hr,observeGeneration_counters]; rfl,?_⟩
    split_ifs
    · exact .inl rfl
    · exact .inr hstart
  · intro h
    have hr : observeReset (timeLoop s.th s.rt.options inp) (commandInForce s inp)=
        timeLoop s.th s.rt.options inp := by
      unfold observeReset
      rw [hseen]
      exact if_neg h
    refine ⟨_,by unfold compared; rw [hr,observeGeneration_counters],?_⟩
    split_ifs
    · exact .inl hcycle
    · exact .inr hstart

theorem sequenced_counters (s : Sys R) (inp : CycleInput) :
    (sequenced s inp).counters=(observed s inp).counters := by
  have ha : ∀ (th : RtThread R) (options : BackendOptions) (reached : Bool),
      (advanceSequence th options reached).counters=th.counters := by
    intro th options reached
    simp only [advanceSequence]
    split_ifs <;> rfl
  have hh : (heldIdle s inp).1.counters=(observed s inp).counters := by
    simp only [heldIdle,holdIdle]
    split_ifs <;> rfl
  exact (ha _ _ _).trans hh

end

variable [FloorRing R] [HasSqrt R]

theorem step_cycle_counters (s : Sys R) (inp : CycleInput) :
    (step s (.cycle inp)).th.counters=
      { (observed s inp).counters with cycle := (observed s inp).cycle+1 } := by
  have hm : ∀ (output : Cia402PdoOutput) (policy : TargetPolicy) (done : Bool),
      (runMotion (sequenced s inp) (commandInForce s inp) s.rt.options inp output policy
        done).1.counters=(sequenced s inp).counters := by
    intro output policy done
    simp only [runMotion]
    split_ifs <;> rfl
  have h := (hm (baseOutput s inp) (heldIdle s inp).2.2 s.th.profile.done).trans
    (sequenced_counters s inp)
  have hcycle := congrArg Counters.cycle h
  change ({ (runMotion (sequenced s inp) (commandInForce s inp) s.rt.options inp
    (baseOutput s inp) (heldIdle s inp).2.2 s.th.profile.done).1.counters with
      cycle := (runMotion (sequenced s inp) (commandInForce s inp) s.rt.options inp
        (baseOutput s inp) (heldIdle s inp).2.2 s.th.profile.done).1.cycle+1 } : Counters)=_
  rw [h]
  exact congrArg (fun c => ({ (observed s inp).counters with cycle := c+1 } : Counters)) hcycle

/-- No counter wraps in the cycle, and neither does the difference that the timeout is taken
from. -/
def NoOverflow (s : Sys R) (inp : CycleInput) : Prop :=
  Steps s.th.statistics.timingSamples
    (timeLoop s.th s.rt.options inp).statistics.timingSamples ∧
  Steps (compared s inp).statistics.wkcErrors (observed s inp).statistics.wkcErrors ∧
  Steps (compared s inp).statistics.stateErrors (observed s inp).statistics.stateErrors ∧
  (step s (.cycle inp)).th.cycle.toInt=(observed s inp).cycle.toInt+1 ∧
  (observed s inp).elapsed.toInt=
    (observed s inp).cycle.toInt-(observed s inp).sequenceStartCycle.toInt

instance (s : Sys R) (inp : CycleInput) : Decidable (NoOverflow s inp) :=
  inferInstanceAs (Decidable (_ ∧ _))

/-- Cycles that the thread has run when this one starts, since the statistics were last
cleared. -/
def cyclesBefore (n : Nat) (s : Sys R) (inp : CycleInput) : Nat := if SeesReset s inp then 0 else n

section

omit [FloorRing R] [HasSqrt R]

section

omit [LinearOrder R]

/-- Counters in bounds, once the generations are compared. -/
theorem compared_within (s : Sys R) (inp : CycleInput) (n : Nat) (h : s.th.counters.Within n) :
    Steps s.th.statistics.timingSamples
      (timeLoop s.th s.rt.options inp).statistics.timingSamples ∧
    (compared s inp).counters.cycle.toInt=cyclesBefore n s inp ∧
    0 ≤ (compared s inp).counters.sequenceStart.toInt ∧
    (0 ≤ (compared s inp).counters.timingSamples.toInt ∧
      (compared s inp).counters.timingSamples.toInt ≤ cyclesBefore n s inp) ∧
    (0 ≤ (compared s inp).counters.wkcErrors.toInt ∧
      (compared s inp).counters.wkcErrors.toInt ≤ cyclesBefore n s inp) ∧
    0 ≤ (compared s inp).counters.stateErrors.toInt ∧
      (compared s inp).counters.stateErrors.toInt ≤ cyclesBefore n s inp := by
  obtain ⟨hcycle,hstart,⟨ht0,htn⟩,hw,he⟩ := h
  have htimed := timeLoop_counters s.th s.rt.options inp
  have hmax := s.th.cycle.toInt_lt
  change s.th.cycle.toInt=n at hcycle
  change 0 ≤ s.th.sequenceStartCycle.toInt at hstart
  change 0 ≤ s.th.statistics.timingSamples.toInt at ht0
  change s.th.statistics.timingSamples.toInt ≤ _ at htn
  have htiming : (timeLoop s.th s.rt.options inp).statistics.timingSamples=
      if s.th.cycle>0 then s.th.statistics.timingSamples+1
      else s.th.statistics.timingSamples := congrArg Counters.timingSamples htimed
  -- A timed cycle is not the first one, so there is room for one more sample.
  have hsample : (timeLoop s.th s.rt.options inp).statistics.timingSamples.toInt=
      if s.th.cycle>0 then s.th.statistics.timingSamples.toInt+1
      else s.th.statistics.timingSamples.toInt := by
    rw [htiming]
    split_ifs with hpos
    · have hpos' : (0 : Int) < s.th.cycle.toInt := Int32.lt_iff_toInt_lt.mp hpos
      exact toInt_succ htn (by omega)
    · rfl
  have hsteps : Steps s.th.statistics.timingSamples
      (timeLoop s.th s.rt.options inp).statistics.timingSamples := by
    by_cases hpos : s.th.cycle>0
    · rw [if_pos hpos] at hsample
      exact .inr hsample
    · rw [if_neg hpos] at htiming
      exact .inl htiming
  refine ⟨hsteps,?_⟩
  by_cases hr : SeesReset s inp
  · obtain ⟨start,hc,hs⟩ := (compared_counters s inp).1 hr
    unfold cyclesBefore
    rw [hc,if_pos hr]
    refine ⟨rfl,?_,⟨Int.le_refl _,Int.le_refl _⟩,⟨Int.le_refl _,Int.le_refl _⟩,Int.le_refl _,
      Int.le_refl _⟩
    rcases hs with hs|hs
    · rw [hs]
      exact Int.le_refl _
    · rw [hs]
      exact hstart
  · obtain ⟨start,hc,hs⟩ := (compared_counters s inp).2 hr
    unfold cyclesBefore
    rw [hc,htimed,if_neg hr]
    refine ⟨hcycle,?_,⟨?_,?_⟩,hw,he⟩
    · rcases hs with hs|hs
      · rw [hs,hcycle]
        omega
      · rw [hs]
        exact hstart
    · rw [← htiming,hsample]
      split_ifs <;> omega
    · rw [← htiming,hsample]
      split_ifs with hpos
      · have hpos' : (0 : Int) < s.th.cycle.toInt := Int32.lt_iff_toInt_lt.mp hpos
        omega
      · omega

end

end

/-- One cycle on counters in bounds: nothing wraps, and the bounds move up by one. -/
theorem within_cycle (s : Sys R) (inp : CycleInput) (n : Nat) (h : s.th.counters.Within n)
    (hn : cyclesBefore n s inp<2^31-1) :
    NoOverflow s inp ∧ (step s (.cycle inp)).th.counters.Within (cyclesBefore n s inp+1) := by
  obtain ⟨hsteps,hcycle,hstart,ht,⟨hw0,hwn⟩,he0,hen⟩ := compared_within s inp n h
  change (compared s inp).cycle.toInt=_ at hcycle
  obtain ⟨wkc,state,hc,hwkc,hstate⟩ := countErrors_counters (compared s inp) inp
  change (observed s inp).counters=_ at hc
  have hcycle' : (observed s inp).cycle=(compared s inp).cycle := congrArg Counters.cycle hc
  have hstart' : (observed s inp).sequenceStartCycle=(compared s inp).sequenceStartCycle :=
    congrArg Counters.sequenceStart hc
  have hwkc' : (observed s inp).statistics.wkcErrors=wkc := congrArg Counters.wkcErrors hc
  have hstate' : (observed s inp).statistics.stateErrors=state :=
    congrArg Counters.stateErrors hc
  -- An error count grows by at most one, and from a value below the number of cycles.
  have count : ∀ before after : Int32,0 ≤ before.toInt → before.toInt ≤ cyclesBefore n s inp →
      (after=before ∨ after=before+1) →
      Steps before after ∧ 0 ≤ after.toInt ∧ after.toInt ≤ (cyclesBefore n s inp+1 : Nat) := by
    intro before after h0 hle hafter
    rcases hafter with ha|ha
    · rw [ha]
      exact ⟨.inl rfl,h0,by omega⟩
    · have hsucc := toInt_succ hle hn
      rw [ha]
      exact ⟨.inr hsucc,by omega,by omega⟩
  obtain ⟨hw,hw'⟩ := count _ _ hw0 hwn hwkc
  obtain ⟨he,he'⟩ := count _ _ he0 hen hstate
  have hsucc : ((observed s inp).cycle+1).toInt=(cyclesBefore n s inp+1 : Nat) := by
    rw [hcycle']
    rw [toInt_succ (Int.le_of_eq hcycle) hn]
    omega
  have hstep := step_cycle_counters s inp
  have hnext : (step s (.cycle inp)).th.cycle=(observed s inp).cycle+1 :=
    congrArg Counters.cycle hstep
  refine ⟨⟨hsteps,?_,?_,?_,?_⟩,?_⟩
  · rw [hwkc']
    exact hw
  · rw [hstate']
    exact he
  · rw [hnext,hsucc,hcycle']
    omega
  · refine toInt_sub_of_nonneg ?_ ?_
    · rw [hcycle']
      omega
    · rw [hstart']
      exact hstart
  · rw [hstep,hc]
    refine ⟨hsucc,hstart,⟨ht.1,?_⟩,hw',he'⟩
    exact ht.2

def Due (options : BackendOptions) (n : Nat) : Prop :=
  options.sequenceTimeoutMs.toInt*1000 ≤ n*options.periodUs.toInt

instance (options : BackendOptions) (n : Nat) : Decidable (Due options n) :=
  inferInstanceAs (Decidable (_ ≤ _))

theorem due_iff (options : BackendOptions) (n : Nat) (hp : 0 ≤ options.periodUs.toInt) :
    ((n : Int)*options.periodUs.toInt).tdiv 1000 ≥ options.sequenceTimeoutMs.toInt ↔
      Due options n := by
  have hnn : (0 : Int) ≤ (n : Int)*options.periodUs.toInt :=
    Int.mul_nonneg (Int.natCast_nonneg n) hp
  rw [Int.tdiv_eq_ediv_of_nonneg hnn]
  unfold Due
  omega

/-- Exact counts beside the thread: cycles since the statistics were cleared, the distance of
the next cycle from the start of the sequence, and whether its target has been reached. -/
structure LongWatch where
  tally : Tally
  cycles : Nat
  next : Nat
  reached : Bool
  deriving DecidableEq, Repr

def LongWatch.idle : LongWatch := ⟨Tally.zero,0,0,false⟩

/-- Distance of this cycle from the start of its sequence. -/
def LongWatch.distance (w : LongWatch) (s : Sys R) (inp : CycleInput) : Nat :=
  if Fresh s w.tally inp then 0 else w.next

def LongWatch.reachedBefore (w : LongWatch) (s : Sys R) (inp : CycleInput) : Bool :=
  !decide (Fresh s w.tally inp) && w.reached

def LongWatch.observe (w : LongWatch) (s : Sys R) : Event → LongWatch
  | .cycle inp =>
      ⟨w.tally.observe s (.cycle inp),cyclesBefore w.cycles s inp+1,w.distance s inp+1,
        w.reachedBefore s inp || (cycleReport s inp).sequenceTargetReached⟩
  | e => { w with tally := w.tally.observe s e }

def longStep (p : Sys R × LongWatch) (e : Event) : Sys R × LongWatch :=
  watched step LongWatch.observe p e

/-- The cycle is the first whose distance from the start of a pending sequence reaches the
timeout. -/
def TimesOut (p : Sys R × LongWatch) (inp : CycleInput) : Prop :=
  p.2.reachedBefore p.1 inp=false ∧ (cycleReport p.1 inp).sequenceTargetReached=false ∧
    Due p.1.rt.options (p.2.distance p.1 inp) ∧
    ∀ m,m<p.2.distance p.1 inp → ¬Due p.1.rt.options m

instance (p : Sys R × LongWatch) (inp : CycleInput) : Decidable (TimesOut p inp) :=
  inferInstanceAs (Decidable (_ ∧ _))

/-- No counter wraps, and a sequence is declared failed in the cycle in which it times out. -/
def LongRunLaw (p : Sys R × LongWatch) : Event → Prop
  | .cycle inp => NoOverflow p.1 inp ∧ (declaresFailed p.1 inp=true ↔ TimesOut p inp)
  | _ => True

/-- Less than 2^31-1 cycles since the statistics were cleared, no reset in a pending sequence,
and less than 2^32-1 commands since the last cycle. -/
def WithinLongRun (p : Sys R × LongWatch) : Event → Prop
  | .cycle inp =>
      cyclesBefore p.2.cycles p.1 inp<2^31-1 ∧ ¬ResetWhilePending p.1 inp ∧
        p.2.tally.pending<2^32-1
  | _ => True

instance (p : Sys R × LongWatch) : ∀ e,Decidable (WithinLongRun p e)
  | .cycle _ => inferInstanceAs (Decidable (_ ∧ _))
  | .receive _ _ => isTrue trivial
  | .dispatch => isTrue trivial

/-- The counters are the exact counts, and a pending sequence has not been due before. -/
structure LongInvariant (options : BackendOptions) (p : Sys R × LongWatch) : Prop where
  sameOptions : p.1.rt.options=options
  synced : Synced p.1 p.2.tally
  counters : p.1.th.counters.Within p.2.cycles
  done : p.2.tally.started=true → p.1.th.sequenceDone=p.2.reached
  elapsed : p.2.tally.started=true → p.1.th.Pending → p.1.th.elapsed.toInt=p.2.next
  failed : p.2.tally.started=true → p.2.reached=false →
    (p.1.th.sequenceFailed=false ↔ ∀ m,m<p.2.next → ¬Due options m)

section

omit [LinearOrder R] [FloorRing R] [HasSqrt R]

theorem longInvariant_init (options : BackendOptions) (start : ClockNs) :
    LongInvariant options ((sysInit options start : Sys R),LongWatch.idle) :=
  ⟨rfl,synced_init options start,
    ⟨rfl,Int.le_refl _,⟨Int.le_refl _,Int.le_refl _⟩,⟨Int.le_refl _,Int.le_refl _⟩,
      Int.le_refl _,Int.le_refl _⟩,
    fun h => (by cases h),fun h => (by cases h),fun h => (by cases h)⟩

end

theorem step_client_options (s : Sys R) (e : Event) (h : ∀ inp,e≠.cycle inp) :
    (step s e).rt.options=s.rt.options := by
  cases e with
  | receive now message =>
    cases hp : s.client with
    | waiting =>
      simp only [step,hp]
      rfl
    | received other => simp only [step,hp]
  | dispatch => exact (step_dispatch s).1
  | cycle inp => exact absurd rfl (h inp)

theorem longInvariant_client (options : BackendOptions) (p : Sys R × LongWatch) (e : Event)
    (he : ∀ inp,e≠.cycle inp) (hi : LongInvariant options p) :
    LongInvariant options (longStep p e) := by
  obtain ⟨s,w⟩ := p
  have hth := (step_client s e he).1
  have hst := tally_client_started w.tally s e he
  have hw : w.observe s e={ w with tally := w.tally.observe s e } := by
    cases e with
    | receive now message => rfl
    | dispatch => rfl
    | cycle inp => exact absurd rfl (he inp)
  obtain ⟨ho,hs,hc,hd,hel,hf⟩ := hi
  change LongInvariant options (step s e,w.observe s e)
  rw [hw]
  refine ⟨(step_client_options s e he).trans ho,synced_step s w.tally e hs,?_,?_,?_,?_⟩
  · rw [hth]
    exact hc
  · rw [hth,hst]
    exact hd
  · rw [hth,hst]
    exact hel
  · rw [hth,hst]
    exact hf

section

omit [LinearOrder R] [FloorRing R] [HasSqrt R]

theorem not_pending_of_collision (s : Sys R) (t : Tally) (inp : CycleInput) (hs : Synced s t)
    (hb : t.pending<2^32-1) (hfresh : Fresh s t inp)
    (hg : (commandInForce s inp).generation=s.th.commandGenerationSeen) : ¬s.th.Pending := by
  intro hp
  cases hst : t.started with
  | false =>
    have hd : s.th.sequenceDone=true := congrArg Control.sequenceDone (hs.boot hst)
    rw [hp.1] at hd
    cases hd
  | true =>
    have hgen := commandInForce_generation s t inp hs
    rw [hg,hst] at hgen
    have hlt : t.pending+0+(if SafetyStopFires s.rt inp.loopTimeNs then 1 else 0)<2^32 := by
      split_ifs <;> omega
    have hz := (add_ofNat_eq_self _ _ hlt).mp hgen.symm
    rcases hfresh with h|h|h
    · rw [hst] at h
      cases h
    · omega
    · rw [if_pos h] at hz
      omega

theorem observed_distance (options : BackendOptions) (p : Sys R × LongWatch) (inp : CycleInput)
    (hi : LongInvariant options p) (hc : WithinLongRun p (.cycle inp))
    (hp : (observed p.1 inp).Pending) :
    (observed p.1 inp).elapsed.toInt=p.2.distance p.1 inp := by
  obtain ⟨s,w⟩ := p
  obtain ⟨_,hreset,hb⟩ := hc
  have hel := observed_elapsed s inp hreset hp
  have hcontrol := observed_control s inp
  by_cases hg : (commandInForce s inp).generation=s.th.commandGenerationSeen
  · rw [if_neg (not_not.mpr hg)] at hel hcontrol
    have hpend : s.th.Pending :=
      ⟨(congrArg Control.sequenceDone hcontrol).symm.trans hp.1,
        (congrArg Control.sequenceFailed hcontrol).symm.trans hp.2⟩
    have hnot : ¬Fresh s w.tally inp :=
      fun hf => not_pending_of_collision s w.tally inp hi.synced hb hf hg hpend
    unfold LongWatch.distance
    rw [hel,if_neg hnot]
    exact hi.elapsed (not_fresh hnot).1 hpend
  · have hf : Fresh s w.tally inp := by
      by_contra hnot
      obtain ⟨h1,h2,h3⟩ := not_fresh hnot
      apply hg
      have hgen := commandInForce_generation s w.tally inp hi.synced
      rw [h1,h2,if_neg h3] at hgen
      simpa using hgen
    unfold LongWatch.distance
    rw [hel,if_pos hg,if_pos hf]
    rfl

/-- What the cycle finds of the sequence before its target test: whether it was reached or has
failed before. -/
theorem observed_sequence (options : BackendOptions) (p : Sys R × LongWatch) (inp : CycleInput)
    (hi : LongInvariant options p) (hc : WithinLongRun p (.cycle inp)) :
    ((observed p.1 inp).sequenceDone || (sequenceWord p.1 inp).2)=
      (p.2.reachedBefore p.1 inp || (sequenceWord p.1 inp).2) ∧
    (p.2.reachedBefore p.1 inp=false →
      ((observed p.1 inp).sequenceFailed=false ↔
        ∀ m,m<p.2.distance p.1 inp → ¬Due options m)) := by
  obtain ⟨s,w⟩ := p
  have hb := hc.2.2
  rw [observed_done_of_synced s w.tally inp hi.synced hb,
    observed_failed_of_synced s w.tally inp hi.synced hb]
  unfold LongWatch.reachedBefore LongWatch.distance
  by_cases hf : Fresh s w.tally inp
  · rw [if_pos hf,if_pos hf,decide_eq_true hf]
    refine ⟨?_,fun _ => ⟨fun _ m hm => absurd hm (Nat.not_lt_zero m),fun _ => rfl⟩⟩
    cases hseq : (commandInForce s inp).sequence with
    | none =>
      have hword : (sequenceWord s inp).2=true := by
        unfold sequenceWord
        rw [hseq]
        rfl
      rw [hword]
      rfl
    | _ => rfl
  · have hst := (not_fresh hf).1
    rw [if_neg hf,if_neg hf,decide_eq_false hf]
    refine ⟨congrArg (· || (sequenceWord s inp).2) (hi.done hst),fun h => ?_⟩
    exact hi.failed hst h

theorem sequenced_failed_eq (s : Sys R) (inp : CycleInput) :
    (sequenced s inp).sequenceFailed=
      ((observed s inp).sequenceFailed ||
        (!((observed s inp).sequenceDone || (sequenceWord s inp).2) &&
          decide (((observed s inp).elapsed.toInt*s.rt.options.periodUs.toInt).tdiv 1000≥
            s.rt.options.sequenceTimeoutMs.toInt))) := by
  have hm := holdIdle_motion (observed s inp) (commandInForce s inp)
    (checkClientTimeout s.rt inp.loopTimeNs).safetyStopActive inp.driveState inp.actualPosition
  have he := holdIdle_elapsed (observed s inp) (commandInForce s inp)
    (checkClientTimeout s.rt inp.loopTimeNs).safetyStopActive inp.driveState inp.actualPosition
  have ha : ∀ (th : RtThread R) (options : BackendOptions) (reached : Bool),
      (advanceSequence th options reached).sequenceFailed=
        (th.sequenceFailed || (!(th.sequenceDone || reached) &&
          decide ((th.elapsed.toInt*options.periodUs.toInt).tdiv 1000≥
            options.sequenceTimeoutMs.toInt))) := by
    intro th options reached
    unfold advanceSequence RtThread.elapsed
    dsimp only
    cases hd : th.sequenceDone <;> cases reached <;> cases hf : th.sequenceFailed <;>
      simp [hd,hf]
    split_ifs with hdue
    · exact (decide_eq_true hdue).symm
    · rw [decide_eq_false hdue]
      exact hf
  rw [sequenced,ha]
  unfold heldIdle
  rw [hm.2.1,hm.1,he]

theorem verdict (options : BackendOptions) (hp : 0 ≤ options.periodUs.toInt)
    (p : Sys R × LongWatch) (inp : CycleInput) (hi : LongInvariant options p)
    (hc : WithinLongRun p (.cycle inp)) (hr : p.2.reachedBefore p.1 inp=false)
    (hw : (sequenceWord p.1 inp).2=false) :
    (sequenced p.1 inp).sequenceFailed=
      ((observed p.1 inp).sequenceFailed || decide (Due options (p.2.distance p.1 inp))) := by
  obtain ⟨hdone,_⟩ := observed_sequence options p inp hi hc
  rw [hr,hw] at hdone
  rw [sequenced_failed_eq,hw,hdone]
  cases hf : (observed p.1 inp).sequenceFailed with
  | true => rfl
  | false =>
    have hd : (observed p.1 inp).sequenceDone=false := by simpa using hdone
    have hdist := observed_distance options p inp hi hc ⟨hd,hf⟩
    have hdue := due_iff options (p.2.distance p.1 inp) hp
    rw [hdist,hi.sameOptions,decide_eq_decide.mpr hdue]
    rfl

end

theorem no_verdict (s : Sys R) (inp : CycleInput)
    (h : ((observed s inp).sequenceDone || (sequenceWord s inp).2)=true) :
    declaresFailed s inp=false := by
  unfold declaresFailed
  rw [(step_cycle_latch s inp).2.1,sequenced_failed_eq,h]
  cases (observed s inp).sequenceFailed <;> rfl

theorem step_elapsed_toInt (s : Sys R) (inp : CycleInput) {n : Nat} (hover : NoOverflow s inp)
    (h : (step s (.cycle inp)).th.counters.Within n) :
    (step s (.cycle inp)).th.elapsed.toInt=(observed s inp).elapsed.toInt+1 := by
  have hstart : (step s (.cycle inp)).th.sequenceStartCycle=(observed s inp).sequenceStartCycle :=
    congrArg Counters.sequenceStart (step_cycle_counters s inp)
  obtain ⟨_,_,_,hcycle,helapsed⟩ := hover
  have hnonneg : 0 ≤ (step s (.cycle inp)).th.cycle.toInt := by
    have := h.cycle
    change (step s (.cycle inp)).th.cycle.toInt=_ at this
    omega
  have hnext : (step s (.cycle inp)).th.elapsed.toInt=
      (step s (.cycle inp)).th.cycle.toInt-(step s (.cycle inp)).th.sequenceStartCycle.toInt :=
    toInt_sub_of_nonneg hnonneg h.start
  rw [hnext,helapsed,hstart,hcycle]
  omega

theorem longInvariant_cycle (options : BackendOptions) (hp : 0 ≤ options.periodUs.toInt)
    (p : Sys R × LongWatch) (inp : CycleInput) (hi : LongInvariant options p)
    (hc : WithinLongRun p (.cycle inp)) :
    LongInvariant options (longStep p (.cycle inp)) ∧ LongRunLaw p (.cycle inp) := by
  obtain ⟨hover,hwithin⟩ := within_cycle p.1 inp p.2.cycles hi.counters hc.1
  obtain ⟨hdone,hopen⟩ := observed_sequence options p inp hi hc
  have hlatch := step_cycle_latch p.1 inp
  have hv := verdict options hp p inp hi hc
  have hnow : (cycleReport p.1 inp).sequenceTargetReached=(sequenceWord p.1 inp).2 :=
    cycleReport_reached p.1 inp
  refine ⟨⟨?_,synced_step p.1 p.2.tally (.cycle inp) hi.synced,hwithin,fun _ => ?_,fun _ h => ?_,
    fun _ h => ?_⟩,hover,?_⟩
  · exact (step_cycle_runtime p.1 inp).2.2.2.1.trans hi.sameOptions
  · change (step p.1 (.cycle inp)).th.sequenceDone=
      (p.2.reachedBefore p.1 inp || (cycleReport p.1 inp).sequenceTargetReached)
    rw [hlatch.1,sequenced_done,hdone,hnow]
  · change (step p.1 (.cycle inp)).th.elapsed.toInt=(p.2.distance p.1 inp+1 : Nat)
    have hd : (step p.1 (.cycle inp)).th.sequenceDone=false := h.1
    have hf : (step p.1 (.cycle inp)).th.sequenceFailed=false := h.2
    rw [hlatch.1,sequenced_done,Bool.or_eq_false_iff] at hd
    rw [hlatch.2.1,sequenced_failed_eq,Bool.or_eq_false_iff] at hf
    rw [step_elapsed_toInt p.1 inp hover hwithin,
      observed_distance options p inp hi hc ⟨hd.1,hf.1⟩]
    rfl
  · change (p.2.reachedBefore p.1 inp || (cycleReport p.1 inp).sequenceTargetReached)=false at h
    obtain ⟨hr,hw⟩ := Bool.or_eq_false_iff.mp h
    rw [hnow] at hw
    change (step p.1 (.cycle inp)).th.sequenceFailed=false ↔
      ∀ m,m<p.2.distance p.1 inp+1 → ¬Due options m
    rw [hlatch.2.1,hv hr hw,Bool.or_eq_false_iff,hopen hr,decide_eq_false_iff_not]
    constructor
    · rintro ⟨hbefore,hnot⟩ m hm
      rcases Nat.lt_succ_iff_lt_or_eq.mp hm with hlt|heq
      · exact hbefore m hlt
      · rw [heq]
        exact hnot
    · intro hall
      exact ⟨fun m hm => hall m (Nat.lt_succ_of_lt hm),hall _ (Nat.lt_succ_self _)⟩
  · unfold TimesOut declaresFailed
    rw [hlatch.2.1,hi.sameOptions,hnow]
    cases hr : p.2.reachedBefore p.1 inp with
    | true =>
      have hn := no_verdict p.1 inp (by rw [hdone,hr]; rfl)
      unfold declaresFailed at hn
      rw [hlatch.2.1] at hn
      simp [hn]
    | false =>
      cases hw : (sequenceWord p.1 inp).2 with
      | true =>
        have hn := no_verdict p.1 inp (by rw [hw,Bool.or_true])
        unfold declaresFailed at hn
        rw [hlatch.2.1] at hn
        simp [hn]
      | false =>
        rw [hv hr hw]
        have ho := hopen hr
        cases hf : (observed p.1 inp).sequenceFailed with
        | true =>
          rw [hf] at ho
          simp only [Bool.not_true,Bool.true_or,Bool.and_true,true_and]
          constructor
          · intro h
            cases h
          · intro h
            cases ho.mpr h.2
        | false =>
          simp only [Bool.not_false,Bool.true_and,Bool.false_or,decide_eq_true_eq,true_and]
          exact ⟨fun h => ⟨h,ho.mp hf⟩,fun h => h.1⟩

/-- In every run in which each cycle is less than 2^31-1 cycles away from the last reset of the
statistics, no reset meets a pending sequence, and less than 2^32-1 commands arrive between two
cycles. -/
theorem long_run_counters (options : BackendOptions) (start : ClockNs) (es : List Event)
    (hp : 0 < options.periodUs.toInt)
    (hc : Along longStep WithinLongRun ((sysInit options start : Sys R),LongWatch.idle) es) :
    Along longStep LongRunLaw ((sysInit options start : Sys R),LongWatch.idle) es := by
  exact along_of_threads (fun p e he hi _ => longInvariant_client options p e he hi)
    (fun p inp hi hc => longInvariant_cycle options (Int.le_of_lt hp) p inp hi hc)
    (fun _ _ _ => trivial) (fun _ => trivial) (longInvariant_init options start) hc

/-- A drive that is not enabled, in a cycle of a client that went silent. -/
def silentCycle : CycleInput :=
  { loopTimeNs := 2000000, statusword := 0x0040, actualPosition := 5 }

/-- Cycles without a reset count up, whatever else they do. -/
theorem cycle_of_replicate (options : BackendOptions) (start : ClockNs) (inp : CycleInput)
    (n : Nat) :
    (runFrom step (sysInit options start : Sys R) (List.replicate n (.cycle inp))).th.cycle=
      Int32.ofNat n ∧
    (runFrom step (sysInit options start : Sys R)
        (List.replicate n (.cycle inp))).th.resetGenerationSeen=
      (runFrom step (sysInit options start : Sys R)
        (List.replicate n (.cycle inp))).rt.command.resetGeneration := by
  induction n with
  | zero => exact ⟨rfl,rfl⟩
  | succ n ih =>
    let s : Sys R := runFrom step (sysInit options start) (List.replicate n (.cycle inp))
    have hrun : runFrom step (sysInit options start : Sys R) (List.replicate (n+1) (.cycle inp))=
        step s (.cycle inp) := by
      rw [List.replicate_succ',runFrom,List.foldl_append]
      rfl
    obtain ⟨hcycle,hseen⟩ := ih
    change s.th.cycle=_ at hcycle
    change s.th.resetGenerationSeen=s.rt.command.resetGeneration at hseen
    have hkept : (commandInForce s inp).resetGeneration=s.rt.command.resetGeneration := by
      by_cases hf : SafetyStopFires s.rt inp.loopTimeNs
      · rw [(commandInForce_of_fires s inp hf).1]
        rfl
      · rw [(commandInForce_of_not_fires s inp hf).1]
    have hno : ¬SeesReset s inp := fun h => h (hkept.trans hseen.symm)
    obtain ⟨first,hc,_⟩ := (compared_counters s inp).2 hno
    rw [timeLoop_counters] at hc
    obtain ⟨wkc,state,hcount,_⟩ := countErrors_counters (compared s inp) inp
    change (observed s inp).counters=_ at hcount
    rw [hc] at hcount
    have hstep := step_cycle_counters s inp
    have hnext : (step s (.cycle inp)).th.cycle=s.th.cycle+1 :=
      (congrArg Counters.cycle hstep).trans
        (congrArg (fun c => Counters.cycle c+1) hcount)
    have hreset : (step s (.cycle inp)).th.resetGenerationSeen=s.th.resetGenerationSeen :=
      (congrArg Counters.resetSeen hstep).trans (congrArg Counters.resetSeen hcount)
    rw [hrun]
    refine ⟨?_,?_⟩
    · rw [hnext,hcycle,Int32.ofNat_add]
      rfl
    · rw [hreset,hseen,(step_cycle_runtime s inp).1,hkept]

/-- A servo enable of a drive that does not answer, and two cycles of it. -/
def unansweredEnableRun : List Event :=
  [.receive (clockAt 2000000) (.command { command := 10 }),
    .dispatch,
    .cycle { loopTimeNs := 3000000, statusword := 0x0040, actualPosition := 5 },
    .cycle { loopTimeNs := 4000000, statusword := 0x0040, actualPosition := 5 }]

def resetInUnansweredEnable : List Event :=
  unansweredEnableRun++
    [.cycle { loopTimeNs := 5000000, statusword := 0x0040, actualPosition := 5 },
      .receive (clockAt 5500000) (.command { command := 3 }),
      .dispatch]

/-- The last of 2^31 cycles finds the counter at its largest value and takes it to the smallest.
And a reset in a pending sequence moves its timeout: the cycle at a distance of 3 ms does not
declare the failure that is due. -/
theorem long_run_breaks :
    (runFrom step (sysInit optionsInit (clockAt 1000000) : Sys ℚ)
      (List.replicate (2^31-1) (.cycle silentCycle))).th.cycle.toInt=2^31-1 ∧
    (runFrom step (sysInit optionsInit (clockAt 1000000) : Sys ℚ)
      (List.replicate (2^31) (.cycle silentCycle))).th.cycle.toInt=-2^31 ∧
    TimesOut (runFrom longStep ((sysInit shortTimeout (clockAt 1000000) : Sys ℚ),LongWatch.idle)
      resetInUnansweredEnable)
      { loopTimeNs := 6000000, statusword := 0x0040, actualPosition := 5 } ∧
    declaresFailed (runFrom longStep
      ((sysInit shortTimeout (clockAt 1000000) : Sys ℚ),LongWatch.idle)
      resetInUnansweredEnable).1
      { loopTimeNs := 6000000, statusword := 0x0040, actualPosition := 5 }=false := by
  rw [(cycle_of_replicate optionsInit (clockAt 1000000) silentCycle (2^31-1)).1,
    (cycle_of_replicate optionsInit (clockAt 1000000) silentCycle (2^31)).1]
  exact ⟨by decide,by decide,by decide +kernel,by decide +kernel⟩

/-- Without the reset the cycle at 3 ms declares the failure. -/
theorem unanswered_enable_times_out :
    Along longStep LongRunLaw ((sysInit shortTimeout (clockAt 1000000) : Sys ℚ),LongWatch.idle)
      (unansweredEnableRun++
        [.cycle { loopTimeNs := 5000000, statusword := 0x0040, actualPosition := 5 },
          .cycle { loopTimeNs := 6000000, statusword := 0x0040, actualPosition := 5 }]) ∧
    TimesOut (runFrom longStep ((sysInit shortTimeout (clockAt 1000000) : Sys ℚ),LongWatch.idle)
      (unansweredEnableRun++
        [.cycle { loopTimeNs := 5000000, statusword := 0x0040, actualPosition := 5 }]))
      { loopTimeNs := 6000000, statusword := 0x0040, actualPosition := 5 } :=
  ⟨long_run_counters shortTimeout (clockAt 1000000) _ (by decide) (by decide +kernel),
    by decide +kernel⟩

end EtherCATMaster.Backend
