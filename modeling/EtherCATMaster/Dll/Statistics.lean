import EtherCATMaster.Framework.Run
import EtherCATMaster.Framework.Streaming
import Mathlib.Data.PNat.Basic
import Mathlib.Data.Rat.Cast.CharZero

namespace EtherCATMaster.Dll

open Framework

/-- The fields of `ECAT_RuntimeStatus` that a cycle or a reset writes. -/
structure CycleStatus where
  connected : Int
  lastWkc : Int
  totalCycles : Int
  wkcErrors : Int
  stateErrors : Int
  cycleUs : Int
  minCycleUs : Int
  maxCycleUs : Int
  avgCycleUs : ℚ
  dcTimeNs : Int

/-- What a cycle reads: two values of a counter that never runs backwards, the working counter and
the time of the distributed clocks. -/
structure CycleReading where
  start : Int
  stop : Int
  forward : start ≤ stop
  wkc : Int
  dcTime : Int

/-- `cycle_us`, `wkc` and `DCtime` of a cycle. -/
structure CycleSample where
  cycleUs : Int
  wkc : Int
  dcTime : Int

/-- The locals of `worker_proc` that outlive a cycle, the cycle that it has measured and not yet
published, and `G_core.status`. -/
structure CycleWorker where
  cycleCount : Int
  avgUs : ℚ
  sample : Option CycleSample
  status : CycleStatus

/-- The steps under one lock each: the bus, the status in the worker, the status in a reset. -/
inductive CycleTurn where
  | measure (reading : CycleReading)
  | publish
  | reset

/-- `elapsed_us`. Times, counts and the mean are in exact arithmetic. -/
def elapsedUs (qpcFreq : ℕ+) (start stop : Int) : Int :=
  ((stop-start)*1000000).tdiv (qpcFreq : ℕ)

namespace CycleWorker

def start : CycleWorker := ⟨0,0,none,⟨0,0,0,0,0,0,0,0,0,0⟩⟩

/-- `worker_proc` under `bus_lock` -/
def measure (qpcFreq : ℕ+) (w : CycleWorker) (reading : CycleReading) : CycleWorker :=
  let cycleUs := elapsedUs qpcFreq reading.start reading.stop
  let cycleCount := w.cycleCount+1
  { w with
    cycleCount := cycleCount
    avgUs := w.avgUs+((cycleUs : ℚ)-w.avgUs)/(cycleCount : ℚ)
    sample := some ⟨cycleUs,reading.wkc,reading.dcTime⟩ }

/-- `worker_proc` under `state_lock`. A cycle is short when datagrams were not processed. -/
def publish (expectedWkc : Int) (w : CycleWorker) (sample : CycleSample) : CycleWorker :=
  let s := w.status
  let short := sample.wkc<expectedWkc ∧ expectedWkc>0
  { w with
    sample := none
    status :=
      { connected := 1
        lastWkc := sample.wkc
        totalCycles := w.cycleCount
        wkcErrors := if short then s.wkcErrors+1 else s.wkcErrors
        stateErrors := if short then s.stateErrors+1 else s.stateErrors
        cycleUs := sample.cycleUs
        minCycleUs :=
          if s.minCycleUs=0 ∨ sample.cycleUs<s.minCycleUs then sample.cycleUs else s.minCycleUs
        maxCycleUs := if sample.cycleUs>s.maxCycleUs then sample.cycleUs else s.maxCycleUs
        avgCycleUs := w.avgUs
        dcTimeNs := sample.dcTime } }

/-- `ECAT_ResetStatistics`: the locals of the worker are out of its reach. -/
def resetStatistics (w : CycleWorker) : CycleWorker :=
  { w with
    status :=
      { w.status with
        totalCycles := 0
        wkcErrors := 0
        stateErrors := 0
        cycleUs := 0
        minCycleUs := 0
        maxCycleUs := 0
        avgCycleUs := 0 } }

/-- The two steps of the worker alternate; a reset can come between any two steps. -/
def step (qpcFreq : ℕ+) (expectedWkc : Int) (w : CycleWorker) : CycleTurn → CycleWorker
  | .measure reading =>
      match w.sample with
      | none => w.measure qpcFreq reading
      | some _ => w
  | .publish =>
      match w.sample with
      | none => w
      | some sample => w.publish expectedWkc sample
  | .reset => w.resetStatistics

end CycleWorker

/-- The cycles published before the last reset, and since. -/
structure Cycles where
  before : List CycleSample
  since : List CycleSample

namespace Cycles

def none : Cycles := ⟨[],[]⟩

def observe (c : Cycles) (w : CycleWorker) : CycleTurn → Cycles
  | .measure _ => c
  | .publish => { c with since := c.since++w.sample.toList }
  | .reset => ⟨c.before++c.since,[]⟩

def times (c : Cycles) : List Int := c.since.map CycleSample.cycleUs

/-- Nothing was published before the last reset; and no cycle since took less than a microsecond,
or the latest one did. -/
def Plain (c : Cycles) : Prop := c.before=[] ∧ (0 ∈ c.times → c.times.getLast? = some 0)

instance (c : Cycles) : Decidable c.Plain :=
  haveI : Decidable (c.before=[]) := decidable_of_iff (c.before.isEmpty=true) List.isEmpty_iff
  inferInstanceAs (Decidable (_ ∧ _))

end Cycles

def meanUs (samples : List CycleSample) : ℚ := mean (samples.map (fun s => (s.cycleUs : ℚ)))

/-- The status tells of these cycles and no others. -/
structure CycleStatus.TellsOf (status : CycleStatus) (samples : List CycleSample) : Prop where
  total : status.totalCycles=samples.length
  least : IsLeast {t | t ∈ samples.map CycleSample.cycleUs} status.minCycleUs
  greatest : IsGreatest {t | t ∈ samples.map CycleSample.cycleUs} status.maxCycleUs
  average : status.avgCycleUs=meanUs samples

/-- A run together with the cycles that it has published. -/
def cycleRun (qpcFreq : ℕ+) (expectedWkc : Int) (turns : List CycleTurn) : CycleWorker × Cycles :=
  runFrom (watched (CycleWorker.step qpcFreq expectedWkc) Cycles.observe)
    (CycleWorker.start,Cycles.none) turns

variable {qpcFreq : ℕ+} {expectedWkc : Int}

theorem elapsedUs_nonneg {start stop : Int} (h : start ≤ stop) :
    0 ≤ elapsedUs qpcFreq start stop := by
  apply Int.tdiv_nonneg
  · omega
  · exact Int.natCast_nonneg _

theorem meanUs_concat (samples : List CycleSample) (s : CycleSample) :
    meanUs (samples++[s])=
      meanUs samples+((s.cycleUs : ℚ)-meanUs samples)/(samples.length+1 : ℚ) := by
  rw [meanUs,List.map_append,List.map_singleton,mean_concat,List.length_map]
  rfl

def CycleSample.Short (expectedWkc : Int) (s : CycleSample) : Bool :=
  s.wkc<expectedWkc ∧ expectedWkc>0

/-- The locals count all cycles of the run. Of the status, what a cycle updates in place is about
those since the reset, and what it copies from the locals is about all. -/
structure Accounted (expectedWkc : Int) (p : CycleWorker × Cycles) : Prop where
  nonneg : ∀ s ∈ p.2.since++p.1.sample.toList,0 ≤ s.cycleUs
  counted : p.1.cycleCount=(p.2.before++p.2.since++p.1.sample.toList).length
  averaged : p.1.avgUs=meanUs (p.2.before++p.2.since++p.1.sample.toList)
  total : p.2.since≠[] → p.1.status.totalCycles=(p.2.before++p.2.since).length
  average : p.2.since≠[] → p.1.status.avgCycleUs=meanUs (p.2.before++p.2.since)
  least : p.1.status.minCycleUs=p.2.times.foldl (lesser 0) 0
  greatest : p.1.status.maxCycleUs=p.2.times.foldl greater 0
  wkcErrors : p.1.status.wkcErrors=p.2.since.countP (CycleSample.Short expectedWkc)
  stateErrors : p.1.status.stateErrors=p.2.since.countP (CycleSample.Short expectedWkc)

theorem short_counted {samples : List CycleSample} (s : CycleSample) {n : Int}
    (hn : n=samples.countP (CycleSample.Short expectedWkc)) :
    (if s.wkc<expectedWkc ∧ expectedWkc>0 then n+1 else n)=
      (samples++[s]).countP (CycleSample.Short expectedWkc) := by
  rw [List.countP_append,List.countP_singleton,CycleSample.Short,hn]
  by_cases hs : s.wkc<expectedWkc ∧ expectedWkc>0
  · rw [if_pos hs,if_pos (decide_eq_true hs)]
    rfl
  · rw [if_neg hs,if_neg (fun hshort => hs (of_decide_eq_true hshort))]
    rfl

variable {w : CycleWorker} {c : Cycles}

theorem Accounted.measure (h : Accounted expectedWkc (w,c)) (hw : w.sample=none)
    (reading : CycleReading) : Accounted expectedWkc (w.measure qpcFreq reading,c) := by
  have hcount := h.counted
  have havg := h.averaged
  have hnonneg := h.nonneg
  simp only [hw,Option.toList_none,List.append_nil] at hcount havg hnonneg
  refine ⟨?_,?_,?_,h.total,h.average,h.least,h.greatest,h.wkcErrors,h.stateErrors⟩
  · intro s hs
    rcases List.mem_append.mp hs with hs|hs
    · exact hnonneg s hs
    · obtain rfl := List.mem_singleton.mp hs
      exact elapsedUs_nonneg reading.forward
  · change w.cycleCount+1=((c.before++c.since++[_]).length : Int)
    rw [List.length_append,List.length_singleton,hcount]
    rfl
  · change w.avgUs+(_-w.avgUs)/((w.cycleCount+1 : Int) : ℚ)=meanUs (c.before++c.since++[_])
    rw [meanUs_concat,havg,hcount]
    push_cast
    rfl

theorem Accounted.publish (h : Accounted expectedWkc (w,c)) {s : CycleSample}
    (hw : w.sample=some s) :
    Accounted expectedWkc (w.publish expectedWkc s,{ c with since := c.since++[s] }) := by
  have hcount := h.counted
  have havg := h.averaged
  have hnonneg := h.nonneg
  simp only [hw,Option.toList_some,List.append_assoc] at hcount havg hnonneg
  have htimes : ({ c with since := c.since++[s] } : Cycles).times=c.times++[s.cycleUs] :=
    List.map_append
  refine ⟨?_,?_,?_,?_,?_,?_,?_,short_counted s h.wkcErrors,
    short_counted s h.stateErrors⟩
  · intro t ht
    exact hnonneg t (by simpa [CycleWorker.publish] using ht)
  · simpa [CycleWorker.publish] using hcount
  · simpa [CycleWorker.publish] using havg
  · exact fun _ => by simpa [CycleWorker.publish] using hcount
  · exact fun _ => by simpa [CycleWorker.publish] using havg
  · rw [htimes,List.foldl_concat,← h.least]
    rfl
  · rw [htimes,List.foldl_concat,← h.greatest]
    rfl

theorem Accounted.reset (h : Accounted expectedWkc (w,c)) :
    Accounted expectedWkc (w.resetStatistics,⟨c.before++c.since,[]⟩) := by
  have hcount := h.counted
  have havg := h.averaged
  refine ⟨?_,?_,?_,fun hne => absurd rfl hne,fun hne => absurd rfl hne,rfl,rfl,rfl,rfl⟩
  · intro s hs
    exact h.nonneg s (List.mem_append_right c.since hs)
  · simpa [CycleWorker.resetStatistics] using hcount
  · simpa [CycleWorker.resetStatistics] using havg

theorem Accounted.step (h : Accounted expectedWkc (w,c)) (t : CycleTurn) :
    Accounted expectedWkc
      (watched (CycleWorker.step qpcFreq expectedWkc) Cycles.observe (w,c) t) := by
  rw [watched]
  cases t with
  | measure reading =>
    cases hw : w.sample with
    | none =>
      simp only [CycleWorker.step,hw]
      exact h.measure hw reading
    | some s =>
      simp only [CycleWorker.step,hw]
      exact h
  | publish =>
    cases hw : w.sample with
    | none =>
      simp only [CycleWorker.step,Cycles.observe,hw,Option.toList_none,List.append_nil]
      exact h
    | some s =>
      simp only [CycleWorker.step,Cycles.observe,hw,Option.toList_some]
      exact h.publish hw
  | reset => exact h.reset

theorem start_accounted : Accounted expectedWkc (CycleWorker.start,Cycles.none) := by
  refine ⟨?_,rfl,?_,fun hne => absurd rfl hne,fun hne => absurd rfl hne,rfl,rfl,rfl,rfl⟩
  · exact fun s hs => absurd hs List.not_mem_nil
  · simp [CycleWorker.start,Cycles.none,meanUs,mean]

theorem cycleRun_accounted (turns : List CycleTurn) :
    Accounted expectedWkc (cycleRun qpcFreq expectedWkc turns) :=
  invariant_runFrom (C := fun _ _ => True) (fun p t hp _ => Accounted.step (w := p.1) (c := p.2) hp t)
    start_accounted along_true

/-- After a cycle since the last reset, the status tells of the cycles since exactly when there were
none before, and a zero among the times is the last of them. -/
theorem statistics_since_reset_iff (qpcFreq : ℕ+) (expectedWkc : Int) (turns : List CycleTurn)
    (hcycle : 1 ≤ (cycleRun qpcFreq expectedWkc turns).2.since.length) :
    (cycleRun qpcFreq expectedWkc turns).1.status.TellsOf
        (cycleRun qpcFreq expectedWkc turns).2.since ↔
      (cycleRun qpcFreq expectedWkc turns).2.Plain := by
  have h : Accounted expectedWkc (cycleRun qpcFreq expectedWkc turns) := cycleRun_accounted turns
  generalize cycleRun qpcFreq expectedWkc turns=p at h hcycle ⊢
  obtain ⟨w,c⟩ := p
  have hne : c.since≠[] := List.ne_nil_of_length_pos hcycle
  have htimes : c.times≠[] := fun heq => hne (List.map_eq_nil_iff.mp heq)
  have hlow : ∀ t ∈ c.times,0 ≤ t := by
    intro t ht
    obtain ⟨s,hs,rfl⟩ := List.mem_map.mp ht
    exact h.nonneg s (List.mem_append_left _ hs)
  have hleast := foldl_lesser_least_iff htimes hlow
  rw [← h.least] at hleast
  constructor
  · intro htells
    refine ⟨?_,hleast.mp htells.least⟩
    have htotal := (h.total hne).symm.trans htells.total
    rw [List.length_append] at htotal
    exact List.eq_nil_of_length_eq_zero (by omega)
  · rintro ⟨hbefore,hzero⟩
    have htotal := h.total hne
    have havg := h.average hne
    rw [hbefore,List.nil_append] at htotal havg
    refine ⟨htotal,hleast.mpr hzero,?_,havg⟩
    rw [h.greatest]
    exact foldl_greater htimes hlow

/-- A cycle of so many microseconds, in ticks of 100 ns. -/
def cycleOf (us : ℕ) : List CycleTurn :=
  [.measure ⟨0,10*us,by omega,3,0⟩,.publish]

def tenMegahertz : ℕ+ := 10000000

/-- A reset before the first cycle is harmless, also when it comes after the measurement. -/
theorem early_reset_tells :
    (cycleRun tenMegahertz 3 ([.reset,.measure ⟨0,2500,by omega,3,0⟩,.reset,.publish]++
      cycleOf 180)).1.status.TellsOf
      (cycleRun tenMegahertz 3 ([.reset,.measure ⟨0,2500,by omega,3,0⟩,.reset,.publish]++
        cycleOf 180)).2.since :=
  (statistics_since_reset_iff tenMegahertz 3 _ (by decide)).mpr (by decide)

/-- Cycles of 100 and 300 microseconds with a reset between: one cycle since, but two are told of,
with their common mean. -/
theorem late_reset_tells :
    ¬∀ (qpcFreq : ℕ+) (expectedWkc : Int) (turns : List CycleTurn),
      1 ≤ (cycleRun qpcFreq expectedWkc turns).2.since.length →
      (cycleRun qpcFreq expectedWkc turns).1.status.TellsOf
        (cycleRun qpcFreq expectedWkc turns).2.since := by
  intro hall
  have htells := hall tenMegahertz 3 (cycleOf 100++[.reset]++cycleOf 300) (by decide)
  have htotal := htells.total
  revert htotal
  decide

end EtherCATMaster.Dll
