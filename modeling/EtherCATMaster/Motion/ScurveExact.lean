import EtherCATMaster.Motion.ScurvePlan
import Mathlib

namespace EtherCATMaster.Motion

open EtherCATMaster.Math EtherCATMaster.Math.JerkState

section Stored

variable {R : Type} [Field R] [LinearOrder R] [IsStrictOrderedRing R]

theorem scurveStoreSegments_cons (stretch : R × R) (rest : List (R × R)) (elapsed : R)
    (kin : JerkState R) :
    (scurveStoreSegments (stretch::rest) elapsed kin).1=
      ⟨elapsed,kin,stretch.1,stretch.2⟩::
        (scurveStoreSegments rest (elapsed+stretch.2) (kin.advance stretch.1 stretch.2)).1 := by
  rw [← scurveAdvanceSegment_eq]
  rfl

theorem scurveStoreSegments_times (table : List (R × R)) (elapsed : R) (kin : JerkState R) :
    (scurveStoreSegments table elapsed kin).1.map ScurveSegment.time=table.map Prod.snd := by
  induction table generalizing elapsed kin with
  | nil => rfl
  | cons stretch rest ih =>
    rw [scurveStoreSegments_cons,List.map_cons,List.map_cons,ih]

theorem scurveStoreSegments_start {table : List (R × R)} {elapsed : R} {kin : JerkState R}
    {before after : List (ScurveSegment R)} {s : ScurveSegment R}
    (h : (scurveStoreSegments table elapsed kin).1=before++s::after) :
    s.startS=elapsed+(before.map ScurveSegment.time).sum := by
  induction table generalizing elapsed kin before with
  | nil => simp [scurveStoreSegments] at h
  | cons stretch rest ih =>
    rw [scurveStoreSegments_cons] at h
    cases before with
    | nil =>
      injection h with hs _
      rw [← hs,List.map_nil,List.sum_nil,add_zero]
    | cons b before =>
      injection h with hb hrest
      rw [ih hrest,← hb,List.map_cons,List.sum_cons,add_assoc]

theorem scurveStoreSegments_joins {table : List (R × R)} {elapsed : R} {kin : JerkState R}
    {before after : List (ScurveSegment R)} {s s' : ScurveSegment R}
    (h : (scurveStoreSegments table elapsed kin).1=before++s::s'::after) :
    s'.kin=s.kin.advance s.jerk s.time := by
  induction table generalizing elapsed kin before with
  | nil => simp [scurveStoreSegments] at h
  | cons stretch rest ih =>
    rw [scurveStoreSegments_cons] at h
    cases before with
    | nil =>
      injection h with hs hrest
      cases rest with
      | nil => cases hrest
      | cons stretch' rest =>
        rw [scurveStoreSegments_cons] at hrest
        injection hrest with hs' _
        rw [← hs',← hs]
    | cons b before =>
      injection h with _ hrest
      exact ih hrest

theorem scurveSolvePeak_spec (distanceFor : R → R) (distance : R) (n : ℕ) {low high : R}
    (hle : low ≤ high) (hlow : distanceFor low ≤ distance) (hhigh : distance<distanceFor high) :
    low ≤ (scurveSolvePeak distanceFor distance n low high).1 ∧
    (scurveSolvePeak distanceFor distance n low high).1≤
      (scurveSolvePeak distanceFor distance n low high).2 ∧
    (scurveSolvePeak distanceFor distance n low high).2 ≤ high ∧
    distanceFor (scurveSolvePeak distanceFor distance n low high).1 ≤ distance ∧
    distance<distanceFor (scurveSolvePeak distanceFor distance n low high).2 := by
  induction n generalizing low high with
  | zero => exact ⟨le_refl low,hle,le_refl high,hlow,hhigh⟩
  | succ n ih =>
    have hbelow : low ≤ (low+high)*(1/2) := by linarith
    have habove : (low+high)*(1/2) ≤ high := by linarith
    rw [scurveSolvePeak]
    by_cases hmid : distanceFor ((low+high)*(1/2)) ≤ distance
    · rw [if_pos hmid]
      obtain ⟨h1,h2,h3,h4⟩ := ih habove hmid hhigh
      exact ⟨hbelow.trans h1,h2,h3,h4⟩
    · rw [if_neg hmid]
      obtain ⟨h1,h2,h3,h4⟩ := ih hbelow hlow (not_le.mp hmid)
      exact ⟨h1,h2,h3.trans habove,h4⟩

end Stored

section Phase

theorem scurvePhase_eq {peak acceleration jerk : ℝ} (hp : 0<peak) (ha : 0<acceleration)
    (hj : 0 < jerk) :
    scurvePhaseFromPeakVelocity peak acceleration jerk=
      if peak≥acceleration*(acceleration/jerk) then
        ⟨acceleration/jerk,peak/acceleration-acceleration/jerk,
          acceleration*(acceleration/jerk)*(acceleration/jerk)+
          3/2*acceleration*(acceleration/jerk)*(peak/acceleration-acceleration/jerk)+
          1/2*acceleration*(peak/acceleration-acceleration/jerk)*
            (peak/acceleration-acceleration/jerk)⟩
      else ⟨Real.sqrt (peak/jerk),0,peak*Real.sqrt (peak/jerk)⟩ := by
  unfold scurvePhaseFromPeakVelocity
  rw [if_neg (by push Not; exact ⟨hp,ha,hj⟩)]
  rfl

theorem sqrt_le_full {peak acceleration jerk : ℝ} (ha : 0<acceleration) (hj : 0 < jerk)
    (h : ¬peak≥acceleration*(acceleration/jerk)) :
    Real.sqrt (peak/jerk) ≤ acceleration/jerk := by
  apply Real.sqrt_le_iff.mpr
  refine ⟨(div_pos ha hj).le,?_⟩
  have hsq : (acceleration/jerk)^2=acceleration*(acceleration/jerk)/jerk := by ring
  rw [hsq]
  exact div_le_div_of_nonneg_right (not_le.mp h).le hj.le

theorem scurvePhase_way {peak acceleration jerk : ℝ} (hp : 0<peak) (ha : 0<acceleration)
    (hj : 0 < jerk) :
    (scurvePhaseFromPeakVelocity peak acceleration jerk).distance=
      peak*(2*(scurvePhaseFromPeakVelocity peak acceleration jerk).tj+
        (scurvePhaseFromPeakVelocity peak acceleration jerk).ta)/2 := by
  have hmul : acceleration*(peak/acceleration)=peak := mul_div_cancel₀ peak ha.ne'
  rw [scurvePhase_eq hp ha hj]
  split_ifs
  · dsimp only
    linear_combination (1/2)*(peak/acceleration+acceleration/jerk)*hmul
  · dsimp only
    ring

theorem scurvePhase_accel {peak acceleration jerk : ℝ} (hp : 0<peak) (ha : 0<acceleration)
    (hj : 0 < jerk) :
    0 ≤ jerk*(scurvePhaseFromPeakVelocity peak acceleration jerk).tj ∧
    jerk*(scurvePhaseFromPeakVelocity peak acceleration jerk).tj ≤ acceleration := by
  have hfull : jerk*(acceleration/jerk)=acceleration := mul_div_cancel₀ acceleration hj.ne'
  refine ⟨(mul_pos hj (scurvePhase_spec peak acceleration jerk hp ha hj).1).le,?_⟩
  rw [scurvePhase_eq hp ha hj]
  split_ifs with hlong
  · exact hfull.le
  · have hmul := mul_le_mul_of_nonneg_left (sqrt_le_full ha hj hlong) hj.le
    rw [hfull] at hmul
    exact hmul

theorem scurvePhase_time_mono {peak peak' acceleration jerk : ℝ} (hp : 0<peak) (hle : peak ≤ peak')
    (ha : 0<acceleration) (hj : 0 < jerk) :
    2*(scurvePhaseFromPeakVelocity peak acceleration jerk).tj+
        (scurvePhaseFromPeakVelocity peak acceleration jerk).ta≤
      2*(scurvePhaseFromPeakVelocity peak' acceleration jerk).tj+
        (scurvePhaseFromPeakVelocity peak' acceleration jerk).ta := by
  have hquot : peak/acceleration ≤ peak'/acceleration := div_le_div_of_nonneg_right hle ha.le
  rw [scurvePhase_eq hp ha hj,scurvePhase_eq (hp.trans_le hle) ha hj]
  by_cases hlong : peak≥acceleration*(acceleration/jerk)
  · rw [if_pos hlong,if_pos (show peak'≥_ from hlong.trans hle)]
    dsimp only
    linarith
  · rw [if_neg hlong]
    by_cases hlong' : peak'≥acceleration*(acceleration/jerk)
    · -- the two forms meet where the acceleration just reaches its limit
      have hshort := sqrt_le_full ha hj hlong
      have hmeet : acceleration/jerk ≤ peak'/acceleration := by
        rw [le_div_iff₀ ha,mul_comm]
        exact hlong'
      rw [if_pos hlong']
      dsimp only
      linarith
    · have hroot := Real.sqrt_le_sqrt (div_le_div_of_nonneg_right hle hj.le)
      rw [if_neg hlong']
      dsimp only
      linarith

theorem scurvePhase_monotone (acceleration jerk : ℝ) :
    Monotone fun peak => (scurvePhaseFromPeakVelocity peak acceleration jerk).distance := by
  intro peak peak' hle
  change (scurvePhaseFromPeakVelocity peak acceleration jerk).distance≤
    (scurvePhaseFromPeakVelocity peak' acceleration jerk).distance
  by_cases hnone : peak ≤ 0 ∨ acceleration ≤ 0 ∨ jerk ≤ 0
  · have hzero : (scurvePhaseFromPeakVelocity peak acceleration jerk).distance=0 := by
      unfold scurvePhaseFromPeakVelocity
      rw [if_pos hnone]
    rw [hzero]
    by_cases hnone' : peak' ≤ 0 ∨ acceleration ≤ 0 ∨ jerk ≤ 0
    · unfold scurvePhaseFromPeakVelocity
      rw [if_pos hnone']
    · push Not at hnone'
      obtain ⟨hp,ha,hj⟩ := hnone'
      obtain ⟨htj,hta,-,-⟩ := scurvePhase_spec peak' acceleration jerk hp ha hj
      rw [scurvePhase_way hp ha hj]
      exact div_nonneg (mul_nonneg hp.le (by linarith)) zero_le_two
  · push Not at hnone
    obtain ⟨hp,ha,hj⟩ := hnone
    obtain ⟨htj,hta,-,-⟩ := scurvePhase_spec peak acceleration jerk hp ha hj
    have htime := scurvePhase_time_mono hp hle ha hj
    have hmul := mul_le_mul hle htime (by linarith) (hp.trans_le hle).le
    rw [scurvePhase_way hp ha hj,scurvePhase_way (hp.trans_le hle) ha hj]
    exact div_le_div_of_nonneg_right hmul zero_le_two

theorem scurveDistance_monotone (acceleration deceleration accelJerk decelJerk : ℝ) :
    Monotone fun peak =>
      scurveDistanceForPeakVelocity peak acceleration deceleration accelJerk decelJerk := by
  intro peak peak' hle
  exact add_le_add (scurvePhase_monotone acceleration accelJerk hle)
    (scurvePhase_monotone deceleration decelJerk hle)

end Phase

section Plan

variable {R : Type} [Field R] [LinearOrder R]

/-- The way to the target. -/
def Cia402MotionProfile.way (p : Cia402MotionProfile R) : R :=
  absDouble (p.targetPosition-p.position)

def Cia402MotionProfile.planRamp (p : Cia402MotionProfile R) : R :=
  maxDouble (profileRampTimeS p) (1/1000)

variable [HasSqrt R]

/-- The way of a move that speeds up to the peak and brakes at once. -/
def Cia402MotionProfile.peakWay (p : Cia402MotionProfile R) (peak : R) : R :=
  scurveDistanceForPeakVelocity peak p.acceleration p.deceleration (p.acceleration/p.planRamp)
    (p.deceleration/p.planRamp)

def Cia402MotionProfile.peakBracket (p : Cia402MotionProfile R) (n : ℕ) : R × R :=
  scurveSolvePeak p.peakWay p.way n 0 p.maxVelocity

def Cia402MotionProfile.planPeak (p : Cia402MotionProfile R) : R × R :=
  scurvePeakAndCruise p p.way (p.acceleration/p.planRamp) (p.deceleration/p.planRamp)

def Cia402MotionProfile.accelPhase (p : Cia402MotionProfile R) : ScurvePhase R :=
  scurvePhaseFromPeakVelocity p.planPeak.1 p.acceleration (p.acceleration/p.planRamp)

def Cia402MotionProfile.decelPhase (p : Cia402MotionProfile R) : ScurvePhase R :=
  scurvePhaseFromPeakVelocity p.planPeak.1 p.deceleration (p.deceleration/p.planRamp)

def Cia402MotionProfile.planTable (p : Cia402MotionProfile R) : List (R × R) :=
  scurveSegmentTable p.accelPhase p.decelPhase p.planPeak.2 (p.acceleration/p.planRamp)
    (p.deceleration/p.planRamp)

/-- What the source has tested when it returns a plan. -/
structure Planned (p : Cia402MotionProfile R) : Prop where
  maxVelocity : 0<p.maxVelocity
  acceleration : 0<p.acceleration
  deceleration : 0<p.deceleration
  accelJerk : 0<p.acceleration/p.planRamp
  decelJerk : 0<p.deceleration/p.planRamp
  peak : 0<p.planPeak.1
  segments : (scurveBuildPositionPlan p).1.plannerSegments=
    (scurveStoreSegments p.planTable 0 ⟨0,0,0⟩).1
  total : (scurveBuildPositionPlan p).1.plannerTotalS=duration p.planTable

theorem guard_passed {α : Type} {c : Prop} [Decidable c] {refused : α} {rest : α × Bool}
    (h : (if c then (refused,false) else rest).2=true) :
    ¬c ∧ (if c then (refused,false) else rest)=rest ∧ rest.2=true := by
  by_cases hc : c
  · rw [if_pos hc] at h
    cases h
  · rw [if_neg hc] at h ⊢
    exact ⟨hc,rfl,h⟩

theorem scurveBuildPositionPlan_planned [IsStrictOrderedRing R] (p : Cia402MotionProfile R)
    (h : (scurveBuildPositionPlan p).2=true) : Planned p := by
  have hstored : (scurveStoreSegments p.planTable 0 ⟨0,0,0⟩).2=duration p.planTable := by
    rw [scurveStoreSegments_elapsed,zero_add]
  have hbuild : scurveBuildPositionPlan p=
      if p.way ≤ positionEpsilon then (p.clearPlan,false)
      else if absDouble p.velocity>velocityEpsilon then (p.clearPlan,false)
      else if p.maxVelocity ≤ 0 ∨ p.acceleration ≤ 0 ∨ p.deceleration ≤ 0 then (p.clearPlan,false)
      else if profileRampTimeS p ≤ 0 then (p.clearPlan,false)
      else if p.acceleration/p.planRamp ≤ 0 ∨ p.deceleration/p.planRamp ≤ 0 then (p.clearPlan,false)
      else if p.planPeak.1 ≤ velocityEpsilon then (p.clearPlan,false)
      else if (scurveStoreSegments p.planTable 0 ⟨0,0,0⟩).2 ≤ 0 then
        ({ p.clearPlan with
            plannerSegments := (scurveStoreSegments p.planTable 0 ⟨0,0,0⟩).1 },false)
      else
        ({ p.clearPlan with
            plannerValid := true
            plannerStartPosition := p.position
            plannerDistance := p.way
            plannerDirection := if p.targetPosition≥p.position then 1 else -1
            plannerTotalS := (scurveStoreSegments p.planTable 0 ⟨0,0,0⟩).2
            plannerSegments := (scurveStoreSegments p.planTable 0 ⟨0,0,0⟩).1 },true) := rfl
  rw [hbuild] at h
  obtain ⟨-,e1,h⟩ := guard_passed h
  obtain ⟨-,e2,h⟩ := guard_passed h
  obtain ⟨hlimits,e3,h⟩ := guard_passed h
  obtain ⟨-,e4,h⟩ := guard_passed h
  obtain ⟨hjerk,e5,h⟩ := guard_passed h
  obtain ⟨hpeak,e6,h⟩ := guard_passed h
  obtain ⟨-,e7,-⟩ := guard_passed h
  rw [e1,e2,e3,e4,e5,e6,e7] at hbuild
  push Not at hlimits hjerk
  have hpos : (0 : R)<velocityEpsilon := by
    rw [velocityEpsilon]
    norm_num
  refine ⟨hlimits.1,hlimits.2.1,hlimits.2.2,hjerk.1,hjerk.2,hpos.trans (not_le.mp hpeak),?_,?_⟩
  · rw [hbuild]
  · rw [hbuild,← hstored]

end Plan

section Exact

def Cia402MotionProfile.planEnd {R : Type} [Field R] [LinearOrder R] (q : Cia402MotionProfile R) :
    JerkState R :=
  planSample q.plannerSegments q.plannerTotalS

/-- What the plan `q` of a profile `p` keeps to: seven segments that follow on each other without a
jump, within the limits, from rest to rest over the way that the peak velocity takes. -/
structure ExactPlan (p q : Cia402MotionProfile ℝ) : Prop where
  count : q.plannerSegments.length=7
  lasts : ∀ s ∈ q.plannerSegments,0 ≤ s.time
  starts : ∀ before s after,q.plannerSegments=before++s::after →
    s.startS=(before.map ScurveSegment.time).sum
  total : q.plannerTotalS=(q.plannerSegments.map ScurveSegment.time).sum
  joins : ∀ before s s' after,q.plannerSegments=before++s::s'::after →
    s'.kin=s.kin.advance s.jerk s.time
  position : ContinuousOn (fun t => (planSample q.plannerSegments t).position)
    (Set.Icc 0 q.plannerTotalS)
  velocity : ContinuousOn (fun t => (planSample q.plannerSegments t).velocity)
    (Set.Icc 0 q.plannerTotalS)
  acceleration : ContinuousOn (fun t => (planSample q.plannerSegments t).acceleration)
    (Set.Icc 0 q.plannerTotalS)
  start : planSample q.plannerSegments 0=⟨0,0,0⟩
  within : ∀ t,0 ≤ t → t ≤ q.plannerTotalS →
    (0 ≤ (planSample q.plannerSegments t).velocity ∧
      (planSample q.plannerSegments t).velocity ≤ p.maxVelocity) ∧
    (-p.deceleration ≤ (planSample q.plannerSegments t).acceleration ∧
      (planSample q.plannerSegments t).acceleration ≤ p.acceleration)
  rest : q.planEnd.velocity=0 ∧ q.planEnd.acceleration=0
  cruises : ∀ s,q.plannerSegments[3]?=some s → 0 < s.time → p.peakWay p.maxVelocity<p.way
  reaches : p.peakWay p.maxVelocity ≤ p.way → q.planEnd.position=p.way
  bracket : p.way<p.peakWay p.maxVelocity → ∀ n,
    p.peakWay (p.peakBracket n).1 ≤ p.way ∧ p.way<p.peakWay (p.peakBracket n).2
  short : p.way<p.peakWay p.maxVelocity → q.planEnd.position ≤ p.way ∧
    p.way-q.planEnd.position≤
      p.peakWay (p.peakBracket scurveSolveIterations).2-
        p.peakWay (p.peakBracket scurveSolveIterations).1

variable {p : Cia402MotionProfile ℝ}

theorem way_nonneg (p : Cia402MotionProfile ℝ) : 0 ≤ p.way := by
  rw [Cia402MotionProfile.way,absDouble_eq_abs]
  exact abs_nonneg _

theorem peakWay_zero (p : Cia402MotionProfile ℝ) : p.peakWay 0=0 := by
  unfold Cia402MotionProfile.peakWay scurveDistanceForPeakVelocity scurvePhaseFromPeakVelocity
  rw [if_pos (.inl (le_refl 0)),if_pos (.inl (le_refl 0)),add_zero]

theorem peakBracket_spec (h : Planned p) (hshort : p.way<p.peakWay p.maxVelocity) (n : ℕ) :
    0 ≤ (p.peakBracket n).1 ∧ (p.peakBracket n).1 ≤ (p.peakBracket n).2 ∧
    (p.peakBracket n).2 ≤ p.maxVelocity ∧ p.peakWay (p.peakBracket n).1 ≤ p.way ∧
    p.way<p.peakWay (p.peakBracket n).2 := by
  refine scurveSolvePeak_spec p.peakWay p.way n h.maxVelocity.le ?_ hshort
  rw [peakWay_zero]
  exact way_nonneg p

theorem planPeak_full (hfull : p.peakWay p.maxVelocity ≤ p.way) :
    p.planPeak=(p.maxVelocity,(p.way-p.peakWay p.maxVelocity)/p.maxVelocity) := if_pos hfull

theorem planPeak_short (hshort : p.way<p.peakWay p.maxVelocity) :
    p.planPeak=((p.peakBracket scurveSolveIterations).1,0) := if_neg (not_le.mpr hshort)

theorem planPeak_bounds (h : Planned p) : p.planPeak.1 ≤ p.maxVelocity ∧ 0 ≤ p.planPeak.2 := by
  rcases le_or_gt (p.peakWay p.maxVelocity) p.way with hfull|hshort
  · rw [planPeak_full hfull]
    exact ⟨le_refl _,div_nonneg (sub_nonneg.mpr hfull) h.maxVelocity.le⟩
  · obtain ⟨-,hle,hmax,-⟩ := peakBracket_spec h hshort scurveSolveIterations
    rw [planPeak_short hshort]
    exact ⟨hle.trans hmax,le_refl 0⟩

theorem planTable_eq (p : Cia402MotionProfile ℝ) :
    p.planTable=rampTable (p.acceleration/p.planRamp) p.accelPhase.tj p.accelPhase.ta p.planPeak.2
      (-(p.deceleration/p.planRamp)) p.decelPhase.tj p.decelPhase.ta :=
  scurveSegmentTable_eq _ _ _ _ _

theorem accelPhase_spec (h : Planned p) :
    0 ≤ p.accelPhase.tj ∧ 0 ≤ p.accelPhase.ta ∧
      p.acceleration/p.planRamp*p.accelPhase.tj*(p.accelPhase.tj+p.accelPhase.ta)=p.planPeak.1 := by
  obtain ⟨htj,hta,hv,-⟩ := scurvePhase_spec _ _ _ h.peak h.acceleration h.accelJerk
  exact ⟨htj.le,hta,hv⟩

theorem decelPhase_spec (h : Planned p) :
    0 ≤ p.decelPhase.tj ∧ 0 ≤ p.decelPhase.ta ∧
      p.deceleration/p.planRamp*p.decelPhase.tj*(p.decelPhase.tj+p.decelPhase.ta)=p.planPeak.1 := by
  obtain ⟨htj,hta,hv,-⟩ := scurvePhase_spec _ _ _ h.peak h.deceleration h.decelJerk
  exact ⟨htj.le,hta,hv⟩

theorem planTable_forward (h : Planned p) :
    ForwardTable p.planTable ⟨0,0,0⟩ ∧ (finish p.planTable ⟨0,0,0⟩).velocity=0 ∧
      (finish p.planTable ⟨0,0,0⟩).acceleration=0 := by
  obtain ⟨hatj,hata,hav⟩ := accelPhase_spec h
  obtain ⟨hdtj,hdta,hdv⟩ := decelPhase_spec h
  have hend : p.planPeak.1+ -(p.deceleration/p.planRamp)*p.decelPhase.tj*
      (p.decelPhase.tj+p.decelPhase.ta)=0 := by
    linear_combination -hdv
  rw [planTable_eq]
  have hall : ForwardTable (rampTable _ _ _ _ _ _ _) (⟨0,0,0⟩ : JerkState ℝ) ∧ _ ∧ _ :=
    forwardTable_rampTable rfl hatj hata (planPeak_bounds h).2 hdtj hdta (le_refl 0)
      (show 0 ≤ 0+_ by rw [hav,zero_add]; exact h.peak.le)
      (show 0 ≤ 0+_+_ by rw [hav,zero_add]; exact hend.ge)
  obtain ⟨hforward,hv,ha⟩ := hall
  rw [hav,zero_add,hend] at hv
  exact ⟨hforward,hv,ha⟩

theorem planTable_opposed (h : Planned p) :
    ForwardTable (opposed p.planTable) ⟨0,p.planPeak.1,0⟩ := by
  obtain ⟨hatj,hata,hav⟩ := accelPhase_spec h
  obtain ⟨hdtj,hdta,hdv⟩ := decelPhase_spec h
  have hpeak : p.planPeak.1+ -(p.acceleration/p.planRamp)*p.accelPhase.tj*
      (p.accelPhase.tj+p.accelPhase.ta)=0 := by
    linear_combination -hav
  rw [planTable_eq,opposed_rampTable,neg_neg]
  refine (forwardTable_rampTable rfl hatj hata (planPeak_bounds h).2 hdtj hdta h.peak.le
    hpeak.ge ?_).1
  change 0 ≤ p.planPeak.1+_+_
  rw [hpeak,zero_add,hdv]
  exact h.peak.le

theorem planTable_within (h : Planned p) :
    AccelWithin (-p.deceleration) p.acceleration p.planTable ⟨0,0,0⟩ := by
  obtain ⟨ha0,ha1⟩ := scurvePhase_accel h.peak h.acceleration h.accelJerk
  obtain ⟨hd0,hd1⟩ := scurvePhase_accel h.peak h.deceleration h.decelJerk
  have hacc := h.acceleration
  have hdec := h.deceleration
  rw [planTable_eq]
  refine accelWithin_rampTable rfl (by linarith) hacc.le ⟨?_,ha1⟩ ⟨?_,?_⟩
  · exact (neg_nonpos.mpr hdec.le).trans ha0
  · rw [neg_mul]
    exact neg_le_neg hd1
  · rw [neg_mul]
    exact (neg_nonpos.mpr hd0).trans hacc.le

theorem planTable_position (h : Planned p) :
    (finish p.planTable ⟨0,0,0⟩).position=
      p.peakWay p.planPeak.1+p.planPeak.1*p.planPeak.2 := by
  obtain ⟨-,-,hav⟩ := accelPhase_spec h
  obtain ⟨-,-,hdv⟩ := decelPhase_spec h
  have hup := scurvePhase_way h.peak h.acceleration h.accelJerk
  have hdown := scurvePhase_way h.peak h.deceleration h.decelJerk
  have hway : p.peakWay p.planPeak.1=
      p.planPeak.1*(2*p.accelPhase.tj+p.accelPhase.ta)/2+
        p.planPeak.1*(2*p.decelPhase.tj+p.decelPhase.ta)/2 := by
    unfold Cia402MotionProfile.peakWay scurveDistanceForPeakVelocity
    rw [hup,hdown]
    rfl
  rw [planTable_eq,finish_rampTable_position rfl,hway]
  simp only [hav,neg_mul,hdv]
  ring

theorem planSample_eq (h : Planned p) {t : ℝ} (h0 : 0 ≤ t)
    (h1 : t ≤ (scurveBuildPositionPlan p).1.plannerTotalS) :
    planSample (scurveBuildPositionPlan p).1.plannerSegments t=
      trajectory p.planTable ⟨0,0,0⟩ t := by
  have hne : p.planTable≠[] := by simp [Cia402MotionProfile.planTable,scurveSegmentTable]
  rw [h.total] at h1
  have hstored := planSample_stored p.planTable hne 0 t ⟨0,0,0⟩ (planTable_forward h).1 h0 h1
  rw [zero_add] at hstored
  rw [h.segments,hstored]

theorem planEnd_eq (h : Planned p) :
    (scurveBuildPositionPlan p).1.planEnd=finish p.planTable ⟨0,0,0⟩ := by
  have hforward := (planTable_forward h).1
  have hnonneg := duration_nonneg hforward
  rw [← h.total] at hnonneg
  rw [Cia402MotionProfile.planEnd,planSample_eq h hnonneg (le_refl _),h.total]
  exact trajectory_duration hforward

theorem planSample_continuousOn (h : Planned p) (f : JerkState ℝ → ℝ)
    (hf : ∀ (k : JerkState ℝ) (jerk : ℝ),Continuous fun t => f (k.advance jerk t)) :
    ContinuousOn (fun t => f (planSample (scurveBuildPositionPlan p).1.plannerSegments t))
      (Set.Icc 0 (scurveBuildPositionPlan p).1.plannerTotalS) := by
  have hcontinuous := (trajectory_continuous f hf (planTable_forward h).1).continuousOn
    (s := Set.Icc 0 (scurveBuildPositionPlan p).1.plannerTotalS)
  refine hcontinuous.congr ?_
  intro t ht
  change f _=f _
  rw [planSample_eq h ht.1 ht.2]

theorem planSample_within (h : Planned p) {t : ℝ} (h0 : 0 ≤ t)
    (h1 : t ≤ (scurveBuildPositionPlan p).1.plannerTotalS) :
    (0 ≤ (planSample (scurveBuildPositionPlan p).1.plannerSegments t).velocity ∧
      (planSample (scurveBuildPositionPlan p).1.plannerSegments t).velocity ≤ p.maxVelocity) ∧
    (-p.deceleration ≤ (planSample (scurveBuildPositionPlan p).1.plannerSegments t).acceleration ∧
      (planSample (scurveBuildPositionPlan p).1.plannerSegments t).acceleration ≤ p.acceleration) := by
  have hopposed : Opposed p.planPeak.1 ⟨0,0,0⟩ ⟨0,p.planPeak.1,0⟩ := by
    constructor
    · exact (sub_zero _).symm
    · exact neg_zero.symm
  rw [planSample_eq h h0 h1]
  refine ⟨⟨?_,?_⟩,trajectory_acceleration (planTable_within h) h0⟩
  · exact trajectory_velocity_nonneg (planTable_forward h).1 (le_refl 0) h0
  · exact (trajectory_velocity_le hopposed (planTable_opposed h) h.peak.le h0).trans
      (planPeak_bounds h).1

theorem planEnd_full (h : Planned p) (hfull : p.peakWay p.maxVelocity ≤ p.way) :
    (scurveBuildPositionPlan p).1.planEnd.position=p.way := by
  rw [planEnd_eq h,planTable_position h,planPeak_full hfull,
    mul_div_cancel₀ _ h.maxVelocity.ne']
  ring

theorem planEnd_short (h : Planned p) (hshort : p.way<p.peakWay p.maxVelocity) :
    (scurveBuildPositionPlan p).1.planEnd.position=
      p.peakWay (p.peakBracket scurveSolveIterations).1 := by
  rw [planEnd_eq h,planTable_position h,planPeak_short hshort,mul_zero,add_zero]

theorem planTable_cruises (h : Planned p) (s : ScurveSegment ℝ)
    (hs : (scurveBuildPositionPlan p).1.plannerSegments[3]?=some s) (htime : 0 < s.time) :
    p.peakWay p.maxVelocity<p.way := by
  have htimes := congrArg (fun l => l[3]?)
    (scurveStoreSegments_times p.planTable 0 (⟨0,0,0⟩ : JerkState ℝ))
  rw [← h.segments] at htimes
  simp only [List.getElem?_map,hs,Option.map_some] at htimes
  have hcruise : s.time=p.planPeak.2 := Option.some.inj htimes
  rw [hcruise] at htime
  by_contra hnone
  rcases lt_or_eq_of_le (not_lt.mp hnone) with hshort|hsame
  · rw [planPeak_short hshort] at htime
    exact lt_irrefl 0 htime
  · rw [planPeak_full hsame.ge,hsame,sub_self,zero_div] at htime
    exact lt_irrefl 0 htime

/-- Every plan that the source returns is exact, and the way is monotone in the peak velocity. -/
theorem scurve_plan_exact (p : Cia402MotionProfile ℝ) (h : (scurveBuildPositionPlan p).2=true) :
    ExactPlan p (scurveBuildPositionPlan p).1 ∧ Monotone p.peakWay := by
  have hp := scurveBuildPositionPlan_planned p h
  have hforward := planTable_forward hp
  have htimes := scurveStoreSegments_times p.planTable 0 (⟨0,0,0⟩ : JerkState ℝ)
  have hnonneg : 0 ≤ (scurveBuildPositionPlan p).1.plannerTotalS := by
    rw [hp.total]
    exact duration_nonneg hforward.1
  refine ⟨?_,scurveDistance_monotone _ _ _ _⟩
  constructor
  case count =>
    have hlength := congrArg List.length htimes
    rw [List.length_map,List.length_map,← hp.segments] at hlength
    exact hlength
  case lasts =>
    intro s hs
    have hmem : s.time∈p.planTable.map Prod.snd := by
      rw [← htimes,← hp.segments]
      exact List.mem_map_of_mem hs
    obtain ⟨hatj,hata,-⟩ := accelPhase_spec hp
    obtain ⟨hdtj,hdta,-⟩ := decelPhase_spec hp
    have hcruise := (planPeak_bounds hp).2
    simp only [Cia402MotionProfile.planTable,scurveSegmentTable,List.map_cons,List.map_nil,
      List.mem_cons,List.not_mem_nil,or_false] at hmem
    rcases hmem with h|h|h|h|h|h|h <;> rw [h] <;> assumption
  case starts =>
    intro before s after hsplit
    rw [hp.segments] at hsplit
    have hstart := scurveStoreSegments_start hsplit
    rw [zero_add] at hstart
    exact hstart
  case total =>
    rw [hp.total,hp.segments,htimes]
    rfl
  case joins =>
    intro before s s' after hsplit
    rw [hp.segments] at hsplit
    exact scurveStoreSegments_joins hsplit
  case position => exact planSample_continuousOn hp _ fun k jerk => (advance_continuous k jerk).1
  case velocity => exact planSample_continuousOn hp _ fun k jerk => (advance_continuous k jerk).2.1
  case acceleration =>
    exact planSample_continuousOn hp _ fun k jerk => (advance_continuous k jerk).2.2
  case start =>
    rw [planSample_eq hp (le_refl 0) hnonneg]
    exact trajectory_zero _ _ hforward.1
  case within => exact fun t h0 h1 => planSample_within hp h0 h1
  case rest =>
    rw [planEnd_eq hp]
    exact hforward.2
  case cruises => exact planTable_cruises hp
  case reaches => exact planEnd_full hp
  case bracket =>
    intro hshort n
    obtain ⟨-,-,-,hbracket⟩ := peakBracket_spec hp hshort n
    exact hbracket
  case short =>
    intro hshort
    obtain ⟨-,-,-,hlow,hhigh⟩ := peakBracket_spec hp hshort scurveSolveIterations
    rw [planEnd_short hp hshort]
    exact ⟨hlow,by linarith⟩

end Exact

local instance thirtyAtLeastTwo : Nat.AtLeastTwo 30 := inferInstance

/-- A move that is too short for its speed. -/
noncomputable def hurriedProfile : Cia402MotionProfile ℝ :=
  { cia402ProfileReset with
    profileType := .scurve
    targetPosition := -30
    maxVelocity := 5000
    acceleration := 200
    deceleration := 700 }

theorem hurriedProfile_exact : ExactPlan hurriedProfile (scurveBuildPositionPlan hurriedProfile).1 := by
  have hready : PlanReady hurriedProfile := by
    refine ⟨by simp [hurriedProfile],rfl,?_,?_,?_,?_,?_⟩
    all_goals simp only [hurriedProfile,cia402ProfileReset]
    all_goals norm_num
  obtain ⟨plan,hplan⟩ := scurveBuildPositionPlan_ready hurriedProfile hready
  exact (scurve_plan_exact hurriedProfile (by rw [hplan])).1

end EtherCATMaster.Motion
