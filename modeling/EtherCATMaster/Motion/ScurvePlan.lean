import EtherCATMaster.Math.JerkBounds
import EtherCATMaster.Motion.MoveRun

namespace EtherCATMaster.Motion

open EtherCATMaster.Math EtherCATMaster.Math.JerkState

section Sample

variable {R : Type}

variable [Field R]

theorem scurveStoreSegments_elapsed (table : List (R × R)) (elapsed : R) (kin : JerkState R) :
    (scurveStoreSegments table elapsed kin).2=elapsed+duration table := by
  induction table generalizing elapsed kin with
  | nil => simp [scurveStoreSegments,duration]
  | cons stretch rest ih =>
    obtain ⟨jerk,time⟩ := stretch
    simp only [scurveStoreSegments,ih,duration,List.map_cons,List.sum_cons]
    ring

theorem scurveSegmentTable_eq (accelPhase decelPhase : ScurvePhase R)
    (cruiseTime accelJerk decelJerk : R) :
    scurveSegmentTable accelPhase decelPhase cruiseTime accelJerk decelJerk=
      rampTable accelJerk accelPhase.tj accelPhase.ta cruiseTime (-decelJerk) decelPhase.tj
        decelPhase.ta := by
  simp [scurveSegmentTable,rampTable,ramp]

variable [LinearOrder R]

theorem planSample_cons (segment next : ScurveSegment R) (rest : List (ScurveSegment R))
    (elapsed : R) :
    planSample (segment::next::rest) elapsed=
      if elapsed ≤ segment.startS+segment.time then planSample [segment] elapsed
      else planSample (next::rest) elapsed := by
  have hfind : findSegment elapsed (segment::next::rest)=
      if elapsed ≤ segment.startS+segment.time then findSegment elapsed [segment]
      else findSegment elapsed (next::rest) := rfl
  unfold planSample
  rw [hfind]
  split_ifs <;> rfl

variable [IsStrictOrderedRing R]

theorem scurveAdvanceSegment_eq (kin : JerkState R) (jerk time : R) :
    scurveAdvanceSegment kin jerk time=kin.advance jerk time := by
  ext <;> simp only [scurveAdvanceSegment,advance] <;> ring

theorem planSample_single (elapsed jerk time t : R) (kin : JerkState R) (h0 : 0 ≤ t)
    (h1 : t ≤ time) : planSample [⟨elapsed,kin,jerk,time⟩] (elapsed+t)=kin.advance jerk t := by
  have htau : clampDouble (elapsed+t-elapsed) 0 time=t := by
    rw [add_sub_cancel_left,clampDouble,if_neg (not_lt.mpr h0),if_neg (not_lt.mpr h1)]
  unfold planSample findSegment
  dsimp only
  rw [htau]
  ext <;> simp only [advance] <;> ring

/-- The stored segments reproduce the motion of their table. -/
theorem planSample_stored (table : List (R × R)) (hne : table≠[]) (elapsed t : R)
    (kin : JerkState R) (hf : ForwardTable table kin) (h0 : 0 ≤ t) (h1 : t ≤ duration table) :
    planSample (scurveStoreSegments table elapsed kin).1 (elapsed+t)=trajectory table kin t := by
  induction table generalizing elapsed t kin with
  | nil => exact absurd rfl hne
  | cons stretch rest ih =>
    obtain ⟨jerk,time⟩ := stretch
    cases rest with
    | nil =>
      have ht : t ≤ time := by simpa [duration] using h1
      rw [trajectory,if_pos ht]
      exact planSample_single elapsed jerk time t kin h0 ht
    | cons stretch' rest =>
      have hfirst : (scurveStoreSegments ((jerk,time)::stretch'::rest) elapsed kin).1=
          ⟨elapsed,kin,jerk,time⟩::(scurveStoreSegments (stretch'::rest) (elapsed+time)
            (kin.advance jerk time)).1 := by
        rw [← scurveAdvanceSegment_eq]
        rfl
      have hsecond : (scurveStoreSegments (stretch'::rest) (elapsed+time)
          (kin.advance jerk time)).1=
          ⟨elapsed+time,kin.advance jerk time,stretch'.1,stretch'.2⟩::
            (scurveStoreSegments rest (elapsed+time+stretch'.2)
              (scurveAdvanceSegment (kin.advance jerk time) stretch'.1 stretch'.2)).1 := rfl
      rw [hfirst,hsecond,planSample_cons,← hsecond,trajectory]
      dsimp only
      by_cases ht : t ≤ time
      · rw [if_pos (by linarith),if_pos ht]
        exact planSample_single elapsed jerk time t kin h0 ht
      · rw [if_neg (by linarith),if_neg ht]
        have hrest : t-time ≤ duration (stretch'::rest) := by
          simp only [duration,List.map_cons,List.sum_cons] at h1 ⊢
          linarith
        have hih := ih (by simp) (elapsed+time) (t-time) (kin.advance jerk time) hf.2
          (by linarith [not_le.mp ht]) hrest
        rw [← hih]
        congr 1
        ring

/-- The bisection keeps its upper end above every velocity that is short of the distance, and
halves the bracket. -/
theorem scurveSolvePeak_bracket (distanceFor : R → R) (distance short : R)
    (hshort : ∀ v,v ≤ short → distanceFor v ≤ distance) (n : ℕ) (low high : R) (hhigh : short<high) :
    short<(scurveSolvePeak distanceFor distance n low high).2 ∧
    (scurveSolvePeak distanceFor distance n low high).2-
      (scurveSolvePeak distanceFor distance n low high).1=(high-low)/2^n := by
  induction n generalizing low high with
  | zero =>
    rw [scurveSolvePeak,pow_zero,div_one]
    exact ⟨hhigh,rfl⟩
  | succ n ih =>
    rw [scurveSolvePeak]
    split_ifs with hmid
    · obtain ⟨h1,h2⟩ := ih ((low+high)*(1/2)) high hhigh
      refine ⟨h1,h2.trans ?_⟩
      rw [pow_succ,← div_div]
      ring
    · have hup : short<(low+high)*(1/2) := by
        by_contra hn
        exact hmid (hshort _ (not_lt.mp hn))
      obtain ⟨h1,h2⟩ := ih low ((low+high)*(1/2)) hup
      refine ⟨h1,h2.trans ?_⟩
      rw [pow_succ,← div_div]
      ring

end Sample

/-- One ramp of a plan: it takes time, and its jerk brings the velocity to the peak. -/
theorem scurvePhase_spec (peak acceleration jerk : ℝ) (hp : 0<peak) (ha : 0<acceleration)
    (hj : 0<jerk) :
    0<(scurvePhaseFromPeakVelocity peak acceleration jerk).tj ∧
    0 ≤ (scurvePhaseFromPeakVelocity peak acceleration jerk).ta ∧
    jerk*(scurvePhaseFromPeakVelocity peak acceleration jerk).tj*
      ((scurvePhaseFromPeakVelocity peak acceleration jerk).tj+
        (scurvePhaseFromPeakVelocity peak acceleration jerk).ta)=peak ∧
    (scurvePhaseFromPeakVelocity peak acceleration jerk).distance≤
      peak*(peak/acceleration+acceleration/jerk) := by
  have htj : 0<acceleration/jerk := div_pos ha hj
  have hquot : 0<peak/acceleration := div_pos hp ha
  have hmul : acceleration*(peak/acceleration)=peak := mul_div_cancel₀ peak ha.ne'
  unfold scurvePhaseFromPeakVelocity
  rw [if_neg (by push Not; exact ⟨hp,ha,hj⟩)]
  dsimp only
  split_ifs with hfull
  · refine ⟨htj,?_,?_,?_⟩
    · rw [sub_nonneg,le_div_iff₀ ha,mul_comm]
      exact hfull
    · rw [add_sub_cancel,mul_div_cancel₀ acceleration hj.ne',hmul]
    · -- With tj+ta=peak/acceleration the way is peak*(peak/acceleration+tj)/2.
      have hway : acceleration*(acceleration/jerk)*(acceleration/jerk)+
          3/2*acceleration*(acceleration/jerk)*(peak/acceleration-acceleration/jerk)+
          1/2*acceleration*(peak/acceleration-acceleration/jerk)*
            (peak/acceleration-acceleration/jerk)=
          acceleration*(peak/acceleration)*(peak/acceleration+acceleration/jerk)/2 := by ring
      rw [hway,hmul]
      have := mul_pos hp (add_pos hquot htj)
      linarith
  · have hroot : 0<peak/jerk := div_pos hp hj
    have hsq : Real.sqrt (peak/jerk)*Real.sqrt (peak/jerk)=peak/jerk :=
      Real.mul_self_sqrt hroot.le
    refine ⟨Real.sqrt_pos.mpr hroot,le_refl 0,?_,?_⟩
    · change jerk*Real.sqrt (peak/jerk)*(Real.sqrt (peak/jerk)+0)=peak
      rw [add_zero,mul_assoc,hsq,mul_div_cancel₀ peak hj.ne']
    · change peak*Real.sqrt (peak/jerk) ≤ _
      apply mul_le_mul_of_nonneg_left _ hp.le
      have hle : Real.sqrt (peak/jerk) ≤ acceleration/jerk := by
        apply Real.sqrt_le_iff.mpr
        refine ⟨htj.le,?_⟩
        rw [sq,div_mul_eq_mul_div]
        exact div_le_div_of_nonneg_right (not_le.mp hfull).le hj.le
      linarith

theorem scurveDistance_short (peak acceleration deceleration ramp : ℝ) (hp : peak ≤ 11/20)
    (ha : 1 ≤ acceleration) (hd : 1 ≤ deceleration) (hr : 0 < ramp) (hr' : ramp ≤ 7/20) :
    scurveDistanceForPeakVelocity peak acceleration deceleration (acceleration/ramp)
      (deceleration/ramp) ≤ 1 := by
  unfold scurveDistanceForPeakVelocity
  by_cases h0 : peak ≤ 0
  · have hz : ∀ a j : ℝ,(scurvePhaseFromPeakVelocity peak a j).distance=0 := by
      intro a j
      unfold scurvePhaseFromPeakVelocity
      rw [if_pos (Or.inl h0)]
    rw [hz,hz]
    norm_num
  · have hpos := not_le.mp h0
    have half : ∀ a : ℝ,1 ≤ a → (scurvePhaseFromPeakVelocity peak a (a/ramp)).distance ≤ 1/2 := by
      intro a ha
      have ha0 : 0<a := by linarith
      have hway := (scurvePhase_spec peak a (a/ramp) hpos ha0 (div_pos ha0 hr)).2.2.2
      rw [div_div_cancel₀ ha0.ne'] at hway
      have hquot : peak/a ≤ 11/20 := (div_le_self hpos.le ha).trans hp
      have hsum : peak*(peak/a+ramp) ≤ 11/20*(11/20+7/20) :=
        mul_le_mul hp (by linarith) (by positivity) (by norm_num)
      exact hway.trans (hsum.trans (by norm_num))
    have h1 := half acceleration ha
    have h2 := half deceleration hd
    linarith

theorem profileRampTimeS_bounds (p : Cia402MotionProfile ℝ) (h : p.profileType≠.trapezoidal) :
    3/100 ≤ profileRampTimeS p ∧ profileRampTimeS p ≤ 7/20 := by
  have hj : 0 ≤ normalizeJerkRatio p.jerkRatio ∧ normalizeJerkRatio p.jerkRatio ≤ 1 := by
    unfold normalizeJerkRatio clampDouble
    split_ifs with h1 h2
    · exact ⟨le_refl 0,zero_le_one⟩
    · exact ⟨zero_le_one,le_refl 1⟩
    · exact ⟨not_lt.mp h1,not_lt.mp h2⟩
  unfold profileRampTimeS
  cases ht : p.profileType with
  | trapezoidal => exact absurd ht h
  | lms => constructor <;> norm_num
  | scurve => constructor <;> norm_num
  | jerkRatio => constructor <;> linarith [hj.1,hj.2]

/-- A profile at rest, at least a unit from its target, with resolved limits. -/
structure PlanReady (p : Cia402MotionProfile ℝ) : Prop where
  smooth : p.profileType≠.trapezoidal
  velocity : p.velocity=0
  distance : 1 ≤ |p.targetPosition-p.position|
  maxVelocity : 1 ≤ p.maxVelocity
  maxVelocity_le : p.maxVelocity ≤ 2147483648
  acceleration : 1 ≤ p.acceleration
  deceleration : 1 ≤ p.deceleration

theorem scurvePeak_spec (p : Cia402MotionProfile ℝ) (h : PlanReady p) (ramp : ℝ) (hr : 0 < ramp)
    (hr' : ramp ≤ 7/20) :
    velocityEpsilon<(scurvePeakAndCruise p |p.targetPosition-p.position| (p.acceleration/ramp)
      (p.deceleration/ramp)).1 ∧
    0 ≤ (scurvePeakAndCruise p |p.targetPosition-p.position| (p.acceleration/ramp)
      (p.deceleration/ramp)).2 := by
  have hmax := h.maxVelocity
  have hmax' := h.maxVelocity_le
  unfold scurvePeakAndCruise
  dsimp only
  split_ifs with hfull
  · refine ⟨by rw [velocityEpsilon]; linarith,?_⟩
    exact div_nonneg (sub_nonneg.mpr hfull) (by linarith)
  · refine ⟨?_,le_refl 0⟩
    obtain ⟨hhigh,hgap⟩ := scurveSolvePeak_bracket
      (fun peak => scurveDistanceForPeakVelocity peak p.acceleration p.deceleration
        (p.acceleration/ramp) (p.deceleration/ramp)) |p.targetPosition-p.position| (11/20)
      (fun v hv => (scurveDistance_short v _ _ ramp hv h.acceleration h.deceleration hr hr').trans
        h.distance) scurveSolveIterations 0 p.maxVelocity (by linarith)
    -- Eighty halvings leave less than the room between 11/20 and 1/2.
    have hsmall : (p.maxVelocity-0)/2^scurveSolveIterations ≤ 1/20 := by
      rw [div_le_iff₀ (by positivity),scurveSolveIterations]
      norm_num
      linarith
    rw [velocityEpsilon]
    linarith

theorem scurveSegmentTable_forward (accelPhase decelPhase : ScurvePhase ℝ)
    (peak cruiseTime accelJerk decelJerk : ℝ) (hpeak : 0 ≤ peak) (hcruise : 0 ≤ cruiseTime)
    (hatj : 0 ≤ accelPhase.tj) (hata : 0 ≤ accelPhase.ta)
    (ha : accelJerk*accelPhase.tj*(accelPhase.tj+accelPhase.ta)=peak)
    (hdtj : 0 ≤ decelPhase.tj) (hdta : 0 ≤ decelPhase.ta)
    (hd : decelJerk*decelPhase.tj*(decelPhase.tj+decelPhase.ta)=peak) :
    ForwardTable (scurveSegmentTable accelPhase decelPhase cruiseTime accelJerk decelJerk)
      ⟨0,0,0⟩ := by
  have hend : 0 ≤ 0+accelJerk*accelPhase.tj*(accelPhase.tj+accelPhase.ta)+
      -decelJerk*decelPhase.tj*(decelPhase.tj+decelPhase.ta) := by
    have hdown : -decelJerk*decelPhase.tj*(decelPhase.tj+decelPhase.ta)= -peak := by
      rw [← hd]
      ring
    rw [ha,hdown]
    simp
  have hup : 0 ≤ 0+accelJerk*accelPhase.tj*(accelPhase.tj+accelPhase.ta) := by
    rw [ha,zero_add]
    exact hpeak
  rw [scurveSegmentTable_eq]
  exact (forwardTable_rampTable rfl hatj hata hcruise hdtj hdta (le_refl 0) hup hend).1

/-- The stretches of a plan from rest. -/
structure ForwardPlan where
  table : List (ℝ × ℝ)
  nonempty : table≠[]
  forward : ForwardTable table ⟨0,0,0⟩
  lasts : 0<duration table

/-- The plan of a ready profile is always built. -/
theorem scurveBuildPositionPlan_ready (p : Cia402MotionProfile ℝ) (h : PlanReady p) :
    ∃ plan : ForwardPlan,scurveBuildPositionPlan p=
      ({ p.clearPlan with
          plannerValid := true
          plannerStartPosition := p.position
          plannerDistance := |p.targetPosition-p.position|
          plannerDirection := if p.targetPosition≥p.position then 1 else -1
          plannerTotalS := duration plan.table
          plannerSegments := (scurveStoreSegments plan.table 0 ⟨0,0,0⟩).1 },true) := by
  obtain ⟨hr,hr'⟩ := profileRampTimeS_bounds p h.smooth
  have hramp : maxDouble (profileRampTimeS p) (1/1000)=profileRampTimeS p := by
    rw [maxDouble_eq_max,max_eq_left]
    linarith
  have hr0 : 0<profileRampTimeS p := by linarith
  have ha0 : 0<p.acceleration := by linarith [h.acceleration]
  have hd0 : 0<p.deceleration := by linarith [h.deceleration]
  have haj := div_pos ha0 hr0
  have hdj := div_pos hd0 hr0
  obtain ⟨hpeak,hcruise⟩ := scurvePeak_spec p h (profileRampTimeS p) hr0 hr'
  generalize hpc : scurvePeakAndCruise p |p.targetPosition-p.position|
    (p.acceleration/profileRampTimeS p) (p.deceleration/profileRampTimeS p)=pc at hpeak hcruise
  have hp0 : 0<pc.1 := by
    rw [velocityEpsilon] at hpeak
    linarith
  obtain ⟨hatj,hata,hav,_⟩ := scurvePhase_spec pc.1 _ _ hp0 ha0 haj
  obtain ⟨hdtj,hdta,hdv,_⟩ := scurvePhase_spec pc.1 _ _ hp0 hd0 hdj
  have hforward := scurveSegmentTable_forward _ _ pc.1 pc.2 _ _ hp0.le hcruise hatj.le hata hav
    hdtj.le hdta hdv
  have hlasts : 0<duration (scurveSegmentTable
      (scurvePhaseFromPeakVelocity pc.1 p.acceleration (p.acceleration/profileRampTimeS p))
      (scurvePhaseFromPeakVelocity pc.1 p.deceleration (p.deceleration/profileRampTimeS p))
      pc.2 (p.acceleration/profileRampTimeS p) (p.deceleration/profileRampTimeS p)) := by
    simp only [scurveSegmentTable,duration,List.map_cons,List.map_nil,List.sum_cons,List.sum_nil]
    linarith
  refine ⟨⟨_,by simp [scurveSegmentTable],hforward,hlasts⟩,?_⟩
  unfold scurveBuildPositionPlan
  dsimp only
  rw [absDouble_eq_abs,absDouble_eq_abs,hramp,hpc,scurveStoreSegments_elapsed,zero_add]
  rw [if_neg (by rw [positionEpsilon]; linarith [h.distance]),
    if_neg (by rw [h.velocity,velocityEpsilon]; norm_num),
    if_neg (by push Not; exact ⟨by linarith [h.maxVelocity],ha0,hd0⟩),
    if_neg (not_le.mpr hr0),if_neg (by push Not; exact ⟨haj,hdj⟩),if_neg (not_le.mpr hpeak),
    if_neg (not_le.mpr hlasts)]

end EtherCATMaster.Motion
