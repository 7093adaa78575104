import EtherCATMaster.Framework.Run
import EtherCATMaster.Motion.Rounding
import EtherCATMaster.Motion.ScurvePlan
import Mathlib.Order.Interval.Set.UnorderedInterval
import Mathlib.Tactic.LinearCombination

namespace EtherCATMaster.Motion

open EtherCATMaster.Math EtherCATMaster.Math.JerkState EtherCATMaster.Framework

section Emitted

variable {R : Type} [LinearOrder R]

theorem toward_between (start finish before after : R) (h : Toward start finish before after)
    (hb : before ∈ Set.uIcc start finish) : after ∈ Set.uIcc start finish := by
  unfold Toward at h
  split_ifs at h with hle
  · rw [Set.uIcc_of_le hle] at hb ⊢
    exact ⟨hb.1.trans h.1,h.2⟩
  · rw [Set.uIcc_of_ge (not_le.mp hle).le] at hb ⊢
    exact ⟨h.2,h.1.trans hb.2⟩

variable [Field R] [FloorRing R] [IsStrictOrderedRing R]

theorem toward_roundToI32 (start : Int32) (finish : ℤ) (before after : R)
    (h : Toward (start.toInt : R) (finish : R) before after)
    (hb : before ∈ Set.uIcc (start.toInt : R) (finish : R)) :
    Toward start.toInt (saturateI32 finish).toInt (roundToI32 before).toInt
      (roundToI32 after).toInt := by
  have hstart := roundToI32_toInt32 (R := R) start
  rw [← roundToI32_intCast (R := R) finish]
  unfold Toward at h
  split_ifs at h with hle
  · have hends := roundToI32_mono hle
    rw [hstart] at hends
    unfold Toward
    rw [if_pos hends]
    exact ⟨roundToI32_mono h.1,roundToI32_mono h.2⟩
  · rw [Set.uIcc_of_ge (not_le.mp hle).le] at hb
    have h1 := roundToI32_mono h.1
    have h2 := roundToI32_mono h.2
    have h3 := roundToI32_mono hb.2
    rw [hstart] at h3
    unfold Toward
    -- A target below the range may saturate to the start; then nothing moves.
    split_ifs with hends
    · exact ⟨by omega,by omega⟩
    · exact ⟨h1,h2⟩

theorem roundToI32_between (start : Int32) (finish : ℤ) (x : R)
    (h : x ∈ Set.uIcc (start.toInt : R) (finish : R)) :
    (roundToI32 x).toInt ∈ Set.uIcc start.toInt (saturateI32 finish).toInt := by
  rw [← roundToI32_toInt32 (R := R) start,← roundToI32_intCast (R := R) finish,Set.mem_uIcc]
  rw [Set.mem_uIcc] at h
  rcases h with ⟨h1,h2⟩|⟨h1,h2⟩
  · exact .inl ⟨roundToI32_mono h1,roundToI32_mono h2⟩
  · exact .inr ⟨roundToI32_mono h1,roundToI32_mono h2⟩

end Emitted

/-- The way covered at a time of a plan, held between nothing and the whole distance. -/
noncomputable def ForwardPlan.way (plan : ForwardPlan) (distance t : ℝ) : ℝ :=
  min (max (trajectory plan.table ⟨0,0,0⟩ t).position 0) distance

namespace ForwardPlan

variable (plan : ForwardPlan)

theorem way_zero (distance : ℝ) (h : 0 ≤ distance) : plan.way distance 0=0 := by
  unfold way
  rw [trajectory_zero plan.table _ plan.forward]
  simp [h]

theorem way_le (distance t : ℝ) : plan.way distance t ≤ distance := min_le_right _ _

theorem way_mono (distance s t : ℝ) (h0 : 0 ≤ s) (hst : s ≤ t) :
    plan.way distance s ≤ plan.way distance t :=
  min_le_min (max_le_max (trajectory_position_mono plan.table _ plan.forward s t h0 hst)
    (le_refl 0)) (le_refl distance)

end ForwardPlan

/-- A profile that has followed its plan for the given time. -/
structure OnPlan (plan : ForwardPlan) (start target elapsed : ℝ)
    (p : Cia402MotionProfile ℝ) : Prop where
  running : p.done=false
  valid : p.plannerValid=true
  ends : p.targetPosition=target
  planStart : p.plannerStartPosition=start
  planDistance : p.plannerDistance=|target-start|
  planDirection : p.plannerDirection=directionOf start target
  planTotal : p.plannerTotalS=duration plan.table
  planSegments : p.plannerSegments=(scurveStoreSegments plan.table 0 ⟨0,0,0⟩).1
  planElapsed : p.plannerElapsedS=elapsed
  elapsed_nonneg : 0 ≤ elapsed
  reached : p.position=start+directionOf start target*plan.way |target-start| elapsed

theorem onPlan_emitted (plan : ForwardPlan) (start target elapsed : ℝ)
    (p : Cia402MotionProfile ℝ) (out : Cia402PdoOutput) (h : OnPlan plan start target elapsed p) :
    OnPlan plan start target elapsed (p.emitted out) :=
  ⟨h.running,h.valid,h.ends,h.planStart,h.planDistance,h.planDirection,h.planTotal,h.planSegments,
    h.planElapsed,h.elapsed_nonneg,h.reached⟩

theorem followPositionPlan_cases (plan : ForwardPlan) (start target elapsed dtS : ℝ)
    (p : Cia402MotionProfile ℝ) (hdt : 0<dtS) (h : OnPlan plan start target elapsed p) :
    (duration plan.table ≤ elapsed+dtS ∧ Arrived (followPositionPlan p dtS)) ∨
    (elapsed+dtS<duration plan.table ∧
      OnPlan plan start target (elapsed+dtS) (followPositionPlan p dtS)) := by
  have h0 : 0 ≤ elapsed+dtS := by linarith [h.elapsed_nonneg]
  by_cases hend : duration plan.table ≤ elapsed+dtS
  · refine .inl ⟨hend,?_⟩
    unfold followPositionPlan
    rw [h.planElapsed,h.planTotal]
    dsimp only
    rw [if_pos hend]
    exact ⟨rfl,rfl,rfl⟩
  · have hlt := not_le.mp hend
    have htime : clampDouble (elapsed+dtS) 0 (duration plan.table)=elapsed+dtS := by
      unfold clampDouble
      rw [if_neg (not_lt.mpr h0),if_neg (not_lt.mpr hlt.le)]
    have hsample := planSample_stored plan.table plan.nonempty 0 (elapsed+dtS) ⟨0,0,0⟩
      plan.forward h0 hlt.le
    rw [zero_add] at hsample
    refine .inr ⟨hlt,?_⟩
    unfold followPositionPlan
    rw [h.planElapsed,h.planTotal]
    dsimp only
    rw [if_neg hend]
    refine ⟨h.running,h.valid,h.ends,h.planStart,h.planDistance,h.planDirection,rfl,
      h.planSegments,rfl,h0,?_⟩
    dsimp only
    rw [htime,h.planSegments,hsample,h.planStart,h.planDirection,h.planDistance,
      maxDouble_eq_max,minDouble_eq_min]
    rfl

theorem followPositionPlan_abs_velocity (p : Cia402MotionProfile ℝ) (start target dtS : ℝ)
    (hdirection : p.plannerDirection=directionOf start target) (hmax : 0 ≤ p.maxVelocity) :
    |(followPositionPlan p dtS).velocity| ≤ p.maxVelocity := by
  unfold followPositionPlan
  dsimp only
  split_ifs
  · simpa using hmax
  · dsimp only
    rw [hdirection,abs_mul,abs_directionOf,one_mul,minDouble_eq_min,maxDouble_eq_max]
    rw [abs_of_nonneg (le_min (le_max_right _ _) hmax)]
    exact min_le_right _ _

theorem directionOf_mul_left (start target way : ℝ) :
    directionOf start target*(target-(start+directionOf start target*way))=
      |target-start|-way := by
  have hsq := directionOf_mul_self start target
  have hdist := directionOf_mul_distance start target
  linear_combination (-directionOf start target)*hdist+(|target-start|-way)*hsq

theorem followPositionPlan_toward (plan : ForwardPlan) (start target elapsed dtS : ℝ)
    (p : Cia402MotionProfile ℝ) (hdt : 0<dtS) (h : OnPlan plan start target elapsed p) :
    Toward start target p.position (followPositionPlan p dtS).position := by
  have hends : (followPositionPlan p dtS).targetPosition=target :=
    (followPositionPlan_frame p dtS).2.2.1.trans h.ends
  rcases followPositionPlan_cases plan start target elapsed dtS p hdt h with ⟨_,ha⟩|⟨_,hp⟩
  · refine toward_of_direction _ _ _ _ ?_ ?_
    · rw [ha.position,hends,h.reached,directionOf_mul_left]
      exact sub_nonneg.mpr (plan.way_le _ _)
    · rw [ha.position,hends,sub_self,mul_zero]
  · refine toward_of_direction _ _ _ _ ?_ ?_
    · have hway := plan.way_mono |target-start| elapsed (elapsed+dtS) h.elapsed_nonneg
        (by linarith)
      rw [hp.reached,h.reached,add_sub_add_left_eq_sub,← mul_sub,← mul_assoc,
        directionOf_mul_self,one_mul]
      exact sub_nonneg.mpr hway
    · rw [hp.reached,directionOf_mul_left]
      exact sub_nonneg.mpr (plan.way_le _ _)

/-- A smooth move from the given start: at rest on its target, about to plan, or on its plan. -/
structure SmoothMove (start target maxVelocity : ℝ) (p : Cia402MotionProfile ℝ) : Prop where
  smooth : p.profileType≠.trapezoidal
  ends : p.targetPosition=target
  limit : p.maxVelocity=maxVelocity
  between : p.position ∈ Set.uIcc start target
  slow : |p.velocity| ≤ maxVelocity
  state : Arrived p ∨
    (PlanReady p ∧ p.done=false ∧ p.plannerValid=false ∧ p.position=start) ∨
    ∃ plan elapsed,OnPlan plan start target elapsed p

theorem onPlan_built (start target : ℝ) (p : Cia402MotionProfile ℝ) (hready : PlanReady p)
    (hdone : p.done=false) (hstart : p.position=start) (hends : p.targetPosition=target) :
    (scurveBuildPositionPlan p).2=true ∧
    ∃ plan,OnPlan plan start target 0 (scurveBuildPositionPlan p).1 := by
  obtain ⟨plan,hbuilt⟩ := scurveBuildPositionPlan_ready p hready
  rw [hbuilt]
  refine ⟨rfl,plan,hdone,rfl,hends,hstart,by rw [hends,hstart],by rw [hends,hstart]; rfl,rfl,rfl,
    rfl,le_refl 0,?_⟩
  rw [plan.way_zero _ (abs_nonneg _),mul_zero,add_zero]
  exact hstart

theorem stepPositionProfile_onPlan (plan : ForwardPlan) (start target elapsed dtS : ℝ)
    (p : Cia402MotionProfile ℝ) (hsmooth : p.profileType≠.trapezoidal)
    (h : OnPlan plan start target elapsed p) :
    stepPositionProfile p dtS=followPositionPlan p dtS := by
  have hramp := (profileRampTimeS_bounds p hsmooth).1
  unfold stepPositionProfile stepPositionProfileSmooth
  rw [if_neg (by linarith),if_neg (by rw [h.running]; decide),if_pos h.valid]

theorem smoothMove_follows (start target maxVelocity : ℝ) (p : Cia402MotionProfile ℝ)
    (h : SmoothMove start target maxVelocity p) :
    (Arrived p ∧ ∀ dtS,stepPositionProfile p dtS=p) ∨
    ((p.plannerValid=true ∨ (scurveBuildPositionPlan p).2=true) ∧
      ∃ plan elapsed q,OnPlan plan start target elapsed q ∧ q.position=p.position ∧ p.Frame q ∧
        ∀ dtS,stepPositionProfile p dtS=followPositionPlan q dtS) := by
  rcases h.state with ha|⟨hready,hdone,hvalid,hstart⟩|⟨plan,elapsed,hp⟩
  · exact .inl ⟨ha,fun dtS => stepPositionProfile_done p dtS ha.done⟩
  · obtain ⟨hbuilt,plan,hp⟩ := onPlan_built start target p hready hdone hstart h.ends
    obtain ⟨hframe,_,hpos,_⟩ := scurveBuildPositionPlan_frame p
    have hramp := (profileRampTimeS_bounds p h.smooth).1
    refine .inr ⟨.inr hbuilt,plan,0,_,hp,hpos,hframe,fun dtS => ?_⟩
    unfold stepPositionProfile stepPositionProfileSmooth
    rw [if_neg (by linarith),if_neg (by rw [hdone]; decide),if_neg (by rw [hvalid]; decide)]
    dsimp only
    rw [if_pos hbuilt]
  · exact .inr ⟨.inl hp.valid,plan,elapsed,p,hp,rfl,.refl p,
      fun dtS => stepPositionProfile_onPlan plan start target elapsed dtS p h.smooth hp⟩

theorem smoothMove_step (start target maxVelocity dtS : ℝ) (hdt : 0<dtS)
    (p : Cia402MotionProfile ℝ) (h : SmoothMove start target maxVelocity p) :
    SmoothMove start target maxVelocity (stepPositionProfile p dtS) ∧
    Toward start target p.position (stepPositionProfile p dtS).position := by
  have hmax : 0 ≤ maxVelocity := (abs_nonneg _).trans h.slow
  rcases smoothMove_follows start target maxVelocity p h with
    ⟨ha,hstay⟩|⟨_,plan,elapsed,q,hq,hpos,hframe,hstep⟩
  · rw [hstay]
    refine ⟨h,toward_of_direction _ _ _ _ ?_ ?_⟩
    · rw [sub_self,mul_zero]
    · rw [ha.position,h.ends,sub_self,mul_zero]
  · have hward := followPositionPlan_toward plan start target elapsed dtS q hdt hq
    have hf := hframe.trans (followPositionPlan_frame q dtS)
    have hlimit : q.maxVelocity=maxVelocity := hframe.2.2.2.2.1.trans h.limit
    have hslow := followPositionPlan_abs_velocity q start target dtS hq.planDirection
      (by rw [hlimit]; exact hmax)
    rw [hlimit] at hslow
    rw [hpos] at hward
    rw [hstep]
    refine ⟨⟨?_,hf.2.2.1.trans h.ends,hf.2.2.2.2.1.trans h.limit,
      toward_between _ _ _ _ hward h.between,hslow,?_⟩,hward⟩
    · rw [hf.2.2.2.2.2.2.2.1]
      exact h.smooth
    · rcases followPositionPlan_cases plan start target elapsed dtS q hdt hq with ⟨_,ha⟩|⟨_,hp⟩
      · exact .inl ha
      · exact .inr (.inr ⟨plan,_,hp⟩)

theorem smoothMove_begin (command : Cia402MotionCommand ℝ) (actualPosition : Int32)
    (h : command.type=.profilePosition)
    (hprofile : normalizeProfileType command.profileType≠.trapezoidal) :
    SmoothMove (actualPosition.toInt : ℝ) (command.moveTarget actualPosition : ℝ)
      (configuredSpeed command.profileVelocity) (cia402ProfileBegin command actualPosition 0) := by
  obtain ⟨ht,hm,ha,hd,hp,_⟩ := cia402ProfileBegin_limits command actualPosition 0 h
  obtain ⟨hpos,hvel,hstart⟩ := begin_at_rest command actualPosition h
  have hspeed := one_le_configuredSpeed (R := ℝ) command.profileVelocity
  have hsmooth : (cia402ProfileBegin command actualPosition 0).profileType≠.trapezoidal := by
    rw [hp]
    exact hprofile
  refine ⟨hsmooth,ht,hm,by rw [hpos]; exact Set.left_mem_uIcc,?_,?_⟩
  · rw [hvel,abs_zero]
    linarith
  · rcases hstart with ⟨hdone,hsame⟩|⟨hdone,hne,hvalid⟩
    · exact .inl ⟨hdone,by rw [hpos,ht,hsame],hvel⟩
    · refine .inr (.inl ⟨⟨hsmooth,hvel,?_,?_,?_,?_,?_⟩,hdone,hvalid,hpos⟩)
      · -- Whole numbers that differ are a unit apart.
        rw [ht,hpos]
        exact_mod_cast Int.one_le_abs (sub_ne_zero.mpr hne)
      · rw [hm]
        exact hspeed
      · obtain ⟨n,_,hn,he⟩ := configuredSpeed_eq (R := ℝ) command.profileVelocity
        rw [hm,he]
        exact_mod_cast hn
      · rw [ha]
        exact one_le_configuredAccel _ _
      · rw [hd]
        exact one_le_configuredAccel _ _

theorem onPlan_rank (start target maxVelocity dtS : ℝ) (hdt : 0<dtS) (p : Cia402MotionProfile ℝ)
    (h : SmoothMove start target maxVelocity p) (plan : ForwardPlan) (elapsed : ℝ) (m : ℕ)
    (hp : OnPlan plan start target elapsed p) (hm : duration plan.table-elapsed ≤ m*dtS) :
    Arrived (stepPositionProfile p dtS) ∨
    ∃ m',m' < m ∧ ∃ elapsed',OnPlan plan start target elapsed' (stepPositionProfile p dtS) ∧
      duration plan.table-elapsed' ≤ m'*dtS := by
  rw [stepPositionProfile_onPlan plan start target elapsed dtS p h.smooth hp]
  rcases followPositionPlan_cases plan start target elapsed dtS p hdt hp with ⟨_,ha⟩|⟨hlt,hnext⟩
  · exact .inl ha
  · cases m with
    | zero =>
      rw [Nat.cast_zero,zero_mul] at hm
      linarith
    | succ m =>
      refine .inr ⟨m,Nat.lt_succ_self m,elapsed+dtS,hnext,?_⟩
      push_cast at hm
      linarith

section Run

variable (command : Cia402MotionCommand ℝ) (inputs : ℕ → ProfileInput)

theorem smoothMove_at (h : command.type=.profilePosition)
    (hprofile : normalizeProfileType command.profileType≠.trapezoidal)
    (hrest : (inputs 0).actualVelocity=0) (hperiod : ∀ n,0<(inputs n).periodUs) (n : ℕ) :
    SmoothMove ((inputs 0).actualPosition.toInt : ℝ)
      (command.moveTarget (inputs 0).actualPosition : ℝ)
      (configuredSpeed command.profileVelocity) (currentAt command inputs n) := by
  refine currentAt_induction command inputs h
    (fun _ p => SmoothMove ((inputs 0).actualPosition.toInt : ℝ)
      (command.moveTarget (inputs 0).actualPosition : ℝ)
      (configuredSpeed command.profileVelocity) p) ?_ ?_ ?_ n
  · rintro n p out ⟨h1,h2,h3,h4,h5,h6⟩
    refine ⟨h1,h2,h3,h4,h5,?_⟩
    rcases h6 with ha|⟨⟨k1,k2,k3,k4,k5,k6,k7⟩,k⟩|⟨plan,elapsed,hp⟩
    · exact .inl ⟨ha.done,ha.position,ha.velocity⟩
    · exact .inr (.inl ⟨⟨k1,k2,k3,k4,k5,k6,k7⟩,k⟩)
    · exact .inr (.inr ⟨plan,elapsed,onPlan_emitted plan _ _ elapsed p out hp⟩)
  · rw [hrest]
    exact smoothMove_begin command _ h hprofile
  · intro n p hp
    exact (smoothMove_step _ _ _ _ (periodSeconds_pos _ (hperiod n)) p hp).1

theorem smoothMove_arrives (h : command.type=.profilePosition)
    (hprofile : normalizeProfileType command.profileType≠.trapezoidal)
    (hrest : (inputs 0).actualVelocity=0) (hperiod : ∀ n,0<(inputs n).periodUs)
    (hfixed : ∀ n,(inputs n).periodUs=(inputs 0).periodUs) :
    ∃ N,Arrived (currentAt command inputs (N+1)) := by
  have hmove := smoothMove_at command inputs h hprofile hrest hperiod
  have hdt := periodSeconds_pos (R := ℝ) _ (hperiod 0)
  -- The first call is on a plan, or the move is already over.
  rcases smoothMove_follows _ _ _ _ (hmove 0) with ⟨ha,_⟩|⟨_,plan,elapsed,q,hq,_,_,hq'⟩
  · refine ⟨0,?_⟩
    rw [currentAt_succ command inputs h 0]
    have hs := arrived_stays command inputs h 0 ha 0 (le_refl 0)
    exact ⟨hs.done,hs.position,hs.velocity⟩
  rcases followPositionPlan_cases plan _ _ elapsed _ q hdt hq with ⟨_,ha⟩|⟨hlt,hp⟩
  · refine ⟨0,?_⟩
    rw [currentAt_succ command inputs h 0,steppedAt,hq']
    exact ⟨ha.done,ha.position,ha.velocity⟩
  obtain ⟨m,hm⟩ := exists_nat_ge ((duration plan.table-(elapsed+
    periodSeconds (inputs 0).periodUs))/periodSeconds (inputs 0).periodUs)
  rw [div_le_iff₀ hdt] at hm
  refine eventually_of_rank (D := fun n => Arrived (currentAt command inputs n))
    (W := fun n m => ∃ elapsed,OnPlan plan ((inputs 0).actualPosition.toInt : ℝ)
        (command.moveTarget (inputs 0).actualPosition : ℝ) elapsed (currentAt command inputs n) ∧
      duration plan.table-elapsed ≤ m*periodSeconds (inputs 0).periodUs) (n := 1) (m := m) ?_ ?_
  · rintro n m ⟨elapsed,hp,hm⟩
    rw [currentAt_succ command inputs h n,steppedAt,hfixed n]
    rcases onPlan_rank _ _ _ _ hdt _ (hmove n) plan elapsed m hp hm with
      ha|⟨m',hlt,elapsed',hp',hm'⟩
    · exact .inl ⟨ha.done,ha.position,ha.velocity⟩
    · exact .inr ⟨m',hlt,elapsed',onPlan_emitted plan _ _ _ _ _ hp',hm'⟩
  · refine ⟨_,?_,hm⟩
    rw [currentAt_succ command inputs h 0,steppedAt,hq']
    exact onPlan_emitted plan _ _ _ _ _ hp

theorem emittedAt_eq (h : command.type=.profilePosition) (hrest : (inputs 0).actualVelocity=0)
    (n : ℕ) :
    (emittedAt command inputs n).toInt=(roundToI32 (currentAt command inputs n).position).toInt := by
  cases n with
  | zero =>
    rw [currentAt_position command inputs h hrest 0]
    exact (roundToI32_toInt32 _).symm
  | succ n =>
    rw [emittedAt,(profileAt_succ command inputs h n).2.1,currentAt_succ command inputs h n]
    rfl

/-- A smooth move from rest emits positions that go ahead from the start to the saturated target
without leaving the way between, and velocities within the configured speed. It is planned at
once, so the trapezoidal fallback is never used, and it ends at rest on its target. -/
theorem smooth_move_from_rest (h : command.type=.profilePosition)
    (hprofile : normalizeProfileType command.profileType≠.trapezoidal)
    (hrest : (inputs 0).actualVelocity=0) (hperiod : 0<(inputs 0).periodUs)
    (hfixed : ∀ n,(inputs n).periodUs=(inputs 0).periodUs) :
    (∀ n,Toward (inputs 0).actualPosition.toInt
        (saturateI32 (command.moveTarget (inputs 0).actualPosition)).toInt
        (emittedAt command inputs n).toInt (emittedAt command inputs (n+1)).toInt ∧
      (emittedAt command inputs n).toInt ∈ Set.uIcc (inputs 0).actualPosition.toInt
        (saturateI32 (command.moveTarget (inputs 0).actualPosition)).toInt) ∧
    (∀ n,((|(outputAt command inputs n).targetVelocity.toInt| : ℤ) : ℝ)≤
      configuredSpeed command.profileVelocity) ∧
    (∀ n,(currentAt command inputs n).done=false →
      (currentAt command inputs n).plannerValid=true ∨
      (scurveBuildPositionPlan (currentAt command inputs n)).2=true) ∧
    ∃ N,∀ n,N ≤ n → doneAt command inputs n=true ∧
      (outputAt command inputs n).targetPosition=
        saturateI32 (command.moveTarget (inputs 0).actualPosition) ∧
      (outputAt command inputs n).targetVelocity=0 ∧
      (profileAt command inputs (n+1)).position=
        (command.moveTarget (inputs 0).actualPosition : ℝ) ∧
      (profileAt command inputs (n+1)).velocity=0 := by
  have hpositive : ∀ n,0<(inputs n).periodUs := by
    intro n
    rw [hfixed n]
    exact hperiod
  have hmove := smoothMove_at command inputs h hprofile hrest hpositive
  have hstep := fun n => smoothMove_step _ _ _ _ (periodSeconds_pos _ (hpositive n)) _ (hmove n)
  have hemitted := emittedAt_eq command inputs h hrest
  refine ⟨fun n => ⟨?_,?_⟩,fun n => ?_,fun n hrunning => ?_,?_⟩
  · have hward := toward_roundToI32 _ _ _ _ (hstep n).2 (hmove n).between
    rw [hemitted n,hemitted (n+1),currentAt_succ command inputs h n]
    exact hward
  · rw [hemitted n]
    exact roundToI32_between _ _ _ (hmove n).between
  · -- The configured speed is a whole number, which rounding respects.
    obtain ⟨speed,_,_,hspeed⟩ := configuredSpeed_eq (R := ℝ) command.profileVelocity
    have hslow := (hstep n).1.slow
    rw [hspeed] at hslow ⊢
    rw [(profileAt_succ command inputs h n).2.2.1]
    exact_mod_cast abs_roundToI32_le _ speed hslow
  · rcases smoothMove_follows _ _ _ _ (hmove n) with ⟨ha,_⟩|⟨hplan,_⟩
    · exact absurd (hrunning.symm.trans ha.done) (by decide)
    · exact hplan
  · obtain ⟨N,hN⟩ := smoothMove_arrives command inputs h hprofile hrest hpositive hfixed
    refine ⟨N+1,fun n hn => ?_⟩
    have ha := arrived_stays command inputs h (N+1) hN n hn
    have hends := ha.position.trans (hstep n).1.ends
    obtain ⟨hprofileAt,hposition,hvelocity,hdone⟩ := profileAt_succ command inputs h n
    refine ⟨hdone.trans ha.done,?_,?_,?_,?_⟩
    · rw [hposition,hends,roundToI32_intCast]
    · rw [hvelocity,ha.velocity,roundToI32_zero]
    · rw [hprofileAt]
      exact hends
    · rw [hprofileAt]
      exact ha.velocity

end Run

/-- A relative move with the S-curve profile, from position 5. -/
noncomputable def scurveMove : Cia402MotionCommand ℝ :=
  { cia402MotionInit with
    type := .profilePosition
    targetPosition := -100
    profileVelocity := 40
    relative := true
    profileType := 2 }

def restingInputs : ℕ → ProfileInput := fun _ => ⟨5,0,1000,⟨0,0,0,0⟩⟩

theorem scurveMove_lands :
    ∃ N,∀ n,N ≤ n → doneAt scurveMove restingInputs n=true ∧
      (outputAt scurveMove restingInputs n).targetPosition= -95 ∧
      (outputAt scurveMove restingInputs n).targetVelocity=0 := by
  obtain ⟨N,hN⟩ := (smooth_move_from_rest scurveMove restingInputs rfl
    (by change normalizeProfileType 2≠_; decide) rfl (by decide) (fun _ => rfl)).2.2.2
  refine ⟨N,fun n hn => ⟨(hN n hn).1,?_,(hN n hn).2.2.1⟩⟩
  rw [(hN n hn).2.1]
  decide +kernel

end EtherCATMaster.Motion
