import EtherCATMaster.Math.ConstantJerk
import Mathlib.Topology.Algebra.Ring.Basic
import Mathlib.Topology.Order.OrderClosed

namespace EtherCATMaster.Math
namespace JerkState

variable {R : Type} [Field R]

theorem duration_cons (stretch : R × R) (rest : List (R × R)) :
    duration (stretch::rest)=stretch.2+duration rest := by
  rw [duration,duration,List.map_cons,List.sum_cons]

variable [LinearOrder R] [IsStrictOrderedRing R]

theorem duration_nonneg {table : List (R × R)} {k : JerkState R} (h : ForwardTable table k) :
    0 ≤ duration table := by
  induction table generalizing k with
  | nil => exact le_refl 0
  | cons stretch rest ih =>
    rw [duration_cons]
    exact add_nonneg h.1.lasts (ih h.2)

theorem trajectory_duration {table : List (R × R)} {k : JerkState R} (h : ForwardTable table k) :
    trajectory table k (duration table)=finish table k := by
  induction table generalizing k with
  | nil => rfl
  | cons stretch rest ih =>
    have hrest := duration_nonneg h.2
    have hend := ih h.2
    rw [trajectory,duration_cons]
    by_cases hlast : stretch.2+duration rest ≤ stretch.2
    · -- the stretches that follow take no time
      have hzero : duration rest=0 := by linarith
      rw [if_pos hlast,hzero,add_zero]
      rw [hzero,trajectory_zero rest _ h.2] at hend
      exact hend
    · rw [if_neg hlast,add_sub_cancel_left]
      exact hend

theorem trajectory_velocity_nonneg {table : List (R × R)} {k : JerkState R}
    (h : ForwardTable table k) (hv : 0 ≤ k.velocity) {t : R} (h0 : 0 ≤ t) :
    0 ≤ (trajectory table k t).velocity := by
  induction table generalizing k t with
  | nil => exact hv
  | cons stretch rest ih =>
    rw [trajectory]
    by_cases ht : t ≤ stretch.2
    · rw [if_pos ht]
      exact forward_velocity h.1 h0 ht
    · rw [if_neg ht]
      exact ih h.2 h.1.last (by linarith [not_le.mp ht])

section Opposed

/-- A state whose velocity is what another one's lacks to a top velocity. -/
structure Opposed (top : R) (k k' : JerkState R) : Prop where
  velocity : k'.velocity=top-k.velocity
  acceleration : k'.acceleration= -k.acceleration

def opposed (table : List (R × R)) : List (R × R) := table.map fun s => (-s.1,s.2)

theorem Opposed.advance {top : R} {k k' : JerkState R} (h : Opposed top k k') (jerk t : R) :
    Opposed top (k.advance jerk t) (k'.advance (-jerk) t) := by
  constructor
  · simp only [JerkState.advance,h.velocity,h.acceleration]
    ring
  · simp only [JerkState.advance,h.acceleration]
    ring

theorem trajectory_opposed {top : R} (table : List (R × R)) {k k' : JerkState R}
    (h : Opposed top k k') (t : R) :
    Opposed top (trajectory table k t) (trajectory (opposed table) k' t) := by
  induction table generalizing k k' t with
  | nil => exact h
  | cons stretch rest ih =>
    rw [opposed,List.map_cons,trajectory,trajectory]
    by_cases ht : t ≤ stretch.2
    · rw [if_pos ht,if_pos ht]
      exact h.advance _ _
    · rw [if_neg ht,if_neg ht]
      exact ih (h.advance _ _) _

theorem trajectory_velocity_le {top : R} {table : List (R × R)} {k k' : JerkState R}
    (hk : Opposed top k k') (h : ForwardTable (opposed table) k') (hv : k.velocity ≤ top) {t : R}
    (h0 : 0 ≤ t) : (trajectory table k t).velocity ≤ top := by
  have hv' : 0 ≤ k'.velocity := by
    rw [hk.velocity]
    exact sub_nonneg.mpr hv
  have hnonneg := trajectory_velocity_nonneg h hv' h0
  rw [(trajectory_opposed table hk t).velocity] at hnonneg
  exact sub_nonneg.mp hnonneg

end Opposed

section Acceleration

def AccelWithin (low high : R) : List (R × R) → JerkState R → Prop
  | [],k => low ≤ k.acceleration ∧ k.acceleration ≤ high
  | (jerk,time)::rest,k =>
      (low ≤ k.acceleration ∧ k.acceleration ≤ high) ∧ AccelWithin low high rest (k.advance jerk time)

variable {low high : R} {table rest : List (R × R)} {k : JerkState R}

section

omit [IsStrictOrderedRing R]

theorem AccelWithin.start (h : AccelWithin low high table k) :
    low ≤ k.acceleration ∧ k.acceleration ≤ high := by
  cases table with
  | nil => exact h
  | cons stretch rest => exact h.1

theorem accelWithin_append (h : AccelWithin low high table k)
    (h' : AccelWithin low high rest (finish table k)) : AccelWithin low high (table++rest) k := by
  induction table generalizing k with
  | nil => exact h'
  | cons stretch table ih => exact ⟨h.1,ih h.2 h'⟩

end

theorem trajectory_acceleration (h : AccelWithin low high table k) {t : R} (h0 : 0 ≤ t) :
    low ≤ (trajectory table k t).acceleration ∧ (trajectory table k t).acceleration ≤ high := by
  induction table generalizing k t with
  | nil => exact h
  | cons stretch rest ih =>
    rw [trajectory]
    by_cases ht : t ≤ stretch.2
    · -- the acceleration changes linearly between the ends
      obtain ⟨hlow,hhigh⟩ := h.1
      obtain ⟨hlow',hhigh'⟩ := h.2.start
      rw [if_pos ht]
      simp only [advance] at hlow' hhigh' ⊢
      rcases le_total 0 stretch.1 with hj|hj
      · have hgain := mul_nonneg hj h0
        have hmost := mul_le_mul_of_nonneg_left ht hj
        exact ⟨by linarith,by linarith⟩
      · have hloss := mul_nonpos_of_nonpos_of_nonneg hj h0
        have hmost := mul_le_mul_of_nonpos_left ht hj
        exact ⟨by linarith,by linarith⟩
    · rw [if_neg ht]
      exact ih h.2 (by linarith [not_le.mp ht])

end Acceleration

section Continuity

variable [TopologicalSpace R] [OrderClosedTopology R]

section

omit [IsStrictOrderedRing R]

theorem trajectory_continuous [ContinuousSub R] {X : Type} [TopologicalSpace X]
    (f : JerkState R → X) (hf : ∀ (k : JerkState R) (jerk : R),Continuous fun t => f (k.advance jerk t))
    {table : List (R × R)} {k : JerkState R} (h : ForwardTable table k) :
    Continuous fun t => f (trajectory table k t) := by
  induction table generalizing k with
  | nil =>
    change Continuous fun _ : R => f k
    exact continuous_const
  | cons stretch rest ih =>
    have hsplit : (fun t => f (trajectory (stretch::rest) k t))=fun t =>
        if t ≤ stretch.2 then f (k.advance stretch.1 t)
        else f (trajectory rest (k.advance stretch.1 stretch.2) (t-stretch.2)) := by
      funext t
      rw [trajectory]
      split_ifs <;> rfl
    rw [hsplit]
    refine Continuous.if_le (hf k stretch.1) ?_ continuous_id continuous_const ?_
    · exact (ih h.2).comp (continuous_id.sub continuous_const)
    · intro t ht
      rw [ht,sub_self,trajectory_zero rest _ h.2]

end

variable [IsTopologicalRing R]

section

omit [LinearOrder R] [IsStrictOrderedRing R] [OrderClosedTopology R]

theorem advance_continuous (k : JerkState R) (jerk : R) :
    (Continuous fun t => (k.advance jerk t).position) ∧
    (Continuous fun t => (k.advance jerk t).velocity) ∧
    Continuous fun t => (k.advance jerk t).acceleration := by
  simp only [advance,div_eq_mul_inv]
  refine ⟨?_,?_,?_⟩ <;> fun_prop

end

end Continuity

section Ramp

def ramp (jerk tj ta : R) : List (R × R) := [(jerk,tj),(0,ta),(-jerk,tj)]

section

omit [IsStrictOrderedRing R]

theorem accelWithin_ramp {low high : R} (k : JerkState R) (jerk tj ta : R) (ha : k.acceleration=0)
    (hlow : low ≤ 0) (hhigh : 0 ≤ high) (hpeak : low ≤ jerk*tj ∧ jerk*tj ≤ high) :
    AccelWithin low high (ramp jerk tj ta) k := by
  simp only [AccelWithin,ramp,advance,ha,zero_add,zero_mul,add_zero]
  refine ⟨⟨hlow,hhigh⟩,hpeak,hpeak,?_⟩
  rw [neg_mul,add_neg_cancel]
  exact ⟨hlow,hhigh⟩

end

def rampTable (jerk tj ta cruise jerk' tj' ta' : R) : List (R × R) :=
  ramp jerk tj ta++([(0,cruise)]++ramp jerk' tj' ta')

variable {k : JerkState R} {jerk tj ta cruise jerk' tj' ta' : R}

section

omit [LinearOrder R] [IsStrictOrderedRing R]

theorem opposed_rampTable :
    opposed (rampTable jerk tj ta cruise jerk' tj' ta')=
      rampTable (-jerk) tj ta cruise (-jerk') tj' ta' := by
  simp [opposed,rampTable,ramp]

end

theorem forwardTable_rampTable (ha : k.acceleration=0) (htj : 0 ≤ tj) (hta : 0 ≤ ta)
    (hcruise : 0 ≤ cruise) (htj' : 0 ≤ tj') (hta' : 0 ≤ ta') (hv : 0 ≤ k.velocity)
    (hpeak : 0 ≤ k.velocity+jerk*tj*(tj+ta))
    (hend : 0 ≤ k.velocity+jerk*tj*(tj+ta)+jerk'*tj'*(tj'+ta')) :
    ForwardTable (rampTable jerk tj ta cruise jerk' tj' ta') k ∧
    (finish (rampTable jerk tj ta cruise jerk' tj' ta') k).velocity=
      k.velocity+jerk*tj*(tj+ta)+jerk'*tj'*(tj'+ta') ∧
    (finish (rampTable jerk tj ta cruise jerk' tj' ta') k).acceleration=0 := by
  obtain ⟨hup,hupv,hupa⟩ := forwardTable_phase k jerk tj ta htj hta ha hv hpeak
  obtain ⟨hhold,hholdv,hholda⟩ := forwardTable_cruise _ cruise hcruise hupa
    (by rw [hupv]; exact hpeak)
  obtain ⟨hdown,hdownv,hdowna⟩ := forwardTable_phase _ jerk' tj' ta' htj' hta' hholda
    (by rw [hholdv,hupv]; exact hpeak) (by rw [hholdv,hupv]; exact hend)
  have hfinish : finish (rampTable jerk tj ta cruise jerk' tj' ta') k=
      finish (ramp jerk' tj' ta') (finish [(0,cruise)] (finish (ramp jerk tj ta) k)) := by
    simp only [finish,rampTable,List.foldl_append]
  rw [hfinish,rampTable,forwardTable_append,forwardTable_append]
  refine ⟨⟨hup,hhold,hdown⟩,?_,hdowna⟩
  exact hdownv.trans (by rw [hholdv,hupv])

theorem finish_rampTable_position (ha : k.acceleration=0) :
    (finish (rampTable jerk tj ta cruise jerk' tj' ta') k).position=
      k.position+(k.velocity+jerk*tj*(tj+ta)/2)*(2*tj+ta)+(k.velocity+jerk*tj*(tj+ta))*cruise+
        (k.velocity+jerk*tj*(tj+ta)+jerk'*tj'*(tj'+ta')/2)*(2*tj'+ta') := by
  simp only [finish,rampTable,ramp,List.cons_append,List.nil_append,List.foldl,advance,ha]
  ring

section

omit [IsStrictOrderedRing R]

theorem accelWithin_rampTable {low high : R} (ha : k.acceleration=0) (hlow : low ≤ 0)
    (hhigh : 0 ≤ high) (hpeak : low ≤ jerk*tj ∧ jerk*tj ≤ high)
    (hpeak' : low ≤ jerk'*tj' ∧ jerk'*tj' ≤ high) :
    AccelWithin low high (rampTable jerk tj ta cruise jerk' tj' ta') k := by
  have hupa : (finish (ramp jerk tj ta) k).acceleration=0 := by
    simp only [finish,ramp,List.foldl,advance,ha]
    ring
  have hholda : (finish [(0,cruise)] (finish (ramp jerk tj ta) k)).acceleration=0 := by
    simp only [finish,List.foldl,advance] at hupa ⊢
    rw [hupa]
    ring
  refine accelWithin_append (accelWithin_ramp k jerk tj ta ha hlow hhigh hpeak) ?_
  refine accelWithin_append ⟨?_,?_⟩ (accelWithin_ramp _ jerk' tj' ta' hholda hlow hhigh hpeak')
  · rw [hupa]
    exact ⟨hlow,hhigh⟩
  · have hsame : (finish [(0,cruise)] (finish (ramp jerk tj ta) k)).acceleration=0 := hholda
    change low ≤ (finish [(0,cruise)] (finish (ramp jerk tj ta) k)).acceleration ∧
      (finish [(0,cruise)] (finish (ramp jerk tj ta) k)).acceleration ≤ high
    rw [hsame]
    exact ⟨hlow,hhigh⟩

end

end Ramp

end JerkState

end EtherCATMaster.Math
