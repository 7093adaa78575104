import EtherCATMaster.Math.Numeral
import Mathlib.Algebra.Order.Field.Basic
import Mathlib.Tactic.Linarith
import Mathlib.Tactic.Positivity
import Mathlib.Tactic.Ring

namespace EtherCATMaster.Math

/-- Position, velocity and acceleration on a line. -/
@[ext] structure JerkState (R : Type) where
  position : R
  velocity : R
  acceleration : R

namespace JerkState

variable {R : Type} [Field R]

/-- The state after a time under constant jerk. -/
def advance (k : JerkState R) (jerk t : R) : JerkState R :=
  ⟨k.position+k.velocity*t+k.acceleration*t^2/2+jerk*t^3/6,
    k.velocity+k.acceleration*t+jerk*t^2/2,
    k.acceleration+jerk*t⟩

@[simp] theorem advance_zero (k : JerkState R) (jerk : R) : k.advance jerk 0=k := by
  ext <;> simp [advance]

variable [LinearOrder R] [IsStrictOrderedRing R]

theorem advance_add (k : JerkState R) (jerk s t : R) :
    (k.advance jerk s).advance jerk t=k.advance jerk (s+t) := by
  ext <;> simp only [advance] <;> ring

/-- A stretch under constant jerk that never moves back: no negative velocity at either end,
and an acceleration that does not change its sign in between. -/
structure Forward (k : JerkState R) (jerk time : R) : Prop where
  lasts : 0 ≤ time
  first : 0 ≤ k.velocity
  last : 0 ≤ (k.advance jerk time).velocity
  sign : (0 ≤ k.acceleration ∧ 0 ≤ (k.advance jerk time).acceleration) ∨
    (k.acceleration ≤ 0 ∧ (k.advance jerk time).acceleration ≤ 0)

theorem advance_velocity (k : JerkState R) (jerk t : R) :
    (k.advance jerk t).velocity=
      k.velocity+t*(k.acceleration+(k.advance jerk t).acceleration)/2 := by
  simp only [advance]
  ring

theorem forward_sign {k : JerkState R} {jerk time t : R} (h : Forward k jerk time)
    (h0 : 0 ≤ t) (h1 : t ≤ time) :
    (0 ≤ k.acceleration ∧ 0 ≤ (k.advance jerk t).acceleration ∧
      0 ≤ (k.advance jerk time).acceleration) ∨
    (k.acceleration ≤ 0 ∧ (k.advance jerk t).acceleration ≤ 0 ∧
      (k.advance jerk time).acceleration ≤ 0) := by
  have hsign := h.sign
  simp only [advance] at hsign ⊢
  rcases le_total 0 jerk with hj|hj
  · have hlow := mul_nonneg hj h0
    have hhigh := mul_le_mul_of_nonneg_left h1 hj
    rcases hsign with ⟨ha,hb⟩|⟨ha,hb⟩
    · exact .inl ⟨ha,by linarith,hb⟩
    · exact .inr ⟨ha,by linarith,hb⟩
  · have hlow := mul_nonpos_of_nonpos_of_nonneg hj h0
    have hhigh := mul_le_mul_of_nonpos_left h1 hj
    rcases hsign with ⟨ha,hb⟩|⟨ha,hb⟩
    · exact .inl ⟨ha,by linarith,hb⟩
    · exact .inr ⟨ha,by linarith,hb⟩

theorem forward_velocity {k : JerkState R} {jerk time t : R} (h : Forward k jerk time)
    (h0 : 0 ≤ t) (h1 : t ≤ time) : 0 ≤ (k.advance jerk t).velocity := by
  have hrest : (k.advance jerk time).velocity=(k.advance jerk t).velocity+
      (time-t)*((k.advance jerk t).acceleration+(k.advance jerk time).acceleration)/2 := by
    simp only [advance]
    ring
  rcases forward_sign h h0 h1 with ⟨ha,hb,_⟩|⟨_,hb,hc⟩
  · -- Speeding up: the velocity is at least the first one.
    rw [advance_velocity]
    have hgain := mul_nonneg h0 (add_nonneg ha hb)
    linarith [h.first]
  · -- Slowing down: the velocity is at least the last one.
    have hloss := mul_nonneg (sub_nonneg.mpr h1) (neg_nonneg.mpr (add_nonpos hb hc))
    linarith [h.last]

theorem Forward.cut {k : JerkState R} {jerk time t : R} (h : Forward k jerk time)
    (h0 : 0 ≤ t) (h1 : t ≤ time) :
    Forward k jerk t ∧ Forward (k.advance jerk t) jerk (time-t) := by
  have hv := forward_velocity h h0 h1
  have hend : (k.advance jerk t).advance jerk (time-t)=k.advance jerk time := by
    rw [advance_add,add_sub_cancel]
  have hs := forward_sign h h0 h1
  refine ⟨⟨h0,h.first,hv,?_⟩,⟨sub_nonneg.mpr h1,hv,?_,?_⟩⟩
  · exact hs.imp (fun x => ⟨x.1,x.2.1⟩) (fun x => ⟨x.1,x.2.1⟩)
  · rw [hend]
    exact h.last
  · rw [hend]
    exact hs.imp (fun x => ⟨x.2.1,x.2.2⟩) (fun x => ⟨x.2.1,x.2.2⟩)

theorem Forward.position_le {k : JerkState R} {jerk time : R} (h : Forward k jerk time) :
    k.position ≤ (k.advance jerk time).position := by
  have hsq := sq_nonneg time
  rcases h.sign with ⟨ha,hb⟩|⟨ha,hb⟩
  · have hway : (k.advance jerk time).position=k.position+(k.velocity*time+
        time^2*(2*k.acceleration+(k.advance jerk time).acceleration)/6) := by
      simp only [advance]
      ring
    have h1 := mul_nonneg h.first h.lasts
    have h2 := mul_nonneg hsq (add_nonneg (mul_nonneg zero_le_two ha) hb)
    linarith
  · have hway : (k.advance jerk time).position=k.position+
        ((k.advance jerk time).velocity*time+
        time^2*(-(2*(k.advance jerk time).acceleration+k.acceleration))/6) := by
      simp only [advance]
      ring
    have h1 := mul_nonneg h.last h.lasts
    have h2 := mul_nonneg hsq (neg_nonneg.mpr
      (add_nonpos (mul_nonpos_of_nonneg_of_nonpos zero_le_two hb) ha))
    linarith

theorem Forward.position_mono {k : JerkState R} {jerk time s t : R} (h : Forward k jerk time)
    (h0 : 0 ≤ s) (hst : s ≤ t) (h1 : t ≤ time) :
    (k.advance jerk s).position ≤ (k.advance jerk t).position := by
  have hs := (h.cut h0 (hst.trans h1)).2
  have hcut := (hs.cut (sub_nonneg.mpr hst) (by linarith)).1.position_le
  rwa [advance_add,add_sub_cancel] at hcut

def trajectory : List (R × R) → JerkState R → R → JerkState R
  | [],k,_ => k
  | (jerk,time)::rest,k,t =>
      if t ≤ time then k.advance jerk t else trajectory rest (k.advance jerk time) (t-time)

def finish (table : List (R × R)) (k : JerkState R) : JerkState R :=
  table.foldl (fun k stretch => k.advance stretch.1 stretch.2) k

def duration (table : List (R × R)) : R := (table.map Prod.snd).sum

def ForwardTable : List (R × R) → JerkState R → Prop
  | [],_ => True
  | (jerk,time)::rest,k => Forward k jerk time ∧ ForwardTable rest (k.advance jerk time)

omit [IsStrictOrderedRing R] in
theorem forwardTable_append (table rest : List (R × R)) (k : JerkState R) :
    ForwardTable (table++rest) k ↔ ForwardTable table k ∧ ForwardTable rest (finish table k) := by
  induction table generalizing k with
  | nil => simp [ForwardTable,finish]
  | cons stretch table ih =>
    simp only [List.cons_append,ForwardTable,ih,and_assoc]
    rfl

omit [IsStrictOrderedRing R] in
theorem trajectory_zero (table : List (R × R)) (k : JerkState R) (h : ForwardTable table k) :
    trajectory table k 0=k := by
  cases table with
  | nil => rfl
  | cons stretch rest =>
    rw [trajectory,if_pos h.1.lasts,advance_zero]

theorem trajectory_position_mono (table : List (R × R)) (k : JerkState R)
    (h : ForwardTable table k) (s t : R) (h0 : 0 ≤ s) (hst : s ≤ t) :
    (trajectory table k s).position ≤ (trajectory table k t).position := by
  induction table generalizing k s t with
  | nil => exact le_refl _
  | cons stretch rest ih =>
    obtain ⟨jerk,time⟩ := stretch
    simp only [trajectory]
    by_cases ht : t ≤ time
    · rw [if_pos ht,if_pos (hst.trans ht)]
      exact h.1.position_mono h0 hst ht
    · have hrest := le_of_lt (sub_pos.mpr (not_le.mp ht))
      rw [if_neg ht]
      by_cases hs : s ≤ time
      · -- The later time falls into a later stretch.
        rw [if_pos hs]
        have hfirst := h.1.position_mono h0 hs (le_refl time)
        have hlater := ih (k.advance jerk time) h.2 0 (t-time) (le_refl 0) hrest
        rw [trajectory_zero rest _ h.2] at hlater
        exact hfirst.trans hlater
      · rw [if_neg hs]
        exact ih (k.advance jerk time) h.2 (s-time) (t-time)
          (le_of_lt (sub_pos.mpr (not_le.mp hs))) (by linarith)

/-- Three stretches that ramp the acceleration up, hold it and ramp it down change the velocity
only. Either sign of the jerk is covered. -/
theorem forwardTable_phase (k : JerkState R) (jerk tj ta : R) (htj : 0 ≤ tj) (hta : 0 ≤ ta)
    (ha : k.acceleration=0) (hv : 0 ≤ k.velocity) (hend : 0 ≤ k.velocity+jerk*tj*(tj+ta)) :
    ForwardTable [(jerk,tj),(0,ta),(-jerk,tj)] k ∧
    (finish [(jerk,tj),(0,ta),(-jerk,tj)] k).velocity=k.velocity+jerk*tj*(tj+ta) ∧
    (finish [(jerk,tj),(0,ta),(-jerk,tj)] k).acceleration=0 := by
  have hsq := mul_nonneg htj htj
  have hmid := mul_nonneg htj hta
  -- The change of velocity up to the end of the first and of the second stretch.
  have hfirst : 0 ≤ k.velocity+jerk*tj^2/2 := by
    rcases le_total 0 jerk with hj|hj
    · have := mul_nonneg hj hsq
      nlinarith
    · have h1 := mul_nonneg (neg_nonneg.mpr hj) hsq
      have h2 := mul_nonneg (neg_nonneg.mpr hj) hmid
      nlinarith
  have hsecond : 0 ≤ k.velocity+jerk*tj^2/2+jerk*tj*ta := by
    rcases le_total 0 jerk with hj|hj
    · have h1 := mul_nonneg hj hsq
      have h2 := mul_nonneg hj hmid
      nlinarith
    · have h1 := mul_nonneg (neg_nonneg.mpr hj) hsq
      nlinarith
  have hsign : 0 ≤ jerk*tj ∨ jerk*tj ≤ 0 := le_total 0 (jerk*tj)
  refine ⟨⟨⟨htj,hv,?_,?_⟩,⟨hta,?_,?_,?_⟩,⟨htj,?_,?_,?_⟩,trivial⟩,?_,?_⟩
  all_goals simp only [finish,List.foldl,advance,ha]
  · linarith
  · rcases hsign with h|h
    · exact .inl ⟨le_refl 0,by linarith⟩
    · exact .inr ⟨le_refl 0,by linarith⟩
  · linarith
  · linarith
  · rcases hsign with h|h
    · exact .inl ⟨by linarith,by linarith⟩
    · exact .inr ⟨by linarith,by linarith⟩
  · linarith
  · linarith
  · rcases hsign with h|h
    · exact .inl ⟨by linarith,by linarith⟩
    · exact .inr ⟨by linarith,by linarith⟩
  · ring
  · ring

theorem forwardTable_cruise (k : JerkState R) (time : R) (ht : 0 ≤ time) (ha : k.acceleration=0)
    (hv : 0 ≤ k.velocity) :
    ForwardTable [(0,time)] k ∧ (finish [(0,time)] k).velocity=k.velocity ∧
    (finish [(0,time)] k).acceleration=0 := by
  refine ⟨⟨⟨ht,hv,?_,?_⟩,trivial⟩,?_,?_⟩
  all_goals simp only [finish,List.foldl,advance,ha]
  · linarith
  · exact .inl ⟨le_refl 0,by linarith⟩
  · ring
  · ring

end JerkState

end EtherCATMaster.Math
