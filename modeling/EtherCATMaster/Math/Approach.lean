import EtherCATMaster.Math.Numeral
import Mathlib.Algebra.Order.Archimedean.Basic
import Mathlib.Algebra.Order.Field.Basic
import Mathlib.Tactic.Linarith
import Mathlib.Tactic.Ring

namespace EtherCATMaster.Math

variable {R : Type*} [Field R] [LinearOrder R] [IsStrictOrderedRing R]

/-- One step of a gap that closes: it neither grows nor turns over, no more than `most` is taken off,
and no less than `stride` unless nothing is left. -/
structure Approach (stride most before after : R) : Prop where
  nonneg : 0 ≤ after
  le : after ≤ before
  most : before-after ≤ most
  ends : after=0 ∨ after ≤ before-stride

namespace Approach

variable {stride most before after : R}

omit [IsStrictOrderedRing R] in
theorem close (h0 : 0 ≤ before) (hmost : before ≤ most) : Approach stride most before 0 :=
  ⟨le_refl 0,h0,by rw [sub_zero]; exact hmost,.inl rfl⟩

theorem take {way : R} (h0 : 0 ≤ way) (hleft : way ≤ before) (hmost : way ≤ most)
    (hstride : stride ≤ way) :
    Approach stride most before (before-way) :=
  ⟨by linarith,by linarith,by linarith,.inr (by linarith)⟩

theorem closed [Archimedean R] (hstride : 0 < stride) {gap : ℕ → R} {bound : ℕ → R}
    (h : ∀ n,Approach stride (bound n) (gap n) (gap (n+1))) : ∃ N,∀ n,N ≤ n → gap n=0 := by
  have hstays : ∀ n,gap n=0 → gap (n+1)=0 := by
    intro n hn
    have hle := (h n).le
    rw [hn] at hle
    exact le_antisymm hle (h n).nonneg
  have hway : ∀ n : ℕ,gap n=0 ∨ gap n ≤ gap 0-n*stride := by
    intro n
    induction n with
    | zero => exact .inr (by rw [Nat.cast_zero,zero_mul,sub_zero])
    | succ n ih =>
      rcases ih with ih|ih
      · exact .inl (hstays n ih)
      · rcases (h n).ends with hends|hends
        · exact .inl hends
        · refine .inr (hends.trans ?_)
          rw [Nat.cast_succ,add_mul,one_mul]
          linarith
  obtain ⟨N,hN⟩ := exists_nat_gt (gap 0/stride)
  rw [div_lt_iff₀ hstride] at hN
  have hclosed : gap (N+1)=0 := by
    rcases hway (N+1) with hz|hle
    · exact hz
    · have hpos := (h N).nonneg
      rw [Nat.cast_succ,add_mul,one_mul] at hle
      linarith
  refine ⟨N+1,fun n hn => ?_⟩
  induction n, hn using Nat.le_induction with
  | base => exact hclosed
  | succ n _ ih => exact hstays n ih

end Approach

/-- A value that is moved toward a limit, by `maxDelta` at most. -/
def slewToward (value limit maxDelta : R) : R :=
  if |limit-value| ≤ maxDelta then limit
  else value+(if limit-value>0 then maxDelta else -maxDelta)

theorem slewToward_neg (value limit : R) {maxDelta : R} (hdelta : 0 ≤ maxDelta) :
    slewToward (-value) (-limit) maxDelta= -slewToward value limit maxDelta := by
  have habs : |-limit- -value|=|limit-value| := by
    rw [neg_sub_neg,abs_sub_comm]
  unfold slewToward
  rw [habs]
  by_cases hnear : |limit-value| ≤ maxDelta
  · rw [if_pos hnear,if_pos hnear]
  · rw [if_neg hnear,if_neg hnear]
    have hne : limit-value≠0 := by
      intro heq
      rw [heq,abs_zero] at hnear
      exact hnear hdelta
    rcases lt_or_gt_of_ne hne with hless|hless
    · rw [if_pos (by linarith),if_neg (by linarith)]
      ring
    · rw [if_neg (by linarith),if_pos (by linarith)]
      ring

theorem slewToward_bounds {value maxDelta : R} (limit : R) (h0 : 0 ≤ value) (hdelta : 0 ≤ maxDelta) :
    min limit maxDelta ≤ slewToward value limit maxDelta ∧
      slewToward value limit maxDelta ≤ max value limit := by
  unfold slewToward
  split_ifs with hnear hless
  · exact ⟨min_le_left _ _,le_max_right _ _⟩
  · -- it is moved up, and stays below the limit
    have hfar := not_le.mp hnear
    rw [abs_of_pos hless] at hfar
    refine ⟨(min_le_right _ _).trans (by linarith),?_⟩
    exact (show value+maxDelta ≤ limit by linarith).trans (le_max_right _ _)
  · have hfar := not_le.mp hnear
    rw [abs_of_nonpos (not_lt.mp hless)] at hfar
    refine ⟨(min_le_left _ _).trans (by linarith),?_⟩
    exact (show value+ -maxDelta ≤ value by linarith).trans (le_max_left _ _)

end EtherCATMaster.Math
