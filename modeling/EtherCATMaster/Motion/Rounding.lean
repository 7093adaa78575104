import EtherCATMaster.Motion.ProfileSpec

namespace EtherCATMaster.Motion

open scoped EtherCATMaster.Math

variable {R : Type} [Field R] [LinearOrder R] [IsStrictOrderedRing R] [FloorRing R]

def roundHalfAway (x : R) : ℤ := if x≥0 then ⌊x+1/2⌋ else ⌈x-1/2⌉

theorem roundHalfAway_intCast (n : ℤ) : roundHalfAway (n : R)=n := by
  unfold roundHalfAway
  split_ifs
  · rw [Int.floor_eq_iff]
    constructor <;> linarith
  · rw [Int.ceil_eq_iff]
    constructor <;> linarith

theorem roundHalfAway_mono {x y : R} (h : x ≤ y) : roundHalfAway x ≤ roundHalfAway y := by
  unfold roundHalfAway
  split_ifs with hx hy hy
  · exact Int.floor_mono (by linarith)
  · exact absurd (le_trans hx h) hy
  · -- The two sides of zero.
    have hlow : ⌈x-1/2⌉ ≤ 0 := Int.ceil_le.mpr (by push_cast; linarith [not_le.mp hx])
    have hhigh : 0 ≤ ⌊y+1/2⌋ := Int.floor_nonneg.mpr (by linarith)
    exact hlow.trans hhigh
  · exact Int.ceil_mono (by linarith)

theorem roundToI32_toInt (x : R) :
    (roundToI32 x).toInt=max (-2147483648) (min 2147483647 (roundHalfAway x)) := by
  have hdef : roundToI32 x=if x>2147483647 then Int32.maxValue
      else if x< -2147483648 then Int32.minValue else Int32.ofInt (roundHalfAway x) := rfl
  rw [hdef]
  split_ifs with hhigh hlow
  · have hr : 2147483647 ≤ roundHalfAway x := by
      have h := roundHalfAway_mono (R := R) (x := ((2147483647 : ℤ) : R)) (y := x)
        (by push_cast; exact hhigh.le)
      rwa [roundHalfAway_intCast] at h
    rw [min_eq_left hr]
    rfl
  · have hr : roundHalfAway x≤ -2147483648 := by
      have h := roundHalfAway_mono (R := R) (x := x) (y := ((-2147483648 : ℤ) : R))
        (by push_cast; exact hlow.le)
      rwa [roundHalfAway_intCast] at h
    rw [max_eq_left ((min_le_right _ _).trans hr)]
    rfl
  · have hr : roundHalfAway x ≤ 2147483647 := by
      have h := roundHalfAway_mono (R := R) (x := x) (y := ((2147483647 : ℤ) : R))
        (by push_cast; exact not_lt.mp hhigh)
      rwa [roundHalfAway_intCast] at h
    have hl : -2147483648 ≤ roundHalfAway x := by
      have h := roundHalfAway_mono (R := R) (x := ((-2147483648 : ℤ) : R)) (y := x)
        (by push_cast; exact not_lt.mp hlow)
      rwa [roundHalfAway_intCast] at h
    rw [Int32.toInt_ofInt_of_le hl (by omega),min_eq_right hr,max_eq_right hl]

theorem roundToI32_mono {x y : R} (h : x ≤ y) : (roundToI32 x).toInt ≤ (roundToI32 y).toInt := by
  rw [roundToI32_toInt,roundToI32_toInt]
  exact max_le_max (le_refl _) (min_le_min (le_refl _) (roundHalfAway_mono h))

theorem roundToI32_toInt32 (n : Int32) : (roundToI32 (n.toInt : R)).toInt=n.toInt := by
  have hlt := n.toInt_lt
  have hle := n.le_toInt
  rw [roundToI32_toInt,roundHalfAway_intCast,min_eq_right (by omega),max_eq_right (by omega)]

theorem abs_roundToI32_le (x : R) (n : ℕ) (h : |x| ≤ n) : |(roundToI32 x).toInt| ≤ n := by
  obtain ⟨hl,hr⟩ := abs_le.mp h
  have h1 := roundHalfAway_mono (R := R) (x := ((-n : ℤ) : R)) (y := x) (by push_cast; exact hl)
  have h2 := roundHalfAway_mono (R := R) (x := x) (y := ((n : ℤ) : R)) (by push_cast; exact hr)
  rw [roundHalfAway_intCast] at h1 h2
  rw [roundToI32_toInt,abs_le]
  omega

end EtherCATMaster.Motion
