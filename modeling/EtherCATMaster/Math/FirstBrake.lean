import EtherCATMaster.Math.UnitMove
import Mathlib.Algebra.Order.Archimedean.Basic

namespace EtherCATMaster.Math

namespace UnitMove

variable {R : Type*} [Field R] [LinearOrder R] (m : UnitMove R)

def rise (n : ℕ) : R := min n m.top

def climb : ℕ → R
  | 0 => 0
  | n+1 => climb n+m.rise (n+1)

@[simp] theorem rise_zero : m.rise 0=0 := by
  simp [rise,m.top_pos.le]

theorem rise_le_top (n : ℕ) : m.rise n ≤ m.top := min_le_right _ _

theorem rise_of_le {n : ℕ} (h : n ≤ m.top) : m.rise n=n := min_eq_left h

theorem rise_of_ge {n : ℕ} (h : m.top ≤ n) : m.rise n=m.top := min_eq_right h

variable [IsStrictOrderedRing R]

theorem rise_nonneg (n : ℕ) : 0 ≤ m.rise n := le_min n.cast_nonneg m.top_pos.le

theorem rise_succ (n : ℕ) : m.rise (n+1)=min (m.rise n+1) m.top := by
  unfold rise
  push_cast
  rcases le_total (n : R) m.top with h|h
  · rw [min_eq_left h]
  · rw [min_eq_right h,min_eq_right (by linarith),min_eq_right (by linarith)]

theorem climb_mono {i n : ℕ} (h : i ≤ n) : m.climb i ≤ m.climb n := by
  induction n, h using Nat.le_induction with
  | base => exact le_refl _
  | succ n _ ih => exact ih.trans (le_add_of_nonneg_right (m.rise_nonneg (n+1)))

theorem climb_le (n : ℕ) : m.climb n ≤ n*m.top := by
  induction n with
  | zero => simp [climb]
  | succ n ih =>
    rw [climb]
    push_cast
    linarith [m.rise_le_top (n+1)]

theorem le_climb (n : ℕ) : n*min 1 m.top ≤ m.climb n := by
  induction n with
  | zero => simp [climb]
  | succ n ih =>
    have hn : (0 : R) ≤ n := n.cast_nonneg
    have hrise : min 1 m.top ≤ m.rise (n+1) := by
      apply min_le_min_right
      push_cast
      linarith
    rw [climb]
    push_cast
    linarith

theorem climb_of_le {n : ℕ} (h : n ≤ m.top) : m.climb n=n*(n+1)/2 := by
  induction n with
  | zero => simp [climb]
  | succ n ih =>
    rw [climb,m.rise_of_le h]
    push_cast at h ⊢
    rw [ih (by linarith)]
    ring

theorem climb_add_brakeWay {t : ℕ} (ht : t ≤ m.top) (ht1 : m.top<t+1) {n : ℕ} (h : t ≤ n) :
    m.climb n+brakeWay 1 1 t m.top=n*m.top := by
  induction n, h using Nat.le_induction with
  | base =>
    rw [m.climb_of_le ht,brakeWay_unit_eq]
    ring
  | succ n hn ih =>
    have htn : (t : R) ≤ n := Nat.cast_le.mpr hn
    rw [climb,m.rise_of_ge (by push_cast; linarith)]
    push_cast
    linarith

/-- A move of this way from rest brakes after `n` steps for the first time: it has not been near
before, nor past the point. -/
structure FirstBrake (n : ℕ) (way : R) : Prop where
  drives : ∀ i<n,m.climb i+m.rise i*m.rise i/2<way
  far : ∀ i<n,¬m.Near (way-m.climb i) (m.rise i)
  room : m.climb n ≤ way
  brakes : way ≤ m.climb n+m.rise n*m.rise n/2

variable {m} {way : R} {blind fault : Prop}

section

omit [IsStrictOrderedRing R]

theorem FirstBrake.eq {i n : ℕ} (h : m.FirstBrake i way)
    (hdrives : ∀ i<n,m.climb i+m.rise i*m.rise i/2<way)
    (hbrakes : way ≤ m.climb n+m.rise n*m.rise n/2) : i=n := by
  rcases lt_trichotomy i n with hlt|heq|hgt
  · exact absurd h.brakes (not_le.mpr (hdrives i hlt))
  · exact heq
  · exact absurd hbrakes (not_le.mpr (h.drives n hgt))

end

theorem exists_brakes [Archimedean R] (way : R) :
    ∃ n,(∀ i<n,m.climb i+m.rise i*m.rise i/2<way) ∧ way ≤ m.climb n+m.rise n*m.rise n/2 := by
  classical
  have hex : ∃ n,way ≤ m.climb n+m.rise n*m.rise n/2 := by
    obtain ⟨n,hn⟩ := Archimedean.arch way (lt_min one_pos m.top_pos)
    rw [nsmul_eq_mul] at hn
    exact ⟨n,by linarith [m.le_climb n,stopWay_nonneg (m.rise n)]⟩
  exact ⟨Nat.find hex,fun i hi => not_le.mp (Nat.find_min hex hi),Nat.find_spec hex⟩

/-- The climb to the first braking step leads to what becomes of the move from there. -/
theorem outcome_climbs {n : ℕ} (hdrives : ∀ i<n,m.climb i+m.rise i*m.rise i/2<way)
    (hend : m.climb n ≤ way → m.Outcome blind (way-m.climb n) (m.rise n) fault)
    {i : ℕ} (hi : i ≤ n) (hroom : m.climb i ≤ way) :
    m.Outcome blind (way-m.climb i) (m.rise i)
      (m.climb n ≤ way ∧ (∀ j,i ≤ j → j<n → ¬m.Near (way-m.climb j) (m.rise j)) ∧ fault) := by
  induction hi using Nat.decreasingInduction with
  | self =>
    apply (hend hroom).congr
    have hnone : ∀ j,n ≤ j → j<n → ¬m.Near (way-m.climb j) (m.rise j) :=
      fun j hj hjn => absurd hj (not_le.mpr hjn)
    exact ⟨fun hf => ⟨hroom,hnone,hf⟩,fun hf => hf.2.2⟩
  | of_succ i hin ih =>
    by_cases hnear : m.Near (way-m.climb i) (m.rise i)
    · apply Outcome.near hnear
      intro hf
      exact hf.2.1 i (le_refl i) hin hnear
    · have hdrive := hdrives i hin
      have hpos := stopWay_nonneg (m.rise i)
      have hb : ¬(blind ∧ way-m.climb i=0) := by
        intro hb
        linarith [hb.2]
      have hnext : m.nextSpeed (way-m.climb i) (m.rise i)=m.rise (i+1) := by
        rw [nextSpeed_drives (by linarith),rise_succ]
      have hclimb : m.climb (i+1)=m.climb i+m.rise (i+1) := rfl
      rcases lt_or_ge (way-m.climb i) (m.rise (i+1)) with hlt|hge
      · apply Outcome.reach hnear hb (by rw [hnext]; exact hlt)
        intro hf
        linarith [hf.1,m.climb_mono (Nat.succ_le_of_lt hin)]
      · have hrest := ih (by linarith)
        rw [hclimb,← sub_sub] at hrest
        apply Outcome.next hnear hb hnext (m.rise_nonneg _) hge
        apply hrest.congr
        constructor
        · intro hf
          refine ⟨hf.1,?_,hf.2.2⟩
          intro j hj hjn
          rcases eq_or_lt_of_le hj with heq|hlt
          · rw [← heq]
            exact hnear
          · exact hf.2.1 j hlt hjn
        · intro hf
          exact ⟨hf.1,fun j hj => hf.2.1 j (by omega),hf.2.2⟩

section Floor

variable [FloorRing R]

/-- Braking whole steps off the speed brings the move to the point with less than one step's share
left, so that it turns back. -/
def SlipsBack (m : UnitMove R) (left speed : R) : Prop :=
  left ≤ brakeWay 1 1 ⌊speed⌋₊ speed+(speed-⌊speed⌋₊)*(speed-⌊speed⌋₊)/2 ∧
    m.Slips ⌊speed⌋₊ (speed-⌊speed⌋₊) left

/-- The moves from rest that turn back before the point. Past the climb, a whole number of steps at
the top speed brings them to the point, or short of it by no more than the stop way of the fraction
of a step in the top speed. -/
def TurnsBack (m : UnitMove R) (way : R) : Prop :=
  m.nearWay ≤ way ∧ ∃ n : ℕ,⌊m.top⌋₊<n ∧ n*m.top ≤ way ∧
    way-n*m.top ≤ (m.top-⌊m.top⌋₊)*(m.top-⌊m.top⌋₊)/2 ∧
    ¬m.Near (way-n*m.top) (m.top-⌊m.top⌋₊)

/-- The moves from rest that are exactly at the point after a step that leaves them speed: braking
alone brings them there, or braking after they have driven on once. -/
def SweepsPast (m : UnitMove R) (way : R) : Prop :=
  ∃ n,m.FirstBrake n way ∧
    (m.Lands (way-m.climb n) (m.rise n) ∨ m.LandsAfter (way-m.climb n) (m.rise n))

theorem slipsBack_top {n : ℕ} (h : ⌊m.top⌋₊<n) :
    m.SlipsBack (way-m.climb n) (m.rise n) ↔ n*m.top ≤ way ∧
      way-n*m.top ≤ (m.top-⌊m.top⌋₊)*(m.top-⌊m.top⌋₊)/2 ∧
      ¬m.Near (way-n*m.top) (m.top-⌊m.top⌋₊) := by
  have hfloor := Nat.floor_le m.top_pos.le
  have hlt := Nat.lt_floor_add_one m.top
  have htn : ((⌊m.top⌋₊+1 : ℕ) : R) ≤ n := Nat.cast_le.mpr h
  push_cast at htn
  have hsum := m.climb_add_brakeWay hfloor hlt h.le
  have hrest : way-m.climb n-brakeWay 1 1 ⌊m.top⌋₊ m.top=way-n*m.top := by linarith
  rw [SlipsBack,Slips,m.rise_of_ge (by linarith),add_sub_cancel,hrest]
  constructor
  · intro hs
    exact ⟨by linarith [hs.2.1],by linarith [hs.1],hs.2.2⟩
  · intro hs
    exact ⟨by linarith [hs.2.1],by linarith [hs.1],hs.2.2⟩

theorem not_slipsBack {n : ℕ} (h : n ≤ ⌊m.top⌋₊) : ¬m.SlipsBack left (m.rise n) := by
  have hn : (n : R) ≤ m.top := (Nat.cast_le.mpr h).trans (Nat.floor_le m.top_pos.le)
  rw [m.rise_of_le hn,SlipsBack,Slips,Nat.floor_natCast,sub_self,add_zero]
  intro hs
  have hleft : left-brakeWay 1 1 n (n : R)=0 := by linarith [hs.1,hs.2.1]
  rw [hleft] at hs
  exact hs.2.2 near_zero

/-- A move that turns back is at the top speed when it first brakes. -/
theorem TurnsBack.firstBrake (h : m.TurnsBack way) :
    ∃ n,m.FirstBrake n way ∧ m.SlipsBack (way-m.climb n) (m.rise n) := by
  obtain ⟨hfar,n,hn,hroom,hslip,hnear⟩ := h
  refine ⟨n,?_,(slipsBack_top hn).mpr ⟨hroom,hslip,hnear⟩⟩
  have hfloor := Nat.floor_le m.top_pos.le
  have hlt := Nat.lt_floor_add_one m.top
  obtain ⟨k,rfl⟩ : ∃ k,n=k+1 := ⟨n-1,by omega⟩
  have hkt : (⌊m.top⌋₊ : R) ≤ k := Nat.cast_le.mpr (by omega)
  have ht0 : (0 : R) ≤ ⌊m.top⌋₊ := Nat.cast_nonneg _
  have hsum := m.climb_add_brakeWay hfloor hlt (Nat.lt_succ_iff.mp hn)
  have hway := brakeWay_unit_floor ⌊m.top⌋₊ (m.top-⌊m.top⌋₊)
  rw [add_sub_cancel] at hway
  have hrise : m.rise (k+1)=m.top := m.rise_of_ge (by push_cast; linarith)
  have hclimb : m.climb (k+1)=m.climb k+m.top := by rw [climb,hrise]
  push_cast at hroom hslip hnear
  refine ⟨?_,?_,(m.climb_le (k+1)).trans (by push_cast; exact hroom),?_⟩
  · intro i hi
    have hmono := m.climb_mono (Nat.lt_succ_iff.mp hi)
    have hsq := mul_self_le_mul_self (m.rise_nonneg i) (m.rise_le_top i)
    have hfract := mul_nonneg (sub_nonneg.mpr hfloor) (by linarith : 0 ≤ 1-(m.top-⌊m.top⌋₊))
    nlinarith [m.top_pos]
  · intro i hi
    cases i with
    | zero =>
      intro hz
      have hlt := hz.1
      rw [climb,sub_zero] at hlt
      exact absurd hfar (not_le.mpr hlt)
    | succ i =>
      apply not_near_mono hnear
      · have hik : ((i+1 : ℕ) : R) ≤ (k+1 : ℕ) := Nat.cast_le.mpr hi.le
        have hmul := mul_le_mul_of_nonneg_right hik m.top_pos.le
        push_cast at hmul
        have hle := m.climb_le (i+1)
        push_cast at hle
        linarith
      · apply le_min
        · push_cast
          linarith [(i.cast_nonneg : (0 : R) ≤ i)]
        · linarith
  · rw [hclimb,hrise]
    linarith

theorem turnsBack_iff :
    m.TurnsBack way ↔ ∃ n,m.FirstBrake n way ∧ m.SlipsBack (way-m.climb n) (m.rise n) := by
  refine ⟨TurnsBack.firstBrake,?_⟩
  intro h
  obtain ⟨n,hn,hs⟩ := h
  rcases le_or_gt n ⌊m.top⌋₊ with hle|hgt
  · exact absurd hs (not_slipsBack hle)
  · refine ⟨?_,n,hgt,(slipsBack_top hgt).mp hs⟩
    by_contra hnear
    apply hn.far 0 (by omega)
    rw [climb,sub_zero,rise_zero]
    exact ⟨not_le.mp hnear,m.nearSpeed_pos⟩

theorem not_turnsBack_of_whole {k : ℕ} (h : m.top=k) : ¬m.TurnsBack way := by
  intro hback
  obtain ⟨_,n,_,hroom,hslip,hnear⟩ := hback
  rw [h,Nat.floor_natCast,sub_self,mul_zero,zero_div] at hslip
  rw [h,Nat.floor_natCast,sub_self] at hnear
  rw [h] at hroom
  have hleft : way-n*(k : R)=0 := by linarith
  rw [hleft] at hnear
  exact hnear near_zero

theorem outcome_from_rest (h0 : 0 ≤ way) :
    m.Outcome blind way 0 (m.TurnsBack way ∨ (blind ∧ m.SweepsPast way)) := by
  obtain ⟨n,hdrives,hbrakes⟩ := exists_brakes (m := m) way
  have hsplit : (⌊m.rise n⌋₊ : R)+(m.rise n-⌊m.rise n⌋₊)=m.rise n := add_sub_cancel _ _
  have hend : m.climb n ≤ way → m.Outcome blind (way-m.climb n) (m.rise n)
      (m.SlipsBack (way-m.climb n) (m.rise n) ∨
        (blind ∧ (m.Lands (way-m.climb n) (m.rise n) ∨
          m.LandsAfter (way-m.climb n) (m.rise n)))) := by
    intro hroom
    have hstops : m.Outcome blind (way-m.climb n) _ _ := outcome_stops ⌊m.rise n⌋₊
      (sub_nonneg.mpr (Nat.floor_le (m.rise_nonneg n)))
      (by linarith [Nat.lt_floor_add_one (m.rise n)])
      (by rw [hsplit]; exact m.rise_le_top n) (sub_nonneg.mpr hroom)
      (by rw [hsplit]; linarith)
    rw [hsplit] at hstops
    exact hstops
  have hclimbs := outcome_climbs hdrives hend (Nat.zero_le n) (by rw [climb]; exact h0)
  rw [rise_zero,climb,sub_zero] at hclimbs
  have hfirst : (m.climb n ≤ way ∧ ∀ j,0 ≤ j → j<n → ¬m.Near (way-m.climb j) (m.rise j)) ↔
      m.FirstBrake n way :=
    ⟨fun h => ⟨hdrives,fun j => h.2 j (Nat.zero_le j),h.1,hbrakes⟩,
      fun h => ⟨h.room,fun j _ => h.far j⟩⟩
  have hthe : ∀ P : ℕ → Prop,(∃ i,m.FirstBrake i way ∧ P i) ↔ m.FirstBrake n way ∧ P n := by
    intro P
    constructor
    · intro h
      obtain ⟨i,hi,hp⟩ := h
      have heq := hi.eq hdrives hbrakes
      rw [← heq]
      exact ⟨hi,hp⟩
    · exact fun h => ⟨n,h⟩
  apply hclimbs.congr
  rw [turnsBack_iff,SweepsPast,hthe,hthe,← and_assoc,hfirst]
  tauto

end Floor

end UnitMove

end EtherCATMaster.Math
