import EtherCATMaster.Math.Braking
import Mathlib.Tactic.NormNum

namespace EtherCATMaster.Math

/-- A move in steps, in units of its own acceleration: a step changes the speed by 1 and covers
the new speed. The move is over once what is left of the way and the speed are both near zero.
Braking is not held at zero: it is cut off at the top speed backwards only. -/
structure UnitMove (R : Type*) [Zero R] [LT R] where
  top : R
  nearWay : R
  nearSpeed : R
  top_pos : 0<top
  nearWay_pos : 0<nearWay
  nearSpeed_pos : 0<nearSpeed

variable {R : Type*}

variable [Field R]

theorem brakeWay_unit_succ (n : ℕ) (speed : R) :
    brakeWay 1 1 (n+1) speed=(speed-1)+brakeWay 1 1 n (speed-1) := by
  rw [brakeWay,mul_one]

variable [LinearOrder R] [IsStrictOrderedRing R]

section BrakeWay

theorem brakeWay_unit_eq (n : ℕ) (speed : R) :
    brakeWay 1 1 n speed=n*speed-n*(n+1)/2 := by
  induction n generalizing speed with
  | zero => simp [brakeWay]
  | succ n ih =>
    rw [brakeWay_unit_succ,ih]
    push_cast
    ring

theorem brakeWay_unit_nonneg (n : ℕ) (speed : R) (h : n ≤ speed) : 0 ≤ brakeWay 1 1 n speed := by
  induction n generalizing speed with
  | zero => simp [brakeWay]
  | succ n ih =>
    push_cast at h
    rw [brakeWay_unit_succ]
    have hn : (0 : R) ≤ n := n.cast_nonneg
    have hrest := ih (speed-1) (by linarith)
    linarith

theorem brakeWay_unit_le {n k : ℕ} (hnk : n ≤ k) (speed : R) (h : k ≤ speed) :
    brakeWay 1 1 n speed ≤ brakeWay 1 1 k speed := by
  induction k, hnk using Nat.le_induction with
  | base => exact le_refl _
  | succ k _ ih =>
    push_cast at h
    have hstep := ih (by linarith)
    rw [brakeWay_unit_eq] at hstep ⊢
    rw [brakeWay_unit_eq] at hstep ⊢
    push_cast
    linarith

theorem stopWay_nonneg (speed : R) : 0 ≤ speed*speed/2 :=
  div_nonneg (mul_self_nonneg speed) zero_le_two

theorem brakeWay_unit_floor (n : ℕ) (r : R) :
    brakeWay 1 1 n (n+r)+r*r/2=((n+r)*(n+r)-n)/2 := by
  rw [brakeWay_unit_eq]
  ring

end BrakeWay

namespace UnitMove

variable (m : UnitMove R) (blind : Prop)

def Near (left speed : R) : Prop := left < m.nearWay ∧ speed < m.nearSpeed

instance (left speed : R) : Decidable (m.Near left speed) := inferInstanceAs (Decidable (_ ∧ _))

/-- The speed after a step: it brakes where the way left is no longer than the stop distance. -/
def nextSpeed (left speed : R) : R :=
  if left ≤ speed*speed/2 then max (speed-1) (-m.top) else min (speed+1) m.top

/-- The moves that end at the point they are for. A `blind` move does not know, once nothing of
the way is left, which way it was going. -/
inductive Arrives : R → R → Prop
  | near {left speed : R} : m.Near left speed → Arrives left speed
  | reach {left speed : R} : ¬m.Near left speed → ¬(blind ∧ left=0) →
      left < m.nextSpeed left speed → Arrives left speed
  | next {left speed : R} : ¬m.Near left speed → ¬(blind ∧ left=0) →
      0 ≤ m.nextSpeed left speed → m.nextSpeed left speed ≤ left →
      Arrives (left-m.nextSpeed left speed) (m.nextSpeed left speed) → Arrives left speed

/-- The moves that go wrong: blind with speed left, or backwards. -/
inductive Fails : R → R → Prop
  | past {left speed : R} : ¬m.Near left speed → blind → left=0 → Fails left speed
  | back {left speed : R} : ¬m.Near left speed → ¬(blind ∧ left=0) →
      m.nextSpeed left speed<0 → Fails left speed
  | next {left speed : R} : ¬m.Near left speed → ¬(blind ∧ left=0) →
      0 ≤ m.nextSpeed left speed → m.nextSpeed left speed ≤ left →
      Fails (left-m.nextSpeed left speed) (m.nextSpeed left speed) → Fails left speed

/-- A move goes wrong where there is a fault, and ends at its point elsewhere. -/
structure Outcome (left speed : R) (fault : Prop) : Prop where
  fails : fault → m.Fails blind left speed
  arrives : ¬fault → m.Arrives blind left speed

variable {m} {blind} {left speed : R} {fault : Prop}

section Outcome

section

omit [IsStrictOrderedRing R]

theorem Outcome.congr {fault' : Prop} (h : m.Outcome blind left speed fault) (hf : fault ↔ fault') :
    m.Outcome blind left speed fault' :=
  ⟨fun hn => h.fails (hf.mpr hn),fun hn => h.arrives (mt hf.mp hn)⟩

theorem Outcome.near (h : m.Near left speed) (hf : ¬fault) : m.Outcome blind left speed fault :=
  ⟨fun hn => absurd hn hf,fun _ => .near h⟩

theorem Outcome.past (h : ¬m.Near left speed) (hb : blind ∧ left=0) (hf : fault) :
    m.Outcome blind left speed fault :=
  ⟨fun _ => .past h hb.1 hb.2,fun hn => absurd hf hn⟩

theorem Outcome.back (h : ¬m.Near left speed) (hb : ¬(blind ∧ left=0))
    (hn : m.nextSpeed left speed<0) (hf : fault) : m.Outcome blind left speed fault :=
  ⟨fun _ => .back h hb hn,fun hf' => absurd hf hf'⟩

theorem Outcome.reach (h : ¬m.Near left speed) (hb : ¬(blind ∧ left=0))
    (hn : left < m.nextSpeed left speed) (hf : ¬fault) : m.Outcome blind left speed fault :=
  ⟨fun hf' => absurd hf' hf,fun _ => .reach h hb hn⟩

theorem Outcome.next {speed' : R} (h : ¬m.Near left speed) (hb : ¬(blind ∧ left=0))
    (hs : m.nextSpeed left speed=speed') (h0 : 0 ≤ speed') (hle : speed' ≤ left)
    (hrest : m.Outcome blind (left-speed') speed' fault) : m.Outcome blind left speed fault := by
  subst hs
  exact ⟨fun hf => .next h hb h0 hle (hrest.fails hf),fun hf => .next h hb h0 hle (hrest.arrives hf)⟩

end

end Outcome

section

omit [IsStrictOrderedRing R]

theorem nextSpeed_brakes (h : left ≤ speed*speed/2) :
    m.nextSpeed left speed=max (speed-1) (-m.top) := if_pos h

end

theorem nextSpeed_brakes_of_one_le (h : left ≤ speed*speed/2) (h1 : 1 ≤ speed) :
    m.nextSpeed left speed=speed-1 := by
  have htop := m.top_pos
  rw [nextSpeed_brakes h]
  exact max_eq_left (by linarith)

section

omit [IsStrictOrderedRing R]

theorem nextSpeed_drives (h : speed*speed/2<left) :
    m.nextSpeed left speed=min (speed+1) m.top := if_neg (not_le.mpr h)

end

theorem nextSpeed_le_top (h : speed ≤ m.top) : m.nextSpeed left speed ≤ m.top := by
  have htop := m.top_pos
  unfold nextSpeed
  split_ifs
  · exact max_le (by linarith) (by linarith)
  · exact min_le_right _ _

section

omit [IsStrictOrderedRing R]

theorem not_near_mono (h : ¬m.Near left speed) {left' speed' : R} (hl : left ≤ left')
    (hs : speed ≤ speed') : ¬m.Near left' speed' := by
  intro hn
  exact h ⟨hl.trans_lt hn.1,hs.trans_lt hn.2⟩

theorem near_zero : m.Near 0 0 := ⟨m.nearWay_pos,m.nearSpeed_pos⟩

theorem nearSpeed_le_of_not_near (h : ¬m.Near 0 speed) : m.nearSpeed ≤ speed := by
  by_contra hs
  exact h ⟨m.nearWay_pos,not_le.mp hs⟩

end

/-- Braking from here on meets the point exactly, while the speed is not near zero. -/
def Lands (m : UnitMove R) (left speed : R) : Prop :=
  ∃ j : ℕ,m.nearSpeed ≤ speed-j ∧ left=brakeWay 1 1 j speed

section Lands

section

omit [IsStrictOrderedRing R]

theorem lands_here (h : m.nearSpeed ≤ speed) : m.Lands 0 speed :=
  ⟨0,by simpa using h,by simp [brakeWay]⟩

end

theorem Lands.cast_le {j : ℕ} (hj : m.nearSpeed ≤ speed-j) : j ≤ speed := by
  linarith [m.nearSpeed_pos]

theorem Lands.not_near (h : m.Lands left speed) : ¬m.Near left speed := by
  obtain ⟨j,hj,_⟩ := h
  intro hn
  have h0 : (0 : R) ≤ j := j.cast_nonneg
  linarith [hn.2]

theorem Lands.nonneg (h : m.Lands left speed) : 0 ≤ left := by
  obtain ⟨j,hj,hway⟩ := h
  rw [hway]
  exact brakeWay_unit_nonneg j speed (Lands.cast_le hj)

section

omit [IsStrictOrderedRing R]

theorem lands_succ {j : ℕ} : (m.nearSpeed ≤ speed-(j+1 : ℕ) ∧ left=brakeWay 1 1 (j+1) speed) ↔
    m.nearSpeed ≤ speed-1-j ∧ left-(speed-1)=brakeWay 1 1 j (speed-1) := by
  rw [brakeWay_unit_succ,sub_eq_iff_eq_add',Nat.cast_succ,sub_sub,add_comm (j : R)]

theorem lands_step (hb : ¬(blind ∧ left=0)) :
    (blind ∧ m.Lands left speed) ↔ (blind ∧ m.Lands (left-(speed-1)) (speed-1)) := by
  constructor
  · intro h
    obtain ⟨hbl,j,hj,hway⟩ := h
    cases j with
    | zero => exact absurd ⟨hbl,by simpa [brakeWay] using hway⟩ hb
    | succ j => exact ⟨hbl,j,lands_succ.mp ⟨hj,hway⟩⟩
  · intro h
    obtain ⟨hbl,j,hj⟩ := h
    exact ⟨hbl,j+1,lands_succ.mpr hj⟩

end

end Lands

/-- Braking ends below the share of one step: with way left, the next braking step turns back. -/
def Slips (m : UnitMove R) (n : ℕ) (r left : R) : Prop :=
  brakeWay 1 1 n (n+r) ≤ left ∧ ¬m.Near (left-brakeWay 1 1 n (n+r)) r

theorem slips_succ {n : ℕ} {r : R} :
    m.Slips (n+1) r left ↔ m.Slips n r (left-(n+r)) := by
  have hspeed : ((n+1 : ℕ) : R)+r-1=n+r := by push_cast; ring
  unfold Slips
  rw [brakeWay_unit_succ,hspeed,le_sub_iff_add_le',sub_add_eq_sub_sub]

theorem Slips.not_near {n : ℕ} {r : R} (hr : 0 ≤ r) (h : m.Slips n r left) :
    ¬m.Near left (n+r) := by
  have hn : (0 : R) ≤ n := n.cast_nonneg
  have hway := brakeWay_unit_nonneg n (n+r) (by linarith)
  exact not_near_mono h.2 (by linarith) (by linarith)

/-- A move that can brake to the point does nothing but brake. -/
theorem outcome_brakes (n : ℕ) {r : R} (hr : 0 ≤ r) (hr1 : r<1) (h0 : 0 ≤ left)
    (hleft : left ≤ brakeWay 1 1 n (n+r)+r*r/2) :
    m.Outcome blind left (n+r) (m.Slips n r left ∨ (blind ∧ m.Lands left (n+r))) := by
  have htop := m.top_pos
  induction n generalizing left with
  | zero =>
    by_cases hnear : m.Near left ((0 : ℕ)+r)
    · apply Outcome.near hnear
      intro hf
      rcases hf with hf|hf
      · exact hf.not_near hr hnear
      · exact hf.2.not_near hnear
    · have hslips : m.Slips 0 r left := by
        refine ⟨by simpa [brakeWay] using h0,?_⟩
        simpa [brakeWay] using hnear
      by_cases hb : blind ∧ left=0
      · exact Outcome.past hnear hb (.inl hslips)
      · apply Outcome.back hnear hb _ (.inl hslips)
        have hstop : left ≤ ((0 : ℕ)+r)*((0 : ℕ)+r)/2 := by simpa [brakeWay] using hleft
        rw [nextSpeed_brakes hstop]
        exact max_lt (by push_cast; linarith) (by linarith)
  | succ n ih =>
    have hn : (0 : R) ≤ n := n.cast_nonneg
    have hspeed : ((n+1 : ℕ) : R)+r-1=n+r := by push_cast; ring
    by_cases hnear : m.Near left ((n+1 : ℕ)+r)
    · apply Outcome.near hnear
      intro hf
      rcases hf with hf|hf
      · exact hf.not_near hr hnear
      · exact hf.2.not_near hnear
    · by_cases hb : blind ∧ left=0
      · refine Outcome.past hnear hb (.inr ⟨hb.1,?_⟩)
        rw [hb.2] at hnear ⊢
        exact lands_here (nearSpeed_le_of_not_near hnear)
      · have hfault : (m.Slips (n+1) r left ∨ (blind ∧ m.Lands left ((n+1 : ℕ)+r))) ↔
            (m.Slips n r (left-(n+r)) ∨ (blind ∧ m.Lands (left-(n+r)) (n+r))) := by
          rw [slips_succ,lands_step hb,hspeed]
        have hnext : m.nextSpeed left ((n+1 : ℕ)+r)=n+r := by
          rw [← hspeed]
          apply nextSpeed_brakes_of_one_le
          · rw [brakeWay_unit_floor] at hleft
            linarith [((n+1).cast_nonneg : (0 : R) ≤ (n+1 : ℕ))]
          · push_cast
            linarith
        rcases lt_or_ge left (n+r) with hlt|hge
        · apply Outcome.reach hnear hb (by rw [hnext]; exact hlt)
          rw [hfault]
          intro hf
          rcases hf with hf|hf
          · have hway := brakeWay_unit_nonneg n (n+r) (by linarith)
            linarith [hf.1]
          · linarith [hf.2.nonneg]
        · apply Outcome.next hnear hb hnext (by linarith) hge
          apply Outcome.congr _ hfault.symm
          apply ih (by linarith)
          rw [brakeWay_unit_succ,hspeed] at hleft
          linarith

/-- Braking stops short of the point, the move drives on after `k` braking steps, and braking from
there on lands. -/
structure LandsVia (m : UnitMove R) (k : ℕ) (left speed : R) : Prop where
  le : k ≤ speed
  brakes : speed*speed-2*left<k
  drives : k ≤ speed*speed-2*left+1
  not_near : ¬m.Near (left-brakeWay 1 1 k speed) (speed-k)
  lands : m.Lands (left-brakeWay 1 1 k speed-(speed-k+1)) (speed-k+1)

def LandsAfter (m : UnitMove R) (left speed : R) : Prop := ∃ k,m.LandsVia k left speed

section LandsAfter

theorem LandsAfter.nonneg (h : m.LandsAfter left speed) : 0 ≤ left := by
  obtain ⟨k,h⟩ := h
  have hway := brakeWay_unit_nonneg k speed h.le
  linarith [h.lands.nonneg,h.le]

theorem LandsAfter.not_near (h : m.LandsAfter left speed) : ¬m.Near left speed := by
  obtain ⟨k,h⟩ := h
  have hway := brakeWay_unit_nonneg k speed h.le
  have hk : (0 : R) ≤ k := k.cast_nonneg
  exact not_near_mono h.not_near (by linarith) (by linarith)

theorem landsVia_succ {k : ℕ} :
    m.LandsVia (k+1) left speed ↔ m.LandsVia k (left-(speed-1)) (speed-1) := by
  have hsq : (speed-1)*(speed-1)-2*(left-(speed-1))=speed*speed-2*left-1 := by ring
  have hway : left-brakeWay 1 1 (k+1) speed=left-(speed-1)-brakeWay 1 1 k (speed-1) := by
    rw [brakeWay_unit_succ]
    ring
  have hspeed : speed-((k+1 : ℕ) : R)=speed-1-k := by push_cast; ring
  constructor
  · intro h
    obtain ⟨hle,hbrakes,hdrives,hnear,hlands⟩ := h
    rw [hway,hspeed] at hnear hlands
    push_cast at hle hbrakes hdrives
    exact ⟨by linarith,by linarith,by linarith,hnear,hlands⟩
  · intro h
    obtain ⟨hle,hbrakes,hdrives,hnear,hlands⟩ := h
    rw [← hway,← hspeed] at hnear hlands
    refine ⟨?_,?_,?_,hnear,hlands⟩ <;> push_cast <;> linarith

theorem landsAfter_brakes (h : left ≤ speed*speed/2) :
    m.LandsAfter left speed ↔ m.LandsAfter (left-(speed-1)) (speed-1) := by
  constructor
  · intro hl
    obtain ⟨k,hk⟩ := hl
    cases k with
    | zero =>
      have hbrakes := hk.brakes
      push_cast at hbrakes
      linarith
    | succ k => exact ⟨k,landsVia_succ.mp hk⟩
  · intro hl
    obtain ⟨k,hk⟩ := hl
    exact ⟨k+1,landsVia_succ.mpr hk⟩

theorem landsAfter_drives (h0 : 0 ≤ speed) (h : speed*speed/2<left)
    (hless : left ≤ speed*speed/2+1/2) :
    m.LandsAfter left speed ↔ ¬m.Near left speed ∧ m.Lands (left-(speed+1)) (speed+1) := by
  constructor
  · intro hl
    obtain ⟨k,hk⟩ := hl
    have hk1 : (k : R)<(1 : ℕ) := by
      push_cast
      linarith [hk.drives]
    have hz : k=0 := by
      have hlt := Nat.cast_lt.mp hk1
      omega
    subst hz
    exact ⟨by simpa [brakeWay] using hk.not_near,by simpa [brakeWay] using hk.lands⟩
  · intro hl
    refine ⟨0,by simpa using h0,?_,?_,by simpa [brakeWay] using hl.1,by simpa [brakeWay] using hl.2⟩
    · push_cast
      linarith
    · push_cast
      linarith

end LandsAfter

/-- A move that braking would stop short of the point, by no more than it can drive on in one step,
is braking from the next step on. -/
theorem outcome_drives (n : ℕ) {r : R} (hr : 0 ≤ r) (hr1 : r<1) (htop : n+r+1 ≤ m.top)
    (h : (n+r)*(n+r)/2<left) (hless : left ≤ (n+r)*(n+r)/2+1/2) :
    m.Outcome blind left (n+r) (blind ∧ m.LandsAfter left (n+r)) := by
  have hn : (0 : R) ≤ n := n.cast_nonneg
  have hpos : 0<left := (stopWay_nonneg (n+r)).trans_lt h
  by_cases hnear : m.Near left (n+r)
  · apply Outcome.near hnear
    intro hf
    exact hf.2.not_near hnear
  · have hb : ¬(blind ∧ left=0) := fun hb => hpos.ne' hb.2
    have hfault : (blind ∧ m.LandsAfter left (n+r)) ↔
        (blind ∧ m.Lands (left-(n+r+1)) (n+r+1)) := by
      rw [landsAfter_drives (by linarith) h hless]
      simp [hnear]
    have hnext : m.nextSpeed left (n+r)=n+r+1 := by
      rw [nextSpeed_drives h,min_eq_left htop]
    have hspeed : n+r+1=((n+1 : ℕ) : R)+r := by push_cast; ring
    rcases lt_or_ge left (n+r+1) with hlt|hge
    · apply Outcome.reach hnear hb (by rw [hnext]; exact hlt)
      rw [hfault]
      intro hf
      linarith [hf.2.nonneg]
    · apply Outcome.next hnear hb hnext (by linarith) hge
      have hfloor := brakeWay_unit_floor (n+1) r
      have hway : left-(n+r+1)<brakeWay 1 1 (n+1) ((n+1 : ℕ)+r) := by
        push_cast at hfloor ⊢
        nlinarith
      have hrest : m.Outcome blind (left-(n+r+1)) _ _ := outcome_brakes (n+1) hr hr1 (by linarith)
        (hway.le.trans (le_add_of_nonneg_right (stopWay_nonneg r)))
      rw [← hspeed] at hrest hway
      apply hrest.congr
      rw [hfault]
      constructor
      · intro hf
        rcases hf with hf|hf
        · have hle := hf.1
          rw [← hspeed] at hle
          exact absurd hway (not_lt.mpr hle)
        · exact hf
      · exact .inr

/-- A move that brakes too early drives on once more. -/
theorem outcome_rebrakes (n : ℕ) {r : R} (hr : 0 ≤ r) (hr1 : r<1) (htop : n+r ≤ m.top)
    (h : brakeWay 1 1 n (n+r)+r*r/2<left) (hless : left ≤ (n+r)*(n+r)/2+1/2)
    (hdrive : (n+r)*(n+r)/2<left → n+r+1 ≤ m.top) :
    m.Outcome blind left (n+r) (blind ∧ m.LandsAfter left (n+r)) := by
  induction n generalizing left with
  | zero =>
    have hlt : ((0 : ℕ)+r)*((0 : ℕ)+r)/2<left := by simpa [brakeWay] using h
    exact outcome_drives 0 hr hr1 (hdrive hlt) hlt hless
  | succ n ih =>
    rcases lt_or_ge (((n+1 : ℕ)+r)*((n+1 : ℕ)+r)/2) left with hlt|hstop
    · exact outcome_drives (n+1) hr hr1 (hdrive hlt) hlt hless
    · have hn : (0 : R) ≤ n := n.cast_nonneg
      have hspeed : ((n+1 : ℕ) : R)+r-1=n+r := by push_cast; ring
      have hway := brakeWay_unit_nonneg (n+1) ((n+1 : ℕ)+r) (by linarith)
      have hpos : 0<left := (add_nonneg hway (stopWay_nonneg r)).trans_lt h
      by_cases hnear : m.Near left ((n+1 : ℕ)+r)
      · apply Outcome.near hnear
        intro hf
        exact hf.2.not_near hnear
      · have hb : ¬(blind ∧ left=0) := fun hb => hpos.ne' hb.2
        have hfault : (blind ∧ m.LandsAfter left ((n+1 : ℕ)+r)) ↔
            (blind ∧ m.LandsAfter (left-(n+r)) (n+r)) := by
          rw [landsAfter_brakes hstop,hspeed]
        have hnext : m.nextSpeed left ((n+1 : ℕ)+r)=n+r := by
          rw [← hspeed]
          apply nextSpeed_brakes_of_one_le hstop
          push_cast
          linarith
        rcases lt_or_ge left (n+r) with hlt|hge
        · apply Outcome.reach hnear hb (by rw [hnext]; exact hlt)
          rw [hfault]
          intro hf
          linarith [hf.2.nonneg]
        · apply Outcome.next hnear hb hnext (by linarith) hge
          apply Outcome.congr _ hfault.symm
          push_cast at hstop htop
          apply ih (by linarith)
          · rw [brakeWay_unit_succ,hspeed] at h
            linarith
          · linarith
          · intro _
            linarith

theorem outcome_stops (n : ℕ) {r : R} (hr : 0 ≤ r) (hr1 : r<1) (htop : n+r ≤ m.top)
    (h0 : 0 ≤ left) (hstop : left ≤ (n+r)*(n+r)/2) :
    m.Outcome blind left (n+r) ((left ≤ brakeWay 1 1 n (n+r)+r*r/2 ∧ m.Slips n r left) ∨
      (blind ∧ (m.Lands left (n+r) ∨ m.LandsAfter left (n+r)))) := by
  rcases le_or_gt left (brakeWay 1 1 n (n+r)+r*r/2) with hle|hgt
  · apply (outcome_brakes n hr hr1 h0 hle).congr
    have hafter : ¬m.LandsAfter left (n+r) := by
      intro hl
      obtain ⟨k,hk⟩ := hl
      rw [brakeWay_unit_floor] at hle
      have hnk : (n : R) < k := by linarith [hk.brakes]
      have hkn : (k : R) < (n+1 : ℕ) := by
        push_cast
        linarith [hk.le]
      have h1 := Nat.cast_lt.mp hnk
      have h2 := Nat.cast_lt.mp hkn
      omega
    simp [hle,hafter]
  · apply (outcome_rebrakes n hr hr1 htop hgt (by linarith) (fun h => by linarith)).congr
    have hlands : ¬m.Lands left (n+r) := by
      intro hl
      obtain ⟨j,hj,hway⟩ := hl
      have hjn : (j : R) < (n+1 : ℕ) := by
        push_cast
        linarith [Lands.cast_le hj]
      have hmono := brakeWay_unit_le (Nat.lt_succ_iff.mp (Nat.cast_lt.mp hjn)) (n+r)
        (by linarith)
      linarith [stopWay_nonneg r]
    simp [not_le.mpr hgt,hlands]

end UnitMove

end EtherCATMaster.Math
