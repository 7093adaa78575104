import EtherCATMaster.Framework.CheckedInt

namespace EtherCATMaster.Clock
open EtherCATMaster.Framework

/-- A register of the sync unit that is written, in the order of the registers. -/
inductive SyncWrite where
  | dcCuc (h : UInt8)
  | dcSyncAct (ra : UInt8)
  | dcStart0 (t : Int)
  | dcCycle0 (tc : UInt32)
  | dcCycle1 (tc : UInt32)

/-- What is written to the slave, and what is kept of it in its entry of `slavelist`. -/
structure SyncSetup where
  written : List SyncWrite
  dcActive : Bool
  dcShift : Int32
  dcCycle : UInt32

def syncDelay : Int := 100000000

def cyclicTrigger (t1 : Int) (cyclTime : UInt32) (cyclShift : Int32) : Except Fault Int := do
  let delayed ← signed64 (t1+syncDelay)
  let cycles ← quotient64 delayed cyclTime.toNat
  let whole ← signed64 (cycles*cyclTime.toNat)
  let next ← signed64 (whole+cyclTime.toNat)
  signed64 (next+cyclShift.toInt)

def singleTrigger (t1 : Int) (cyclShift : Int32) : Except Fault Int := do
  let delayed ← signed64 (t1+syncDelay)
  signed64 (delayed+cyclShift.toInt)

def setup0 (act : Bool) (cyclTime : UInt32) (cyclShift : Int32) (t : Int) : SyncSetup where
  written := [.dcSyncAct 0,.dcCuc 0,.dcStart0 t,.dcCycle0 cyclTime,
    .dcSyncAct (if act then 1+2 else 0)]
  dcActive := act
  dcShift := cyclShift
  dcCycle := cyclTime

def setup01 (act : Bool) (cyclTime0 cyclTime1 : UInt32) (cyclShift : Int32) (t : Int) :
    SyncSetup where
  written := [.dcSyncAct 0,.dcCuc 0,.dcStart0 t,.dcCycle0 cyclTime0,.dcCycle1 cyclTime1,
    .dcSyncAct (if act then 1+2+4 else 0)]
  dcActive := act
  dcShift := cyclShift
  dcCycle := cyclTime0

/-- `ecx_dcsync0`; `t1` is the local time that is read from the slave. -/
def dcsync0 (act : Bool) (cyclTime : UInt32) (cyclShift : Int32) (t1 : Int) :
    Except Fault SyncSetup := do
  let t ← if cyclTime>0 then cyclicTrigger t1 cyclTime cyclShift else singleTrigger t1 cyclShift
  .ok (setup0 act cyclTime cyclShift t)

/-- `ecx_dcsync01` -/
def dcsync01 (act : Bool) (cyclTime0 cyclTime1 : UInt32) (cyclShift : Int32) (t1 : Int) :
    Except Fault SyncSetup := do
  let cycles ← quotient32 cyclTime1 cyclTime0
  let trueCyclTime := (cycles+1)*cyclTime0
  let t ← if cyclTime0>0 then cyclicTrigger t1 trueCyclTime cyclShift
    else singleTrigger t1 cyclShift
  .ok (setup01 act cyclTime0 cyclTime1 cyclShift t)

/-- A start is later than the delayed and shifted time by at most one cycle, and keeps to the
multiples of the cycle. Without a cycle it is that time. -/
def StartsRight (t1 cyclShift cycle start : Int) : Prop :=
  if 0<cycle then
    t1+syncDelay+cyclShift<start ∧ start ≤ t1+syncDelay+cyclShift+cycle ∧ cycle ∣ start-cyclShift
  else start=t1+syncDelay+cyclShift

/-- The call comes to its end, and the start that it has written is right. -/
def StartsSync (call : Except Fault SyncSetup) (t1 : Int) (cyclShift : Int32) (cycle : Nat) : Prop :=
  ∃ setup start,call=.ok setup ∧ .dcStart0 start ∈ setup.written ∧
    StartsRight t1 cyclShift.toInt cycle start

/-- The cycle after which SYNC0 and SYNC1 fall together again. -/
def trueCycle (cyclTime0 cyclTime1 : UInt32) : Nat :=
  cyclTime0.toNat*(cyclTime1.toNat/cyclTime0.toNat+1)

theorem trueCycle_computed {cyclTime0 cyclTime1 : UInt32}
    (hfits : trueCycle cyclTime0 cyclTime1<2^32) :
    ((cyclTime1/cyclTime0+1)*cyclTime0).toNat=trueCycle cyclTime0 cyclTime1 := by
  rw [UInt32.toNat_mul,UInt32.toNat_add,UInt32.toNat_div,UInt32.toNat_one,Nat.mod_mul_mod,
    Nat.mul_comm]
  exact Nat.mod_eq_of_lt hfits

theorem dcsync01_faults (act : Bool) (cyclTime1 : UInt32) (cyclShift : Int32) (t1 : Int) :
    dcsync01 act 0 cyclTime1 cyclShift t1=.error .divisionByZero :=
  error_bind (quotient32_zero cyclTime1)

section Start

variable {t1 : Int} (hlo : 0 ≤ t1) (hhi : t1<2^62)
include hlo hhi

theorem cyclicTrigger_spec {cyclTime : UInt32} (cyclShift : Int32) (hpos : 0<cyclTime.toNat) :
    ∃ start,cyclicTrigger t1 cyclTime cyclShift=.ok start ∧
      StartsRight t1 cyclShift.toInt cyclTime.toNat start := by
  have hcycle : (0 : Int)<cyclTime.toNat := by omega
  have hlt := cyclTime.toNat_lt
  have hshift := cyclShift.toInt_lt
  have hshift' := cyclShift.le_toInt
  obtain ⟨hafter,hwithin,hdvd⟩ := next_multiple (t := t1+syncDelay) hcycle
  have hdelay : syncDelay=100000000 := rfl
  have hwhole : 0 ≤ (t1+syncDelay)/cyclTime.toNat*cyclTime.toNat :=
    Int.mul_nonneg (Int.ediv_nonneg (by omega) (by omega)) (by omega)
  refine ⟨(t1+syncDelay)/cyclTime.toNat*cyclTime.toNat+cyclTime.toNat+cyclShift.toInt,?_,?_⟩
  · rw [cyclicTrigger,ok_bind (signed64_ok (by omega) (by omega)),
      ok_bind (quotient64_ok (by omega) (by omega) hcycle),
      ok_bind (signed64_ok (by omega) (by omega)),ok_bind (signed64_ok (by omega) (by omega))]
    exact signed64_ok (by omega) (by omega)
  · rw [StartsRight,if_pos hcycle]
    refine ⟨by omega,by omega,?_⟩
    rw [Int.add_sub_cancel]
    exact hdvd

theorem singleTrigger_spec (cyclShift : Int32) :
    ∃ start,singleTrigger t1 cyclShift=.ok start ∧
      StartsRight t1 cyclShift.toInt (0 : Nat) start := by
  have hshift := cyclShift.toInt_lt
  have hshift' := cyclShift.le_toInt
  have hdelay : syncDelay=100000000 := rfl
  refine ⟨t1+syncDelay+cyclShift.toInt,?_,?_⟩
  · rw [singleTrigger,ok_bind (signed64_ok (by omega) (by omega))]
    exact signed64_ok (by omega) (by omega)
  · rw [StartsRight,if_neg (by omega)]

theorem dcsync0_starts (act : Bool) (cyclTime : UInt32) (cyclShift : Int32) :
    StartsSync (dcsync0 act cyclTime cyclShift t1) t1 cyclShift cyclTime.toNat := by
  by_cases hpos : cyclTime>0
  · obtain ⟨start,hrun,hright⟩ :=
      cyclicTrigger_spec hlo hhi cyclShift (UInt32.lt_iff_toNat_lt.mp hpos)
    refine ⟨setup0 act cyclTime cyclShift start,start,?_,by simp [setup0],hright⟩
    rw [dcsync0,if_pos hpos,ok_bind hrun]
  · have hzero : cyclTime.toNat=0 := by
      have hle := UInt32.lt_iff_toNat_lt.not.mp hpos
      exact Nat.eq_zero_of_not_pos hle
    obtain ⟨start,hrun,hright⟩ := singleTrigger_spec hlo hhi cyclShift
    rw [← hzero] at hright
    refine ⟨setup0 act cyclTime cyclShift start,start,?_,by simp [setup0],hright⟩
    rw [dcsync0,if_neg hpos,ok_bind hrun]

theorem dcsync01_starts (act : Bool) {cyclTime0 cyclTime1 : UInt32} (cyclShift : Int32)
    (hpos : 0<cyclTime0) (hfits : trueCycle cyclTime0 cyclTime1<2^32) :
    StartsSync (dcsync01 act cyclTime0 cyclTime1 cyclShift t1) t1 cyclShift
      (trueCycle cyclTime0 cyclTime1) := by
  have hnat : 0<cyclTime0.toNat := UInt32.lt_iff_toNat_lt.mp hpos
  have hcycle := trueCycle_computed hfits
  have htrue : 0<((cyclTime1/cyclTime0+1)*cyclTime0).toNat := by
    rw [hcycle]
    exact Nat.mul_pos hnat (Nat.succ_pos _)
  obtain ⟨start,hrun,hright⟩ := cyclicTrigger_spec hlo hhi cyclShift htrue
  rw [hcycle] at hright
  refine ⟨setup01 act cyclTime0 cyclTime1 cyclShift start,start,?_,by simp [setup01],hright⟩
  rw [dcsync01,ok_bind (quotient32_ok (UInt32.ne_of_lt hpos).symm)]
  dsimp only
  rw [if_pos hpos,ok_bind hrun]

/-- Both calls start right, the one for two cycles if and only if the first cycle is not zero and
the true cycle fits its 32 bits. -/
theorem sync_start_iff (act : Bool) (cyclTime0 cyclTime1 : UInt32) (cyclShift : Int32) :
    StartsSync (dcsync0 act cyclTime0 cyclShift t1) t1 cyclShift cyclTime0.toNat ∧
    ((StartsSync (dcsync01 act cyclTime0 cyclTime1 cyclShift t1) t1 cyclShift
        (trueCycle cyclTime0 cyclTime1) ∧
      ((cyclTime1/cyclTime0+1)*cyclTime0).toNat=trueCycle cyclTime0 cyclTime1) ↔
        0<cyclTime0 ∧ trueCycle cyclTime0 cyclTime1<2^32) := by
  refine ⟨dcsync0_starts hlo hhi act cyclTime0 cyclShift,?_,?_⟩
  · rintro ⟨⟨setup,start,hrun,-⟩,hcomputed⟩
    constructor
    · by_contra hzero
      have hnat := UInt32.lt_iff_toNat_lt.not.mp hzero
      have h0 : cyclTime0=0 := UInt32.toNat_inj.mp (Nat.eq_zero_of_not_pos hnat)
      rw [h0,dcsync01_faults] at hrun
      cases hrun
    · rw [← hcomputed]
      exact UInt32.toNat_lt _
  · rintro ⟨hpos,hfits⟩
    exact ⟨dcsync01_starts hlo hhi act cyclShift hpos hfits,trueCycle_computed hfits⟩

end Start

/-- Two cycles of 1 ms and 3 ms. -/
theorem sync_start_millis :
    StartsSync (dcsync01 true 1000000 3000000 (-500) 5000000123) 5000000123 (-500) 4000000 :=
  ((sync_start_iff (by decide) (by decide) true 1000000 3000000 (-500)).2.mpr
    ⟨by decide,by decide⟩).1

/-- A first cycle of zero divides by zero. A true cycle of 2^32 does so too. -/
theorem sync_start_faults :
    ¬StartsSync (dcsync01 true 0 0 0 0) 0 0 (trueCycle 0 0) ∧
    ¬StartsSync (dcsync01 true 0x80000000 0x80000000 0 0) 0 0 (trueCycle 0x80000000 0x80000000) := by
  constructor
  · rintro ⟨setup,start,hrun,-⟩
    cases hrun
  · rintro ⟨setup,start,hrun,-⟩
    cases hrun

end EtherCATMaster.Clock
