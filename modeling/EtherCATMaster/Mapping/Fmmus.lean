import EtherCATMaster.Mapping.IoMap
import Mathlib.Data.Nat.Basic

namespace EtherCATMaster.Mapping

/-- An address that an active FMMU of one type maps. -/
structure Fmmu.Maps (f : Fmmu) (fmmuType addr : Nat) : Prop where
  active : f.fmmuActive≠0
  type : f.fmmuType=fmmuType
  low : f.logStart ≤ addr
  high : addr<f.logStart+f.logLength

/-- Of FMMUs that were all inactive, those from `lo` on have come to map the addresses from `start`
to `stop`, and only these. -/
structure MapsRange (fmmu fmmu' : Nat → Fmmu) (lo hi fmmuType start stop : Nat) : Prop where
  kept : ∀ i,i<lo ∨ hi ≤ i → fmmu' i=fmmu i
  maps : ∀ t addr,(∃ i,lo ≤ i ∧ i<hi ∧ (fmmu' i).Maps t addr) ↔
    t=fmmuType ∧ start ≤ addr ∧ addr < stop

theorem MapsRange.empty (fmmu : Nat → Fmmu) (lo fmmuType start : Nat) :
    MapsRange fmmu fmmu lo lo fmmuType start start := by
  refine ⟨fun _ _ => rfl,?_⟩
  intro t addr
  constructor
  · rintro ⟨i,hlo,hhi,-⟩
    omega
  · rintro ⟨-,hlo,hhi⟩
    omega

theorem MapsRange.cons {fmmu fmmu' : Nat → Fmmu} {lo hi fmmuType start mid stop : Nat} {f : Fmmu}
    (h : MapsRange (Function.update fmmu lo f) fmmu' (lo+1) hi fmmuType mid stop) (hlo : lo<hi)
    (hle : start ≤ mid ∧ mid ≤ stop)
    (hf : ∀ t addr,f.Maps t addr ↔ t=fmmuType ∧ start ≤ addr ∧ addr < mid) :
    MapsRange fmmu fmmu' lo hi fmmuType start stop := by
  have hfirst : fmmu' lo=f := by
    rw [h.kept lo (.inl (Nat.lt_succ_self lo)),Function.update_self]
  constructor
  · intro i hi'
    rw [h.kept i (by omega),Function.update_of_ne (by omega)]
  · intro t addr
    constructor
    · rintro ⟨i,hge,hlt,hmaps⟩
      by_cases hi' : i=lo
      · subst hi'
        rw [hfirst] at hmaps
        obtain ⟨ht,hs,hm⟩ := (hf t addr).mp hmaps
        exact ⟨ht,hs,by omega⟩
      · obtain ⟨ht,hs,hm⟩ := (h.maps t addr).mp ⟨i,by omega,hlt,hmaps⟩
        exact ⟨ht,by omega,hm⟩
    · rintro ⟨ht,hs,hm⟩
      by_cases hmid : addr < mid
      · refine ⟨lo,Nat.le_refl _,hlo,?_⟩
        rw [hfirst]
        exact (hf t addr).mpr ⟨ht,hs,hmid⟩
      · obtain ⟨i,hge,hlt,hmaps⟩ := (h.maps t addr).mpr ⟨ht,by omega,hm⟩
        exact ⟨i,by omega,hlt,hmaps⟩

section Width

/-- How many bytes one direction of a slave moves on from a byte and a bit, and the bit reached. -/
def width (bits bitPos : Nat) : Nat × Nat :=
  if bits ≤ 7 then ((bitPos+bits)/8,(bitPos+bits)%8)
  else ((if bitPos≠0 then 1 else 0)+(bits+7)/8,0)

/-- The first byte that one direction of a slave takes up, counted from where it begins to look, and
how many there are. -/
def extent (bits bitPos : Nat) : Nat × Nat :=
  if bits ≤ 7 then (0,(bitPos+bits+7)/8) else (if bitPos≠0 then 1 else 0,(bits+7)/8)

theorem bitRange_eq (logAddr : Nat) {bitPos bits : Nat} (hpos : bitPos ≤ 7)
    (hbits : 0 < bits ∧ bits ≤ 7) :
    (bitRange logAddr bitPos bits).1.1-logAddr+1=(extent bits bitPos).2 ∧
      (bitRange logAddr bitPos bits).2=
        (logAddr+(width bits bitPos).1,(width bits bitPos).2) := by
  rw [bitRange,width,extent,if_pos hbits.2,if_pos hbits.2]
  simp only
  split_ifs <;> refine ⟨by simp only; omega,Prod.ext ?_ ?_⟩ <;> simp only <;> omega

end Width

/-- A direction as `ecx_map_sm` leaves it. -/
structure Direction.Sized (d : Direction) : Prop where
  some : 0 < d.bits
  bytes : d.bytes=if d.bits>7 then (d.bits+7)/8 else 0

section Runs

variable {sm : Nat → Sm} {d : Direction} {base : Nat}

theorem maps_activate {f : Fmmu} {fmmuType : Nat} (hidle : f.fmmuActive=0) (t addr : Nat) :
    (f.activate fmmuType).Maps t addr ↔
      t=fmmuType ∧ f.logStart ≤ addr ∧ addr<f.logStart+f.logLength := by
  rw [Fmmu.activate]
  split_ifs with hlen
  · constructor
    · rintro ⟨-,ht,hlo,hhi⟩
      exact ⟨ht.symm,hlo,hhi⟩
    · rintro ⟨rfl,hlo,hhi⟩
      exact ⟨Nat.one_ne_zero,rfl,hlo,hhi⟩
  · constructor
    · rintro ⟨hactive,-,-,-⟩
      exact absurd hidle hactive
    · rintro ⟨-,hlo,hhi⟩
      omega

/-- What one FMMU of a byte oriented slave does. -/
structure ByteStep (d : Direction) (r r' : MapRun) (size : Nat) : Prop where
  fits : r.fmmuDone+size ≤ d.bytes
  logAddr : r'.logAddr=r.logAddr+size
  bitPos : r'.bitPos=0
  fmmuDone : r'.fmmuDone=r.fmmuDone+size
  fmmuc : r'.fmmuc=r.fmmuc+1
  entry : ∃ f,r'.fmmu=Function.update r.fmmu r.fmmuc f ∧ ∀ t addr,f.Maps t addr ↔
    t=d.fmmuType ∧ r.logAddr ≤ addr ∧ addr < r.logAddr+size

def byteSize (sm : Nat → Sm) (d : Direction) (r : MapRun) : Nat :=
  let sms := gatherSm sm d ecMaxSm (r.sms.take sm (skipSm sm d.smType ecMaxSm r.sms.smc))
  if sms.byteCount.toNat+r.fmmuDone>d.bytes then d.bytes-r.fmmuDone else sms.byteCount.toNat

theorem mapFmmu_bytes (sm : Nat → Sm) (base : Nat) {r : MapRun} (hbytes : d.bytes≠0)
    (hdone : r.fmmuDone ≤ d.bytes) (hpos : r.bitPos=0)
    (hidle : (r.fmmu r.fmmuc).fmmuActive=0) :
    ByteStep d r (mapFmmu sm d base r) (byteSize sm d r) := by
  have hpos' : ¬r.bitPos≠0 := fun h => h hpos
  constructor
  · simp only [byteSize]
    split_ifs <;> omega
  · simp only [mapFmmu,if_neg hbytes,if_neg hpos']
    rfl
  · simp only [mapFmmu,if_neg hbytes]
  · simp only [mapFmmu,if_neg hbytes,Fmmu.activate_logLength]
    rfl
  · rfl
  · refine ⟨_,rfl,?_⟩
    intro t addr
    simp only [if_neg hbytes,if_neg hpos']
    exact maps_activate (by exact hidle) t addr

/-- A run of the mapping functions over one direction of a slave. -/
structure Mapped (d : Direction) (r r' : MapRun) (start count : Nat) : Prop where
  logAddr : r'.logAddr=r.logAddr+(width d.bits r.bitPos).1
  bitPos : r'.bitPos=(width d.bits r.bitPos).2
  fmmuc : r.fmmuc ≤ r'.fmmuc
  range : MapsRange r.fmmu r'.fmmu r.fmmuc r'.fmmuc d.fmmuType start (start+count)

theorem mapFmmus_step {n : Nat} {r r' : MapRun}
    (hmore : r.sms.smc < ecMaxSm ∧ r.fmmuDone<(d.bits+7)/8)
    (h : mapFmmus sm d base n r=some r') :
    ∃ n',n=n'+1 ∧ r.fmmuc < ecMaxFmmu ∧
      mapFmmus sm d base n' (mapFmmu sm d base r)=some r' := by
  cases n with
  | zero =>
    rw [mapFmmus,if_pos hmore] at h
    cases h
  | succ n =>
    rw [mapFmmus,if_pos hmore] at h
    split_ifs at h with hroom
    exact ⟨n,rfl,hroom,h⟩

theorem mapFmmus_stop {n : Nat} {r r' : MapRun}
    (hstop : ¬(r.sms.smc < ecMaxSm ∧ r.fmmuDone<(d.bits+7)/8))
    (h : mapFmmus sm d base n r=some r') : r'=r := by
  cases n <;> rw [mapFmmus,if_neg hstop] at h <;> cases h <;> rfl

theorem mapFmmus_room {n : Nat} {r r' : MapRun} (hroom : r.fmmuc ≤ ecMaxFmmu)
    (h : mapFmmus sm d base n r=some r') : r'.fmmuc ≤ ecMaxFmmu := by
  induction n generalizing r with
  | zero =>
    by_cases hmore : r.sms.smc < ecMaxSm ∧ r.fmmuDone<(d.bits+7)/8
    · obtain ⟨n,hn,-,-⟩ := mapFmmus_step hmore h
      omega
    · rw [mapFmmus_stop hmore h]
      exact hroom
  | succ n ih =>
    by_cases hmore : r.sms.smc < ecMaxSm ∧ r.fmmuDone<(d.bits+7)/8
    · obtain ⟨n',hn,hlt,h'⟩ := mapFmmus_step hmore h
      obtain rfl : n=n' := by omega
      exact ih (show (mapFmmu sm d base r).fmmuc ≤ ecMaxFmmu from hlt) h'
    · rw [mapFmmus_stop hmore h]
      exact hroom

theorem skipSm_lt (smType : Nat) : ∀ n smc,smc < ecMaxSm → skipSm sm smType n smc < ecMaxSm := by
  intro n
  induction n with
  | zero => exact fun smc h => h
  | succ n ih =>
    intro smc h
    rw [skipSm]
    split_ifs with hskip
    · exact ih _ (by omega)
    · exact h

theorem gatherSm_lt : ∀ n r,r.smc < ecMaxSm → (gatherSm sm d n r).smc < ecMaxSm := by
  intro n
  induction n with
  | zero => exact fun r h => h
  | succ n ih =>
    intro r h
    rw [gatherSm]
    by_cases hmore : r.bitCount<d.bits ∧ r.smc < ecMaxSm-1
    · rw [if_pos hmore]
      have hnext : skipSm sm d.smType ecMaxSm (r.smc+1) < ecMaxSm := skipSm_lt _ _ _ (by omega)
      by_cases hgap : (sm (skipSm sm d.smType ecMaxSm (r.smc+1))).startAddr>r.endAddr
      · simp only [if_pos hgap]
        exact hnext
      · simp only [if_neg hgap]
        exact ih _ hnext
    · rw [if_neg hmore]
      exact h

theorem mapFmmu_smc {r : MapRun} (h : r.sms.smc < ecMaxSm) :
    (mapFmmu sm d base r).sms.smc < ecMaxSm :=
  gatherSm_lt _ _ (skipSm_lt _ _ _ h)

/-- The rest of a byte oriented slave, from a byte on. -/
theorem mapFmmus_bytes (hbytes : d.bytes≠0) (hall : d.bytes=(d.bits+7)/8) {n : Nat} {r r' : MapRun}
    (hsmc : r.sms.smc < ecMaxSm) (hdone : r.fmmuDone ≤ d.bytes) (hpos : r.bitPos=0)
    (hidle : ∀ i,r.fmmuc ≤ i → (r.fmmu i).fmmuActive=0) (h : mapFmmus sm d base n r=some r') :
    r'.logAddr=r.logAddr+(d.bytes-r.fmmuDone) ∧ r'.bitPos=0 ∧ r.fmmuc ≤ r'.fmmuc ∧
      MapsRange r.fmmu r'.fmmu r.fmmuc r'.fmmuc d.fmmuType r.logAddr
        (r.logAddr+(d.bytes-r.fmmuDone)) := by
  induction n generalizing r with
  | zero =>
    by_cases hmore : r.sms.smc < ecMaxSm ∧ r.fmmuDone<(d.bits+7)/8
    · obtain ⟨n,hn,-,-⟩ := mapFmmus_step hmore h
      omega
    · obtain rfl := mapFmmus_stop hmore h
      have hzero : d.bytes-r'.fmmuDone=0 := by
        have : ¬r'.fmmuDone<(d.bits+7)/8 := fun hlt => hmore ⟨hsmc,hlt⟩
        omega
      rw [hzero]
      exact ⟨rfl,hpos,Nat.le_refl _,MapsRange.empty _ _ _ _⟩
  | succ n ih =>
    by_cases hmore : r.sms.smc < ecMaxSm ∧ r.fmmuDone<(d.bits+7)/8
    · obtain ⟨n',hn,-,h'⟩ := mapFmmus_step hmore h
      obtain rfl : n=n' := by omega
      have hstep := mapFmmu_bytes sm base hbytes hdone hpos (hidle r.fmmuc (Nat.le_refl _))
      generalize byteSize sm d r=size at hstep
      obtain ⟨f,hf,hmaps⟩ := hstep.entry
      have hfits := hstep.fits
      have hidle' : ∀ i,(mapFmmu sm d base r).fmmuc ≤ i →
          ((mapFmmu sm d base r).fmmu i).fmmuActive=0 := by
        intro i hi
        rw [hstep.fmmuc] at hi
        rw [hf,Function.update_of_ne (by omega)]
        exact hidle i (by omega)
      obtain ⟨hlog,hbit,hfmmuc,hrange⟩ := ih (mapFmmu_smc hsmc)
        (by rw [hstep.fmmuDone]; exact hfits) hstep.bitPos hidle' h'
      rw [hstep.fmmuDone,hstep.logAddr] at hlog hrange
      rw [hf,hstep.fmmuc] at hrange
      rw [hstep.fmmuc] at hfmmuc
      have hsum : r.logAddr+size+(d.bytes-(r.fmmuDone+size))=
          r.logAddr+(d.bytes-r.fmmuDone) := by omega
      rw [hsum] at hlog hrange
      exact ⟨hlog,hbit,by omega,hrange.cons hfmmuc (by omega) hmaps⟩
    · obtain rfl := mapFmmus_stop hmore h
      have hzero : d.bytes-r'.fmmuDone=0 := by
        have : ¬r'.fmmuDone<(d.bits+7)/8 := fun hlt => hmore ⟨hsmc,hlt⟩
        omega
      rw [hzero]
      exact ⟨rfl,hpos,Nat.le_refl _,MapsRange.empty _ _ _ _⟩

theorem mapFmmu_align {r : MapRun} (hbytes : d.bytes≠0) :
    mapFmmu sm d base r=mapFmmu sm d base
      { r with logAddr := if r.bitPos≠0 then r.logAddr+1 else r.logAddr, bitPos := 0 } := by
  simp only [mapFmmu,if_neg hbytes]
  rfl

/-- One direction of a slave, from its first FMMU on. -/
theorem mapFmmus_mapped (hd : d.Sized) {n : Nat} {r r' : MapRun} (hpos : r.bitPos ≤ 7)
    (hsmc : r.sms.smc < ecMaxSm) (hdone : r.fmmuDone=0)
    (hidle : ∀ i,r.fmmuc ≤ i → (r.fmmu i).fmmuActive=0) (h : mapFmmus sm d base n r=some r') :
    Mapped d r r' (r.logAddr+(extent d.bits r.bitPos).1) (extent d.bits r.bitPos).2 := by
  have hsome := hd.some
  have hbytes := hd.bytes
  have hmore : r.sms.smc < ecMaxSm ∧ r.fmmuDone<(d.bits+7)/8 := ⟨hsmc,by omega⟩
  obtain ⟨n',-,hroom,h'⟩ := mapFmmus_step hmore h
  by_cases hsmall : d.bits ≤ 7
  · -- a bit oriented slave has one FMMU
    have hzero : d.bytes=0 := by
      rw [hbytes,if_neg (by omega)]
    obtain ⟨hlen,hnext⟩ := bitRange_eq r.logAddr hpos ⟨hsome,hsmall⟩
    have hstop : ¬((mapFmmu sm d base r).sms.smc < ecMaxSm ∧
        (mapFmmu sm d base r).fmmuDone<(d.bits+7)/8) := by
      rintro ⟨-,hlt⟩
      have hsize : (mapFmmu sm d base r).fmmuDone=r.fmmuDone+(extent d.bits r.bitPos).2 := by
        rw [← hlen]
        simp only [mapFmmu,if_pos hzero,Fmmu.activate_logLength]
      have hone : 0 < (extent d.bits r.bitPos).2 := by
        rw [extent,if_pos hsmall]
        simp only
        omega
      omega
    obtain rfl := mapFmmus_stop hstop h'
    have hfirst : (extent d.bits r.bitPos).1=0 := by rw [extent,if_pos hsmall]
    rw [hfirst,Nat.add_zero]
    refine ⟨?_,?_,Nat.le_succ _,?_⟩
    · simp only [mapFmmu,if_pos hzero,hnext]
    · simp only [mapFmmu,if_pos hzero,hnext]
    · have hempty := MapsRange.empty (mapFmmu sm d base r).fmmu (r.fmmuc+1) d.fmmuType
        (r.logAddr+(extent d.bits r.bitPos).2)
      refine MapsRange.cons hempty (Nat.lt_succ_self _) ⟨Nat.le_add_right _ _,Nat.le_refl _⟩ ?_
      intro t addr
      rw [← hlen]
      simp only [if_pos hzero]
      exact maps_activate (by exact hidle _ (Nat.le_refl _)) t addr
  · have hall : d.bytes=(d.bits+7)/8 := by
      rw [hbytes,if_pos (by omega)]
    have hne : d.bytes≠0 := by omega
    have hextent : extent d.bits r.bitPos=(if r.bitPos≠0 then 1 else 0,(d.bits+7)/8) := by
      rw [extent,if_neg hsmall]
    have hwidth : width d.bits r.bitPos=((if r.bitPos≠0 then 1 else 0)+(d.bits+7)/8,0) := by
      rw [width,if_neg hsmall]
    -- the first FMMU begins with the next whole byte, and the others go on from it
    let r0 : MapRun :=
      { r with logAddr := r.logAddr+(extent d.bits r.bitPos).1, bitPos := 0 }
    have hfirst : mapFmmu sm d base r=mapFmmu sm d base r0 := by
      have hstart : (if r.bitPos≠0 then r.logAddr+1 else r.logAddr)=
          r.logAddr+(extent d.bits r.bitPos).1 := by
        rw [hextent]
        simp only
        split_ifs <;> omega
      rw [mapFmmu_align hne,hstart]
    have hrun : mapFmmus sm d base (n'+1) r0=some r' := by
      rw [mapFmmus,if_pos hmore,if_pos hroom,← hfirst]
      exact h'
    obtain ⟨hlog,hbit,hfmmuc,hrange⟩ := mapFmmus_bytes hne hall (r := r0) hsmc
      (by rw [hdone]; exact Nat.zero_le _) rfl hidle hrun
    have hcount : d.bytes-r0.fmmuDone=(extent d.bits r.bitPos).2 := by
      rw [hextent,show r0.fmmuDone=0 from hdone]
      exact hall
    rw [hcount] at hlog hrange
    refine ⟨?_,?_,hfmmuc,hrange⟩
    · rw [hlog,hwidth]
      simp only [r0,hextent]
      omega
    · rw [hbit,hwidth]

end Runs

end EtherCATMaster.Mapping
