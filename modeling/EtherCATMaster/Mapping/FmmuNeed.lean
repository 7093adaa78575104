import EtherCATMaster.Mapping.Coverage
import EtherCATMaster.Mapping.Placing

namespace EtherCATMaster.Mapping

/-- The sync managers that are taken for a type from a place on. The last one of the table is, also
when it is of another type. -/
def takenFrom (sm : Nat → Sm) (smType smc : Nat) : List Sm :=
  smsOf sm smType (ecMaxSm-1-smc) smc++[sm (ecMaxSm-1)]

/-- The bytes up to the end of an FMMU that has come to `x`, and the sync managers with which the
next one begins. -/
def stretch (bits : Nat) : Nat → Sm → List Sm → Nat × List Sm
  | sum,x,[] => (sum,[x])
  | sum,x,y::rest =>
      if sum*8 < bits then
        if x.Connects y then stretch bits (sum+y.smLength.toNat) y rest else (sum,y::rest)
      else (sum,x::y::rest)

/-- What `n` FMMUs in a row can hold: each the bytes of all sync managers so far, in 16 bits. -/
def byteSums (bits : Nat) : Nat → Nat → List Sm → List Nat
  | 0,_,_ => []
  | _+1,_,[] => []
  | n+1,sum,x::rest =>
      let r := stretch bits (sum+x.smLength.toNat) x rest
      r.1%2^16::byteSums bits n r.1 r.2

def FitsIn (sm : Nat → Sm) (smType bits n : Nat) : Prop :=
  (bits+7)/8 ≤ if bits ≤ 7 then n else (byteSums bits n 0 (takenFrom sm smType 0)).sum

instance FitsIn.decidable (sm : Nat → Sm) (smType bits n : Nat) :
    Decidable (FitsIn sm smType bits n) :=
  inferInstanceAs (Decidable (_ ≤ _))

def Slave.FmmusSuffice (s : Slave) : Prop :=
  ∃ outputs inputs,outputs+inputs ≤ ecMaxFmmu ∧ FitsIn s.sm 3 s.obits.toNat outputs ∧
    FitsIn s.sm 4 s.ibits.toNat inputs

/-- Both directions of a slave leave an FMMU of its table. -/
def Slave.StatusFmmu (s : Slave) : Prop :=
  ∃ outputs,outputs < ecMaxFmmu ∧ ∃ inputs,inputs < ecMaxFmmu ∧ outputs+inputs < ecMaxFmmu ∧
    FitsIn s.sm 3 s.obits.toNat outputs ∧ FitsIn s.sm 4 s.ibits.toNat inputs

instance Slave.StatusFmmu.decidable (s : Slave) : Decidable s.StatusFmmu :=
  inferInstanceAs (Decidable (∃ outputs,outputs < ecMaxFmmu ∧ ∃ inputs,inputs < ecMaxFmmu ∧
    outputs+inputs < ecMaxFmmu ∧ FitsIn s.sm 3 s.obits.toNat outputs ∧
    FitsIn s.sm 4 s.ibits.toNat inputs))

theorem fitsIn_none (sm : Nat → Sm) (smType : Nat) : FitsIn sm smType 0 0 := Nat.le_refl _

theorem FitsIn.pos {sm : Nat → Sm} {smType bits n : Nat} (h : FitsIn sm smType bits n)
    (hbits : bits≠0) : 0 < n := by
  rcases Nat.eq_zero_or_pos n with rfl|hpos
  · rw [FitsIn] at h
    split_ifs at h
    · omega
    · rw [byteSums,List.sum_nil] at h
      omega
  · exact hpos

section Scan

variable {sm : Nat → Sm} {d : Direction}

def takenBehind (sm : Nat → Sm) (smType smc : Nat) : List Sm :=
  if smc < ecMaxSm-1 then takenFrom sm smType (smc+1) else []

theorem takenFrom_last {smType smc : Nat} (h : ¬smc < ecMaxSm-1) (hlt : smc < ecMaxSm) :
    takenFrom sm smType smc=sm smc::takenBehind sm smType smc := by
  obtain rfl : smc=ecMaxSm-1 := by omega
  rw [takenFrom,takenBehind,if_neg h,Nat.sub_self]
  rfl

theorem takenFrom_type {smType smc : Nat} (h : smc < ecMaxSm-1) (htype : (sm smc).smType=smType) :
    takenFrom sm smType smc=sm smc::takenBehind sm smType smc := by
  rw [takenFrom,takenBehind,if_pos h,show ecMaxSm-1-smc=ecMaxSm-1-(smc+1)+1 by omega,smsOf,
    if_pos htype]
  rfl

theorem takenFrom_skip {smType smc : Nat} (h : smc < ecMaxSm-1) (htype : (sm smc).smType≠smType) :
    takenFrom sm smType smc=takenFrom sm smType (smc+1) := by
  rw [takenFrom,takenFrom,show ecMaxSm-1-smc=ecMaxSm-1-(smc+1)+1 by omega,smsOf,if_neg htype]

theorem skipSm_taken (sm : Nat → Sm) (smType : Nat) (n : Nat) : ∀ {smc : Nat},smc < ecMaxSm →
    ecMaxSm-1-smc ≤ n → skipSm sm smType n smc < ecMaxSm ∧
      takenFrom sm smType smc=sm (skipSm sm smType n smc)::
        takenBehind sm smType (skipSm sm smType n smc) ∧
      takenFrom sm smType (skipSm sm smType n smc)=takenFrom sm smType smc := by
  have hstay : ∀ {smc : Nat},smc < ecMaxSm → ¬(smc < ecMaxSm-1 ∧ (sm smc).smType≠smType) →
      takenFrom sm smType smc=sm smc::takenBehind sm smType smc := by
    intro smc hlt hstop
    by_cases hlast : smc < ecMaxSm-1
    · exact takenFrom_type hlast (by_contra fun hother => hstop ⟨hlast,hother⟩)
    · exact takenFrom_last hlast hlt
  induction n with
  | zero =>
    intro smc hlt hn
    exact ⟨hlt,hstay hlt (by omega),rfl⟩
  | succ n ih =>
    intro smc hlt hn
    rw [skipSm]
    by_cases hskip : smc < ecMaxSm-1 ∧ (sm smc).smType≠smType
    · rw [if_pos hskip,takenFrom_skip hskip.1 hskip.2]
      exact ih (by omega) (by omega)
    · rw [if_neg hskip]
      exact ⟨hlt,hstay hlt hskip,rfl⟩

/-- The sync managers have been taken up to `x`. -/
structure TakenTo (sm : Nat → Sm) (d : Direction) (sum : Nat) (x : Sm) (rest : List Sm) (r : SmRun) :
    Prop where
  place : r.smc < ecMaxSm
  here : takenFrom sm d.smType r.smc=x::rest
  behind : takenBehind sm d.smType r.smc=rest
  bytes : r.byteCount.toNat=sum%2^16
  bits : r.bitCount=sum*8
  stop : r.endAddr=x.startAddr+x.smLength

/-- An FMMU ends, and the next one begins with these sync managers. -/
structure TakenFor (sm : Nat → Sm) (d : Direction) (sum : Nat) (rest : List Sm) (r : SmRun) :
    Prop where
  place : r.smc < ecMaxSm
  here : takenFrom sm d.smType r.smc=rest
  bytes : r.byteCount.toNat=sum%2^16
  bits : r.bitCount=sum*8

theorem TakenFor.take {r : SmRun} {sum : Nat} {l : List Sm} (h : TakenFor sm d sum l r)
    {p : Nat} (hp : p < ecMaxSm) (hsame : takenFrom sm d.smType p=
      sm p::takenBehind sm d.smType p) :
    TakenTo sm d (sum+(sm p).smLength.toNat) (sm p) (takenBehind sm d.smType p) (r.take sm p) := by
  refine ⟨hp,hsame,rfl,?_,?_,rfl⟩
  · have hlt := (sm p).smLength.toNat_lt
    simp only [SmRun.take,UInt16.toNat_add,h.bytes]
    omega
  · simp only [SmRun.take,h.bits]
    omega

theorem gatherSm_taken (n : Nat) : ∀ {r : SmRun} {sum : Nat} {x : Sm} {rest : List Sm},
    TakenTo sm d sum x rest r → ecMaxSm-1-r.smc ≤ n →
    TakenFor sm d (stretch d.bits sum x rest).1 (stretch d.bits sum x rest).2
      (gatherSm sm d n r) := by
  have hend : ∀ {r : SmRun} {sum : Nat} {x : Sm} {rest : List Sm},TakenTo sm d sum x rest r →
      ¬(r.bitCount<d.bits ∧ r.smc < ecMaxSm-1) →
      TakenFor sm d (stretch d.bits sum x rest).1 (stretch d.bits sum x rest).2 r := by
    intro r sum x rest h hstop
    have hstretch : stretch d.bits sum x rest=(sum,x::rest) := by
      cases rest with
      | nil => rfl
      | cons y rest =>
        have hmore : r.smc < ecMaxSm-1 := by
          by_contra hlast
          have hnil := h.behind
          rw [takenBehind,if_neg hlast] at hnil
          cases hnil
        have hfull : ¬sum*8 < d.bits := fun hlt => hstop ⟨h.bits ▸ hlt,hmore⟩
        rw [stretch,if_neg hfull]
    rw [hstretch]
    exact ⟨h.place,h.here,h.bytes,h.bits⟩
  induction n with
  | zero =>
    intro r sum x rest h hn
    have hstop : ¬(r.bitCount<d.bits ∧ r.smc < ecMaxSm-1) := by omega
    exact hend h hstop
  | succ n ih =>
    intro r sum x rest h hn
    rw [gatherSm]
    by_cases hmore : r.bitCount<d.bits ∧ r.smc < ecMaxSm-1
    · rw [if_pos hmore]
      have hplace := h.place
      have hbits := h.bits
      have hbehind := h.behind
      rw [takenBehind,if_pos hmore.2] at hbehind
      obtain ⟨hp,hnext,hsame⟩ := skipSm_taken sm d.smType ecMaxSm
        (show r.smc+1 < ecMaxSm by omega) (by omega)
      have hskip : r.smc+1 ≤ skipSm sm d.smType ecMaxSm (r.smc+1) :=
        le_skipSm d.smType ecMaxSm (r.smc+1)
      generalize skipSm sm d.smType ecMaxSm (r.smc+1)=p at hp hnext hsame hskip ⊢
      rw [hbehind] at hnext hsame
      rw [hnext] at hsame
      rw [hnext,stretch,if_pos (by omega)]
      by_cases hgap : (sm p).startAddr>r.endAddr
      · have happart : ¬x.Connects (sm p) := fun hc => hc (h.stop ▸ hgap)
        simp only [if_pos hgap,if_neg happart]
        exact ⟨hp,hsame,h.bytes,h.bits⟩
      · have hconnects : x.Connects (sm p) := fun hc => hgap (h.stop ▸ hc)
        simp only [if_neg hgap,if_pos hconnects]
        have hrun : TakenFor sm d sum (x::rest) r := ⟨h.place,h.here,h.bytes,h.bits⟩
        exact ih (hrun.take hp hsame) (by simp only [SmRun.take]; omega)
    · rw [if_neg hmore]
      exact hend h hmore

theorem smsStart_taken (sm : Nat → Sm) (d : Direction) :
    TakenFor sm d 0 (takenFrom sm d.smType 0) smsStart := ⟨by decide,rfl,rfl,rfl⟩

end Scan

section Need

variable {sm : Nat → Sm} {d : Direction} {base : Nat}

theorem mapFmmu_taken (base : Nat) {r : MapRun} {sum : Nat} {l : List Sm} (h : TakenFor sm d sum l r.sms) :
    ∃ x rest,l=x::rest ∧
      TakenFor sm d (stretch d.bits (sum+x.smLength.toNat) x rest).1
        (stretch d.bits (sum+x.smLength.toNat) x rest).2 (mapFmmu sm d base r).sms := by
  obtain ⟨hp,hhere,hsame⟩ := skipSm_taken sm d.smType ecMaxSm h.place (by omega)
  generalize hskip : skipSm sm d.smType ecMaxSm r.sms.smc=p at hp hhere hsame
  rw [h.here] at hhere hsame
  rw [hhere] at hsame
  refine ⟨sm p,takenBehind sm d.smType p,hhere,?_⟩
  have hgather := gatherSm_taken ecMaxSm (h.take hp hsame) (by omega)
  rw [← hskip] at hgather ⊢
  exact hgather

theorem mapFmmu_done (sm : Nat → Sm) (base : Nat) {r : MapRun} (hbytes : d.bytes≠0) (hdone : r.fmmuDone ≤ d.bytes) :
    (mapFmmu sm d base r).fmmuDone=
      min d.bytes (r.fmmuDone+(mapFmmu sm d base r).sms.byteCount.toNat) := by
  simp only [mapFmmu,if_neg hbytes,Fmmu.activate_logLength]
  split_ifs <;> omega

theorem mapFmmus_kept {n : Nat} {r r' : MapRun} (h : mapFmmus sm d base n r=some r') :
    r.fmmuc ≤ r'.fmmuc ∧ ∀ i,r'.fmmuc ≤ i → r'.fmmu i=r.fmmu i := by
  induction n generalizing r with
  | zero =>
    by_cases hmore : r.sms.smc < ecMaxSm ∧ r.fmmuDone<(d.bits+7)/8
    · obtain ⟨n,hn,-,-⟩ := mapFmmus_step hmore h
      omega
    · obtain rfl := mapFmmus_stop hmore h
      exact ⟨le_rfl,fun _ _ => rfl⟩
  | succ n ih =>
    by_cases hmore : r.sms.smc < ecMaxSm ∧ r.fmmuDone<(d.bits+7)/8
    · obtain ⟨n',hn,-,h'⟩ := mapFmmus_step hmore h
      obtain rfl : n=n' := by omega
      obtain ⟨hle,hkept⟩ := ih h'
      have hlt : r.fmmuc < r'.fmmuc := hle
      refine ⟨hlt.le,fun i hi => (hkept i hi).trans ?_⟩
      exact Function.update_of_ne (by omega) _ _
    · obtain rfl := mapFmmus_stop hmore h
      exact ⟨le_rfl,fun _ _ => rfl⟩

def MapStep (sm : Nat → Sm) (d : Direction) (base : Nat) (r r' : MapRun) : Prop :=
  (r.sms.smc < ecMaxSm ∧ r.fmmuDone<(d.bits+7)/8) ∧ r'=mapFmmu sm d base r

/-- The loop is cut off exactly if it comes to a round with an FMMU behind the table. -/
theorem mapFmmus_none_iff {n : Nat} {r : MapRun} (hn : ecMaxFmmu ≤ r.fmmuc+n) :
    mapFmmus sm d base n r=none ↔ ∃ r',Relation.ReflTransGen (MapStep sm d base) r r' ∧
      (r'.sms.smc < ecMaxSm ∧ r'.fmmuDone<(d.bits+7)/8) ∧ ecMaxFmmu ≤ r'.fmmuc := by
  induction n generalizing r with
  | zero =>
    rw [mapFmmus]
    by_cases hmore : r.sms.smc < ecMaxSm ∧ r.fmmuDone<(d.bits+7)/8
    · rw [if_pos hmore]
      exact ⟨fun _ => ⟨r,.refl,hmore,hn⟩,fun _ => rfl⟩
    · rw [if_neg hmore]
      refine ⟨fun h => absurd h (Option.some_ne_none _),?_⟩
      rintro ⟨r',hsteps,hmore',-⟩
      rcases hsteps.cases_head with rfl|⟨r1,hstep,-⟩
      · exact absurd hmore' hmore
      · exact absurd hstep.1 hmore
  | succ n ih =>
    rw [mapFmmus]
    by_cases hmore : r.sms.smc < ecMaxSm ∧ r.fmmuDone<(d.bits+7)/8
    · rw [if_pos hmore]
      by_cases hroom : r.fmmuc < ecMaxFmmu
      · simp only [if_pos hroom]
        rw [ih (show ecMaxFmmu ≤ r.fmmuc+1+n by omega)]
        constructor
        · rintro ⟨r',hsteps,hreached⟩
          exact ⟨r',.head ⟨hmore,rfl⟩ hsteps,hreached⟩
        · rintro ⟨r',hsteps,hmore',hbeyond⟩
          rcases hsteps.cases_head with rfl|⟨r1,⟨-,rfl⟩,hrest⟩
          · omega
          · exact ⟨r',hrest,hmore',hbeyond⟩
      · simp only [if_neg hroom]
        exact ⟨fun _ => ⟨r,.refl,hmore,Nat.not_lt.mp hroom⟩,fun _ => trivial⟩
    · rw [if_neg hmore]
      refine ⟨fun h => absurd h (Option.some_ne_none _),?_⟩
      rintro ⟨r',hsteps,hmore',-⟩
      rcases hsteps.cases_head with rfl|⟨r1,hstep,-⟩
      · exact absurd hmore' hmore
      · exact absurd hstep.1 hmore

theorem freeFmmu_none_iff {fmmu : Nat → Fmmu} {n : Nat} : ∀ {fmmuc : Nat},ecMaxFmmu<fmmuc+n →
    (freeFmmu fmmu n fmmuc=none ↔ ∀ i,fmmuc ≤ i → i < ecMaxFmmu → (fmmu i).logStart≠0) := by
  induction n with
  | zero =>
    intro fmmuc hn
    exact ⟨fun _ i hlow hhigh => by omega,fun _ => rfl⟩
  | succ n ih =>
    intro fmmuc hn
    rw [freeFmmu]
    by_cases hroom : fmmuc < ecMaxFmmu
    · rw [if_pos hroom]
      by_cases hused : (fmmu fmmuc).logStart≠0
      · rw [if_pos hused,ih (by omega)]
        constructor
        · intro hall i hlow hhigh
          rcases Nat.eq_or_lt_of_le hlow with rfl|hlt
          · exact hused
          · exact hall i hlt hhigh
        · exact fun hall i hlow hhigh => hall i (by omega) hhigh
      · rw [if_neg hused]
        refine ⟨fun h => absurd h (Option.some_ne_none _),fun hall => ?_⟩
        exact absurd (hall fmmuc le_rfl hroom) hused
    · rw [if_neg hroom]
      exact ⟨fun _ i hlow hhigh => by omega,fun _ => rfl⟩

theorem mapFmmus_needs (hbytes : d.bytes≠0) (hall : d.bytes=(d.bits+7)/8) {n : Nat} :
    ∀ {r r' : MapRun} {sum : Nat} {l : List Sm},TakenFor sm d sum l r.sms →
    r.fmmuDone ≤ d.bytes → mapFmmus sm d base n r=some r' →
    ∃ k,r'.fmmuc=r.fmmuc+k ∧ d.bytes ≤ r.fmmuDone+(byteSums d.bits k sum l).sum := by
  have hend : ∀ {n : Nat} {r r' : MapRun} {sum : Nat} {l : List Sm},TakenFor sm d sum l r.sms →
      ¬(r.sms.smc < ecMaxSm ∧ r.fmmuDone<(d.bits+7)/8) → mapFmmus sm d base n r=some r' →
      ∃ k,r'.fmmuc=r.fmmuc+k ∧ d.bytes ≤ r.fmmuDone+(byteSums d.bits k sum l).sum := by
    intro n r r' sum l htaken hstop h
    obtain rfl := mapFmmus_stop hstop h
    have hplace := htaken.place
    exact ⟨0,rfl,by omega⟩
  induction n with
  | zero =>
    intro r r' sum l htaken hdone h
    by_cases hmore : r.sms.smc < ecMaxSm ∧ r.fmmuDone<(d.bits+7)/8
    · obtain ⟨n,hn,-,-⟩ := mapFmmus_step hmore h
      omega
    · exact hend htaken hmore h
  | succ n ih =>
    intro r r' sum l htaken hdone h
    by_cases hmore : r.sms.smc < ecMaxSm ∧ r.fmmuDone<(d.bits+7)/8
    · obtain ⟨n',hn,-,h'⟩ := mapFmmus_step hmore h
      obtain rfl : n=n' := by omega
      obtain ⟨x,rest,rfl,hnext⟩ := mapFmmu_taken base htaken
      have hsize := mapFmmu_done sm base hbytes hdone
      rw [hnext.bytes] at hsize
      obtain ⟨k,hk,hsum⟩ := ih hnext (by omega) h'
      refine ⟨k+1,hk.trans (Nat.add_right_comm _ _ _),?_⟩
      simp only [byteSums,List.sum_cons]
      omega
    · exact hend htaken hmore h

theorem mapFmmus_suffice (hbytes : d.bytes≠0) (hall : d.bytes=(d.bits+7)/8) {k : Nat} :
    ∀ {n : Nat} {r : MapRun} {sum : Nat} {l : List Sm},TakenFor sm d sum l r.sms →
    r.fmmuDone ≤ d.bytes → k ≤ n → r.fmmuc+k ≤ ecMaxFmmu →
    d.bytes ≤ r.fmmuDone+(byteSums d.bits k sum l).sum →
    ∃ r',mapFmmus sm d base n r=some r' ∧ r'.fmmuc ≤ r.fmmuc+k := by
  have hend : ∀ {n k : Nat} {r : MapRun},
      ¬(r.sms.smc < ecMaxSm ∧ r.fmmuDone<(d.bits+7)/8) →
      ∃ r',mapFmmus sm d base n r=some r' ∧ r'.fmmuc ≤ r.fmmuc+k := by
    intro n k r hstop
    refine ⟨r,?_,Nat.le_add_right _ _⟩
    cases n <;> rw [mapFmmus,if_neg hstop]
  induction k with
  | zero =>
    intro n r sum l htaken hdone hn hroom hsum
    rw [byteSums,List.sum_nil] at hsum
    exact hend (by omega)
  | succ k ih =>
    intro n r sum l htaken hdone hn hroom hsum
    by_cases hmore : r.sms.smc < ecMaxSm ∧ r.fmmuDone<(d.bits+7)/8
    · obtain ⟨n,rfl⟩ : ∃ m,n=m+1 := ⟨n-1,by omega⟩
      obtain ⟨x,rest,rfl,hnext⟩ := mapFmmu_taken base htaken
      have hsize := mapFmmu_done sm base hbytes hdone
      rw [hnext.bytes] at hsize
      simp only [byteSums,List.sum_cons] at hsum
      have hcount : (mapFmmu sm d base r).fmmuc=r.fmmuc+1 := rfl
      obtain ⟨r',hr',hle⟩ := ih hnext (by omega) (show k ≤ n by omega)
        (by rw [hcount]; omega) (by omega)
      refine ⟨r',?_,by omega⟩
      rw [mapFmmus,if_pos hmore,if_pos (by omega)]
      exact hr'
    · exact hend hmore

theorem mapFmmu_bits (sm : Nat → Sm) (base : Nat) (r : MapRun) (hbytes : d.bytes=0) (hbits : d.bits ≤ 7) :
    ¬((mapFmmu sm d base r).sms.smc < ecMaxSm ∧ (mapFmmu sm d base r).fmmuDone<(d.bits+7)/8) := by
  rintro ⟨-,hlt⟩
  simp only [mapFmmu,if_pos hbytes,Fmmu.activate_logLength] at hlt
  omega

end Need

section Fits

variable {sm : Nat → Sm} {d : Direction} {base n : Nat} {r : MapRun}

theorem mapFmmus_fitsIn {r' : MapRun} (hd : d.Sized) (hsms : r.sms=smsStart) (hdone : r.fmmuDone=0)
    (h : mapFmmus sm d base n r=some r') :
    ∃ k,r'.fmmuc=r.fmmuc+k ∧ FitsIn sm d.smType d.bits k := by
  have hsome := hd.some
  have hbytes := hd.bytes
  by_cases hsmall : d.bits ≤ 7
  · have hmore : r.sms.smc < ecMaxSm ∧ r.fmmuDone<(d.bits+7)/8 := by
      rw [hsms]
      exact ⟨by decide,by omega⟩
    obtain ⟨n',-,-,h'⟩ := mapFmmus_step hmore h
    obtain rfl := mapFmmus_stop (mapFmmu_bits sm base r (by rw [hbytes,if_neg (by omega)]) hsmall) h'
    refine ⟨1,rfl,?_⟩
    rw [FitsIn,if_pos hsmall]
    omega
  · rw [if_pos (by omega)] at hbytes
    have htaken : TakenFor sm d 0 (takenFrom sm d.smType 0) r.sms := hsms ▸ smsStart_taken sm d
    obtain ⟨k,hk,hsum⟩ := mapFmmus_needs (by omega) hbytes htaken (by omega) h
    refine ⟨k,hk,?_⟩
    rw [FitsIn,if_neg hsmall]
    omega

theorem FitsIn.mapFmmus (base : Nat) {k : Nat} (hfits : FitsIn sm d.smType d.bits k) (hd : d.Sized)
    (hsms : r.sms=smsStart) (hdone : r.fmmuDone=0) (hroom : r.fmmuc+k ≤ ecMaxFmmu) :
    ∃ r',Mapping.mapFmmus sm d base ecMaxFmmu r=some r' ∧ r'.fmmuc ≤ r.fmmuc+k := by
  have hsome := hd.some
  have hbytes := hd.bytes
  have hpos := hfits.pos (by omega)
  by_cases hsmall : d.bits ≤ 7
  · have hmore : r.sms.smc < ecMaxSm ∧ r.fmmuDone<(d.bits+7)/8 := by
      rw [hsms]
      exact ⟨by decide,by omega⟩
    have hstop := mapFmmu_bits sm base r
      (by rw [hbytes,if_neg (by omega)]) hsmall
    refine ⟨mapFmmu sm d base r,?_,Nat.add_le_add_left hpos _⟩
    rw [show ecMaxFmmu=3+1 from rfl,Mapping.mapFmmus,if_pos hmore,if_pos (by omega),
      Mapping.mapFmmus,if_neg hstop]
  · rw [if_pos (by omega)] at hbytes
    have htaken : TakenFor sm d 0 (takenFrom sm d.smType 0) r.sms := hsms ▸ smsStart_taken sm d
    rw [FitsIn,if_neg hsmall] at hfits
    exact mapFmmus_suffice (by omega) hbytes htaken (by omega) (by omega) hroom (by omega)

end Fits

end EtherCATMaster.Mapping
