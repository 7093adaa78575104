import EtherCATMaster.Mapping.SmRuns
import Mathlib.Data.List.Chain

namespace EtherCATMaster.Mapping

/-- The sync managers of one type among `n` of them from a place on. -/
def smsOf (sm : Nat → Sm) (smType : Nat) : Nat → Nat → List Sm
  | 0,_ => []
  | n+1,smc =>
      if (sm smc).smType=smType then sm smc::smsOf sm smType n (smc+1)
      else smsOf sm smType n (smc+1)

def smsFrom (sm : Nat → Sm) (smType smc : Nat) : List Sm := smsOf sm smType (ecMaxSm-smc) smc

/-- The sync managers at which the FMMUs begin. -/
def fmmuStarts (sm : Nat → Sm) (d : Direction) (logstartaddr : Nat) : Nat → MapRun → List Nat
  | 0,_ => []
  | n+1,r =>
      if r.sms.smc < ecMaxSm ∧ r.fmmuDone<(d.bits+7)/8 then
        skipSm sm d.smType ecMaxSm r.sms.smc::
          fmmuStarts sm d logstartaddr n (mapFmmu sm d logstartaddr r)
      else []

def fmmusFrom (fmmu : Nat → Fmmu) (lo n : Nat) : List Fmmu := (List.range' lo n).map fmmu

/-- The FMMUs of a direction cover the sync managers at which they begin. -/
structure Covers (sm : Nat → Sm) (d : Direction) (starts : List Nat) (fmmus : List Fmmu) : Prop where
  begins : fmmus.map Fmmu.physStart=starts.map fun i => (sm i).startAddr
  lengths : fmmus.map Fmmu.logLength=starts.map fun i => contiguousBytes (smsFrom sm d.smType i)
  adjacent : List.IsChain (fun f g => g.logStart=f.logStart+f.logLength) fmmus
  total : (fmmus.map Fmmu.logLength).sum=d.bytes

/-- A byte oriented direction whose sync managers have its bytes. -/
structure Direction.Packed (d : Direction) (sm : Nat → Sm) : Prop where
  some : d.bytes≠0
  bytes : d.bytes=(d.bits+7)/8
  short : d.bits < 2^16
  sms : smBytes (smsFrom sm d.smType 0)=d.bytes

section Scan

variable {sm : Nat → Sm} {d : Direction}

theorem smsFrom_cons {smType smc : Nat} (h : smc < ecMaxSm) : smsFrom sm smType smc=
    if (sm smc).smType=smType then sm smc::smsFrom sm smType (smc+1)
    else smsFrom sm smType (smc+1) := by
  rw [smsFrom,smsFrom,show ecMaxSm-smc=ecMaxSm-(smc+1)+1 by omega,smsOf]

theorem smsFrom_end {smType smc : Nat} (h : ecMaxSm ≤ smc) : smsFrom sm smType smc=[] := by
  rw [smsFrom,Nat.sub_eq_zero_of_le h]
  rfl

theorem skipSm_spec {smType : Nat} (n : Nat) : ∀ {smc : Nat},smc < ecMaxSm → ecMaxSm-1-smc ≤ n →
    smsFrom sm smType smc≠[] → skipSm sm smType n smc < ecMaxSm ∧
      smsFrom sm smType (skipSm sm smType n smc)=smsFrom sm smType smc ∧
      smsFrom sm smType smc=sm (skipSm sm smType n smc)::
        smsFrom sm smType (skipSm sm smType n smc+1) := by
  have hhere : ∀ {smc : Nat},smc < ecMaxSm → (sm smc).smType=smType →
      smc < ecMaxSm ∧ smsFrom sm smType smc=smsFrom sm smType smc ∧
        smsFrom sm smType smc=sm smc::smsFrom sm smType (smc+1) := by
    intro smc hlt htype
    refine ⟨hlt,rfl,?_⟩
    rw [smsFrom_cons hlt,if_pos htype]
  have hlast : ∀ {smc : Nat},smc < ecMaxSm → ¬smc < ecMaxSm-1 → smsFrom sm smType smc≠[] →
      (sm smc).smType=smType := by
    intro smc hlt hend hsome
    by_contra hother
    rw [smsFrom_cons hlt,if_neg hother,smsFrom_end (by omega)] at hsome
    exact hsome rfl
  induction n with
  | zero =>
    intro smc hlt hn hsome
    have htype := hlast hlt (show ¬smc < ecMaxSm-1 by omega) hsome
    exact hhere hlt htype
  | succ n ih =>
    intro smc hlt hn hsome
    rw [skipSm]
    by_cases hskip : smc < ecMaxSm-1 ∧ (sm smc).smType≠smType
    · rw [if_pos hskip]
      have hrest : smsFrom sm smType smc=smsFrom sm smType (smc+1) := by
        rw [smsFrom_cons hlt,if_neg hskip.2]
      rw [hrest] at hsome ⊢
      exact ih (by omega) (by omega) hsome
    · rw [if_neg hskip]
      by_cases htype : (sm smc).smType=smType
      · exact hhere hlt htype
      · exact hhere hlt (hlast hlt (fun hlt' => hskip ⟨hlt',htype⟩) hsome)

theorem le_skipSm (smType : Nat) (n : Nat) : ∀ smc,smc ≤ skipSm sm smType n smc := by
  induction n with
  | zero => exact fun smc => le_rfl
  | succ n ih =>
    intro smc
    rw [skipSm]
    split_ifs
    · exact Nat.le_of_succ_le (ih (smc+1))
    · exact le_rfl

/-- What is known of the sync managers gathered so far: `x` is the last one, and `rest` are those
of the type behind it. -/
structure Gathering (sm : Nat → Sm) (d : Direction) (x : Sm) (rest : List Sm) (r : SmRun) :
    Prop where
  place : r.smc < ecMaxSm
  behind : smsFrom sm d.smType (r.smc+1)=rest
  sum : r.byteCount.toNat+smBytes rest=d.bytes
  bits : r.bitCount=r.byteCount.toNat*8
  stop : r.endAddr=x.startAddr+x.smLength

theorem Direction.Packed.bits_lt (h : d.Packed sm) {n : Nat} (hn : n ≤ d.bytes) :
    n*8 < d.bits ↔ n < d.bytes := by
  have hsome := h.some
  have hbytes := h.bytes
  omega

theorem Direction.Packed.bytes_lt (h : d.Packed sm) : d.bytes < 2^14 := by
  have hbytes := h.bytes
  have hshort := h.short
  omega

theorem SmRun.take_gathering (hd : d.Packed sm) {r : SmRun} {p : Nat} (hp : p < ecMaxSm)
    (hsum : r.byteCount.toNat+smBytes (sm p::smsFrom sm d.smType (p+1))=d.bytes)
    (hbits : r.bitCount=r.byteCount.toNat*8) :
    Gathering sm d (sm p) (smsFrom sm d.smType (p+1)) (r.take sm p) ∧
      (r.take sm p).byteCount.toNat=r.byteCount.toNat+(sm p).smLength.toNat := by
  have hlt := hd.bytes_lt
  rw [smBytes_cons] at hsum
  have hadd : (r.byteCount+(sm p).smLength).toNat=r.byteCount.toNat+(sm p).smLength.toNat := by
    rw [UInt16.toNat_add,Nat.mod_eq_of_lt (by omega)]
  refine ⟨⟨hp,rfl,?_,?_,rfl⟩,hadd⟩
  · simp only [SmRun.take,hadd]
    omega
  · simp only [SmRun.take,hadd,hbits]
    omega

/-- The sync managers are gathered as long as they connect. -/
theorem gatherSm_spec (hd : d.Packed sm) (n : Nat) : ∀ {r : SmRun} {x : Sm} {rest : List Sm},
    Gathering sm d x rest r → ecMaxSm-1-r.smc ≤ n →
    (gatherSm sm d n r).smc < ecMaxSm ∧
      (gatherSm sm d n r).byteCount.toNat=r.byteCount.toNat+smBytes (runOf x rest).1 ∧
      (gatherSm sm d n r).bitCount=(gatherSm sm d n r).byteCount.toNat*8 ∧
      ((gatherSm sm d n r).byteCount.toNat < d.bytes →
        smsFrom sm d.smType (gatherSm sm d n r).smc=(runOf x rest).2) := by
  have hend : ∀ {r : SmRun} {x : Sm} {rest : List Sm},Gathering sm d x rest r →
      ¬(r.bitCount<d.bits ∧ r.smc < ecMaxSm-1) →
      r.smc < ecMaxSm ∧ r.byteCount.toNat=r.byteCount.toNat+smBytes (runOf x rest).1 ∧
        r.bitCount=r.byteCount.toNat*8 ∧
        (r.byteCount.toNat < d.bytes → smsFrom sm d.smType r.smc=(runOf x rest).2) := by
    intro r x rest h hstop
    have hsum := h.sum
    have hplace := h.place
    have hrun := runOf_bytes rest x
    have hall : r.byteCount.toNat=d.bytes := by
      by_cases hlast : r.smc < ecMaxSm-1
      · have hbits := hd.bits_lt (n := r.byteCount.toNat) (by omega)
        rw [← h.bits] at hbits
        have hnot : ¬r.byteCount.toNat < d.bytes := fun hlt => hstop ⟨hbits.mpr hlt,hlast⟩
        omega
      · have hrest := h.behind
        rw [smsFrom_end (by omega)] at hrest
        rw [← hrest,smBytes_nil] at hsum
        exact hsum
    exact ⟨h.place,by omega,h.bits,fun hlt => by omega⟩
  induction n with
  | zero =>
    intro r x rest h hn
    have hstop : ¬(r.bitCount<d.bits ∧ r.smc < ecMaxSm-1) := by omega
    exact hend h hstop
  | succ n ih =>
    intro r x rest h hn
    rw [gatherSm]
    by_cases hmore : r.bitCount<d.bits ∧ r.smc < ecMaxSm-1
    · rw [if_pos hmore]
      have hsum := h.sum
      have hplace := h.place
      have hbits := hd.bits_lt (n := r.byteCount.toNat) (by omega)
      rw [← h.bits] at hbits
      have hleft := hbits.mp hmore.1
      have hsome : smsFrom sm d.smType (r.smc+1)≠[] := by
        rw [h.behind]
        rintro rfl
        rw [smBytes_nil] at hsum
        omega
      obtain ⟨hp,hsame,hnext⟩ := skipSm_spec ecMaxSm (show r.smc+1 < ecMaxSm by omega) (by omega)
        hsome
      have hskip : r.smc+1 ≤ skipSm sm d.smType ecMaxSm (r.smc+1) :=
        le_skipSm d.smType ecMaxSm (r.smc+1)
      generalize skipSm sm d.smType ecMaxSm (r.smc+1)=p at hp hsame hnext hskip ⊢
      rw [h.behind] at hnext hsame
      rw [hnext,runOf]
      by_cases hgap : (sm p).startAddr>r.endAddr
      · have happart : ¬x.Connects (sm p) := fun hc => hc (h.stop ▸ hgap)
        simp only [if_pos hgap,if_neg happart]
        refine ⟨hp,by rw [smBytes_nil,Nat.add_zero],h.bits,fun _ => ?_⟩
        rw [hsame,hnext]
      · have hconnects : x.Connects (sm p) := fun hc => hgap (h.stop ▸ hc)
        rw [hnext] at hsum
        obtain ⟨htaken,hcount⟩ := SmRun.take_gathering hd hp hsum h.bits
        simp only [if_neg hgap,if_pos hconnects]
        obtain ⟨hlt,hbytes,hbits',hlater⟩ := ih htaken (by
          change ecMaxSm-1-p ≤ n
          omega)
        refine ⟨hlt,?_,hbits',hlater⟩
        rw [hbytes,hcount,smBytes_cons,Nat.add_assoc]
    · rw [if_neg hmore]
      exact hend h hmore

end Scan

section Plan

variable {sm : Nat → Sm} {d : Direction} {base : Nat}

/-- One FMMU of a byte oriented direction. -/
structure FmmuStep (sm : Nat → Sm) (d : Direction) (r r' : MapRun) : Prop where
  logAddr : r'.logAddr=r.logAddr+byteSize sm d r
  bitPos : r'.bitPos=0
  fmmuc : r'.fmmuc=r.fmmuc+1
  fmmuDone : r'.fmmuDone=r.fmmuDone+byteSize sm d r
  sms : r'.sms=gatherSm sm d ecMaxSm (r.sms.take sm (skipSm sm d.smType ecMaxSm r.sms.smc))
  kept : ∀ i,i≠r.fmmuc → r'.fmmu i=r.fmmu i
  physStart : (r'.fmmu r.fmmuc).physStart=(sm (skipSm sm d.smType ecMaxSm r.sms.smc)).startAddr
  logStart : (r'.fmmu r.fmmuc).logStart=r.logAddr
  logLength : (r'.fmmu r.fmmuc).logLength=byteSize sm d r

theorem Fmmu.activate_kept (f : Fmmu) (fmmuType : Nat) :
    (f.activate fmmuType).physStart=f.physStart ∧ (f.activate fmmuType).logStart=f.logStart := by
  rw [Fmmu.activate]
  split_ifs <;> exact ⟨rfl,rfl⟩

theorem mapFmmu_step {r : MapRun} (hbytes : d.bytes≠0) (hpos : r.bitPos=0) :
    FmmuStep sm d r (mapFmmu sm d base r) := by
  have hpos' : ¬r.bitPos≠0 := fun h => h hpos
  constructor
  · simp only [mapFmmu,if_neg hbytes,if_neg hpos']
    rfl
  · simp only [mapFmmu,if_neg hbytes]
  · rfl
  · simp only [mapFmmu,if_neg hbytes,Fmmu.activate_logLength]
    rfl
  · rfl
  · intro i hi
    simp only [mapFmmu,Function.update_of_ne hi]
  · simp only [mapFmmu,Function.update_self,(Fmmu.activate_kept _ _).1,if_neg hbytes]
  · simp only [mapFmmu,Function.update_self,(Fmmu.activate_kept _ _).2,if_neg hbytes,if_neg hpos']
  · simp only [mapFmmu,Function.update_self,Fmmu.activate_logLength,if_neg hbytes]
    rfl

/-- Where the mapping of a direction stands: the sync managers `l` are still to come. -/
structure Standing (sm : Nat → Sm) (d : Direction) (l : List Sm) (r : MapRun) : Prop where
  place : r.sms.smc < ecMaxSm
  sum : r.sms.byteCount.toNat+smBytes l=d.bytes
  bits : r.sms.bitCount=r.sms.byteCount.toNat*8
  bitPos : r.bitPos=0
  done : r.fmmuDone ≤ d.bytes
  more : r.fmmuDone < d.bytes → r.sms.byteCount.toNat < d.bytes ∧
    smsFrom sm d.smType r.sms.smc=l

/-- The FMMUs that were added are those of the plan. -/
structure Laid (sm : Nat → Sm) (d : Direction) (r r' : MapRun) (starts : List Nat)
    (plan : List (List Sm × Nat)) : Prop where
  fmmuc : r'.fmmuc=r.fmmuc+plan.length
  kept : ∀ i < r.fmmuc,r'.fmmu i=r.fmmu i
  runs : (starts.map fun i => contiguousBytes (smsFrom sm d.smType i))=
    plan.map fun p => contiguousBytes p.1
  begins : (fmmusFrom r'.fmmu r.fmmuc plan.length).map Fmmu.physStart=
    starts.map fun i => (sm i).startAddr
  lengths : (fmmusFrom r'.fmmu r.fmmuc plan.length).map Fmmu.logLength=plan.map Prod.snd
  first : ∀ f ∈ (fmmusFrom r'.fmmu r.fmmuc plan.length).head?,f.logStart=r.logAddr
  adjacent : List.IsChain (fun f g => g.logStart=f.logStart+f.logLength)
    (fmmusFrom r'.fmmu r.fmmuc plan.length)

theorem fmmusFrom_succ (fmmu : Nat → Fmmu) (lo n : Nat) :
    fmmusFrom fmmu lo (n+1)=fmmu lo::fmmusFrom fmmu (lo+1) n := by
  rw [fmmusFrom,List.range'_succ,List.map_cons]
  rfl

theorem Laid.nil (r : MapRun) : Laid sm d r r [] [] :=
  ⟨rfl,fun _ _ => rfl,rfl,rfl,rfl,fun _ hf => (nomatch hf),List.IsChain.nil⟩

theorem Laid.cons {r r1 r' : MapRun} {starts : List Nat} {plan : List (List Sm × Nat)}
    {run : List Sm} (hstep : FmmuStep sm d r r1) (h : Laid sm d r1 r' starts plan)
    (hrun : contiguousBytes (smsFrom sm d.smType (skipSm sm d.smType ecMaxSm r.sms.smc))=
      contiguousBytes run) :
    Laid sm d r r' (skipSm sm d.smType ecMaxSm r.sms.smc::starts)
      ((run,byteSize sm d r)::plan) := by
  have hfirst : r'.fmmu r.fmmuc=r1.fmmu r.fmmuc := h.kept r.fmmuc (by rw [hstep.fmmuc]; omega)
  have hlist : fmmusFrom r'.fmmu r.fmmuc ((run,byteSize sm d r)::plan).length=
      r1.fmmu r.fmmuc::fmmusFrom r'.fmmu r1.fmmuc plan.length := by
    rw [List.length_cons,fmmusFrom_succ,hfirst,hstep.fmmuc]
  constructor
  · rw [h.fmmuc,hstep.fmmuc,List.length_cons]
    omega
  · intro i hi
    rw [h.kept i (by rw [hstep.fmmuc]; omega),hstep.kept i (by omega)]
  · rw [List.map_cons,List.map_cons,h.runs,hrun]
  · rw [hlist,List.map_cons,List.map_cons,h.begins,hstep.physStart]
  · rw [hlist,List.map_cons,List.map_cons,h.lengths,hstep.logLength]
  · rw [hlist]
    intro f hf
    cases hf
    exact hstep.logStart
  · rw [hlist]
    refine List.IsChain.cons h.adjacent fun g hg => ?_
    rw [h.first g hg,hstep.logAddr,hstep.logStart,hstep.logLength]

/-- The next FMMU is for the group of sync managers that come next. -/
theorem Standing.next (base : Nat) (hd : d.Packed sm) {r : MapRun} {l : List Sm} (h : Standing sm d l r)
    (hmore : r.fmmuDone < d.bytes) : ∃ x rest,l=x::rest ∧
      contiguousBytes (smsFrom sm d.smType (skipSm sm d.smType ecMaxSm r.sms.smc))=
        contiguousBytes (x::(runOf x rest).1) ∧
      byteSize sm d r=(if r.sms.byteCount.toNat+smBytes (x::(runOf x rest).1)+r.fmmuDone>d.bytes then
        d.bytes-r.fmmuDone else r.sms.byteCount.toNat+smBytes (x::(runOf x rest).1)) ∧
      Standing sm d (runOf x rest).2 (mapFmmu sm d base r) ∧
      (mapFmmu sm d base r).sms.byteCount.toNat=
        r.sms.byteCount.toNat+smBytes (x::(runOf x rest).1) := by
  obtain ⟨hopen,hl⟩ := h.more hmore
  have hsum := h.sum
  have hsome : smsFrom sm d.smType r.sms.smc≠[] := by
    rw [hl]
    rintro rfl
    rw [smBytes_nil] at hsum
    omega
  obtain ⟨hp,hsame,hnext⟩ := skipSm_spec ecMaxSm h.place (by omega) hsome
  have hstep : FmmuStep sm d r (mapFmmu sm d base r) := mapFmmu_step hd.some h.bitPos
  have hsms := hstep.sms
  have hsize : byteSize sm d r=
      (if (gatherSm sm d ecMaxSm (r.sms.take sm (skipSm sm d.smType ecMaxSm
        r.sms.smc))).byteCount.toNat+r.fmmuDone>d.bytes then d.bytes-r.fmmuDone
      else (gatherSm sm d ecMaxSm (r.sms.take sm (skipSm sm d.smType ecMaxSm
        r.sms.smc))).byteCount.toNat) := rfl
  generalize skipSm sm d.smType ecMaxSm r.sms.smc=p at hp hsame hnext hsms hsize ⊢
  rw [← hl,hnext] at hsum
  obtain ⟨htaken,hcount⟩ := SmRun.take_gathering hd hp hsum h.bits
  obtain ⟨hlt,hbytes,hbits,hlater⟩ := gatherSm_spec hd ecMaxSm htaken (by omega)
  have hbehind := runOf_bytes (smsFrom sm d.smType (p+1)) (sm p)
  have hall : (gatherSm sm d ecMaxSm (r.sms.take sm p)).byteCount.toNat=r.sms.byteCount.toNat+
      smBytes (sm p::(runOf (sm p) (smsFrom sm d.smType (p+1))).1) := by
    rw [hbytes,hcount,smBytes_cons,Nat.add_assoc]
  refine ⟨sm p,smsFrom sm d.smType (p+1),hl.symm.trans hnext,?_,?_,?_,?_⟩
  · rw [hsame,hnext,contiguousBytes_runOf]
  · rw [hsize,hall]
  · rw [smBytes_cons] at hsum
    rw [smBytes_cons] at hall
    refine ⟨hsms ▸ hlt,?_,hsms ▸ hbits,hstep.bitPos,?_,fun hleft => ?_⟩
    · rw [hsms]
      omega
    · rw [hstep.fmmuDone,hsize]
      split_ifs <;> omega
    · rw [hstep.fmmuDone,hsize] at hleft
      have hopen' : (gatherSm sm d ecMaxSm (r.sms.take sm p)).byteCount.toNat < d.bytes := by
        split_ifs at hleft <;> omega
      rw [hsms]
      exact ⟨hopen',hlater hopen'⟩
  · rw [hsms,hall]

theorem mapFmmus_laid (base : Nat) (hd : d.Packed sm) (n : Nat) : ∀ {r : MapRun} {l : List Sm},
    Standing sm d l r → (smRuns l).length ≤ n → r.fmmuc+(smRuns l).length ≤ ecMaxFmmu →
    ∃ r',mapFmmus sm d base n r=some r' ∧ Laid sm d r r' (fmmuStarts sm d base n r)
      (fmmuPlan d.bytes (smRuns l) r.sms.byteCount.toNat r.fmmuDone) := by
  have hstop : ∀ {n : Nat} {r : MapRun} {l : List Sm},¬r.fmmuDone < d.bytes →
      ∃ r',mapFmmus sm d base n r=some r' ∧ Laid sm d r r' (fmmuStarts sm d base n r)
        (fmmuPlan d.bytes (smRuns l) r.sms.byteCount.toNat r.fmmuDone) := by
    intro n r l hdone
    have hnot : ¬(r.sms.smc < ecMaxSm ∧ r.fmmuDone<(d.bits+7)/8) := by
      rw [← hd.bytes]
      exact fun hc => hdone hc.2
    rw [fmmuPlan_done _ _ hdone]
    cases n with
    | zero => exact ⟨r,by rw [mapFmmus,if_neg hnot],Laid.nil r⟩
    | succ n =>
      refine ⟨r,by rw [mapFmmus,if_neg hnot],?_⟩
      rw [fmmuStarts,if_neg hnot]
      exact Laid.nil r
  induction n with
  | zero =>
    intro r l h hlength _
    refine hstop fun hmore => ?_
    obtain ⟨x,rest,rfl,-⟩ := h.next base hd hmore
    rw [smRuns_cons] at hlength
    exact absurd hlength (Nat.not_succ_le_zero _)
  | succ n ih =>
    intro r l h hlength hroom
    by_cases hmore : r.fmmuDone < d.bytes
    · obtain ⟨x,rest,rfl,hrun,hsize,hnext,hcount⟩ := h.next base hd hmore
      have hgo : r.sms.smc < ecMaxSm ∧ r.fmmuDone<(d.bits+7)/8 := ⟨h.place,hd.bytes ▸ hmore⟩
      rw [smRuns_cons,List.length_cons] at hlength hroom
      have hstep : FmmuStep sm d r (mapFmmu sm d base r) := mapFmmu_step hd.some h.bitPos
      obtain ⟨r',hr',hlaid⟩ := ih hnext (by omega) (by rw [hstep.fmmuc]; omega)
      rw [hcount,hstep.fmmuDone] at hlaid
      refine ⟨r',by rw [mapFmmus,if_pos hgo,if_pos (by omega)]; exact hr',?_⟩
      rw [smRuns_cons,fmmuPlan,if_pos hmore,fmmuStarts,if_pos hgo]
      simp only [← hsize]
      exact Laid.cons hstep hlaid hrun
    · exact hstop hmore

theorem Laid.covers_iff (hd : d.Packed sm) {r r' : MapRun} {starts : List Nat} {l : List Sm}
    (hl : smsFrom sm d.smType 0=l) (h : Laid sm d r r' starts (fmmuPlan d.bytes (smRuns l) 0 0)) :
    Covers sm d starts (fmmusFrom r'.fmmu r.fmmuc (r'.fmmuc-r.fmmuc)) ↔
      TwoRuns d.bytes (smRuns l) := by
  have hsum : ((smRuns l).map smBytes).sum=d.bytes := by
    rw [smRuns_bytes,← hl]
    exact hd.sms
  have hpos : 0 < d.bytes := Nat.pos_of_ne_zero hd.some
  rw [h.fmmuc,Nat.add_sub_cancel_left,← fmmuPlan_iff hpos _ hsum]
  constructor
  · intro hcovers p hp
    have hmaps := hcovers.lengths
    rw [h.lengths,h.runs] at hmaps
    exact List.map_inj_left.mp hmaps p hp
  · intro hall
    refine ⟨h.begins,?_,h.adjacent,?_⟩
    · rw [h.lengths,h.runs]
      exact List.map_inj_left.mpr hall
    · rw [h.lengths,fmmuPlan_sum _ (Nat.zero_le _) (by rw [hsum]; omega) fun hnil => ?_,Nat.sub_zero]
      rw [hnil] at hsum
      exact hsum

/-- The mapping of one direction, from its beginning on. -/
theorem mapFmmus_covers_iff (base : Nat) (hd : d.Packed sm) {r : MapRun} (hsms : r.sms=smsStart)
    (hdone : r.fmmuDone=0)
    (hroom : r.fmmuc+(smRuns (smsFrom sm d.smType 0)).length ≤ ecMaxFmmu) :
    ∃ r',mapFmmus sm d base ecMaxFmmu r=some r' ∧
      (Covers sm d (fmmuStarts sm d base ecMaxFmmu r)
        (fmmusFrom r'.fmmu r.fmmuc (r'.fmmuc-r.fmmuc)) ↔
          TwoRuns d.bytes (smRuns (smsFrom sm d.smType 0))) := by
  -- the first FMMU begins with the next whole byte
  let r0 : MapRun := { r with
    logAddr := if r.bitPos≠0 then r.logAddr+1 else r.logAddr, bitPos := 0 }
  have hfirst : mapFmmu sm d base r=mapFmmu sm d base r0 := mapFmmu_align hd.some
  have hsmc : r.sms.smc < ecMaxSm := by
    rw [hsms]
    decide
  have hmore : r.sms.smc < ecMaxSm ∧ r.fmmuDone<(d.bits+7)/8 := by
    rw [hdone,← hd.bytes]
    exact ⟨hsmc,Nat.pos_of_ne_zero hd.some⟩
  have hmore0 : r0.sms.smc < ecMaxSm ∧ r0.fmmuDone<(d.bits+7)/8 := hmore
  have hrun : ∀ n,mapFmmus sm d base (n+1) r=mapFmmus sm d base (n+1) r0 := by
    intro n
    rw [mapFmmus,mapFmmus,if_pos hmore,if_pos hmore0,hfirst]
  have hstarts : ∀ n,fmmuStarts sm d base (n+1) r=fmmuStarts sm d base (n+1) r0 := by
    intro n
    rw [fmmuStarts,fmmuStarts,if_pos hmore,if_pos hmore0,hfirst]
  have hstanding : Standing sm d (smsFrom sm d.smType 0) r0 := by
    have hpos : 0 < d.bytes := Nat.pos_of_ne_zero hd.some
    refine ⟨?_,?_,?_,rfl,?_,fun _ => ⟨?_,?_⟩⟩
    · exact hsmc
    · change r.sms.byteCount.toNat+_=_
      rw [hsms,hd.sms]
      exact Nat.zero_add _
    · change r.sms.bitCount=r.sms.byteCount.toNat*8
      rw [hsms]
      rfl
    · change r.fmmuDone ≤ d.bytes
      omega
    · change r.sms.byteCount.toNat < d.bytes
      rw [hsms]
      exact hpos
    · change smsFrom sm d.smType r.sms.smc=_
      rw [hsms]
      rfl
  obtain ⟨r',hr',hlaid⟩ := mapFmmus_laid base hd ecMaxFmmu hstanding (by omega) hroom
  have hcount : r0.sms.byteCount.toNat=0 := by
    change r.sms.byteCount.toNat=0
    rw [hsms]
    rfl
  rw [hcount,show r0.fmmuDone=0 from hdone] at hlaid
  have hiff := hlaid.covers_iff hd rfl
  refine ⟨r',(hrun 3).trans hr',?_⟩
  rw [show fmmuStarts sm d base ecMaxFmmu r=fmmuStarts sm d base ecMaxFmmu r0 from hstarts 3]
  exact hiff

end Plan

section Slave

/-- The mapping functions at their beginning. -/
def Slave.outputRun (s : Slave) (logAddr bitPos : Nat) : MapRun :=
  ⟨logAddr,bitPos,s.fmmuUnused,0,smsStart,s.fmmu,s.outputs,s.ostartbit⟩

def Slave.inputRun (s : Slave) (fmmuc logAddr bitPos : Nat) : MapRun :=
  ⟨logAddr,bitPos,fmmuc,0,smsStart,s.fmmu,s.inputs,s.istartbit⟩

/-- The first FMMU for the inputs. -/
def Slave.inputFmmu (s : Slave) : Option Nat :=
  if s.obits≠0 then freeFmmu s.fmmu (ecMaxFmmu+1) s.fmmuUnused else some s.fmmuUnused

def Slave.outputRuns (s : Slave) : List (List Sm) :=
  smRuns (smsFrom s.sm s.outputDirection.smType 0)

def Slave.inputRuns (s : Slave) : List (List Sm) :=
  smRuns (smsFrom s.sm s.inputDirection.smType 0)

/-- The FMMUs cover the sync managers at which they begin exactly if these lie in two contiguous
runs. -/
theorem mappings_cover_iff (group logstartaddr logAddr bitPos : Nat) (s : Slave) :
    (s.outputDirection.Packed s.sm → s.fmmuUnused+s.outputRuns.length ≤ ecMaxFmmu →
      ∃ s' stop,createOutputMappings group logstartaddr s logAddr bitPos=some (s',stop) ∧
        (Covers s.sm s.outputDirection (fmmuStarts s.sm s.outputDirection
            (pointerBase group logstartaddr) ecMaxFmmu (s.outputRun logAddr bitPos))
          (fmmusFrom s'.fmmu s.fmmuUnused (s'.fmmuUnused-s.fmmuUnused)) ↔
            TwoRuns s.outputDirection.bytes s.outputRuns)) ∧
    ∀ fmmuc,s.inputFmmu=some fmmuc → s.inputDirection.Packed s.sm →
      fmmuc+s.inputRuns.length ≤ ecMaxFmmu →
      ∃ s' stop,createInputMappings group logstartaddr s logAddr bitPos=some (s',stop) ∧
        (Covers s.sm s.inputDirection (fmmuStarts s.sm s.inputDirection
            (pointerBase group logstartaddr) ecMaxFmmu (s.inputRun fmmuc logAddr bitPos))
          (fmmusFrom s'.fmmu fmmuc (s'.fmmuUnused-fmmuc)) ↔
            TwoRuns s.inputDirection.bytes s.inputRuns) := by
  constructor
  · intro hd hroom
    obtain ⟨r',hr',hcovers⟩ := mapFmmus_covers_iff (pointerBase group logstartaddr) hd
      (r := s.outputRun logAddr bitPos) rfl rfl hroom
    refine ⟨{ s with fmmu := r'.fmmu, fmmuUnused := r'.fmmuc, outputs := r'.pointer,
                     ostartbit := r'.startbit },(r'.logAddr,r'.bitPos),?_,hcovers⟩
    rw [createOutputMappings]
    exact congrArg (· >>= _) hr'
  · intro fmmuc hfmmuc hd hroom
    obtain ⟨r',hr',hcovers⟩ := mapFmmus_covers_iff (pointerBase group logstartaddr) hd
      (r := s.inputRun fmmuc logAddr bitPos) rfl rfl hroom
    refine ⟨{ s with fmmu := r'.fmmu, fmmuUnused := r'.fmmuc, inputs := r'.pointer,
                     istartbit := r'.startbit },(r'.logAddr,r'.bitPos),?_,hcovers⟩
    rw [createInputMappings]
    rw [Slave.inputFmmu] at hfmmuc
    by_cases houtputs : s.obits≠0
    · rw [if_pos houtputs] at hfmmuc ⊢
      exact (congrArg (· >>= _) hfmmuc).trans (congrArg (· >>= _) hr')
    · rw [if_neg houtputs] at hfmmuc ⊢
      cases hfmmuc
      exact congrArg (· >>= _) hr'

def smSlave (sms : List Sm) (obits ibits : UInt16) : Slave :=
  ⟨0,0,obits,ibits,0,0,fun i => sms.getD i ⟨0,0,0⟩,fun _ => Fmmu.zero,0,.null 0,0,.null 0,0,
    .null 0,false⟩

/-- Outputs of two and three bytes in two places, and two sync managers for the inputs that follow
on each other. -/
def twoRunsSlave : Slave :=
  smSlave [⟨0x1000,128,1⟩,⟨0x1080,128,2⟩,⟨0x1100,2,3⟩,⟨0x1200,3,3⟩,⟨0x1400,2,4⟩,⟨0x1402,2,4⟩] 40 32

def twoRunsMapped : Slave := mapSm twoRunsSlave

theorem two_runs_covered :
    (∃ s' stop,createOutputMappings 0 0 twoRunsMapped 0 0=some (s',stop) ∧
      Covers twoRunsMapped.sm twoRunsMapped.outputDirection (fmmuStarts twoRunsMapped.sm
          twoRunsMapped.outputDirection (pointerBase 0 0) ecMaxFmmu (twoRunsMapped.outputRun 0 0))
        (fmmusFrom s'.fmmu 0 (s'.fmmuUnused-0))) ∧
    ∃ s' stop,createInputMappings 0 0 twoRunsMapped 5 0=some (s',stop) ∧
      Covers twoRunsMapped.sm twoRunsMapped.inputDirection (fmmuStarts twoRunsMapped.sm
          twoRunsMapped.inputDirection (pointerBase 0 0) ecMaxFmmu (twoRunsMapped.inputRun 0 5 0))
        (fmmusFrom s'.fmmu 0 (s'.fmmuUnused-0)) := by
  constructor
  · obtain ⟨s',stop,hs',hcovers⟩ := (mappings_cover_iff 0 0 0 0 twoRunsMapped).1
      ⟨by decide,by decide,by decide,by decide⟩ (by decide)
    exact ⟨s',stop,hs',hcovers.mpr (by decide)⟩
  · obtain ⟨s',stop,hs',hcovers⟩ := (mappings_cover_iff 0 0 5 0 twoRunsMapped).2 0 (by decide)
      ⟨by decide,by decide,by decide,by decide⟩ (by decide)
    exact ⟨s',stop,hs',hcovers.mpr (by decide)⟩

/-- Outputs in three places. -/
def threeRunsSlave : Slave :=
  mapSm (smSlave [⟨0x1000,128,1⟩,⟨0x1080,128,2⟩,⟨0x1100,2,3⟩,⟨0x1200,3,3⟩,⟨0x1300,4,3⟩] 72 0)

/-- The second FMMU takes the bytes of the first one again, and the third one is short of them. -/
theorem third_run_not_covered :
    (createOutputMappings 0 0 threeRunsSlave 0 0).map
        (fun r => (fmmusFrom r.1.fmmu 0 r.1.fmmuUnused).map Fmmu.logLength)=some [2,5,2] ∧
      ¬∀ group logstartaddr logAddr bitPos (s : Slave),s.outputDirection.Packed s.sm →
        s.fmmuUnused+s.outputRuns.length ≤ ecMaxFmmu →
        ∃ s' stop,createOutputMappings group logstartaddr s logAddr bitPos=some (s',stop) ∧
          Covers s.sm s.outputDirection (fmmuStarts s.sm s.outputDirection
              (pointerBase group logstartaddr) ecMaxFmmu (s.outputRun logAddr bitPos))
            (fmmusFrom s'.fmmu s.fmmuUnused (s'.fmmuUnused-s.fmmuUnused)) := by
  have hlengths : (createOutputMappings 0 0 threeRunsSlave 0 0).map
      (fun r => (fmmusFrom r.1.fmmu 0 r.1.fmmuUnused).map Fmmu.logLength)=some [2,5,2] := by decide
  refine ⟨hlengths,fun hall => ?_⟩
  obtain ⟨s',stop,hs',hcovers⟩ := hall 0 0 0 0 threeRunsSlave
    ⟨by decide,by decide,by decide,by decide⟩ (by decide)
  rw [hs',Option.map_some,Option.some.injEq] at hlengths
  have hsame := hcovers.lengths
  rw [show s'.fmmuUnused-threeRunsSlave.fmmuUnused=s'.fmmuUnused from rfl,
    show threeRunsSlave.fmmuUnused=0 from rfl,hlengths] at hsame
  exact absurd hsame (by decide)

end Slave

end EtherCATMaster.Mapping
