import EtherCATMaster.Config.Recognise

namespace EtherCATMaster.Config

open EtherCATMaster.Framework EtherCATMaster.Sii
open EtherCATMaster.Mapping (readBytes)

/-- Every slave that has an address is in its place, and is the one that was configured there. -/
structure Recognised (slavelist : UInt16 → ConfiguredSlave) (slavecount : Nat) (g : Segment) :
    Prop where
  connected : g.connected<2^16
  known : ∀ place,(g.stations place).stadr=0 ∧ (g.stations place).pdi=false ∨
    Configured slavelist slavecount place (g.stations place).stadr ∧
      SameSlave (g.stations place) (slavelist (UInt16.ofNat place))

/-- A slave at `EC_TEMPNODE` that can be asked who it is. -/
structure Asked (s s' : Station) : Prop where
  alike : Alike s s'
  stadr : s'.stadr=ecTempnode
  pdi : s'.pdi=false

section Registers

variable {s s' s'' : Station}

theorem Alike.trans (h : Alike s s') (h' : Alike s' s'') : Alike s s'' :=
  ⟨h'.aliasadr.trans h.aliasadr,h'.fixed.trans h.fixed⟩

theorem Alike.sii (h : Alike s s') (eeproma : UInt16) : s'.sii eeproma=s.sii eeproma := by
  have hrom : s'.eeprom=s.eeprom := congrArg Prod.fst h.fixed
  rw [Station.sii,Station.sii,hrom]

theorem Alike.sameSlave (h : Alike s s') (c : ConfiguredSlave) :
    SameSlave s' c ↔ SameSlave s c := by
  constructor
  · intro hc
    exact ⟨h.aliasadr.symm.trans hc.aliasadr,(h.sii _).symm.trans hc.eepId,
      (h.sii _).symm.trans hc.eepMan,(h.sii _).symm.trans hc.eepRev⟩
  · intro hc
    exact ⟨h.aliasadr.trans hc.aliasadr,(h.sii _).trans hc.eepId,(h.sii _).trans hc.eepMan,
      (h.sii _).trans hc.eepRev⟩

theorem write_address (s : Station) (adr : UInt16) :
    Alike s (s.write ectRegStadr (le16 adr)) ∧
      (s.write ectRegStadr (le16 adr)).pdi=s.pdi := by
  have hstadr : ectRegStadr.toNat=0x10 := rfl
  have halias : ectRegAlias.toNat=0x12 := rfl
  have hdat : ectRegEepdat.toNat=0x508 := rfl
  have hcfg : ectRegEepcfg.toNat=0x500 := rfl
  have hlen := le16_length adr
  refine ⟨⟨Station.word_congr fun i hi => s.write_outside (by omega) (by omega),s.write_fixed _ _⟩,?_⟩
  rw [Station.pdi,Station.pdi,s.write_outside (by omega) (by omega)]

theorem write_eepcfg (s : Station) (b : UInt8) : Alike s (s.write ectRegEepcfg [b]) ∧
    (s.write ectRegEepcfg [b]).stadr=s.stadr ∧
      (s.write ectRegEepcfg [b]).pdi=decide (b &&& 1≠0) := by
  have halias : ectRegAlias.toNat=0x12 := rfl
  have hcfg : ectRegEepcfg.toNat=0x500 := rfl
  have hdat : ectRegEepdat.toNat=0x508 := rfl
  refine ⟨⟨Station.word_congr fun i hi => s.write_outside (by omega) (by omega),s.write_fixed _ _⟩,
    s.write_stadr (by decide),?_⟩
  have hplain : ¬ectRegEepcfg=ectRegEepctl := by decide
  rw [Station.pdi,Station.write,if_neg hplain]
  rfl

theorem read_word (s : Station) {ado : UInt16} (h : ado≠ectRegEepstat) :
    get16 (s.read ado 2) 0=s.word ado := by
  rw [Station.read,if_neg h]
  rfl

end Registers

section Asking

variable {g : Segment} {place : Nat} (fuel : Nat) {s : Station} {st : SiiState Segment}
  (slavelist : UInt16 → ConfiguredSlave) (slave : UInt16)

theorem Alone.eeprom2master (h : Alone g place) (hs : s.stadr=ecTempnode) (hpdi : s.pdi=false)
    (henv : st.env=g.put place s) : ∃ wkc st' s',
    eeprom2master (tempContext segmentPort slavelist slave) slave st=.ok (wkc,st') ∧
      st'.env=g.put place s' ∧ st'.eepPdi slave=false ∧ Asked s s' := by
  have hport : (tempContext segmentPort slavelist slave).port=segmentPort.toEepromPort := rfl
  have hadr := tempContext_configadr segmentPort slavelist slave
  by_cases hflag : st.eepPdi slave=true
  · obtain ⟨halike,hstadr,-⟩ := write_eepcfg s 2
    obtain ⟨halike',hstadr',hpdi'⟩ := write_eepcfg (s.write ectRegEepcfg [2]) 0
    have hforce := h.writeRetry hs ectRegEepcfg [2] ecDefaultRetries
    rw [← henv] at hforce
    have hset := h.writeRetry (hstadr.trans hs) ectRegEepcfg [0] ecDefaultRetries
    refine ⟨1,{ st with
        env := g.put place ((s.write ectRegEepcfg [2]).write ectRegEepcfg [0])
        eepPdi := Function.update st.eepPdi slave false },_,?_,rfl,Function.update_self ..,
      ⟨halike.trans halike',hstadr'.trans (hstadr.trans hs),hpdi'⟩⟩
    rw [Sii.eeprom2master,run_bind (siiState_run st),if_pos hflag,hport,hadr,
      run_bind (onPort_run _ hforce)]
    exact run_bind (onPort_run { st with env := g.put place (s.write ectRegEepcfg [2]) } hset)
  · refine ⟨1,st,s,?_,henv,Bool.eq_false_iff.mpr hflag,⟨⟨rfl,rfl⟩,hs,hpdi⟩⟩
    rw [Sii.eeprom2master,run_bind (siiState_run st),if_neg hflag]
    rfl

theorem Alone.readeeprom (h : Alone g place) (hs : s.stadr=ecTempnode) (hpdi : s.pdi=false)
    (henv : st.env=g.put place s) (hflag : st.eepPdi slave=false) (eeproma : UInt16) :
    readeeprom (tempContext segmentPort slavelist slave) (fuel+1) slave eeproma st=
      .ok (s.sii eeproma,{ st with env := g.put place (s.command ecEcmdRead eeproma) }) := by
  have hport : (tempContext segmentPort slavelist slave).port=segmentPort.toEepromPort := rfl
  have hadr := tempContext_configadr segmentPort slavelist slave
  have hmaster : Sii.eeprom2master (tempContext segmentPort slavelist slave) slave st=.ok (1,st) := by
    rw [Sii.eeprom2master,run_bind (siiState_run st),if_neg (by rw [hflag]; decide)]
    rfl
  have hread := h.readeepromFP fuel hs hpdi eeproma
  rw [← henv] at hread
  rw [Config.readeeprom,run_bind hmaster,hport,hadr,run_bind (onPort_run st hread),romBlock_low]
  rfl

/-- The comparison tells whether the slave is the one that was configured. -/
theorem Alone.sameSlave (h : Alone g place) (hs : s.stadr=ecTempnode) (hpdi : s.pdi=false)
    (henv : st.env=g.put place s) (hflag : st.eepPdi slave=false) : ∃ same s',
    sameSlave segmentPort (fuel+1) slavelist slave st=
      .ok (same,{ st with env := g.put place s' }) ∧
      (same=true ↔ SameSlave s (slavelist slave)) ∧ Asked s s' := by
  have halias : onPort (segmentPort.fprdw ecTempnode ectRegAlias) st=
      .ok (s.word ectRegAlias,st) := by
    have hread := h.read hs ectRegAlias 2
    rw [← henv] at hread
    have hfprdw : segmentPort.fprdw ecTempnode ectRegAlias st.env=
        .ok (s.word ectRegAlias,st.env) := by
      rw [ConfigPort.fprdw,run_bind hread,← read_word s (by decide)]
      rfl
    exact onPort_run st hfprdw
  -- after a block has been read, the next one is read of the same slave
  have hnext : ∀ {s' : Station} (eeproma : UInt16),Asked s s' →
      Asked s (s'.command ecEcmdRead eeproma) := by
    intro s' eeproma hasked
    exact ⟨hasked.alike.trans (command_alike _ _ _),(command_stadr _ _ _).trans hasked.stadr,
      (command_pdi _ _ _).trans hasked.pdi⟩
  have hread : ∀ {s' : Station} (eeproma : UInt16),Asked s s' →
      Config.readeeprom (tempContext segmentPort slavelist slave) (fuel+1) slave eeproma
        { st with env := g.put place s' }=.ok (s.sii eeproma,
          { st with env := g.put place (s'.command ecEcmdRead eeproma) }) := by
    intro s' eeproma hasked
    have henv' : ({ st with env := g.put place s' } : SiiState Segment).env=g.put place s' := rfl
    rw [← hasked.alike.sii]
    exact h.readeeprom fuel slavelist slave hasked.stadr hasked.pdi henv' hflag eeproma
  have hfirst : Asked s s := ⟨⟨rfl,rfl⟩,hs,hpdi⟩
  have hst : st={ st with env := g.put place s } := by rw [← henv]
  rw [Config.sameSlave,run_bind halias]
  by_cases hadr : s.word ectRegAlias=(slavelist slave).aliasadr
  · rw [if_neg (not_not_intro hadr),hst,run_bind (hread ectSiiId hfirst)]
    have hfirst := hnext ectSiiId hfirst
    by_cases hid : s.sii ectSiiId=(slavelist slave).eepId
    · rw [if_neg (not_not_intro hid),run_bind (hread ectSiiManuf hfirst)]
      have hsecond := hnext ectSiiManuf hfirst
      by_cases hman : s.sii ectSiiManuf=(slavelist slave).eepMan
      · rw [if_neg (not_not_intro hman),run_bind (hread ectSiiRev hsecond)]
        refine ⟨_,_,rfl,?_,hnext ectSiiRev hsecond⟩
        rw [decide_eq_true_iff]
        exact ⟨fun hrev => ⟨hadr,hid,hman,hrev⟩,fun hc => hc.eepRev⟩
      · rw [if_pos hman]
        exact ⟨false,_,rfl,iff_of_false Bool.false_ne_true fun hc => hman hc.eepMan,hsecond⟩
    · rw [if_pos hid]
      exact ⟨false,_,rfl,iff_of_false Bool.false_ne_true fun hc => hid hc.eepId,hfirst⟩
  · rw [if_pos hadr]
    refine ⟨false,s,?_,iff_of_false Bool.false_ne_true fun hc => hadr hc.aliasadr,hfirst⟩
    rw [← hst]
    rfl

end Asking

/-- How a recovery without losses ends for the slave at its place, which is `s` before and `s'`
after. -/
structure RecoveryEnds (slavelist : UInt16 → ConfiguredSlave) (slave : UInt16) (connected : Nat)
    (s s' : Station) (r : Int) : Prop where
  known : slave.toNat ≤ connected → SameSlave s (slavelist slave) →
    r=1 ∧ Alike s s' ∧ s'.stadr=(slavelist slave).configadr
  other : slave.toNat ≤ connected → ¬SameSlave s (slavelist slave) →
    r=0 ∧ s'.stadr=0 ∧ s'.pdi=false
  absent : ¬slave.toNat ≤ connected → r=0 ∧ s'=s

section Recovery

variable {slavelist : UInt16 → ConfiguredSlave} {slavecount : Nat} (fuel : Nat) {slave : UInt16}
  {st : SiiState Segment}

theorem Recognised.no_temp (hd : DistinctAddresses slavelist slavecount) {g : Segment}
    (h : Recognised slavelist slavecount g) (place : Nat) : (g.stations place).stadr≠ecTempnode := by
  rcases h.known place with hzero|hown
  · rw [hzero.1]
    decide
  · exact (hd.proper _ _ hown.1).2

theorem aprdWord_answer {g : Segment} (hc : g.connected<2^16) (hf : g.fares=[])
    (hpos : 0 < slave.toNat) (default : UInt16) :
    segmentPort.aprdWord (1-slave) ectRegStadr default g=
      .ok (if slave.toNat ≤ g.connected then (1,(g.stations slave.toNat).stadr)
        else (0,default),g) := by
  have hcall : segmentPort.aprd (1-slave) ectRegStadr 2 g=_ :=
    callRead_answered (a := .position) (g := g) hf
  have haddressed := addressed_position hpos hc
  rw [ConfigPort.aprdWord,hcall]
  by_cases hin : slave.toNat ≤ g.connected
  · rw [if_pos hin] at haddressed ⊢
    rw [haddressed,read_one haddressed]
    have hone : (([slave.toNat].length : Nat) : Int)>0 := Int.one_pos
    dsimp only
    rw [if_pos hone,read_word _ (by decide)]
    rfl
  · rw [if_neg hin] at haddressed ⊢
    rw [haddressed]
    rfl

theorem aprdWord_run (hc : st.env.connected<2^16) (hf : st.env.fares=[]) (hpos : 0 < slave.toNat)
    (default : UInt16) : onPort (segmentPort.aprdWord (1-slave) ectRegStadr default) st=
      .ok (if slave.toNat ≤ st.env.connected then (1,(st.env.stations slave.toNat).stadr)
        else (0,default),st) := onPort_run st (aprdWord_answer hc hf hpos default)

/-- The dialog with a slave that has no address. -/
theorem recover_dialog (h : Alone st.env slave.toNat) (hc : st.env.connected<2^16)
    (hpos : 0 < slave.toNat) (hpdi : (st.env.stations slave.toNat).pdi=false)
    (hzero : (st.env.stations slave.toNat).stadr=0) (hne : (slavelist slave).configadr≠0) :
    ∃ r st' s',recoverSlave segmentPort (fuel+1) slavelist slave st=.ok (r,st') ∧
      st'.env=st.env.put slave.toNat s' ∧
      RecoveryEnds slavelist slave st.env.connected (st.env.stations slave.toNat) s' r := by
  obtain ⟨-,hin⟩ := h.connected
  have hread := aprdWord_run hc h.fares hpos 0xfffe
  rw [if_pos hin,hzero] at hread
  -- nothing is at `EC_TEMPNODE`
  have hnone : st.env.addressed .station ecTempnode=[] := by
    apply addressed_eq_nil
    intro p hp
    have htemp : (st.env.stations p).stadr=ecTempnode := (mem_addressed.mp hp).2
    by_cases heq : p=slave.toNat
    · rw [heq,hzero] at htemp
      exact absurd htemp (by decide)
    · exact h.others p heq htemp
  have hclear : onPort (segmentPort.fpwrw ecTempnode ectRegStadr 0) st=.ok (0,st) := by
    refine onPort_run st ?_
    have hcall : segmentPort.fpwr ecTempnode ectRegStadr (le16 0) st.env=(0,st.env) := by
      refine (callWrite_answered h.fares).trans ?_
      rw [write_none hnone,hnone]
      rfl
    rw [ConfigPort.fpwrw,EepromPort.write,hcall]
  obtain ⟨halike1,hpdi1⟩ := write_address (st.env.stations slave.toNat) ecTempnode
  have hstadr1 := (st.env.stations slave.toNat).write_stadr_self ecTempnode
  generalize hs1 : (st.env.stations slave.toNat).write ectRegStadr (le16 ecTempnode)=s1 at *
  have hmove : onPort (segmentPort.apwrw (1-slave) ectRegStadr ecTempnode) st=
      .ok (1,{ st with env := st.env.put slave.toNat s1 }) := by
    have haddressed := addressed_position hpos hc
    rw [if_pos hin] at haddressed
    refine onPort_run st ?_
    have hcall : segmentPort.apwr (1-slave) ectRegStadr (le16 ecTempnode) st.env=
        (1,st.env.put slave.toNat s1) := by
      refine (callWrite_answered h.fares).trans ?_
      rw [write_one haddressed,haddressed,hs1]
      rfl
    rw [ConfigPort.apwrw,hcall]
  let st1 : SiiState Segment := { st with env := st.env.put slave.toNat s1 }
  have henv1 : st1.env=st.env.put slave.toNat s1 := rfl
  obtain ⟨wkc,st2,s2,hmaster,henv2,hflag,hasked⟩ := h.eeprom2master slavelist slave hstadr1
    (hpdi1.trans hpdi) henv1
  obtain ⟨same,s3,hsame,hiff,hasked'⟩ := h.sameSlave fuel slavelist slave hasked.stadr hasked.pdi
    henv2 hflag
  have halike3 := (halike1.trans hasked.alike).trans hasked'.alike
  rw [(halike1.trans hasked.alike).sameSlave] at hiff
  -- the write that ends the dialog
  have hend : ∀ adr : UInt16,onPort (segmentPort.fpwrw ecTempnode ectRegStadr adr)
      { st2 with env := st.env.put slave.toNat s3 }=
        .ok (1,{ st2 with env := st.env.put slave.toNat (s3.write ectRegStadr (le16 adr)) }) :=
    fun adr => onPort_run { st2 with env := st.env.put slave.toNat s3 }
      (h.write hasked'.stadr ectRegStadr (le16 adr))
  rw [recoverSlave,run_bind hread]
  dsimp only
  rw [if_neg hne.symm,if_pos ⟨by decide,rfl⟩,run_bind hclear,run_bind hmove,if_neg (by decide),
    run_bind hmaster,run_bind hsame]
  by_cases hknown : SameSlave (st.env.stations slave.toNat) (slavelist slave)
  · rw [if_pos (hiff.mpr hknown)]
    refine ⟨1,_,_,hend _,rfl,fun _ _ => ⟨rfl,?_,s3.write_stadr_self _⟩,fun _ hno => absurd hknown hno,
      fun hno => absurd hin hno⟩
    exact halike3.trans (write_address s3 _).1
  · rw [if_neg fun ht => hknown (hiff.mp ht),run_bind (hend 0)]
    refine ⟨0,_,_,rfl,rfl,fun _ hyes => absurd hyes hknown,fun _ _ => ⟨rfl,s3.write_stadr_self _,?_⟩,
      fun hno => absurd hin hno⟩
    exact (write_address s3 0).2.trans hasked'.pdi

theorem recoverSlave_run (hd : DistinctAddresses slavelist slavecount)
    (hfffe : (slavelist slave).configadr≠0xfffe) (h : Recognised slavelist slavecount st.env)
    (hf : st.env.fares=[]) (hpos : 0 < slave.toNat) (hle : slave.toNat ≤ slavecount) :
    ∃ r st' s',recoverSlave segmentPort (fuel+1) slavelist slave st=.ok (r,st') ∧
      st'.env=st.env.put slave.toNat s' ∧
      RecoveryEnds slavelist slave st.env.connected (st.env.stations slave.toNat) s' r := by
  have hown : Configured slavelist slavecount slave.toNat (slavelist slave).configadr :=
    ⟨hpos,hle,by rw [UInt16.ofNat_toNat]⟩
  have hproper := hd.proper _ _ hown
  by_cases hin : slave.toNat ≤ st.env.connected
  · rcases h.known slave.toNat with hzero|hknown
    · exact recover_dialog fuel ⟨hf,⟨hpos,hin⟩,fun p _ => h.no_temp hd p⟩ h.connected hpos hzero.2 hzero.1
        hproper.1
    · have hread := aprdWord_run h.connected hf hpos 0xfffe
      have hstadr : (st.env.stations slave.toNat).stadr=(slavelist slave).configadr := by
        rw [hknown.1.2.2,UInt16.ofNat_toNat]
      have hsame := hknown.2
      rw [UInt16.ofNat_toNat] at hsame
      rw [if_pos hin,hstadr] at hread
      rw [recoverSlave,run_bind hread]
      dsimp only
      rw [if_pos rfl]
      exact ⟨1,st,_,rfl,put_eq.symm,fun _ _ => ⟨rfl,⟨rfl,rfl⟩,hstadr⟩,fun _ hno => absurd hsame hno,
        fun hno => absurd hin hno⟩
  · have hread := aprdWord_run h.connected hf hpos 0xfffe
    rw [if_neg hin] at hread
    rw [recoverSlave,run_bind hread]
    dsimp only
    rw [if_neg hfffe.symm,if_neg fun hgo => absurd hgo.1 (by decide)]
    exact ⟨0,st,_,rfl,put_eq.symm,fun hyes => absurd hyes hin,fun hyes => absurd hyes hin,
      fun _ => ⟨rfl,rfl⟩⟩

end Recovery

section Runs

variable {slavelist : UInt16 → ConfiguredSlave} {slavecount : Nat} (fuel : Nat) {slave : UInt16}
  {st st' : SiiState Segment}

/-- No frame is lost. -/
def Lossless (g : Segment) : Prop := g.fares=[]

theorem write_alike (s : Station) {ado : UInt16} (data : List UInt8)
    (hado : ectRegAlias.toNat+2 ≤ ado.toNat) : Alike s (s.write ado data) := by
  have halias : ectRegAlias.toNat=0x12 := rfl
  have hdat : ectRegEepdat.toNat=0x508 := rfl
  exact ⟨Station.word_congr fun i hi => s.write_outside (by omega) (by omega),s.write_fixed _ _⟩

theorem RecoveryEnds.recognised {g : Segment} {s' : Station} {r : Int}
    (h : Recognised slavelist slavecount g) (hpos : 0 < slave.toNat)
    (hle : slave.toNat ≤ slavecount)
    (hends : RecoveryEnds slavelist slave g.connected (g.stations slave.toNat) s' r) :
    Recognised slavelist slavecount (g.put slave.toNat s') := by
  refine ⟨h.connected,fun place => ?_⟩
  by_cases heq : place=slave.toNat
  · subst heq
    rw [put_station,UInt16.ofNat_toNat]
    by_cases hin : slave.toNat ≤ g.connected
    · by_cases hsame : SameSlave (g.stations slave.toNat) (slavelist slave)
      · obtain ⟨-,halike,hstadr⟩ := hends.known hin hsame
        exact .inr ⟨⟨hpos,hle,by rw [hstadr,UInt16.ofNat_toNat]⟩,(halike.sameSlave _).mpr hsame⟩
      · exact .inl (hends.other hin hsame).2
    · rw [(hends.absent hin).2]
      have hknown := h.known slave.toNat
      rw [UInt16.ofNat_toNat] at hknown
      exact hknown
  · rw [put_other heq]
    exact h.known place

theorem Recognised.step (hd : DistinctAddresses slavelist slavecount)
    (hfffe : ∀ adr place,Configured slavelist slavecount place adr → adr≠0xfffe)
    (h : Recognised slavelist slavecount st.env)
    (hstep : LineStep (fuel+1) slavelist slavecount Lossless st st') :
    Recognised slavelist slavecount st'.env := by
  cases hstep with
  | power place s haddress hpdi =>
    refine ⟨h.connected,fun p => ?_⟩
    by_cases heq : p=place
    · subst heq
      rw [put_station]
      exact .inl ⟨haddress,hpdi⟩
    · rw [put_other heq]
      exact h.known p
  | connect connected hc => exact ⟨hc,h.known⟩
  | calls fares timer => exact ⟨h.connected,h.known⟩
  | traffic place ado data hplace hado henv =>
    rw [henv]
    refine ⟨h.connected,fun p => ?_⟩
    rw [write_station]
    split_ifs with hin
    · have hstadr : (st.env.stations p).stadr=_ := (mem_addressed.mp hin).2
      have hproper := hd.proper _ place ⟨hplace.1,hplace.2,rfl⟩
      rcases h.known p with hzero|hown
      · exact absurd (hstadr.symm.trans hzero.1) hproper.1
      · have hreg : ectRegAlias.toNat=ectRegStadr.toNat+2 := rfl
        rw [Station.write_stadr _ (by omega)]
        exact .inr ⟨hown.1,((write_alike _ data hado).sameSlave _).mpr hown.2⟩
    · exact h.known p
  | recover hpos hle hfair hrun =>
    obtain ⟨r,st2,s',hreturns,henv,hends⟩ := recoverSlave_run fuel hd
      (hfffe _ _ ⟨hpos,hle,by rw [UInt16.ofNat_toNat]⟩) h hfair hpos hle
    cases hreturns.symm.trans hrun
    rw [henv]
    exact hends.recognised h hpos hle

/-- Whatever is switched on, exchanged, cut off and recovered without losses: a slave that has an
address is the one configured at its place, and a recovery succeeds exactly if the configured slave
is there and connected. Its address is then its own, and else nobody answers to it. -/
theorem recovery_recognises (ho : OffsetAddresses slavelist slavecount)
    (h : Recognised slavelist slavecount st.env)
    (hrun : Relation.ReflTransGen (LineStep (fuel+1) slavelist slavecount Lossless) st st')
    (hf : Lossless st'.env) (slave : UInt16) (hpos : 0 < slave.toNat)
    (hle : slave.toNat ≤ slavecount) : (∀ place,(st'.env.stations place).stadr≠0 →
      SameSlave (st'.env.stations place) (slavelist (UInt16.ofNat place))) ∧
    ∃ r st2,recoverSlave segmentPort (fuel+1) slavelist slave st'=.ok (r,st2) ∧
      (0 < r ↔ slave.toNat ≤ st'.env.connected ∧
        SameSlave (st'.env.stations slave.toNat) (slavelist slave)) ∧
      st2.env.addressed .station (slavelist slave).configadr=
        if 0 < r then [slave.toNat] else [] := by
  have hd := ho.distinct
  have hfffe : ∀ adr place,Configured slavelist slavecount place adr → adr≠0xfffe := by
    rintro adr place hown rfl
    exact absurd (ho.toNat hown).2 (by decide)
  have hnow : Recognised slavelist slavecount st'.env := by
    clear hf
    induction hrun with
    | refl => exact h
    | tail _ hstep ih => exact ih.step fuel hd hfffe hstep
  have hown : Configured slavelist slavecount slave.toNat (slavelist slave).configadr :=
    ⟨hpos,hle,by rw [UInt16.ofNat_toNat]⟩
  refine ⟨fun place hne => ?_,?_⟩
  · rcases hnow.known place with hzero|hknown
    · exact absurd hzero.1 hne
    · exact hknown.2
  obtain ⟨r,st2,s',hreturns,henv,hends⟩ := recoverSlave_run fuel hd (hfffe _ _ hown) hnow hf
    hpos hle
  refine ⟨r,st2,hreturns,?_⟩
  have hafter := hends.recognised hnow hpos hle
  rw [← henv] at hafter
  -- who answers to the address afterwards
  have hanswers : ∀ p,p ∈ st2.env.addressed .station (slavelist slave).configadr ↔
      p=slave.toNat ∧ slave.toNat ≤ st'.env.connected ∧ s'.stadr=(slavelist slave).configadr := by
    intro p
    rw [mem_addressed,henv]
    constructor
    · intro hin
      obtain ⟨hrange,hstadr⟩ := hin
      change ((st'.env.put slave.toNat s').stations p).stadr=_ at hstadr
      have hplace : p=slave.toNat := by
        rw [henv] at hafter
        rcases hafter.known p with hzero|hknown
        · exact absurd (hstadr.symm.trans hzero.1) (hd.proper _ _ hown).1
        · have hadr := hknown.1
          rw [hstadr] at hadr
          exact hd.distinct _ _ _ hadr hown
      subst hplace
      rw [put_station] at hstadr
      exact ⟨rfl,hrange.2,hstadr⟩
    · intro hin
      obtain ⟨rfl,hc,hstadr⟩ := hin
      refine ⟨⟨hpos,hc⟩,?_⟩
      change ((st'.env.put slave.toNat s').stations slave.toNat).stadr=_
      rw [put_station]
      exact hstadr
  by_cases hin : slave.toNat ≤ st'.env.connected
  · by_cases hsame : SameSlave (st'.env.stations slave.toNat) (slavelist slave)
    · obtain ⟨rfl,-,hstadr⟩ := hends.known hin hsame
      refine ⟨iff_of_true Int.one_pos ⟨hin,hsame⟩,?_⟩
      rw [if_pos Int.one_pos]
      exact addressed_eq_singleton fun p => by simp [hanswers,hin,hstadr]
    · obtain ⟨rfl,hstadr,-⟩ := hends.other hin hsame
      refine ⟨iff_of_false (Int.lt_irrefl 0) fun hyes => hsame hyes.2,?_⟩
      rw [if_neg (Int.lt_irrefl 0)]
      apply addressed_eq_nil
      intro p hp
      exact (hd.proper _ _ hown).1 (((hanswers p).mp hp).2.2.symm.trans hstadr)
  · obtain ⟨rfl,-⟩ := hends.absent hin
    refine ⟨iff_of_false (Int.lt_irrefl 0) fun hyes => hin hyes.1,?_⟩
    rw [if_neg (Int.lt_irrefl 0)]
    exact addressed_eq_nil fun p hp => hin ((hanswers p).mp hp).2.1

/-- The line of the two slaves, without losses. -/
def losslessLine : SiiState Segment :=
  { lineOfTwo with env := { lineOfTwo.env with fares := [] } }

/-- The first slave of the line is switched on again. -/
theorem first_recognised : ∃ r st2,
    recoverSlave segmentPort 1 offsetList 1
      { losslessLine with env := losslessLine.env.put 1 blankStation }=.ok (r,st2) ∧
    0 < r ∧ st2.env.addressed .station 0x1001=[1] := by
  have hblank : ∀ c : ConfiguredSlave,c=⟨c.configadr,0,c.eep8byte,0,0,0⟩ → SameSlave blankStation c := by
    intro c hc
    rw [hc]
    exact ⟨rfl,rfl,rfl,rfl⟩
  have hknown : Recognised offsetList 2 losslessLine.env := by
    refine ⟨by decide,fun place => ?_⟩
    rw [show (losslessLine.env.stations place).stadr=_ from lineOfTwo_stadr place]
    change _ ∨ _ ∧ SameSlave (if 1 ≤ place ∧ place ≤ 2 then _ else blankStation) _
    split_ifs with hin
    · exact .inr ⟨⟨hin.1,hin.2,rfl⟩,((write_address blankStation _).1.sameSlave _).mpr (hblank _ rfl)⟩
    · refine .inl ⟨rfl,?_⟩
      change (if 1 ≤ place ∧ place ≤ 2 then _ else blankStation).pdi=false
      rw [if_neg hin]
      decide
  obtain ⟨-,r,st2,hrun,hiff,hanswers⟩ := recovery_recognises 0 offsetList_offset hknown
    (.single (.power 1 blankStation (by decide) (by decide))) rfl 1 (by decide) (by decide)
  have hr : 0 < r := hiff.mpr ⟨by decide,hblank _ rfl⟩
  rw [if_pos hr] at hanswers
  exact ⟨r,st2,hrun,hr,hanswers⟩

end Runs

end EtherCATMaster.Config
