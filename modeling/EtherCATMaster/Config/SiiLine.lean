import EtherCATMaster.Config.SiiRun

namespace EtherCATMaster.Config

open EtherCATMaster.Framework EtherCATMaster.Sii

variable {σ : Type}

/-- All searches of these contents come to an end. -/
structure SearchesEnd (rom : Nat → UInt8) : Prop where
  general : SearchEnds rom ectSiiGeneral
  string : SearchEnds rom ectSiiString
  sm : SearchEnds rom ectSiiSm
  fmmu : SearchEnds rom ectSiiFmmu

def listGeneral (rom : Nat → UInt8) (slave : Nat) (slavelist : SiiList) : SiiList :=
  match generalOf rom with
  | some g => Function.update (Function.update slavelist 0
      ((slavelist 0).addTotals g.blocks g.ebuscurrent)) slave ((slavelist slave).withGeneral g)
  | none => slavelist

section Reading

variable {ctx : SiiContext σ} {fuel steps slave : Nat} {contents : UInt16 → Nat → UInt8}
  {rom : Nat → UInt8}

theorem readGeneral_yields (hs : Readable ctx fuel contents (UInt16.ofNat slave))
    (hrom : contents (UInt16.ofNat slave)=rom) (hends : SearchesEnd rom)
    (hsteps : ecMaxEepBuf ≤ steps) (slavelist : SiiList) :
    Yields (Cached contents) (readGeneral ctx fuel steps slave slavelist)
      (listGeneral rom slave slavelist) := by
  subst hrom
  apply siifind_bind_yields hs hends.general hsteps
  rw [listGeneral,generalOf]
  split_ifs
  · exact (readOut_yields hs _).bind (Yields.pure _)
  · exact Yields.pure _

theorem readName_yields (hs : Readable ctx fuel contents (UInt16.ofNat slave))
    (hrom : contents (UInt16.ofNat slave)=rom) (hends : SearchesEnd rom)
    (hsteps : ecMaxEepBuf ≤ steps) (e : SiiSlave) :
    Yields (Cached contents) (readName ctx fuel steps slave e) (e.ownName rom) := by
  subst hrom
  apply siifind_bind_yields hs hends.string hsteps
  rw [SiiSlave.ownName]
  split_ifs
  · exact (siistring_yields hs hends.string hsteps e.name 1).bind (Yields.pure _)
  · exact Yields.pure _

theorem smLoop_yields (hs : Readable ctx fuel contents (UInt16.ofNat slave))
    (hrom : contents (UInt16.ofNat slave)=rom) (left : Nat) :
    ∀ (smc : Nat) (eepSM : EepromSm) (sm : Nat → EcSm),
      Yields (Cached contents) (smLoop ctx fuel slave left smc eepSM sm)
        (smLoopOf rom left smc eepSM sm) := by
  subst hrom
  induction left with
  | zero => exact fun _ _ _ => Yields.pure _
  | succ left ih =>
    intro smc eepSM sm
    apply (siiSmNext_yields hs eepSM (UInt16.ofNat smc)).bind
    rw [smLoopOf]
    obtain ⟨more,next⟩ := siiSmNextOf (contents (UInt16.ofNat slave)) eepSM (UInt16.ofNat smc)
    dsimp only
    split_ifs
    · exact ih _ _ _
    · exact Yields.pure _

theorem readSms_yields (hs : Readable ctx fuel contents (UInt16.ofNat slave))
    (hrom : contents (UInt16.ofNat slave)=rom) (hends : SearchesEnd rom)
    (hsteps : ecMaxEepBuf ≤ steps) (eepSM : EepromSm) (e : SiiSlave) :
    ∃ eepSM',Yields (Cached contents) (readSms ctx fuel steps slave eepSM e)
      (eepSM',e.ownSms rom) := by
  refine ⟨(smsOf rom eepSM e.sm).1,?_⟩
  rw [SiiSlave.ownSms,← smsOf_forgets eepSM,smsOf]
  have hend := hends.sm
  subst hrom
  apply (siiSm_yields hs hend hsteps eepSM).bind
  generalize siiSmOf (contents (UInt16.ofNat slave)) eepSM=first
  split_ifs
  · apply (smLoop_yields hs rfl (ecMaxSm-1) 1 first
      (Function.update e.sm 0 (smOf first))).bind
    obtain ⟨last,sm⟩ := smLoopOf (contents (UInt16.ofNat slave)) (ecMaxSm-1) 1 first
      (Function.update e.sm 0 (smOf first))
    exact Yields.pure _
  · exact Yields.pure _

theorem readFmmus_yields (hs : Readable ctx fuel contents (UInt16.ofNat slave))
    (hrom : contents (UInt16.ofNat slave)=rom) (hends : SearchesEnd rom)
    (hsteps : ecMaxEepBuf ≤ steps) (e : SiiSlave) :
    Yields (Cached contents) (readFmmus ctx fuel steps slave e) (e.ownFmmus rom) := by
  subst hrom
  exact (siiFmmu_yields hs hends.fmmu hsteps).bind (Yields.pure _)

theorem readSii_yields (hs : Readable ctx fuel contents (UInt16.ofNat slave))
    (hrom : contents (UInt16.ofNat slave)=rom) (hends : SearchesEnd rom)
    (hsteps : ecMaxEepBuf ≤ steps) (eepSM : EepromSm) (slavelist : SiiList) :
    ∃ eepSM',Yields (Cached contents) (readSii ctx fuel steps slave eepSM slavelist)
      (eepSM',Function.update (listGeneral rom slave slavelist) slave
        ((slavelist slave).ownSii rom)) := by
  have hentry : listGeneral rom slave slavelist slave=(slavelist slave).ownGeneral rom := by
    rw [listGeneral,SiiSlave.ownGeneral]
    cases generalOf rom with
    | none => rfl
    | some g => exact Function.update_self ..
  obtain ⟨eepSM',hsms⟩ := readSms_yields hs hrom hends hsteps eepSM
    (((slavelist slave).ownGeneral rom).ownName rom)
  refine ⟨eepSM',?_⟩
  apply (readGeneral_yields hs hrom hends hsteps slavelist).bind
  rw [hentry]
  apply (readName_yields hs hrom hends hsteps _).bind
  apply hsms.bind
  exact (readFmmus_yields hs hrom hends hsteps _).bind (Yields.pure _)

end Reading

/-- Slaves of one identity have the same mailbox, and the same SII from its start on. -/
def SiiConstant (idents : Nat → SlaveIdentity) (contents : UInt16 → Nat → UInt8) (slavecount : Nat) :
    Prop :=
  ∀ i p,1 ≤ i → i<p → p ≤ slavecount →
    (idents i).eepMan=(idents p).eepMan → (idents i).eepId=(idents p).eepId →
    (idents i).eepRev=(idents p).eepRev →
    idents i=idents p ∧ SameArea (contents (UInt16.ofNat i)) (contents (UInt16.ofNat p))

def SiiAgree (idents : Nat → SlaveIdentity) (own : Nat → SiiSlave) (slavecount : Nat) : Prop :=
  ∀ i p,1 ≤ i → i<p → p ≤ slavecount →
    (idents i).eepMan=(idents p).eepMan → (idents i).eepId=(idents p).eepId →
    (idents i).eepRev=(idents p).eepRev → own i=own p

def siiOf (idents : Nat → SlaveIdentity) (contents : UInt16 → Nat → UInt8) (p : Nat) : SiiSlave :=
  ownConfig (contents (UInt16.ofNat p)) (idents p)

/-- How far the loop is, where the entries are to be `own`. -/
structure SiiFilled (idents : Nat → SlaveIdentity) (own : Nat → SiiSlave) (i : Nat)
    (slavelist : SiiList) : Prop where
  done : ∀ p,1 ≤ p → p ≤ i → slavelist p=own p
  fresh : ∀ p,i<p → slavelist p=freshSlave (idents p)
  totals : slavelist 0={ freshSlave (idents 0) with
    blockLRW := UInt8.ofNat ((List.range' 1 i).countP fun p => (own p).blockLRW>0)
    ebuscurrent := ((List.range' 1 i).map fun p => (own p).ebuscurrent).sum }

theorem prevSlave_spec (slavelist : SiiList) (slave : Nat) (left : Nat) : ∀ k,k+left=slave →
    k ≤ prevSlave slavelist slave left k ∧ prevSlave slavelist slave left k ≤ slave ∧
      (prevSlave slavelist slave left k<slave →
        ¬(slavelist (prevSlave slavelist slave left k)).Differs (slavelist slave)) := by
  induction left with
  | zero =>
    intro k hk
    rw [prevSlave]
    exact ⟨Nat.le_refl k,by omega,fun hlt => absurd hlt (by omega)⟩
  | succ left ih =>
    intro k hk
    rw [prevSlave]
    split_ifs with hdiffers
    · obtain ⟨hlow,hhigh,hsame⟩ := ih (k+1) (by omega)
      exact ⟨by omega,hhigh,hsame⟩
    · exact ⟨Nat.le_refl k,by omega,fun _ => hdiffers⟩

section Loop

variable {idents : Nat → SlaveIdentity} {own : Nat → SiiSlave} {i : Nat} {slavelist : SiiList}

theorem SiiFilled.unique {slavelist' : SiiList} (h : SiiFilled idents own i slavelist)
    (h' : SiiFilled idents own i slavelist') : slavelist=slavelist' := by
  funext p
  by_cases hzero : p=0
  · rw [hzero,h.totals,h'.totals]
  · by_cases hp : p ≤ i
    · rw [h.done p (by omega) hp,h'.done p (by omega) hp]
    · rw [h.fresh p (by omega),h'.fresh p (by omega)]

theorem SiiFilled.next (h : SiiFilled idents own i slavelist) {next : SiiList}
    (hentry : next (i+1)=own (i+1))
    (hmaster : next 0=(slavelist 0).addTotals (decide ((own (i+1)).blockLRW>0))
      (own (i+1)).ebuscurrent)
    (hothers : ∀ p,p≠0 → p≠i+1 → next p=slavelist p) : SiiFilled idents own (i+1) next := by
  refine ⟨fun p hp hle => ?_,fun p hp => ?_,?_⟩
  · by_cases hlast : p=i+1
    · rw [hlast,hentry]
    · rw [hothers p (by omega) hlast]
      exact h.done p hp (by omega)
  · rw [hothers p (by omega) (by omega)]
    exact h.fresh p (by omega)
  · rw [hmaster,h.totals,List.range'_1_concat,List.countP_append,List.map_append,List.sum_append,
      Nat.add_comm 1 i,SiiSlave.addTotals]
    by_cases hblock : (own (i+1)).blockLRW>0
    · simp [hblock]
    · simp [hblock]

end Loop

section Slave

variable {ctx : SiiContext σ} {fuel steps i slavecount : Nat} {contents : UInt16 → Nat → UInt8}
  {rom : Nat → UInt8} {idents : Nat → SlaveIdentity} {slavelist : SiiList}

theorem write_returns (ctx : SiiContext σ) (contents : UInt16 → Nat → UInt8) (c : Prop)
    [Decidable c] (configadr ado : UInt16) (data : List UInt8) : Returns (Cached contents)
      (if c then onPort (ctx.port.write configadr ado data) else pure 0 : SiiM σ Int) := by
  intro st h
  split_ifs
  · exact ⟨_,_,onPort_run st rfl,h⟩
  · exact ⟨0,st,rfl,h⟩

theorem finishSlave_yields (ctx : SiiContext σ) (slave : Nat) (manualstatechange : Bool)
    (slavelist : SiiList) : Yields (Cached contents)
      (finishSlave ctx slave manualstatechange slavelist)
      (Function.update slavelist slave (slavelist slave).fallback) := by
  have hpdi : Returns (Cached contents) (eeprom2pdi ctx (UInt16.ofNat slave)) := by
    intro st h
    obtain ⟨wkc,pdi,t,hrun⟩ := eeprom2pdi_run ctx (UInt16.ofNat slave) st
    exact ⟨wkc,_,hrun,show Cached contents { st with eepPdi := pdi,env := t } from h⟩
  apply (write_returns ctx contents _ _ _ _).bind
  intro _
  apply hpdi.bind
  intro _
  exact (write_returns ctx contents _ _ _ _).bind fun _ => Yields.pure _

theorem withMailbox_identity (e : SiiSlave) : e.withMailbox.identity=e.identity := by
  rw [SiiSlave.withMailbox]
  split_ifs <;> rfl

theorem ownConfig_identity (c : SlaveIdentity) : (ownConfig rom c).identity=c :=
  (ownConfig_filled c).identity.trans (withMailbox_identity _)

/-- A list in which only the entry of a slave is left to be finished, as `own` says. -/
structure SlaveRead (own : SiiSlave) (i : Nat) (slavelist mid : SiiList) : Prop where
  entry : (mid (i+1)).fallback=own
  master : mid 0=(slavelist 0).addTotals (decide (own.blockLRW>0)) own.ebuscurrent
  others : ∀ p,p≠0 → p≠i+1 → mid p=slavelist p

def mailboxList (slavelist : SiiList) (slave : Nat) : SiiList :=
  Function.update slavelist slave (slavelist slave).withMailbox

theorem mailboxList_own (h : SiiFilled idents (siiOf idents contents) i slavelist) :
    mailboxList slavelist (i+1) (i+1)=(freshSlave (idents (i+1))).withMailbox := by
  rw [mailboxList,Function.update_self,h.fresh (i+1) (by omega)]

theorem mailboxList_other {p : Nat} (hp : p≠i+1) : mailboxList slavelist (i+1) p=slavelist p :=
  Function.update_of_ne hp _ _

theorem readSii_reads (hs : Readable ctx fuel contents (UInt16.ofNat (i+1)))
    (hends : SearchesEnd (contents (UInt16.ofNat (i+1)))) (hsteps : ecMaxEepBuf ≤ steps)
    (h : SiiFilled idents (siiOf idents contents) i slavelist) (eepSM : EepromSm) :
    ∃ eepSM' mid,Yields (Cached contents)
        (readSii ctx fuel steps (i+1) eepSM (mailboxList slavelist (i+1))) (eepSM',mid) ∧
      SlaveRead (siiOf idents contents (i+1)) i slavelist mid := by
  obtain ⟨rom,hrom⟩ : ∃ rom,contents (UInt16.ofNat (i+1))=rom := ⟨_,rfl⟩
  have hsii : siiOf idents contents (i+1)=ownConfig rom (idents (i+1)) := by
    rw [siiOf,hrom]
  rw [hrom] at hends
  obtain ⟨eepSM',hread⟩ := readSii_yields hs hrom hends hsteps eepSM
    (mailboxList slavelist (i+1))
  refine ⟨eepSM',_,hread,?_,?_,fun p hp hne => ?_⟩
  · rw [Function.update_self,mailboxList_own h,hsii,ownConfig]
  · rw [Function.update_of_ne (by omega),hsii,addTotals_own,listGeneral,
      mailboxList_other (show 0≠i+1 by omega)]
    cases generalOf rom with
    | none => exact mailboxList_other (by omega)
    | some g =>
      dsimp only
      rw [Function.update_of_ne (by omega),Function.update_self]
  · rw [Function.update_of_ne hne,listGeneral]
    cases generalOf rom with
    | none => exact mailboxList_other hne
    | some g =>
      dsimp only
      rw [Function.update_of_ne hne,Function.update_of_ne hp,mailboxList_other hne]

/-- What is taken over from a slave before is the same. -/
theorem lookupPrevSii_reads (hagree : SiiAgree idents (siiOf idents contents) slavecount)
    (hi : i<slavecount) (h : SiiFilled idents (siiOf idents contents) i slavelist) {mid : SiiList}
    (hlookup : lookupPrevSii (mailboxList slavelist (i+1)) slavecount (i+1)=some mid) :
    SlaveRead (siiOf idents contents (i+1)) i slavelist mid := by
  have hown := mailboxList_own h
  have hothers : ∀ p,p≠i+1 → mailboxList slavelist (i+1) p=slavelist p :=
    fun p hp => mailboxList_other hp
  obtain ⟨start,hstart⟩ : ∃ start,start=mailboxList slavelist (i+1) := ⟨_,rfl⟩
  rw [← hstart] at hlookup hown hothers
  obtain ⟨hlow,-,hsame⟩ := prevSlave_spec start (i+1) (i+1-1) 1 (by omega)
  rw [lookupPrevSii] at hlookup
  obtain ⟨k,hk⟩ : ∃ k,k=prevSlave start (i+1) (i+1-1) 1 := ⟨_,rfl⟩
  rw [← hk] at hlow hsame hlookup
  by_cases hc : i+1>1 ∧ slavecount>0
  case neg =>
    rw [if_neg hc] at hlookup
    cases hlookup
  rw [if_pos hc] at hlookup
  by_cases hlt : k < i+1
  case neg =>
    rw [if_neg hlt] at hlookup
    cases hlookup
  rw [if_pos hlt] at hlookup
  have hdone : start k=siiOf idents contents k := by
    rw [hothers k (by omega),h.done k hlow (by omega)]
  -- the slave before has the same identity, so its SII says the same
  have hcopied : start k=siiOf idents contents (i+1) := by
    have hident : (start k).identity=idents k := by
      rw [hdone]
      exact ownConfig_identity _
    have hident' : (start (i+1)).identity=idents (i+1) := by
      rw [hown,withMailbox_identity]
      rfl
    have hnot := hsame hlt
    rw [SiiSlave.Differs,not_or,not_or,not_not,not_not,not_not] at hnot
    obtain ⟨hman,hid,hrev⟩ := hnot
    rw [hdone]
    exact hagree k (i+1) hlow hlt hi (by rw [← hident,← hident']; exact hman)
      (by rw [← hident,← hident']; exact hid) (by rw [← hident,← hident']; exact hrev)
  cases hlookup
  refine ⟨?_,?_,fun p hp hne => ?_⟩
  · rw [Function.update_self,hcopied,hown,siiOf,copySii_own]
  · rw [Function.update_of_ne (by omega),Function.update_self,hothers 0 (by omega),← hcopied]
    rfl
  · rw [Function.update_of_ne hne,Function.update_of_ne hp,hothers p hne]

def Trustworthy (lookup : SiiLookup) (idents : Nat → SlaveIdentity)
    (contents : UInt16 → Nat → UInt8) (slavecount : Nat) : Prop :=
  ∀ i slavelist mid,i<slavecount → SiiFilled idents (siiOf idents contents) i slavelist →
    lookup (mailboxList slavelist (i+1)) slavecount (i+1)=some mid →
    SlaveRead (siiOf idents contents (i+1)) i slavelist mid

theorem configSlaveBy_step {lookup : SiiLookup} (manualstatechange : Bool)
    (hs : Readable ctx fuel contents (UInt16.ofNat (i+1)))
    (hends : SearchesEnd (contents (UInt16.ofNat (i+1)))) (hsteps : ecMaxEepBuf ≤ steps)
    (hlookup : Trustworthy lookup idents contents slavecount) (hi : i<slavecount)
    (h : SiiFilled idents (siiOf idents contents) i slavelist) (eepSM : EepromSm) :
    ∃ r,Yields (Cached contents) (configSlaveBy ctx fuel steps (i+1) lookup manualstatechange
        slavecount (eepSM,slavelist)) r ∧
      SiiFilled idents (siiOf idents contents) (i+1) r.2 := by
  have hfinish : ∀ eepSM' mid,SlaveRead (siiOf idents contents (i+1)) i slavelist mid →
      ∀ x : SiiM σ (EepromSm × SiiList),Yields (Cached contents) x (eepSM',mid) →
      ∃ r,Yields (Cached contents) (do
          let read ← x
          let slavelist ← finishSlave ctx (i+1) manualstatechange read.2
          pure (read.1,slavelist)) r ∧ SiiFilled idents (siiOf idents contents) (i+1) r.2 := by
    intro eepSM' mid hread x hx
    refine ⟨_,hx.bind ((finishSlave_yields ctx (i+1) manualstatechange mid).bind
      (Yields.pure _)),?_⟩
    apply h.next
    · exact (Function.update_self ..).trans hread.entry
    · change Function.update mid (i+1) (mid (i+1)).fallback 0=_
      rw [Function.update_of_ne (by omega)]
      exact hread.master
    · intro p hp hne
      exact (Function.update_of_ne hne _ _).trans (hread.others p hp hne)
  cases hfound : lookup (mailboxList slavelist (i+1)) slavecount (i+1) with
  | some mid =>
    obtain ⟨r,hr,hfilled⟩ := hfinish eepSM mid (hlookup i slavelist mid hi h hfound) _
      (Yields.pure _)
    refine ⟨r,?_,hfilled⟩
    rw [mailboxList] at hfound
    rw [configSlaveBy]
    dsimp only
    rw [hfound]
    exact hr
  | none =>
    obtain ⟨eepSM',mid,hmid,hread⟩ := readSii_reads hs hends hsteps h eepSM
    obtain ⟨r,hr,hfilled⟩ := hfinish eepSM' mid hread _ hmid
    refine ⟨r,?_,hfilled⟩
    rw [mailboxList] at hfound
    rw [configSlaveBy]
    dsimp only
    rw [hfound]
    exact hr

theorem configSlavesBy_run {lookup : SiiLookup} (manualstatechange : Bool)
    (hs : ∀ p,1 ≤ p → p ≤ slavecount → Readable ctx fuel contents (UInt16.ofNat p))
    (hends : ∀ p,1 ≤ p → p ≤ slavecount → SearchesEnd (contents (UInt16.ofNat p)))
    (hsteps : ecMaxEepBuf ≤ steps) (hlookup : Trustworthy lookup idents contents slavecount)
    (eepSM : EepromSm) {st : SiiState σ} (h : Cached contents st) :
    ∃ r st',configSlavesBy lookup ctx fuel steps manualstatechange slavecount
        (eepSM,fun p => freshSlave (idents p)) st=.ok (r,st') ∧
      SiiFilled idents (siiOf idents contents) slavecount r.2 := by
  have hstart : SiiFilled idents (siiOf idents contents) 0 fun p => freshSlave (idents p) :=
    ⟨fun p hp hle => by omega,fun _ _ => rfl,rfl⟩
  have hinitial : Cached contents st ∧ SiiFilled idents (siiOf idents contents) 0
      (eepSM,fun p => freshSlave (idents p)).2 := ⟨h,hstart⟩
  obtain ⟨r,st',hrun,-,hfilled⟩ := forSlots_run (I := fun i r s => Cached contents s ∧
      SiiFilled idents (siiOf idents contents) i r.2)
    (fun slave => configSlaveBy ctx fuel steps slave lookup manualstatechange slavecount) slavecount
    (fun i r s hi h => by
      obtain ⟨r',hyields,hnext⟩ := configSlaveBy_step manualstatechange (hs (i+1) (by omega) hi)
        (hends (i+1) (by omega) hi) hsteps hlookup hi h.2 r.1
      obtain ⟨s',hrun,h'⟩ := hyields s h.1
      exact ⟨r',s',hrun,h',hnext⟩) hinitial
  exact ⟨r,st',hrun,hfilled⟩

/-- "This is safe because SII is constant for same slave ID": if it is, the loop leads to the list
that it leads to if it reads every SII. -/
theorem prev_sii_safe (manualstatechange : Bool)
    (hs : ∀ p,1 ≤ p → p ≤ slavecount → Readable ctx fuel contents (UInt16.ofNat p))
    (hends : ∀ p,1 ≤ p → p ≤ slavecount → SearchesEnd (contents (UInt16.ofNat p)))
    (hsteps : ecMaxEepBuf ≤ steps) (hconst : SiiConstant idents contents slavecount)
    (eepSM : EepromSm) (st : SiiState σ) (h : Cached contents st) :
    ∃ slavelist : SiiList,
      (∃ eepSM' st',configSlaves ctx fuel steps manualstatechange slavecount
        (eepSM,fun p => freshSlave (idents p)) st=.ok ((eepSM',slavelist),st')) ∧
      ∃ eepSM' st',configSlavesBy (fun _ _ _ => none) ctx fuel steps manualstatechange slavecount
        (eepSM,fun p => freshSlave (idents p)) st=.ok ((eepSM',slavelist),st') := by
  have hagree : SiiAgree idents (siiOf idents contents) slavecount := by
    intro i p hi hlt hp hman hid hrev
    obtain ⟨heq,harea⟩ := hconst i p hi hlt hp hman hid hrev
    rw [siiOf,siiOf,heq,ownConfig_area harea]
  have hprev : Trustworthy lookupPrevSii idents contents slavecount :=
    fun i slavelist mid hi h hlookup => lookupPrevSii_reads hagree hi h hlookup
  have hnone : Trustworthy (fun _ _ _ => none) idents contents slavecount := by
    intro i slavelist mid _ _ hlookup
    cases hlookup
  obtain ⟨r,st1,hrun,hfilled⟩ := configSlavesBy_run manualstatechange hs hends hsteps hprev eepSM h
  obtain ⟨r',st2,hrun',hfilled'⟩ := configSlavesBy_run manualstatechange hs hends hsteps hnone
    eepSM h
  have hsame : r'.2=r.2 := hfilled'.unique hfilled
  exact ⟨r.2,⟨r.1,st1,hrun⟩,r'.1,st2,by rw [← hsame]; exact hrun'⟩

end Slave

/-- EEPROMs that are erased from the start of the SII area on. -/
def erasedContents (_ : UInt16) (_ : Nat) : UInt8 := 0xff

theorem erased_searchEnds (cat : UInt16) : SearchEnds (erasedContents 1) cat := by
  have hstop : sectionEnd (erasedContents 1) cat (ectSiiStart <<< 1)=ectSiiStart <<< 1 := by
    rw [sectionEnd,if_neg fun hgo => hgo.2.2 (by decide)]
  rw [SearchEnds,hstop]
  decide

/-- Two slaves of one identity: the second one gets the constructed name of the first. -/
theorem erased_line_safe :
    ∃ slavelist : SiiList,
      (∃ eepSM' st',configSlaves (lineContext erasedContents fun _ => false) 1 4096 false 2
        (EepromSm.zero,fun _ => freshSlave ⟨1,2,3,0x80,0x1000,0x80,0x1080⟩) (SiiState.start 0)=
          .ok ((eepSM',slavelist),st')) ∧
      ∃ eepSM' st',configSlavesBy (fun _ _ _ => none) (lineContext erasedContents fun _ => false) 1
        4096 false 2 (EepromSm.zero,fun _ => freshSlave ⟨1,2,3,0x80,0x1000,0x80,0x1080⟩)
        (SiiState.start 0)=.ok ((eepSM',slavelist),st') := by
  refine @prev_sii_safe _ _ _ _ _ erasedContents (fun _ => ⟨1,2,3,0x80,0x1000,0x80,0x1080⟩) false
    (fun p _ _ => lineContext_readable _ _ 0 _) ?_ ?_ ?_ _ _ ?_
  · exact fun p _ _ => ⟨erased_searchEnds _,erased_searchEnds _,erased_searchEnds _,
      erased_searchEnds _⟩
  · decide
  · exact fun i p _ _ _ _ _ _ => ⟨rfl,fun _ _ => rfl⟩
  · exact start_cached _ _

end EtherCATMaster.Config
