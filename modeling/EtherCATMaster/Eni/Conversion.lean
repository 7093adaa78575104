import EtherCATMaster.Eni.Preservation

namespace EtherCATMaster.Eni

section Recording

inductive SdoCall where
  | write (call : SdoWrite)
  | read (call : SdoRead)

def SdoCall.timeout : SdoCall → Int
  | write call => call.timeout
  | read call => call.timeout

def recorder : SdoPort (List SdoCall) where
  sdoWrite call log := (1,log++[.write call])
  sdoRead call log := (1,⟨[],Nat.zero_le _⟩,log++[.read call])

def Transfer.call (slave : UInt16) : Transfer → SdoCall
  | download index subIndex ca data timeout =>
    .write ⟨slave,index,subIndex,ca,data.length,data,timeout⟩
  | upload index subIndex ca size timeout => .read ⟨slave,index,subIndex,ca,size,timeout⟩

/-- The call of an entry, with the data array at hand. -/
def EniCoeCmd.call (slave : UInt16) (coeData : List UInt8) (cmd : EniCoeCmd) : Option SdoCall :=
  if cmd.ccs=2 then some (.write ⟨slave,cmd.index,cmd.subIdx,cmd.ca,cmd.dataSize,
    pointed coeData cmd.data cmd.dataSize,cmd.timeout⟩)
  else if cmd.ccs=1 then
    some (.read ⟨slave,cmd.index,cmd.subIdx,cmd.ca,cmd.dataSize,cmd.timeout⟩)
  else none

def EniCoeCmd.called (slave transition : UInt16) (coeData : List UInt8) (cmd : EniCoeCmd) :
    Option SdoCall :=
  if cmd.transition &&& transition≠0 then cmd.call slave coeData else none

theorem runTransfers_recorded (slave : UInt16) (ts : List Transfer) (log : List SdoCall) :
    runTransfers recorder slave ts log=(1,log++ts.map (Transfer.call slave)) := by
  induction ts generalizing log with
  | nil => rw [runTransfers,List.map_nil,List.append_nil]
  | cons t ts ih =>
    have hstep : recorder.transfer slave log t=(1,log++[t.call slave]) := by cases t <;> rfl
    rw [runTransfers,hstep,if_neg (Int.lt_irrefl 1),ih,List.map_cons,List.append_assoc,
      List.singleton_append]

theorem store_nil (coeData : List UInt8) (data : Option Nat) : store coeData data []=coeData := by
  cases data with
  | none => rfl
  | some offset =>
    change coeData.take offset++[]++coeData.drop offset=coeData
    rw [List.append_nil,List.take_append_drop]

theorem coeCmdsLoop_recorded (slave transition : UInt16) (cmds : List EniCoeCmd)
    (coeData : List UInt8) (log : List SdoCall) :
    coeCmdsLoop recorder slave transition cmds coeData log=
      (1,coeData,log++cmds.filterMap (EniCoeCmd.called slave transition coeData)) := by
  induction cmds generalizing log with
  | nil => rw [coeCmdsLoop,List.filterMap_nil,List.append_nil]
  | cons cmd cmds ih =>
    rw [List.filterMap_cons,EniCoeCmd.called]
    by_cases hlisted : cmd.transition &&& transition=0
    · rw [coeCmdsLoop_skip (.inl hlisted),if_neg (fun hne => hne hlisted),ih]
    rw [if_pos hlisted,EniCoeCmd.call]
    by_cases htwo : cmd.ccs=2
    · rw [if_pos htwo,coeCmdsLoop,if_pos hlisted,if_pos htwo]
      change coeCmdsLoop recorder slave transition cmds coeData (log++[_])=_
      rw [ih,List.append_assoc,List.singleton_append]
    by_cases hone : cmd.ccs=1
    · rw [if_neg htwo,if_pos hone,coeCmdsLoop,if_pos hlisted,if_neg htwo,if_pos hone]
      change coeCmdsLoop recorder slave transition cmds (store coeData cmd.data []) (log++[_])=_
      rw [store_nil,ih,List.append_assoc,List.singleton_append]
    · rw [if_neg htwo,if_neg hone,coeCmdsLoop_skip (.inr ⟨htwo,hone⟩),ih]

/-- Calls that are the transfers have their sizes and timeouts, so these fit. -/
theorem fits_of_calls {slave transition : UInt16} {coeData : List UInt8} {cmds : List InitCmd}
    {offset : Nat} {entries : List EniCoeCmd}
    (hentries : genCoEEntries (cmds.zip (genCoEData offset cmds))=some entries)
    (h : entries.filterMap (EniCoeCmd.called slave transition coeData)=
      (cmds.filterMap (chosen transition)).map (Transfer.call slave)) :
    ∀ c ∈ cmds,∀ t,chosen transition c=some t → t.Fits := by
  induction cmds generalizing offset entries with
  | nil => exact fun _ hc => absurd hc List.not_mem_nil
  | cons c cmds ih =>
    obtain ⟨entry,rest,hentry,hgen,rfl⟩ := genCoEEntries_cons hentries
    rw [List.forall_mem_cons]
    rw [List.filterMap_cons,List.filterMap_cons,hentry.chosen,EniCoeCmd.called] at h
    rw [hentry.chosen]
    by_cases hlisted : entry.transition &&& transition=0
    · rw [if_neg (fun hne => hne hlisted)] at h ⊢
      rw [if_neg (fun hne => hne hlisted)] at h
      exact ⟨fun t ht => absurd ht (Option.some_ne_none t).symm,ih hgen h⟩
    rw [if_pos hlisted] at h ⊢
    rw [if_pos hlisted,EniCoeCmd.call,hentry.ccs,InitCmd.transfer] at h
    rw [InitCmd.transfer]
    by_cases htwo : c.ccs=2
    · rw [if_pos htwo] at h ⊢
      rw [if_pos htwo] at h
      obtain ⟨hhead,htail⟩ := List.cons.inj h
      have hcall := SdoCall.write.inj hhead
      have hfits := hentry.fits.mp
        ⟨congrArg SdoWrite.psize hcall,congrArg SdoWrite.timeout hcall⟩
      refine ⟨?_,ih hgen htail⟩
      rintro t ⟨⟩
      exact hfits
    rw [if_neg htwo] at h ⊢
    rw [if_neg htwo] at h
    by_cases hone : c.ccs=1
    · rw [if_pos hone] at h ⊢
      rw [if_pos hone] at h
      obtain ⟨hhead,htail⟩ := List.cons.inj h
      have hcall := SdoCall.read.inj hhead
      have hfits := hentry.fits.mp ⟨congrArg SdoRead.psize hcall,congrArg SdoRead.timeout hcall⟩
      refine ⟨?_,ih hgen htail⟩
      rintro t ⟨⟩
      exact hfits
    · rw [if_neg hone] at h ⊢
      rw [if_neg hone] at h
      exact ⟨fun t ht => absurd ht (Option.some_ne_none t).symm,ih hgen h⟩

end Recording

section Conversion

variable {int0 : String → Option Int} {fromhex : String → Option (List UInt8)} {root : Element}
  {slaves : List Element} {config : List SlaveConfig} {eni : List EniSlave}

theorem parseENI_slaves (h : parseENI int0 fromhex root=some config)
    (hslaves : slavesOf root=some slaves) : parseSlavesFrom int0 fromhex 0 slaves=some config := by
  obtain ⟨element,helement,hslaves⟩ := Option.bind_eq_some_iff.mp hslaves
  obtain rfl := Option.some.inj hslaves
  obtain ⟨element',helement',hparsed⟩ := Option.bind_eq_some_iff.mp h
  obtain rfl := Option.some.inj (helement.symm.trans helement')
  exact hparsed

theorem parsed_at (h : parseSlavesFrom int0 fromhex 0 slaves=some config) {k : Nat}
    {slave : Element} {c : SlaveConfig} (hslave : slaves[k]?=some slave)
    (hc : config[k]?=some c) : Parsed int0 fromhex k slave c := by
  have hparsed := (parseSlavesFrom_get h).2 k slave c hslave hc
  rwa [Nat.zero_add] at hparsed

theorem config_of_slave (h : parseSlavesFrom int0 fromhex 0 slaves=some config) {k : Nat}
    {slave : Element} (hslave : slaves[k]?=some slave) :
    ∃ c ∈ config,config[k]?=some c ∧ Parsed int0 fromhex k slave c := by
  obtain ⟨hk,-⟩ := List.getElem?_eq_some_iff.mp hslave
  rw [(parseSlavesFrom_get h).1] at hk
  have hc := List.getElem?_eq_getElem hk
  exact ⟨_,List.mem_of_getElem? hc,hc,parsed_at h hslave hc⟩

theorem slave_of_config (h : parseSlavesFrom int0 fromhex 0 slaves=some config)
    {c : SlaveConfig} {k : Nat} (hc : config[k]?=some c) :
    ∃ slave ∈ slaves,slaves[k]?=some slave ∧ Parsed int0 fromhex k slave c := by
  obtain ⟨hk,-⟩ := List.getElem?_eq_some_iff.mp hc
  rw [← (parseSlavesFrom_get h).1] at hk
  have hslave := List.getElem?_eq_getElem hk
  exact ⟨_,List.mem_of_getElem? hslave,hslave,parsed_at h hslave hc⟩

theorem config_distinct (h : parseSlavesFrom int0 fromhex 0 slaves=some config)
    (hdistinct : DistinctNumbers int0 slaves) : (config.map SlaveConfig.slave).Nodup := by
  rw [List.nodup_iff_getElem?_ne_getElem?]
  intro j k hjk hk heq
  rw [List.length_map] at hk
  have hj := List.getElem?_eq_getElem (hjk.trans hk)
  have hk := List.getElem?_eq_getElem hk
  rw [List.getElem?_map,List.getElem?_map,hj,hk] at heq
  obtain ⟨slave,-,hslave,hparsed⟩ := slave_of_config h hj
  obtain ⟨slave',-,hslave',hparsed'⟩ := slave_of_config h hk
  have hnumber := hparsed'.number
  rw [← Option.some.inj heq] at hnumber
  exact absurd (hdistinct j k _ _ _ hslave hslave' hparsed.number hnumber) (Nat.ne_of_lt hjk)

/-- All transfers of a document fit. -/
def DocumentFits (int0 : String → Option Int) (fromhex : String → Option (List UInt8))
    (slaves : List Element) : Prop :=
  ∀ slave ∈ slaves,∀ cmd ∈ initCmdsOf slave,Enabled cmd →
    ∀ t,transferOf int0 fromhex cmd=some (some t) → t.Fits

theorem documentFits_iff (h : parseSlavesFrom int0 fromhex 0 slaves=some config) :
    DocumentFits int0 fromhex slaves ↔ AllFit config := by
  constructor
  · intro hfits c hc
    obtain ⟨k,hk⟩ := List.mem_iff_getElem?.mp hc
    obtain ⟨slave,hmem,-,hparsed⟩ := slave_of_config h hk
    exact (parsed_transfers_iff hparsed.coeCmds _).mp (hfits slave hmem)
  · intro hfits slave hslave
    obtain ⟨k,hk⟩ := List.mem_iff_getElem?.mp hslave
    obtain ⟨c,hc,-,hparsed⟩ := config_of_slave h hk
    exact (parsed_transfers_iff hparsed.coeCmds _).mpr (hfits c hc)

theorem Tables.listed (h : Tables config eni) {c : SlaveConfig} (hc : c ∈ config) {name : String}
    {bit : UInt16} (hbit : (name,bit) ∈ ectEsmtrans) :
    c.coeCmds.filterMap (chosen bit)=c.coeCmds.filterMap (Eni.listed name) := by
  by_cases hne : c.coeCmds=[]
  · rw [hne]
    rfl
  · obtain ⟨entry,-,hgen⟩ := h.all c hc hne
    obtain ⟨-,-,-,-,hcmds,-⟩ := genSlave_spec hgen
    exact List.filterMap_congr (chosen_eq_listed hcmds hbit)

theorem sameIdent_of_matches {k : Nat} {slave : Element} {c : SlaveConfig} {ident : SlaveIdent}
    (hparsed : Parsed int0 fromhex k slave c) (h : Matches int0 slave ident) :
    SameIdent c ident :=
  ⟨Option.some.inj (hparsed.vendorId.symm.trans h.vendorId),
    Option.some.inj (hparsed.productCode.symm.trans h.productCode),
    Option.some.inj (hparsed.revisionNo.symm.trans h.revisionNo),h.coe⟩

theorem preserved_of_fits (h : parseSlavesFrom int0 fromhex 0 slaves=some config)
    (htables : Tables config eni) (hfits : AllFit config) :
    Preserved int0 fromhex slaves eni := by
  constructor
  · intro σ port slavelist s coeData k slave number name bit hreached hslave hnumber hmatch hbit
    obtain ⟨c,hc,-,hparsed⟩ := config_of_slave h hslave
    obtain rfl := Option.some.inj (hparsed.number.symm.trans hnumber)
    have hintact := hreached.intact htables hfits
    have hcall := @mbxEniInitcmds_transfers config eni coeData σ port slavelist s c htables hfits
      hintact hc (sameIdent_of_matches hparsed hmatch) bit
    rw [htables.listed hc hbit] at hcall
    exact ⟨_,transfersOf_parsed hparsed.coeCmds name,hcall⟩
  · intro σ port slavelist s coeData number transition _ hnone
    apply mbxEniInitcmds_absent
    intro e he heq
    obtain ⟨c,hc,hne,hgen⟩ := htables.only e he
    obtain ⟨k,hk⟩ := List.mem_iff_getElem?.mp hc
    obtain ⟨slave,-,hslave,hparsed⟩ := slave_of_config h hk
    have hnumber := hparsed.number
    rw [← (genSlave_spec hgen).1,heq] at hnumber
    exact hne ((parsed_nil_iff hparsed.coeCmds).mpr (hnone k slave hslave hnumber))

theorem fits_of_preserved (h : parseSlavesFrom int0 fromhex 0 slaves=some config)
    (htables : Tables config eni) (hpreserved : Preserved int0 fromhex slaves eni) :
    AllFit config := by
  intro c hc cmd hcmd t ht
  have hne := List.ne_nil_of_mem hcmd
  obtain ⟨k,hk⟩ := List.mem_iff_getElem?.mp hc
  obtain ⟨slave,-,hslave,hparsed⟩ := slave_of_config h hk
  obtain ⟨entry,hentry,hgen⟩ := htables.all c hc hne
  obtain ⟨-,-,-,-,hcmds,-⟩ := genSlave_spec hgen
  obtain ⟨value,hvalue⟩ := transition_of_entries hcmds cmd hcmd
  obtain ⟨name,bit,hbit,hname⟩ := genTransition_some hvalue
  let ident : SlaveIdent := ⟨c.vendorId,c.productCode,c.revisionNo,ectMbxprotCoe⟩
  have hcoe : ectMbxprotCoe &&& ectMbxprotCoe≠0 := by decide
  have hmatch : Matches int0 slave ident :=
    ⟨hparsed.vendorId,hparsed.productCode,hparsed.revisionNo,hcoe⟩
  obtain ⟨ts,hts,-,hlog⟩ := hpreserved.transfers recorder (fun _ => ident) [] _ k slave c.slave name
    bit .compiled hslave hparsed.number hmatch hbit
  obtain rfl := Option.some.inj ((transfersOf_parsed hparsed.coeCmds name).symm.trans hts)
  rw [mbxEniInitcmds_entered htables hentry hgen ⟨rfl,rfl,rfl,hcoe⟩,coeCmdsLoop_recorded,
    runTransfers_recorded,← htables.listed hc hbit] at hlog
  have hchosen : chosen bit cmd=some t := by
    rw [chosen_eq_listed hcmds hbit cmd hcmd,Eni.listed,if_pos hname,ht]
  exact fits_of_calls hcmds hlog cmd hcmd t hchosen

end Conversion

section Example

/-- `int` with base 0, of decimal digits. -/
def decimal (text : String) : Option Int :=
  if text.toList=[] then none
  else text.toList.foldlM (fun n d => if d.isDigit then some (10*n+(d.toNat-48 : Nat)) else none) 0

def hexDigit (d : Char) : Option Nat :=
  if d.isDigit then some (d.toNat-48)
  else if 97 ≤ d.toNat ∧ d.toNat ≤ 102 then some (d.toNat-87)
  else none

/-- `fromhex`, of pairs of digits without blanks. -/
def hexPairs : List Char → Option (List UInt8)
  | [] => some []
  | [_] => none
  | a::b::rest => do pure (UInt8.ofNat (16*(← hexDigit a)+(← hexDigit b))::(← hexPairs rest))

def hexBytes (text : String) : Option (List UInt8) := hexPairs text.toList

def leaf (tag text : String) : Element := .mk tag [] (some text) []

def downloadWithin (timeout : String) : Element :=
  .mk "InitCmd" [] none [leaf "Transition" "PS",leaf "Timeout" timeout,leaf "Ccs" "2",
    leaf "Index" "7187",leaf "SubIndex" "0",leaf "Data" "021a"]

def slaveWithin (timeout : String) : Element :=
  .mk "Slave" [] none [
    .mk "Info" [] none [leaf "VendorId" "1",leaf "ProductCode" "4660",leaf "RevisionNo" "0"],
    .mk "Mailbox" [] none [.mk "CoE" [] none [.mk "InitCmds" [] none [downloadWithin timeout]]]]

def documentWithin (timeout : String) : Element :=
  .mk "EtherCATConfig" [] none [.mk "Config" [] none [slaveWithin timeout]]

/-- The tables of the document, with the timeout in microseconds. -/
def tablesWithin (timeout : Int) : List EniSlave :=
  [⟨1,1,4660,0,[⟨2,false,2,7187,0,timeout,2,some 0⟩],[2,26]⟩]

theorem single_distinct (slave : Element) : DistinctNumbers decimal [slave] := by
  intro j k e e' number hj hk _ _
  have hlt := (List.getElem?_eq_some_iff.mp hj).1
  have hlt' := (List.getElem?_eq_some_iff.mp hk).1
  rw [List.length_singleton] at hlt hlt'
  omega

end Example

end EtherCATMaster.Eni
