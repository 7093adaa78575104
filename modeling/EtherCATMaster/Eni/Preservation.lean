import EtherCATMaster.Eni.Tables

namespace EtherCATMaster.Eni

section Blocks

/-- What the data array holds for a command. An upload may have written over its own data. -/
structure Block (c : InitCmd) (b : List UInt8) : Prop where
  length : b.length=c.data.length
  kept : c.ccs≠1 → b=c.data

variable {c : InitCmd} {b : List UInt8}

theorem pointed_block (h : Block c b) (front behind : List UInt8) :
    pointed (front++(b++behind)) (placed c front.length) c.data.length=b := by
  rw [placed,← h.length]
  by_cases hpos : b.length>0
  · rw [if_pos hpos]
    change ((front++(b++behind)).drop front.length).take b.length=b
    rw [List.drop_left,List.take_left]
  · rw [if_neg hpos]
    exact (List.eq_nil_of_length_eq_zero (Nat.eq_zero_of_not_pos hpos)).symm

theorem store_block (h : Block c b) {bytes : List UInt8} (hlen : bytes.length ≤ c.data.length)
    (front behind : List UInt8) :
    store (front++(b++behind)) (placed c front.length) bytes=
      front++((bytes++b.drop bytes.length)++behind) := by
  rw [← h.length] at hlen
  rw [placed,← h.length]
  by_cases hpos : b.length>0
  · rw [if_pos hpos]
    change (front++(b++behind)).take front.length++bytes++
      (front++(b++behind)).drop (front.length+bytes.length)=_
    rw [List.take_left,List.drop_length_add_append,List.drop_append_of_le_length hlen]
    simp only [List.append_assoc]
  · have hnil : bytes=[] := List.eq_nil_of_length_eq_zero (by omega)
    rw [if_neg hpos,hnil]
    rfl

theorem Block.stored (h : Block c b) (hread : c.ccs=1) {bytes : List UInt8}
    (hlen : bytes.length ≤ c.data.length) : Block c (bytes++b.drop bytes.length) := by
  refine ⟨?_,fun hne => absurd hread hne⟩
  rw [List.length_append,List.length_drop,h.length]
  omega

end Blocks

section Loop

def chosen (transition : UInt16) (c : InitCmd) : Option Transfer :=
  if (genTransition c.transition).any fun value => value &&& transition≠0 then c.transfer else none

variable {σ : Type} {port : SdoPort σ} {slave transition : UInt16} {c : InitCmd}
  {data : Option Nat} {entry : EniCoeCmd}

theorem Compiled.chosen (h : Compiled c data entry) :
    Eni.chosen transition c=if entry.transition &&& transition≠0 then c.transfer else none := by
  rw [Eni.chosen,h.transition,Option.any_some]
  simp only [decide_eq_true_eq]

/-- What an `int` of C can hold is compiled as it is. -/
theorem Compiled.fits (h : Compiled c data entry) :
    entry.dataSize=c.data.length ∧ entry.timeout=c.timeout ↔
      c.data.length<2^31 ∧ -2^31 ≤ c.timeout ∧ c.timeout<2^31 := by
  rw [cInt_eq_self_iff h.dataSize,cInt_eq_self_iff h.timeout]
  omega

theorem coeCmdsLoop_skip {cmds : List EniCoeCmd} {coeData : List UInt8} {s : σ}
    (h : entry.transition &&& transition=0 ∨ (entry.ccs≠2 ∧ entry.ccs≠1)) :
    coeCmdsLoop port slave transition (entry::cmds) coeData s=
      coeCmdsLoop port slave transition cmds coeData s := by
  rw [coeCmdsLoop]
  rcases h with h|⟨htwo,hone⟩
  · rw [if_neg (fun hne => hne h)]
  · rw [if_neg htwo,if_neg hone]
    exact ite_self _

theorem coeCmdsLoop_download {cmds : List EniCoeCmd} {coeData : List UInt8} {s : σ}
    (h : Compiled c data entry) (hlisted : ¬entry.transition &&& transition=0) (htwo : c.ccs=2)
    (hfits : entry.dataSize=c.data.length ∧ entry.timeout=c.timeout)
    (hdata : pointed coeData data c.data.length=c.data) :
    coeCmdsLoop port slave transition (entry::cmds) coeData s=
      let r := port.transfer slave s (.download c.index c.subIdx c.ca c.data c.timeout)
      if r.1<1 then (0,coeData,r.2) else coeCmdsLoop port slave transition cmds coeData r.2 := by
  rw [coeCmdsLoop,if_pos hlisted,if_pos (h.ccs.trans htwo),h.index,h.subIdx,h.ca,h.data,hfits.1,
    hfits.2,hdata]
  rfl

theorem coeCmdsLoop_upload {cmds : List EniCoeCmd} {coeData : List UInt8} {s : σ}
    (h : Compiled c data entry) (hlisted : ¬entry.transition &&& transition=0) (hone : c.ccs=1)
    (hfits : entry.dataSize=c.data.length ∧ entry.timeout=c.timeout) :
    ∃ bytes,bytes.length ≤ c.data.length ∧
      coeCmdsLoop port slave transition (entry::cmds) coeData s=
        let r := port.transfer slave s (.upload c.index c.subIdx c.ca c.data.length c.timeout)
        if r.1<1 then (0,store coeData data bytes,r.2)
        else coeCmdsLoop port slave transition cmds (store coeData data bytes) r.2 := by
  have hccs : entry.ccs≠2 := by
    rw [h.ccs,hone]
    decide
  have hcall : (⟨slave,entry.index,entry.subIdx,entry.ca,entry.dataSize,entry.timeout⟩ : SdoRead)=
      ⟨slave,c.index,c.subIdx,c.ca,c.data.length,c.timeout⟩ := by
    rw [h.index,h.subIdx,h.ca,hfits.1,hfits.2]
  have hresult := congrArg (fun call => ((port.sdoRead call s).1,(port.sdoRead call s).2.2)) hcall
  have hbytes : (port.sdoRead ⟨slave,entry.index,entry.subIdx,entry.ca,entry.dataSize,
      entry.timeout⟩ s).2.1.1.length ≤ entry.dataSize.toNat := (port.sdoRead _ s).2.1.2
  refine ⟨_,hbytes.trans (Int.toNat_le.mpr hfits.1.le),?_⟩
  rw [coeCmdsLoop,if_pos hlisted,if_neg hccs,if_pos (h.ccs.trans hone),h.data,SdoPort.transfer]
  exact congrArg (fun r : Int × σ => if r.1<1 then (0,store coeData data _,r.2)
    else coeCmdsLoop port slave transition cmds (store coeData data _) r.2) hresult

/-- The loop makes the transfers of its commands, and the data of later ones stay as they are. -/
theorem coeCmdsLoop_transfers {cmds : List InitCmd} {blocks : List (List UInt8)}
    (hblocks : List.Forall₂ Block cmds blocks)
    (hfits : ∀ c ∈ cmds,∀ t,c.transfer=some t → t.Fits) {front : List UInt8}
    {entries : List EniCoeCmd}
    (hentries : genCoEEntries (cmds.zip (genCoEData front.length cmds))=some entries) (s : σ) :
    ∃ blocks',List.Forall₂ Block cmds blocks' ∧
      coeCmdsLoop port slave transition entries (front++blocks.flatten) s=
        ((runTransfers port slave (cmds.filterMap (Eni.chosen transition)) s).1,
          front++blocks'.flatten,
          (runTransfers port slave (cmds.filterMap (Eni.chosen transition)) s).2) := by
  induction hblocks generalizing front entries s with
  | nil =>
    obtain rfl := Option.some.inj hentries
    exact ⟨[],.nil,rfl⟩
  | @cons c b cmds blocks hb hrest ih =>
    obtain ⟨hfit,hfits⟩ := List.forall_mem_cons.mp hfits
    obtain ⟨entry,rest,hentry,hgen,rfl⟩ := genCoEEntries_cons hentries
    have hnext : ∀ b',Block c b' → ∀ s,∃ blocks',List.Forall₂ Block (c::cmds) blocks' ∧
        coeCmdsLoop port slave transition rest (front++(b'++blocks.flatten)) s=
          ((runTransfers port slave (cmds.filterMap (Eni.chosen transition)) s).1,
            front++blocks'.flatten,
            (runTransfers port slave (cmds.filterMap (Eni.chosen transition)) s).2) := by
      intro b' hb' s
      have hoffset : (front++b').length=front.length+c.data.length := by
        rw [List.length_append,hb'.length]
      rw [← hoffset] at hgen
      obtain ⟨blocks',hblocks',hloop⟩ := ih hfits hgen s
      rw [List.append_assoc] at hloop
      refine ⟨b'::blocks',.cons hb' hblocks',?_⟩
      rw [hloop,List.append_assoc,List.flatten_cons]
    rw [List.flatten_cons,List.filterMap_cons,hentry.chosen]
    by_cases hlisted : entry.transition &&& transition=0
    · rw [coeCmdsLoop_skip (.inl hlisted),if_neg (fun hne => hne hlisted)]
      exact hnext b hb s
    rw [if_pos hlisted]
    by_cases htwo : c.ccs=2
    · have htransfer : c.transfer=some (.download c.index c.subIdx c.ca c.data c.timeout) := by
        rw [InitCmd.transfer,if_pos htwo]
      have hkept : b=c.data := hb.kept (by rw [htwo]; decide)
      have hpointed := (pointed_block hb front blocks.flatten).trans hkept
      rw [coeCmdsLoop_download hentry hlisted htwo (hentry.fits.mpr (hfit _ htransfer)) hpointed,
        htransfer]
      simp only [runTransfers]
      by_cases hfailed : (port.transfer slave s
          (.download c.index c.subIdx c.ca c.data c.timeout)).1<1
      · rw [if_pos hfailed,if_pos hfailed]
        exact ⟨b::blocks,.cons hb hrest,rfl⟩
      · rw [if_neg hfailed,if_neg hfailed]
        exact hnext b hb _
    by_cases hone : c.ccs=1
    · have htransfer : c.transfer=
          some (.upload c.index c.subIdx c.ca c.data.length c.timeout) := by
        rw [InitCmd.transfer,if_neg htwo,if_pos hone]
      obtain ⟨bytes,hlen,hstep⟩ := @coeCmdsLoop_upload _ port slave transition _ _ _ rest
        (front++(b++blocks.flatten)) s hentry hlisted hone (hentry.fits.mpr (hfit _ htransfer))
      have hstored := hb.stored hone hlen
      rw [hstep,htransfer,store_block hb hlen]
      simp only [runTransfers]
      by_cases hfailed : (port.transfer slave s
          (.upload c.index c.subIdx c.ca c.data.length c.timeout)).1<1
      · rw [if_pos hfailed,if_pos hfailed]
        exact ⟨_::blocks,.cons hstored hrest,rfl⟩
      · rw [if_neg hfailed,if_neg hfailed]
        exact hnext _ hstored _
    · have htransfer : c.transfer=none := by rw [InitCmd.transfer,if_neg htwo,if_neg hone]
      rw [coeCmdsLoop_skip (.inr ⟨fun h => htwo (hentry.ccs.symm.trans h),
        fun h => hone (hentry.ccs.symm.trans h)⟩),htransfer]
      exact hnext b hb s

theorem chosen_eq_listed {cmds : List InitCmd} {offset : Nat} {entries : List EniCoeCmd}
    (hentries : genCoEEntries (cmds.zip (genCoEData offset cmds))=some entries) {name : String}
    {bit : UInt16} (hbit : (name,bit) ∈ ectEsmtrans) :
    ∀ c ∈ cmds,Eni.chosen bit c=listed name c := by
  induction cmds generalizing offset entries with
  | nil => exact fun _ hc => absurd hc List.not_mem_nil
  | cons c cmds ih =>
    obtain ⟨entry,rest,hentry,hgen,-⟩ := genCoEEntries_cons hentries
    rw [List.forall_mem_cons]
    refine ⟨?_,ih hgen⟩
    rw [hentry.chosen,listed]
    exact if_congr (genTransition_bit hentry.transition hbit) rfl rfl

theorem transition_of_entries {cmds : List InitCmd} {offset : Nat} {entries : List EniCoeCmd}
    (hentries : genCoEEntries (cmds.zip (genCoEData offset cmds))=some entries) :
    ∀ c ∈ cmds,∃ value,genTransition c.transition=some value := by
  induction cmds generalizing offset entries with
  | nil => exact fun _ hc => absurd hc List.not_mem_nil
  | cons c cmds ih =>
    obtain ⟨entry,rest,hentry,hgen,-⟩ := genCoEEntries_cons hentries
    exact List.forall_mem_cons.mpr ⟨⟨_,hentry.transition⟩,ih hgen⟩

end Loop

section Calls

/-- What the tables have from the configuration. -/
structure Tables (config : List SlaveConfig) (eni : List EniSlave) : Prop where
  distinct : (config.map SlaveConfig.slave).Nodup
  sorted : (eni.map EniSlave.slave).Pairwise (· < ·)
  all : ∀ s ∈ config,s.coeCmds≠[] → ∃ entry ∈ eni,genSlave s=some entry
  only : ∀ entry ∈ eni,∃ s ∈ config,s.coeCmds≠[] ∧ genSlave s=some entry

theorem genConfig_tables {config : List SlaveConfig} {eni : List EniSlave}
    (h : genConfig config=some eni) (hdistinct : (config.map SlaveConfig.slave).Nodup) :
    Tables config eni := by
  let r : SlaveConfig → SlaveConfig → Prop := fun a b => a.slave ≤ b.slave
  have htotal : Std.Total r := ⟨fun a b => UInt16.le_total a.slave b.slave⟩
  have htrans : IsTrans SlaveConfig r := ⟨fun _ _ _ hab hbc => UInt16.le_trans hab hbc⟩
  have hperm : (config.insertionSort r).Perm config := List.perm_insertionSort r config
  have hsorted := List.pairwise_map.mpr (List.pairwise_insertionSort r config)
  have hnodup := (hperm.map SlaveConfig.slave).nodup_iff.mpr hdistinct
  have hstrict := (hsorted.and hnodup).imp (fun hab => UInt16.lt_of_le_of_ne hab.1 hab.2)
  obtain ⟨hall,honly⟩ := genSlaves_mem h
  refine ⟨hdistinct,hstrict.sublist (genSlaves_sublist h),?_,?_⟩
  · exact fun s hs => hall s (hperm.mem_iff.mpr hs)
  · intro entry hentry
    obtain ⟨s,hs,hgen⟩ := honly entry hentry
    exact ⟨s,hperm.mem_iff.mp hs,hgen⟩

theorem genSlave_spec {s : SlaveConfig} {entry : EniSlave} (h : genSlave s=some entry) :
    entry.slave=s.slave ∧ entry.vendorId=s.vendorId ∧ entry.productCode=s.productCode ∧
      entry.revisionNo=s.revisionNo ∧
      genCoEEntries (s.coeCmds.zip (genCoEData 0 s.coeCmds))=some entry.coeCmds ∧
      entry.coeData=(s.coeCmds.map InitCmd.data).flatten := by
  obtain ⟨cmds,hcmds,h⟩ := Option.bind_eq_some_iff.mp h
  obtain rfl := Option.some.inj h
  exact ⟨rfl,rfl,rfl,rfl,hcmds,rfl⟩

def Intact (config : List SlaveConfig) (coeData : UInt16 → List UInt8) : Prop :=
  ∀ s ∈ config,s.coeCmds≠[] → ∃ blocks,coeData s.slave=blocks.flatten ∧
    List.Forall₂ Block s.coeCmds blocks

def AllFit (config : List SlaveConfig) : Prop :=
  ∀ s ∈ config,∀ c ∈ s.coeCmds,∀ t,c.transfer=some t → t.Fits

variable {config : List SlaveConfig} {eni : List EniSlave} {coeData : UInt16 → List UInt8}

theorem Tables.found (h : Tables config eni) {s : SlaveConfig} {entry : EniSlave}
    (hmem : entry ∈ eni) (hgen : genSlave s=some entry) : eniSlaveAt s.slave eni=some entry := by
  rw [← (genSlave_spec hgen).1]
  exact eniSlaveAt_mem h.sorted hmem

theorem Tables.slave_inj (h : Tables config eni) {s s' : SlaveConfig} (hs : s ∈ config)
    (hs' : s' ∈ config) (heq : s.slave=s'.slave) : s=s' :=
  List.inj_on_of_nodup_map h.distinct hs hs' heq

theorem compiled_intact (h : Tables config eni) : Intact config (compiledData eni) := by
  intro s hs hne
  obtain ⟨entry,hentry,hgen⟩ := h.all s hs hne
  have hnumber := (genSlave_spec hgen).1
  refine ⟨s.coeCmds.map InitCmd.data,?_,?_⟩
  · rw [compiledData]
    cases hfind : eni.find? fun e => decide (e.slave=s.slave) with
    | none =>
      have hno := List.find?_eq_none.mp hfind entry hentry
      exact absurd (decide_eq_true hnumber) hno
    | some e =>
      have hfound := List.find?_some (p := fun e : EniSlave => decide (e.slave=s.slave)) hfind
      have hsame : e.slave=entry.slave := (of_decide_eq_true hfound).trans hnumber.symm
      have hnodup : (eni.map EniSlave.slave).Nodup := h.sorted.imp (fun hlt => UInt16.ne_of_lt hlt)
      obtain rfl := List.inj_on_of_nodup_map hnodup (List.mem_of_find?_eq_some hfind) hentry hsame
      exact (genSlave_spec hgen).2.2.2.2.2
  · rw [List.forall₂_map_right_iff,List.forall₂_same]
    exact fun c _ => ⟨rfl,fun _ => rfl⟩

variable {σ : Type} {port : SdoPort σ} {slavelist : UInt16 → SlaveIdent} {s : σ}

theorem loop_transfers {c : SlaveConfig} {entry : EniSlave} (hne : c.coeCmds≠[])
    (hc : c ∈ config) (hgen : genSlave c=some entry) (hfits : AllFit config)
    (hintact : Intact config coeData) (transition : UInt16) :
    ∃ blocks,List.Forall₂ Block c.coeCmds blocks ∧
      coeCmdsLoop port c.slave transition entry.coeCmds (coeData c.slave) s=
        ((runTransfers port c.slave (c.coeCmds.filterMap (chosen transition)) s).1,blocks.flatten,
          (runTransfers port c.slave (c.coeCmds.filterMap (chosen transition)) s).2) := by
  obtain ⟨blocks,hdata,hblocks⟩ := hintact c hc hne
  obtain ⟨-,-,-,-,hcmds,-⟩ := genSlave_spec hgen
  rw [hdata]
  exact @coeCmdsLoop_transfers σ port c.slave transition c.coeCmds blocks hblocks (hfits c hc) []
    entry.coeCmds hcmds s

theorem mbxEniInitcmds_absent {number transition : UInt16} (h : ∀ e ∈ eni,e.slave≠number) :
    mbxEniInitcmds port slavelist eni number transition coeData s=(1,coeData,s) := by
  rw [mbxEniInitcmds]
  cases hfound : eniSlaveAt number eni with
  | none => rfl
  | some e =>
    have hne : number≠e.slave := fun heq => h e (mem_of_eniSlaveAt hfound) heq.symm
    simp only [if_neg hne]

theorem mbxEniInitcmds_intact (h : Tables config eni) (hfits : AllFit config)
    (hintact : Intact config coeData) (number transition : UInt16) :
    Intact config (mbxEniInitcmds port slavelist eni number transition coeData s).2.1 := by
  rw [mbxEniInitcmds]
  cases hfound : eniSlaveAt number eni with
  | none => exact hintact
  | some e =>
    obtain ⟨c,hc,hne,hgen⟩ := h.only e (mem_of_eniSlaveAt hfound)
    simp only []
    split_ifs with hnumber hident hcoe
    · have hslave : number=c.slave := hnumber.trans (genSlave_spec hgen).1
      obtain ⟨blocks,hblocks,hloop⟩ :=
        @loop_transfers config coeData σ port s c e hne hc hgen hfits hintact transition
      rw [hslave,hloop]
      intro c' hc' hne'
      by_cases hsame : c'.slave=c.slave
      · obtain rfl := h.slave_inj hc' hc hsame
        exact ⟨blocks,Function.update_self _ _ _,hblocks⟩
      · obtain ⟨blocks',hdata,hblocks'⟩ := hintact c' hc' hne'
        exact ⟨blocks',(Function.update_of_ne hsame _ _).trans hdata,hblocks'⟩
    · exact hintact
    · exact hintact
    · exact hintact

theorem Reached.intact (h : Tables config eni) (hfits : AllFit config)
    (hreached : Reached eni coeData) : Intact config coeData := by
  induction hreached with
  | compiled => exact compiled_intact h
  | call port slavelist slave transition s _ ih => exact mbxEniInitcmds_intact h hfits ih _ _

/-- What the search compares is what the slave has. -/
structure SameIdent (c : SlaveConfig) (ident : SlaveIdent) : Prop where
  vendorId : c.vendorId=ident.eepMan
  productCode : c.productCode=ident.eepId
  revisionNo : c.revisionNo=ident.eepRev
  coe : ident.mbxProto &&& ectMbxprotCoe≠0

theorem mbxEniInitcmds_entered {c : SlaveConfig} {entry : EniSlave} (h : Tables config eni)
    (hentry : entry ∈ eni) (hgen : genSlave c=some entry)
    (hident : SameIdent c (slavelist c.slave)) (transition : UInt16) :
    mbxEniInitcmds port slavelist eni c.slave transition coeData s=
      let r := coeCmdsLoop port c.slave transition entry.coeCmds (coeData c.slave) s
      (r.1,Function.update coeData c.slave r.2.1,r.2.2) := by
  obtain ⟨hnumber,hvendor,hproduct,hrevision,-,-⟩ := genSlave_spec hgen
  rw [mbxEniInitcmds,h.found hentry hgen]
  simp only [if_pos hnumber.symm]
  rw [if_pos ⟨hvendor.trans hident.vendorId,hproduct.trans hident.productCode,
    hrevision.trans hident.revisionNo⟩,if_pos hident.coe]

theorem mbxEniInitcmds_transfers {c : SlaveConfig} (h : Tables config eni) (hfits : AllFit config)
    (hintact : Intact config coeData) (hc : c ∈ config)
    (hident : SameIdent c (slavelist c.slave)) (transition : UInt16) :
    (mbxEniInitcmds port slavelist eni c.slave transition coeData s).1=
        (runTransfers port c.slave (c.coeCmds.filterMap (chosen transition)) s).1 ∧
      (mbxEniInitcmds port slavelist eni c.slave transition coeData s).2.2=
        (runTransfers port c.slave (c.coeCmds.filterMap (chosen transition)) s).2 := by
  by_cases hne : c.coeCmds=[]
  · have habsent : ∀ e ∈ eni,e.slave≠c.slave := by
      intro e he heq
      obtain ⟨c',hc',hne',hgen⟩ := h.only e he
      obtain rfl := h.slave_inj hc' hc ((genSlave_spec hgen).1.symm.trans heq)
      exact hne' hne
    rw [mbxEniInitcmds_absent habsent,hne]
    exact ⟨rfl,rfl⟩
  · obtain ⟨entry,hentry,hgen⟩ := h.all c hc hne
    obtain ⟨blocks,-,hloop⟩ :=
      @loop_transfers config coeData σ port s c entry hne hc hgen hfits hintact transition
    rw [mbxEniInitcmds_entered h hentry hgen hident,hloop]
    exact ⟨rfl,rfl⟩

end Calls

end EtherCATMaster.Eni
