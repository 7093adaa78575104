import EtherCATMaster.Eni.Transfers
import Mathlib.Data.List.Forall2

namespace EtherCATMaster.Eni

variable {int0 : String → Option Int} {fromhex : String → Option (List UInt8)}

section Parsing

def InitCmd.transfer (c : InitCmd) : Option Transfer :=
  if c.ccs=2 then some (.download c.index c.subIdx c.ca c.data c.timeout)
  else if c.ccs=1 then some (.upload c.index c.subIdx c.ca c.data.length c.timeout)
  else none

theorem parseCoEInitCmd_spec {cmd : Element} {c : InitCmd}
    (h : parseCoEInitCmd int0 fromhex cmd=some c) :
    transferOf int0 fromhex cmd=some c.transfer ∧
      c.transition=(getElements cmd ["Transition"]).map Element.text := by
  simp only [parseCoEInitCmd,Option.bind_eq_bind,Option.bind_eq_some_iff,Option.pure_def,
    Option.some_inj] at h
  obtain ⟨comment,-,ccs,hccs,index,hindex,subIdx,hsub,timeout,htimeout,text,htext,value,hvalue,data,
    hdata,rfl⟩ := h
  refine ⟨?_,rfl⟩
  simp only [transferOf,hccs,hindex,hsub,htimeout,htext,hvalue,hdata,Option.bind_eq_bind,
    Option.bind_some,Option.pure_def,InitCmd.transfer]
  split_ifs <;> rfl

theorem parseCoEInitCmds_cons {cmd : Element} {cmds : List Element} {cs : List InitCmd}
    (h : parseCoEInitCmds int0 fromhex (cmd::cmds)=some cs) :
    (¬Enabled cmd ∧ parseCoEInitCmds int0 fromhex cmds=some cs) ∨
    (Enabled cmd ∧ ∃ c cs',parseCoEInitCmd int0 fromhex cmd=some c ∧
      parseCoEInitCmds int0 fromhex cmds=some cs' ∧ cs=c::cs') := by
  rw [parseCoEInitCmds] at h
  obtain ⟨disabled,hdisabled,h⟩ := Option.bind_eq_some_iff.mp h
  by_cases hone : disabled=some "1"
  · rw [if_pos hone] at h
    exact .inl ⟨fun hen => hen (hdisabled.trans (congrArg some hone)),h⟩
  · rw [if_neg hone] at h
    obtain ⟨c,hc,h⟩ := Option.bind_eq_some_iff.mp h
    obtain ⟨cs',hcs,h⟩ := Option.bind_eq_some_iff.mp h
    refine .inr ⟨fun hd => ?_,c,cs',hc,hcs,(Option.some.inj h).symm⟩
    exact hone (Option.some.inj (hdisabled.symm.trans hd))

def listed (name : String) (c : InitCmd) : Option Transfer :=
  if some name ∈ c.transition then c.transfer else none

theorem transfersOf_parsed {cmds : List Element} {cs : List InitCmd}
    (h : parseCoEInitCmds int0 fromhex cmds=some cs) (name : String) :
    transfersOf int0 fromhex name cmds=some (cs.filterMap (listed name)) := by
  induction cmds generalizing cs with
  | nil =>
    obtain rfl := Option.some.inj h
    rfl
  | cons cmd cmds ih =>
    rw [transfersOf]
    rcases parseCoEInitCmds_cons h with ⟨hoff,hrest⟩|⟨hon,c,cs',hc,hrest,rfl⟩
    · rw [if_neg (fun hb => hoff hb.1),ih hrest]
    · obtain ⟨htransfer,htransition⟩ := parseCoEInitCmd_spec hc
      have hlists : Lists name cmd ↔ some name ∈ c.transition := by rw [htransition]; rfl
      rw [List.filterMap_cons,listed,htransfer,ih hrest]
      by_cases hmem : some name ∈ c.transition
      · rw [if_pos ⟨hon,hlists.mpr hmem⟩,if_pos hmem]
        cases c.transfer <;> rfl
      · rw [if_neg (fun hb => hmem (hlists.mp hb.2)),if_neg hmem]

theorem parsed_nil_iff {cmds : List Element} {cs : List InitCmd}
    (h : parseCoEInitCmds int0 fromhex cmds=some cs) :
    cs=[] ↔ ∀ cmd ∈ cmds,¬Enabled cmd := by
  induction cmds generalizing cs with
  | nil =>
    obtain rfl := Option.some.inj h
    exact iff_of_true rfl (fun _ hmem => absurd hmem List.not_mem_nil)
  | cons cmd cmds ih =>
    rw [List.forall_mem_cons]
    rcases parseCoEInitCmds_cons h with ⟨hoff,hrest⟩|⟨hon,c,cs',-,-,rfl⟩
    · rw [ih hrest]
      exact (and_iff_right hoff).symm
    · exact iff_of_false (List.cons_ne_nil c cs') (fun hall => hall.1 hon)

theorem parsed_transfers_iff {cmds : List Element} {cs : List InitCmd}
    (h : parseCoEInitCmds int0 fromhex cmds=some cs) (P : Transfer → Prop) :
    (∀ cmd ∈ cmds,Enabled cmd → ∀ t,transferOf int0 fromhex cmd=some (some t) → P t) ↔
      ∀ c ∈ cs,∀ t,c.transfer=some t → P t := by
  induction cmds generalizing cs with
  | nil =>
    obtain rfl := Option.some.inj h
    simp
  | cons cmd cmds ih =>
    rw [List.forall_mem_cons]
    rcases parseCoEInitCmds_cons h with ⟨hoff,hrest⟩|⟨hon,c,cs',hc,hrest,rfl⟩
    · rw [ih hrest]
      exact and_iff_right (fun hon => absurd hon hoff)
    · rw [List.forall_mem_cons,ih hrest,(parseCoEInitCmd_spec hc).1]
      simp [hon]

/-- What a slave of the configuration has from its element. -/
structure Parsed (int0 : String → Option Int) (fromhex : String → Option (List UInt8))
    (k : Nat) (slave : Element) (s : SlaveConfig) : Prop where
  number : slaveNumber int0 k slave=some s.slave
  vendorId : (getInt int0 slave ["Info","VendorId"]).map UInt32.ofInt=some s.vendorId
  productCode : (getInt int0 slave ["Info","ProductCode"]).map UInt32.ofInt=some s.productCode
  revisionNo : (getInt int0 slave ["Info","RevisionNo"]).map UInt32.ofInt=some s.revisionNo
  coeCmds : parseCoEInitCmds int0 fromhex (initCmdsOf slave)=some s.coeCmds

theorem parseSlave_parsed {k : Nat} {slave : Element} {s : SlaveConfig}
    (h : parseSlave int0 fromhex slave (k+1)=some s) : Parsed int0 fromhex k slave s := by
  have hdefault : (1 : Int)-((k+1 : Nat) : Int)= -(k : Int) := by omega
  simp only [parseSlave,Option.bind_eq_bind,Option.bind_eq_some_iff,Option.pure_def,
    Option.some_inj] at h
  obtain ⟨auto,hauto,vendor,hvendor,product,hproduct,revision,hrevision,cmds,hcmds,rfl⟩ := h
  rw [hdefault] at hauto
  exact ⟨by rw [slaveNumber,hauto]; rfl,by rw [hvendor]; rfl,by rw [hproduct]; rfl,
    by rw [hrevision]; rfl,hcmds⟩

theorem parseSlavesFrom_get {n : Nat} {slaves : List Element} {config : List SlaveConfig}
    (h : parseSlavesFrom int0 fromhex n slaves=some config) :
    slaves.length=config.length ∧ ∀ k slave s,slaves[k]?=some slave → config[k]?=some s →
      Parsed int0 fromhex (n+k) slave s := by
  induction slaves generalizing n config with
  | nil =>
    obtain rfl := Option.some.inj h
    refine ⟨rfl,?_⟩
    intro k slave s hslave
    cases hslave
  | cons e slaves ih =>
    rw [parseSlavesFrom] at h
    obtain ⟨first,hfirst,h⟩ := Option.bind_eq_some_iff.mp h
    obtain ⟨rest,hrest,h⟩ := Option.bind_eq_some_iff.mp h
    obtain rfl := Option.some.inj h
    obtain ⟨hlength,hparsed⟩ := ih hrest
    refine ⟨congrArg Nat.succ hlength,?_⟩
    intro k slave s hslave hs
    cases k with
    | zero =>
      obtain rfl := Option.some.inj hslave
      obtain rfl := Option.some.inj hs
      exact parseSlave_parsed hfirst
    | succ k =>
      have hnext := hparsed k slave s hslave hs
      rwa [Nat.add_right_comm] at hnext

end Parsing

section Output

theorem mem_of_lookup {name : String} {bit : UInt16} {table : List (String × UInt16)}
    (h : table.lookup name=some bit) : (name,bit) ∈ table := by
  obtain ⟨front,behind,rfl,-⟩ := List.lookup_eq_some_iff.mp h
  exact List.mem_append_right front List.mem_cons_self

theorem genTransition_bit {ts : List (Option String)} {value : UInt16}
    (h : genTransition ts=some value) {name : String} {bit : UInt16}
    (hbit : (name,bit) ∈ ectEsmtrans) : value &&& bit≠0 ↔ some name ∈ ts := by
  have hone : ∀ t v,t.bind (fun name => ectEsmtrans.lookup name)=some v →
      (v &&& bit≠0 ↔ some name=t) := by
    intro t v ht
    obtain ⟨other,rfl,hother⟩ := Option.bind_eq_some_iff.mp ht
    have htable : ∀ p ∈ ectEsmtrans,∀ q ∈ ectEsmtrans,(p.2 &&& q.2≠0 ↔ q.1=p.1) := by
      decide +kernel
    have hmem : (other,v) ∈ ectEsmtrans := mem_of_lookup hother
    exact (htable _ hmem _ hbit).trans Option.some_inj.symm
  induction ts generalizing value with
  | nil => cases h
  | cons t ts ih =>
    cases ts with
    | nil =>
      rw [hone t value h]
      exact List.mem_singleton.symm
    | cons t' ts =>
      obtain ⟨first,hfirst,h⟩ := Option.bind_eq_some_iff.mp h
      obtain ⟨rest,hrest,h⟩ := Option.bind_eq_some_iff.mp h
      obtain rfl := Option.some.inj h
      have hor : (first ||| rest) &&& bit=(first &&& bit) ||| (rest &&& bit) :=
        UInt16.toBitVec_inj.mp BitVec.and_or_distrib_right
      have hsplit : (first ||| rest) &&& bit≠0 ↔ first &&& bit≠0 ∨ rest &&& bit≠0 := by
        rw [hor,ne_eq,UInt16.or_eq_zero_iff,not_and_or]
      rw [List.mem_cons]
      exact hsplit.trans (or_congr (hone t first hfirst) (ih hrest))

theorem genTransition_some {ts : List (Option String)} {value : UInt16}
    (h : genTransition ts=some value) : ∃ name bit,(name,bit) ∈ ectEsmtrans ∧ some name ∈ ts := by
  cases ts with
  | nil => cases h
  | cons t ts =>
    have hfirst : ∃ v,t.bind (fun name => ectEsmtrans.lookup name)=some v := by
      cases ts with
      | nil => exact ⟨value,h⟩
      | cons t' ts =>
        obtain ⟨first,hfirst,-⟩ := Option.bind_eq_some_iff.mp h
        exact ⟨first,hfirst⟩
    obtain ⟨v,hv⟩ := hfirst
    obtain ⟨name,hname,hbit⟩ := Option.bind_eq_some_iff.mp hv
    exact ⟨name,v,mem_of_lookup hbit,hname ▸ List.mem_cons_self⟩

/-- A constant that an `int` can hold keeps its value. -/
theorem cInt_eq_self_iff {x y : Int} (h : cInt x=some y) : y=x ↔ -2^31 ≤ x ∧ x<2^31 := by
  rw [cInt] at h
  split_ifs at h
  obtain rfl := Option.some.inj h
  rw [Int.bmod_def]
  omega

/-- What an entry has from its command. -/
structure Compiled (c : InitCmd) (data : Option Nat) (entry : EniCoeCmd) : Prop where
  transition : genTransition c.transition=some entry.transition
  ca : entry.ca=c.ca
  ccs : entry.ccs=c.ccs
  index : entry.index=c.index
  subIdx : entry.subIdx=c.subIdx
  timeout : cInt c.timeout=some entry.timeout
  dataSize : cInt c.data.length=some entry.dataSize
  data : entry.data=data

theorem genCoECmd_compiled {c : InitCmd} {data : Option Nat} {entry : EniCoeCmd}
    (h : genCoECmd c c.data.length data=some entry) : Compiled c data entry := by
  simp only [genCoECmd,Option.bind_eq_bind,Option.bind_eq_some_iff,Option.pure_def,
    Option.some_inj] at h
  obtain ⟨transition,htransition,timeout,htimeout,size,hsize,rfl⟩ := h
  exact ⟨htransition,rfl,rfl,rfl,rfl,htimeout,hsize,rfl⟩

def placed (c : InitCmd) (offset : Nat) : Option Nat :=
  if c.data.length>0 then some offset else none

theorem genCoEEntries_cons {c : InitCmd} {cmds : List InitCmd} {offset : Nat}
    {entries : List EniCoeCmd}
    (h : genCoEEntries ((c::cmds).zip (genCoEData offset (c::cmds)))=some entries) :
    ∃ entry rest,Compiled c (placed c offset) entry ∧
      genCoEEntries (cmds.zip (genCoEData (offset+c.data.length) cmds))=some rest ∧
      entries=entry::rest := by
  have hplace : (if c.data.length>0 then (c.data.length,some offset) else (0,none))=
      (c.data.length,placed c offset) := by
    rw [placed]
    split_ifs with hpos
    · rfl
    · rw [Nat.eq_zero_of_not_pos hpos]
  rw [genCoEData,List.zip_cons_cons,hplace,genCoEEntries] at h
  obtain ⟨entry,hentry,h⟩ := Option.bind_eq_some_iff.mp h
  obtain ⟨rest,hrest,h⟩ := Option.bind_eq_some_iff.mp h
  exact ⟨entry,rest,genCoECmd_compiled hentry,hrest,(Option.some.inj h).symm⟩

end Output

section Slaves

theorem genSlaves_sublist {slaves : List SlaveConfig} {eni : List EniSlave}
    (h : genSlaves slaves=some eni) :
    (eni.map EniSlave.slave).Sublist (slaves.map SlaveConfig.slave) := by
  induction slaves generalizing eni with
  | nil =>
    obtain rfl := Option.some.inj h
    exact .slnil
  | cons s slaves ih =>
    rw [genSlaves] at h
    split_ifs at h
    · obtain ⟨entry,hentry,h⟩ := Option.bind_eq_some_iff.mp h
      obtain ⟨rest,hrest,h⟩ := Option.bind_eq_some_iff.mp h
      obtain rfl := Option.some.inj h
      obtain ⟨cmds,-,hs⟩ := Option.bind_eq_some_iff.mp hentry
      obtain rfl := Option.some.inj hs
      exact (ih hrest).cons_cons s.slave
    · exact (ih h).cons s.slave

theorem genSlaves_mem {slaves : List SlaveConfig} {eni : List EniSlave}
    (h : genSlaves slaves=some eni) :
    (∀ s ∈ slaves,s.coeCmds≠[] → ∃ entry ∈ eni,genSlave s=some entry) ∧
      ∀ entry ∈ eni,∃ s ∈ slaves,s.coeCmds≠[] ∧ genSlave s=some entry := by
  induction slaves generalizing eni with
  | nil =>
    obtain rfl := Option.some.inj h
    exact ⟨fun _ hs => absurd hs List.not_mem_nil,fun _ hs => absurd hs List.not_mem_nil⟩
  | cons s slaves ih =>
    rw [genSlaves] at h
    split_ifs at h with hcmds
    · obtain ⟨entry,hentry,h⟩ := Option.bind_eq_some_iff.mp h
      obtain ⟨rest,hrest,h⟩ := Option.bind_eq_some_iff.mp h
      obtain rfl := Option.some.inj h
      obtain ⟨hall,hback⟩ := ih hrest
      constructor
      · intro s' hs hne
        rcases List.mem_cons.mp hs with rfl|hs
        · exact ⟨entry,List.mem_cons_self,hentry⟩
        · obtain ⟨e,he,hgen⟩ := hall s' hs hne
          exact ⟨e,List.mem_cons_of_mem entry he,hgen⟩
      · intro e he
        rcases List.mem_cons.mp he with rfl|he
        · exact ⟨s,List.mem_cons_self,List.ne_nil_of_length_pos hcmds,hentry⟩
        · obtain ⟨s',hs,hgen⟩ := hback e he
          exact ⟨s',List.mem_cons_of_mem s hs,hgen⟩
    · obtain ⟨hall,hback⟩ := ih h
      constructor
      · intro s' hs hne
        rcases List.mem_cons.mp hs with rfl|hs
        · exact absurd (List.length_pos_iff.mpr hne) hcmds
        · exact hall s' hs hne
      · intro e he
        obtain ⟨s',hs,hgen⟩ := hback e he
        exact ⟨s',List.mem_cons_of_mem s hs,hgen⟩

theorem eniSlaveAt_mem {eni : List EniSlave}
    (h : (eni.map EniSlave.slave).Pairwise (· < ·)) {e : EniSlave} (he : e ∈ eni) :
    eniSlaveAt e.slave eni=some e := by
  induction eni with
  | nil => cases he
  | cons first eni ih =>
    cases eni with
    | nil =>
      obtain rfl := List.mem_singleton.mp he
      rfl
    | cons second rest =>
      obtain ⟨habove,hrest⟩ := List.pairwise_cons.mp h
      have hstep : eniSlaveAt e.slave (first::second::rest)=
          if e.slave ≤ first.slave then some first else eniSlaveAt e.slave (second::rest) := rfl
      rw [hstep]
      rcases List.mem_cons.mp he with rfl|he
      · rw [if_pos (UInt16.le_refl _)]
      · rw [if_neg (UInt16.not_le.mpr (habove _ (List.mem_map_of_mem he)))]
        exact ih hrest he

theorem mem_of_eniSlaveAt {slave : UInt16} {eni : List EniSlave} {e : EniSlave}
    (h : eniSlaveAt slave eni=some e) : e ∈ eni := by
  induction eni with
  | nil => cases h
  | cons first eni ih =>
    cases eni with
    | nil =>
      obtain rfl := Option.some.inj h
      exact List.mem_cons_self
    | cons second rest =>
      change (if slave ≤ first.slave then some first else eniSlaveAt slave (second::rest))=some e
        at h
      split_ifs at h
      · obtain rfl := Option.some.inj h
        exact List.mem_cons_self
      · exact List.mem_cons_of_mem first (ih h)

end Slaves

end EtherCATMaster.Eni
