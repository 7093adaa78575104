import EtherCATMaster.Config.Addresses

namespace EtherCATMaster.Config

open EtherCATMaster.Framework EtherCATMaster.Sii
open EtherCATMaster.Nicdrv (readBytes_written)
open EtherCATMaster.Mapping (readBytes)

def Station.sii (s : Station) (eeproma : UInt16) : UInt32 :=
  UInt32.ofNat (leValue (romBlock s.eeprom eeproma.toNat 4))

/-- The slave is the one that was configured. -/
structure SameSlave (s : Station) (c : ConfiguredSlave) : Prop where
  aliasadr : s.word ectRegAlias=c.aliasadr
  eepId : s.sii ectSiiId=c.eepId
  eepMan : s.sii ectSiiManuf=c.eepMan
  eepRev : s.sii ectSiiRev=c.eepRev

/-- Slaves that differ in nothing by which they are found and recognised. -/
structure Alike (s s' : Station) : Prop where
  aliasadr : s'.word ectRegAlias=s.word ectRegAlias
  fixed : s'.fixed=s.fixed

/-- Every call is answered at once, and no slave but the one at this place can be at
`EC_TEMPNODE`. -/
structure Alone (g : Segment) (place : Nat) : Prop where
  fares : g.fares=[]
  connected : 1 ≤ place ∧ place ≤ g.connected
  others : ∀ p,p≠place → (g.stations p).stadr≠ecTempnode

section Answered

variable {g : Segment} {a : Addressing} {adp ado : UInt16} {data : List UInt8} {place : Nat}
  {s : Station}

theorem ended_eq (h : g.fares=[]) : g.ended=g := by
  rw [Segment.ended,h]
  exact congrArg (fun fares => ({ g with fares := fares } : Segment)) h.symm

theorem callWrite_answered (h : g.fares=[]) : g.callWrite a adp ado data=
    (((g.addressed a adp).length : Int),g.write a adp ado data) := by
  rw [Segment.callWrite,Segment.fare,h,ended_eq h]
  rfl

theorem callRead_answered {length : Nat} (h : g.fares=[]) : g.callRead a adp ado length=
    ((((g.addressed a adp).length : Int),g.read a adp ado length),g) := by
  rw [Segment.callRead,Segment.fare,h,ended_eq h]
  rfl

theorem read_one {length : Nat} (h : g.addressed a adp=[place]) :
    g.read a adp ado length=(g.stations place).read ado length := by
  rw [Segment.read,h]
  rfl

theorem write_one (h : g.addressed a adp=[place]) :
    g.write a adp ado data=g.put place ((g.stations place).write ado data) := by
  rw [Segment.write,Segment.put,h]
  congr 1
  funext p
  rw [Function.update_apply]
  by_cases heq : p=place
  · rw [if_pos (List.mem_singleton.mpr heq),if_pos heq,heq]
  · rw [if_neg fun hin => heq (List.mem_singleton.mp hin),if_neg heq]

theorem write_none (h : g.addressed a adp=[]) : g.write a adp ado data=g := by
  rw [Segment.write,h]
  simp

/-- The last of the slaves at an address is the one whose bytes come back. -/
structure Responds (g : Segment) (adr : UInt16) (place : Nat) : Prop where
  fares : g.fares=[]
  last : (g.addressed .station adr).getLast?=some place

section Responding

variable {adr : UInt16} (h : Responds g adr place)
include h

theorem Responds.pos : 0 < ((g.addressed .station adr).length : Int) := by
  have hne : g.addressed .station adr≠[] := by
    intro hnil
    have hlast := h.last
    rw [hnil] at hlast
    cases hlast
  have hpos := List.length_pos_of_ne_nil hne
  omega

theorem Responds.read (ado : UInt16) (length : Nat) :
    segmentPort.toEepromPort.read adr ado length g=
      .ok (((g.addressed .station adr).length,(g.stations place).read ado length),g) := by
  have hcall : segmentPort.fprd adr ado length g=
      ((((g.addressed .station adr).length : Int),(g.stations place).read ado length),g) := by
    refine (callRead_answered h.fares).trans ?_
    rw [Segment.read,h.last]
  rw [EepromPort.read,hcall]
  dsimp only
  rw [if_pos h.pos]

theorem Responds.write (ado : UInt16) (data : List UInt8) :
    segmentPort.toEepromPort.write adr ado data g=
      .ok ((g.addressed .station adr).length,g.write .station adr ado data) :=
  congrArg Except.ok (callWrite_answered h.fares)

theorem Responds.writeRetry (ado : UInt16) (data : List UInt8) (cnt : Nat) :
    segmentPort.toEepromPort.writeRetry adr ado data cnt g=
      .ok ((g.addressed .station adr).length,g.write .station adr ado data) := by
  have hpos := h.pos
  cases cnt with
  | zero => exact h.write ado data
  | succ cnt =>
    rw [EepromPort.writeRetry,run_bind (h.write ado data),if_neg (by omega)]
    rfl

theorem Responds.readRetry (ado : UInt16) (length cnt : Nat) :
    segmentPort.toEepromPort.readRetry adr ado length cnt g=
      .ok (((g.addressed .station adr).length,(g.stations place).read ado length),g) := by
  have hpos := h.pos
  cases cnt with
  | zero => exact h.read ado length
  | succ cnt =>
    rw [EepromPort.readRetry,run_bind (h.read ado length)]
    dsimp only
    rw [if_neg (by omega)]
    rfl

theorem Responds.waitnotbusy (fuel : Nat) :
    eepromWaitnotbusyFP segmentPort.toEepromPort adr (fuel+1) g=
      .ok ((true,(g.stations place).eepstat),g) := by
  have hpos := h.pos
  have hread : (g.stations place).read ectRegEepstat 2=le16 (g.stations place).eepstat := if_pos rfl
  have hstat : get16 (le16 (g.stations place).eepstat) 0=(g.stations place).eepstat :=
    get16_le16 [] _ []
  have hidle : (g.stations place).eepstat &&& ecEstatBusy=0 := by
    rw [Station.eepstat]
    cases (g.stations place).eep8byte <;> rfl
  rw [eepromWaitnotbusyFP,run_bind (h.read _ _),hread]
  dsimp only
  rw [hstat,if_neg (not_or.mpr ⟨by omega,not_not_intro hidle⟩),decide_eq_true hidle]
  rfl

end Responding

theorem Alone.responds (h : Alone g place) (hs : s.stadr=ecTempnode) :
    (g.put place s).addressed .station ecTempnode=[place] ∧
      Responds (g.put place s) ecTempnode place := by
  have haddressed : (g.put place s).addressed .station ecTempnode=[place] := by
    apply addressed_eq_singleton
    intro p
    rw [mem_addressed]
    constructor
    · intro hin
      by_contra hne
      apply h.others p hne
      have hsel : ((g.put place s).stations p).stadr=ecTempnode := hin.2
      rw [put_other hne] at hsel
      exact hsel
    · intro heq
      subst heq
      exact ⟨h.connected,by rw [put_station]; exact hs⟩
  exact ⟨haddressed,h.fares,by rw [haddressed]; rfl⟩

section AtTempnode

variable (h : Alone g place) (hs : s.stadr=ecTempnode)
include h hs

theorem Alone.read (ado : UInt16) (length : Nat) :
    segmentPort.toEepromPort.read ecTempnode ado length (g.put place s)=
      .ok ((1,s.read ado length),g.put place s) := by
  obtain ⟨haddressed,hresponds⟩ := h.responds hs
  rw [hresponds.read,haddressed,put_station]
  rfl

theorem Alone.writeRetry (ado : UInt16) (data : List UInt8) (cnt : Nat) :
    segmentPort.toEepromPort.writeRetry ecTempnode ado data cnt (g.put place s)=
      .ok (1,g.put place (s.write ado data)) := by
  obtain ⟨haddressed,hresponds⟩ := h.responds hs
  rw [hresponds.writeRetry,write_one haddressed,haddressed,put_station,put_put]
  rfl

theorem Alone.write (ado : UInt16) (data : List UInt8) :
    segmentPort.toEepromPort.write ecTempnode ado data (g.put place s)=
      .ok (1,g.put place (s.write ado data)) := h.writeRetry hs ado data 0

theorem Alone.readRetry (ado : UInt16) (length cnt : Nat) :
    segmentPort.toEepromPort.readRetry ecTempnode ado length cnt (g.put place s)=
      .ok ((1,s.read ado length),g.put place s) := by
  obtain ⟨haddressed,hresponds⟩ := h.responds hs
  rw [hresponds.readRetry,haddressed,put_station]
  rfl

theorem Alone.waitnotbusy (fuel : Nat) :
    eepromWaitnotbusyFP segmentPort.toEepromPort ecTempnode (fuel+1) (g.put place s)=
      .ok ((true,s.eepstat),g.put place s) := by
  rw [(h.responds hs).2.waitnotbusy,put_station]

end AtTempnode

end Answered

section Block

variable {g : Segment} {place : Nat} (fuel : Nat) {s : Station}

theorem command_alike (s : Station) (comm addr : UInt16) : Alike s (s.command comm addr) :=
  ⟨Station.word_congr fun i hi => s.command_below _ _ (by
    have halias : ectRegAlias.toNat=0x12 := rfl
    have hdat : ectRegEepdat.toNat=0x508 := rfl
    omega),s.command_fixed comm addr⟩

theorem command_stadr (s : Station) (comm addr : UInt16) :
    (s.command comm addr).stadr=s.stadr :=
  Station.word_congr fun i hi => s.command_below _ _ (by
    have hstadr : ectRegStadr.toNat=0x10 := rfl
    have hdat : ectRegEepdat.toNat=0x508 := rfl
    omega)

theorem command_pdi (s : Station) (comm addr : UInt16) : (s.command comm addr).pdi=s.pdi := by
  rw [Station.pdi,Station.pdi,s.command_below _ _ (by decide)]

theorem write_readCommand (s : Station) (eeproma : UInt16) :
    s.write ectRegEepctl (readCommand eeproma)=s.command ecEcmdRead eeproma := by
  have hcomm : get16 (readCommand eeproma) 0=ecEcmdRead := get16_le16 [] ecEcmdRead _
  have haddr : get16 (readCommand eeproma) 2=eeproma := get16_le16 (le16 ecEcmdRead) eeproma _
  rw [Station.write,if_pos rfl,hcomm,haddr]

theorem command_block (s : Station) (hpdi : s.pdi=false) (eeproma : UInt16) :
    (s.command ecEcmdRead eeproma).read ectRegEepdat (eepBlockSize s.eep8byte)=
      romBlock s.eeprom eeproma.toNat (eepBlockSize s.eep8byte) := by
  have hplain : ¬ectRegEepdat=ectRegEepstat := by decide
  rw [Station.command,if_pos ⟨hpdi,rfl⟩,Station.read,if_neg hplain]
  exact readBytes_written _ _ _ (romBlock_length _ _ _).symm

theorem romBlock_eight (rom : Nat → UInt8) (word : Nat) : romBlock rom word 8=
    romBlock rom word 4++(List.range 4).map fun i => rom (2*word+(4+i)) := by
  rw [romBlock,romBlock,show 8=4+4 from rfl,List.range_add,List.map_append,List.map_map]
  rfl

theorem romBlock_low (rom : Nat → UInt8) (word : Nat) (eep8byte : Bool) :
    (UInt64.ofNat (leValue (romBlock rom word (eepBlockSize eep8byte)))).toUInt32=
      UInt32.ofNat (leValue (romBlock rom word 4)) := by
  have happend : ∀ xs ys : List UInt8,
      leValue (xs++ys)=leValue xs+256^xs.length*leValue ys := by
    intro xs ys
    induction xs with
    | nil => simp [leValue]
    | cons b bs ih =>
      rw [List.cons_append,leValue,ih,leValue,List.length_cons,Nat.pow_succ]
      ring
  apply UInt32.toNat_inj.mp
  rw [UInt64.toNat_toUInt32,UInt64.toNat_ofNat',UInt32.toNat_ofNat']
  cases eep8byte with
  | false =>
    change leValue (romBlock rom word 4)%2^64%2^32=_
    omega
  | true =>
    change leValue (romBlock rom word 8)%2^64%2^32=_
    rw [romBlock_eight,happend,romBlock_length]
    omega

variable (h : Alone g place) (hs : s.stadr=ecTempnode) (hpdi : s.pdi=false)
include h hs hpdi

theorem Alone.round (eeproma : UInt16) :
    readeepromRound segmentPort.toEepromPort (fuel+1) ecTempnode eeproma 0 (g.put place s)=
      .ok ((0,UInt64.ofNat (leValue (romBlock s.eeprom eeproma.toNat (eepBlockSize s.eep8byte)))),
        g.put place (s.command ecEcmdRead eeproma)) := by
  have hstadr := (command_stadr s ecEcmdRead eeproma).trans hs
  have hblock := command_block s hpdi eeproma
  have hstat : (s.command ecEcmdRead eeproma).eepstat=s.eepstat := by
    have hfixed := s.command_fixed ecEcmdRead eeproma
    rw [Station.eepstat,show (s.command ecEcmdRead eeproma).eep8byte=s.eep8byte from
      congrArg Prod.snd hfixed]
    rfl
  rw [readeepromRound,run_bind (h.writeRetry hs _ _ _),write_readCommand,if_pos (by decide),
    run_bind (h.waitnotbusy hstadr _),hstat,Station.eepstat]
  dsimp only
  rw [if_pos rfl]
  cases heep : s.eep8byte with
  | true =>
    rw [heep] at hblock
    rw [if_pos rfl,if_neg (by decide),if_pos (by decide),
      run_bind (h.readRetry hstadr ectRegEepdat 8 _)]
    dsimp only
    rw [show eepBlockSize true=8 from rfl] at hblock ⊢
    rw [hblock]
    rfl
  | false =>
    rw [heep] at hblock
    rw [if_neg Bool.false_ne_true,if_neg (by decide),if_neg (by decide),
      run_bind (h.readRetry hstadr ectRegEepdat 4 _)]
    dsimp only
    rw [show eepBlockSize false=4 from rfl] at hblock ⊢
    rw [hblock]
    rfl

/-- What is read of the EEPROM of the slave at `EC_TEMPNODE`. -/
theorem Alone.readeepromFP (eeproma : UInt16) :
    readeepromFP segmentPort.toEepromPort (fuel+1) ecTempnode eeproma (g.put place s)=
      .ok (UInt64.ofNat (leValue (romBlock s.eeprom eeproma.toNat (eepBlockSize s.eep8byte))),
        g.put place (s.command ecEcmdRead eeproma)) := by
  have hmask : ¬s.eepstat &&& ecEstatEmask≠0 := by
    rw [Station.eepstat]
    cases s.eep8byte <;> decide
  rw [Sii.readeepromFP,run_bind (h.waitnotbusy hs _)]
  dsimp only
  rw [if_pos rfl,if_neg hmask,readeepromLoop,run_bind (h.round fuel hs hpdi eeproma)]
  rfl

end Block

end EtherCATMaster.Config
