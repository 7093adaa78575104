import EtherCATMaster.Config.Scan

namespace EtherCATMaster.Config

open EtherCATMaster.Framework EtherCATMaster.Sii
open EtherCATMaster.Nicdrv (readBytes_written readBytes_apart writeBytes_append)

/-- What the scan leaves of a line as it was. -/
structure Kept (g0 g : Segment) : Prop where
  fares : g.fares=[]
  connected : g.connected=g0.connected
  alike : ∀ p,Alike (g0.stations p) (g.stations p)
  outside : ∀ p,¬(1 ≤ p ∧ p ≤ g0.connected) → g.stations p=g0.stations p

def Ours (g : Segment) : Prop := ∀ p,1 ≤ p → p ≤ g.connected → (g.stations p).pdi=false

def Loaded (s : Station) (eeproma : UInt16) : Prop :=
  s.read ectRegEepdat 4=romBlock s.eeprom eeproma.toNat 4

section Writes

variable {g0 g : Segment} {a : Addressing} {adp ado adr eeproma : UInt16} {data : List UInt8}
  {p place : Nat}

theorem Kept.write (hw : ∀ s : Station,Alike s (s.write ado data)) (h : Kept g0 g) :
    Kept g0 (g.write a adp ado data) := by
  refine ⟨h.fares,h.connected,fun p => ?_,fun p hp => ?_⟩
  · rw [write_station]
    split_ifs
    · exact (h.alike p).trans (hw _)
    · exact h.alike p
  · rw [write_station,if_neg]
    · exact h.outside p hp
    · intro hin
      have hrange := (mem_addressed.mp hin).1
      rw [h.connected] at hrange
      exact hp hrange

theorem Ours.write (hw : ∀ s : Station,s.pdi=false → (s.write ado data).pdi=false) (h : Ours g) :
    Ours (g.write a adp ado data) := by
  intro p hpos hle
  have hp := h p hpos hle
  rw [write_station]
  split_ifs
  · exact hw _ hp
  · exact hp

theorem write_command (s : Station) (eeproma : UInt16) :
    Alike s (s.write ectRegEepctl (readCommand eeproma)) ∧
      (s.write ectRegEepctl (readCommand eeproma)).stadr=s.stadr ∧
      (s.write ectRegEepctl (readCommand eeproma)).pdi=s.pdi := by
  rw [write_readCommand]
  exact ⟨command_alike _ _ _,command_stadr _ _ _,command_pdi _ _ _⟩

theorem command_loaded {s : Station} (hpdi : s.pdi=false) (eeproma : UInt16) :
    Loaded (s.write ectRegEepctl (readCommand eeproma)) eeproma := by
  have hplain : ¬ectRegEepdat=ectRegEepstat := by decide
  have hrom : (s.command ecEcmdRead eeproma).eeprom=s.eeprom :=
    congrArg Prod.fst (s.command_fixed ecEcmdRead eeproma)
  rw [write_readCommand,Loaded,hrom,Station.command,if_pos ⟨hpdi,rfl⟩,Station.read,if_neg hplain]
  cases s.eep8byte with
  | false => exact readBytes_written _ _ _ (romBlock_length _ _ _).symm
  | true =>
    dsimp only
    rw [show eepBlockSize true=8 from rfl,romBlock_eight,writeBytes_append,romBlock_length,
      readBytes_apart _ (.inl (Nat.le_refl _))]
    exact readBytes_written _ _ _ (romBlock_length _ _ _).symm

end Writes

section Calls

variable (st : SiiState Segment) {adr slave : UInt16} {place : Nat}
  (slavelist : UInt16 → ConfiguredSlave) (fuel : Nat)

theorem readeeprom1_run (h : Responds st.env adr place) (hflag : st.eepPdi slave=false)
    (hadr : (slavelist slave).configadr=adr) (eeproma : UInt16) :
    readeeprom1 (listContext segmentPort slavelist) (fuel+1) slave eeproma st=
      .ok ((),{ st with env := st.env.write .station adr ectRegEepctl (readCommand eeproma) }) := by
  have hmaster : Sii.eeprom2master (listContext segmentPort slavelist) slave st=.ok (1,st) := by
    rw [Sii.eeprom2master,run_bind (siiState_run st),if_neg (by rw [hflag]; decide)]
    rfl
  have hconfig : (listContext segmentPort slavelist).configadr slave=adr := hadr
  have hport : (listContext segmentPort slavelist).port=segmentPort.toEepromPort := rfl
  have hmask : ¬(st.env.stations place).eepstat &&& ecEstatEmask≠0 := by
    rw [Station.eepstat]
    cases (st.env.stations place).eep8byte <;> decide
  rw [readeeprom1,run_bind hmaster,hconfig,hport,run_bind (onPort_run st (h.waitnotbusy fuel))]
  dsimp only
  rw [if_pos rfl,if_neg hmask]
  have hclean : (pure 0 : SiiM Segment Int) st=.ok (0,st) := rfl
  exact (run_bind hclean).trans (run_bind (onPort_run st (h.writeRetry _ _ _)))

theorem readeeprom2_run (h : Responds st.env adr place)
    (hadr : (slavelist slave).configadr=adr) :
    readeeprom2 (listContext segmentPort slavelist) (fuel+1) slave st=
      .ok (UInt32.ofNat (leValue ((st.env.stations place).read ectRegEepdat 4)),st) := by
  have hconfig : (listContext segmentPort slavelist).configadr slave=adr := hadr
  have hport : (listContext segmentPort slavelist).port=segmentPort.toEepromPort := rfl
  rw [readeeprom2,hconfig,hport,run_bind (onPort_run st (h.waitnotbusy fuel))]
  dsimp only
  rw [if_pos rfl,run_bind (onPort_run st (h.readRetry _ _ _))]
  rfl

theorem fprdInto_run (h : Responds st.env adr place) (ado old : UInt16) :
    onPort (segmentPort.fprdInto adr ado old) st=
      .ok (get16 ((st.env.stations place).read ado 2) 0,st) := by
  refine onPort_run st ?_
  have hcall : segmentPort.fprd adr ado 2 st.env=_ := callRead_answered h.fares
  rw [ConfigPort.fprdInto,hcall,Segment.read,h.last]
  dsimp only
  rw [if_pos h.pos]

theorem aprdw_run (hf : st.env.fares=[]) (adp ado : UInt16) :
    ∃ w,onPort (segmentPort.aprdw adp ado) st=.ok (w,st) := by
  have hcall : segmentPort.aprd adp ado 2 st.env=_ := callRead_answered hf
  obtain ⟨r,hword⟩ : ∃ r,segmentPort.aprdWord adp ado 0 st.env=.ok (r,st.env) := by
    rw [ConfigPort.aprdWord,hcall]
    exact ⟨_,rfl⟩
  refine ⟨r.2,onPort_run st ?_⟩
  rw [ConfigPort.aprdw,run_bind hword]
  rfl

theorem apwrw_run (hf : st.env.fares=[]) (hc : st.env.connected<2^16) (hpos : 0 < slave.toNat)
    (hle : slave.toNat ≤ st.env.connected) (ado data : UInt16) :
    onPort (segmentPort.apwrw (1-slave) ado data) st=.ok (1,{ st with
      env := st.env.put slave.toNat ((st.env.stations slave.toNat).write ado (le16 data)) }) := by
  have haddressed := addressed_position hpos hc
  rw [if_pos hle] at haddressed
  refine onPort_run st ?_
  have hcall : segmentPort.apwr (1-slave) ado (le16 data) st.env=
      (1,st.env.put slave.toNat ((st.env.stations slave.toNat).write ado (le16 data))) := by
    refine (callWrite_answered hf).trans ?_
    rw [write_one haddressed,haddressed]
    rfl
  rw [ConfigPort.apwrw,hcall]

theorem aprdw_stadr (hf : st.env.fares=[]) (hc : st.env.connected<2^16) (hpos : 0 < slave.toNat)
    (hle : slave.toNat ≤ st.env.connected) :
    onPort (segmentPort.aprdw (1-slave) ectRegStadr) st=
      .ok ((st.env.stations slave.toNat).stadr,st) := by
  have hword := aprdWord_answer hc hf hpos 0
  rw [if_pos hle] at hword
  refine onPort_run st ?_
  rw [ConfigPort.aprdw,run_bind hword]
  rfl

end Calls

theorem write_plain (s : Station) {ado : UInt16} {data : List UInt8}
    (hado : ectRegAlias.toNat+2 ≤ ado.toNat) (hend : ado.toNat+data.length ≤ ectRegEepcfg.toNat) :
    Alike s (s.write ado data) ∧ (s.write ado data).stadr=s.stadr ∧
      (s.write ado data).pdi=s.pdi := by
  have hreg : ectRegAlias.toNat=ectRegStadr.toNat+2 := rfl
  refine ⟨write_alike s data hado,s.write_stadr (by omega),?_⟩
  rw [Station.pdi,Station.pdi,s.write_outside (by decide) (.inr hend)]

section Line

/-- The line after the slave with this number has been given its address, and its DL control. -/
def Segment.giveAddress (g : Segment) (slave : UInt16) : Segment :=
  g.put slave.toNat (((g.stations slave.toNat).write ectRegStadr (le16 (slave+ecNodeoffset))).write
    ectRegDlctl (le16 (if slave=1 then 1 else 0)))

/-- The addresses are given out as far as `i`, and behind it they are as they were. -/
structure Numbered (g0 : Segment) (i : Nat) (g : Segment) : Prop where
  kept : Kept g0 g
  ours : Ours g
  low : ∀ p,1 ≤ p → p ≤ i → (g.stations p).stadr=UInt16.ofNat p+ecNodeoffset
  high : ∀ p,i<p → (g.stations p).stadr=(g0.stations p).stadr

/-- The slaves that answer to the address of a place when it is given out: the one at the place, and
those behind it that have it from before. -/
def holders (g0 : Segment) (place : Nat) : List Nat :=
  (List.range' 1 g0.connected).filter fun q =>
    q=place ∨ place<q ∧ (g0.stations q).stadr=UInt16.ofNat place+ecNodeoffset

/-- The last of them, whose bytes remain. -/
def lastHolder (g0 : Segment) (place : Nat) : Nat := (holders g0 place).getLast?.getD place

variable {g0 g : Segment} {i : Nat}

theorem offset_inj {p q : Nat} (hp : p+ecNodeoffset.toNat<2^16) (hq : q+ecNodeoffset.toNat<2^16) :
    UInt16.ofNat p+ecNodeoffset=UInt16.ofNat q+ecNodeoffset ↔ p=q := by
  rw [← UInt16.toNat_inj,UInt16.toNat_add,UInt16.toNat_add,UInt16.toNat_ofNat',UInt16.toNat_ofNat']
  omega

theorem ofNat_inj {p q : Nat} (hp : p<2^16) (hq : q<2^16) :
    UInt16.ofNat p=UInt16.ofNat q ↔ p=q := by
  rw [← UInt16.toNat_inj,UInt16.toNat_ofNat',UInt16.toNat_ofNat']
  omega

theorem Numbered.command (h : Numbered g0 i g) (adr eeproma : UInt16) :
    Numbered g0 i (g.write .station adr ectRegEepctl (readCommand eeproma)) := by
  have hstadr : ∀ p,((g.write .station adr ectRegEepctl (readCommand eeproma)).stations p).stadr=
      (g.stations p).stadr := fun p => stadr_kept (by decide)
  refine ⟨h.kept.write fun s => (write_command s eeproma).1,
    h.ours.write fun s hs => (write_command s eeproma).2.2.trans hs,fun p hp hle => ?_,fun p hp => ?_⟩
  · rw [hstadr]
    exact h.low p hp hle
  · rw [hstadr]
    exact h.high p hp

theorem Numbered.next (h : Numbered g0 i g) (hi : i<g0.connected)
    (hk : (UInt16.ofNat (i+1)).toNat=i+1) :
    Numbered g0 (i+1) (g.giveAddress (UInt16.ofNat (i+1))) := by
  have hconnected := h.kept.connected
  have hdlctl : ∀ b : UInt16,ectRegDlctl.toNat+(le16 b).length ≤ ectRegEepcfg.toNat := by
    intro b
    rw [le16_length]
    decide
  rw [Segment.giveAddress,hk]
  obtain ⟨halike1,hpdi1⟩ := write_address (g.stations (i+1)) (UInt16.ofNat (i+1)+ecNodeoffset)
  have hstadr1 := (g.stations (i+1)).write_stadr_self (UInt16.ofNat (i+1)+ecNodeoffset)
  obtain ⟨halike2,hstadr2,hpdi2⟩ := write_plain ((g.stations (i+1)).write ectRegStadr
    (le16 (UInt16.ofNat (i+1)+ecNodeoffset))) (by decide)
    (hdlctl (if UInt16.ofNat (i+1)=1 then 1 else 0))
  refine ⟨⟨h.kept.fares,hconnected,fun p => ?_,fun p hp => ?_⟩,fun p hp hle => ?_,fun p hp hle => ?_,
    fun p hp => ?_⟩
  · by_cases heq : p=i+1
    · rw [heq,put_station]
      exact (h.kept.alike (i+1)).trans (halike1.trans halike2)
    · rw [put_other heq]
      exact h.kept.alike p
  · rw [put_other (by omega)]
    exact h.kept.outside p hp
  · by_cases heq : p=i+1
    · rw [heq,put_station,hpdi2,hpdi1]
      exact h.ours (i+1) (by omega) (by omega)
    · rw [put_other heq]
      exact h.ours p hp hle
  · by_cases heq : p=i+1
    · rw [heq,put_station,hstadr2,hstadr1]
    · rw [put_other heq]
      exact h.low p hp (by omega)
  · rw [put_other (by omega)]
    exact h.high p (by omega)

/-- Who answers to the address that was given out last. -/
theorem Numbered.responds (h : Numbered g0 (i+1) g) (hi : i<g0.connected)
    (hn : g0.connected+ecNodeoffset.toNat<0xfffe) :
    g.addressed .station (UInt16.ofNat (i+1)+ecNodeoffset)=holders g0 (i+1) ∧
      Responds g (UInt16.ofNat (i+1)+ecNodeoffset) (lastHolder g0 (i+1)) := by
  have hall : g.addressed .station (UInt16.ofNat (i+1)+ecNodeoffset)=holders g0 (i+1) := by
    rw [Segment.addressed,holders,h.kept.connected]
    apply List.filter_congr
    intro q hq
    rw [List.mem_range'_1] at hq
    apply decide_eq_decide.mpr
    change (g.stations q).stadr=_ ↔ _
    by_cases hbehind : i+1<q
    · rw [h.high q hbehind]
      constructor
      · exact fun heq => .inr ⟨hbehind,heq⟩
      · intro hor
        rcases hor with heq|hand
        · omega
        · exact hand.2
    · rw [h.low q hq.1 (by omega),offset_inj (by omega) (by omega)]
      constructor
      · exact fun heq => .inl heq
      · intro hor
        rcases hor with heq|hand
        · exact heq
        · omega
  have hmem : i+1 ∈ holders g0 (i+1) := by
    rw [holders,List.mem_filter,List.mem_range'_1]
    exact ⟨by omega,decide_eq_true (.inl rfl)⟩
  refine ⟨hall,h.kept.fares,?_⟩
  rw [hall,lastHolder]
  cases hlast : (holders g0 (i+1)).getLast? with
  | none =>
    rw [List.getLast?_eq_none_iff] at hlast
    rw [hlast] at hmem
    cases hmem
  | some q => rfl

theorem Numbered.alone (h : Numbered g0 g0.connected g)
    (hn : g0.connected+ecNodeoffset.toNat<0xfffe) {p : Nat} (hp : 1 ≤ p) (hle : p ≤ g0.connected) :
    g.addressed .station (UInt16.ofNat p+ecNodeoffset)=[p] := by
  have hconnected := h.kept.connected
  apply addressed_eq_singleton
  intro q
  rw [mem_addressed]
  constructor
  · intro hq
    have hsel : (g.stations q).stadr=UInt16.ofNat p+ecNodeoffset := hq.2
    rw [h.low q hq.1.1 (by omega)] at hsel
    exact (offset_inj (by omega) (by omega)).mp hsel
  · intro hq
    subst hq
    exact ⟨by omega,h.low q hp hle⟩

end Line

end EtherCATMaster.Config
