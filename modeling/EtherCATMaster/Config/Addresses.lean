import EtherCATMaster.Config.Recover

namespace EtherCATMaster.Config

open EtherCATMaster.Framework EtherCATMaster.Sii

/-- The address that the configuration has for a place. -/
def Configured (slavelist : UInt16 → ConfiguredSlave) (slavecount place : Nat) (adr : UInt16) : Prop :=
  1 ≤ place ∧ place ≤ slavecount ∧ adr=(slavelist (UInt16.ofNat place)).configadr

def Placed (slavelist : UInt16 → ConfiguredSlave) (slavecount : Nat) (g : Segment) : Prop :=
  ∀ place,(g.stations place).stadr=0 ∨ (g.stations place).stadr=ecTempnode ∨
    Configured slavelist slavecount place (g.stations place).stadr

/-- No other slave is at `EC_TEMPNODE`. -/
def TempOnly (slave : Nat) (g : Segment) : Prop :=
  ∀ place,(g.stations place).stadr=ecTempnode → place=slave

/-- The write that clears `EC_TEMPNODE`, the second call of a recovery, gets to the slaves that are
there. -/
def ClearArrives (g : Segment) : Prop :=
  (g.fares.tail.headD ⟨0,true⟩).Worked ∧
    ∀ place,(g.stations place).stadr=ecTempnode → 1 ≤ place ∧ place ≤ g.connected

/-- Every slave is in its place, and at most one is at `EC_TEMPNODE`. -/
structure InPlace (slavelist : UInt16 → ConfiguredSlave) (slavecount : Nat) (g : Segment) : Prop where
  connected : g.connected<2^16
  placed : Placed slavelist slavecount g
  temp : ∃ slave,TempOnly slave g

/-- The same, where it is known which one may be at `EC_TEMPNODE`. -/
structure Moved (slavelist : UInt16 → ConfiguredSlave) (slavecount slave : Nat) (g : Segment) :
    Prop where
  connected : g.connected<2^16
  placed : Placed slavelist slavecount g
  temp : TempOnly slave g

/-- None is at `EC_TEMPNODE`. -/
structure Cleared (slavelist : UInt16 → ConfiguredSlave) (slavecount : Nat) (g : Segment) : Prop where
  connected : g.connected<2^16
  placed : Placed slavelist slavecount g
  temp : ∀ place,(g.stations place).stadr≠ecTempnode

section Datagrams

variable {g : Segment} {a : Addressing} {adp ado adr : UInt16} {data : List UInt8} {place : Nat}

theorem stadr_write : ((g.write a adp ectRegStadr (le16 adr)).stations place).stadr=
    if place ∈ g.addressed a adp then adr else (g.stations place).stadr := by
  rw [write_station]
  split_ifs
  · exact Station.write_stadr_self _ _
  · rfl

theorem stadr_kept (h : ectRegStadr.toNat+2 ≤ ado.toNat) :
    ((g.write a adp ado data).stations place).stadr=(g.stations place).stadr := by
  rw [write_station]
  split_ifs
  · exact Station.write_stadr _ h
  · rfl

/-- A property that the addresses and the number of connected slaves decide. -/
structure OfAddresses (J : Segment → Prop) : Prop where
  congr : ∀ g g' : Segment,g'.connected=g.connected →
    (∀ place,(g'.stations place).stadr=(g.stations place).stadr) → J g → J g'

theorem OfAddresses.eeprom {J : Segment → Prop} (h : OfAddresses J) (configadr : UInt16) :
    EepromKeeps segmentPort.toEepromPort configadr J where
  fprd _ _ _ hj := callRead_keeps (fun g hj => h.congr g _ rfl (fun _ => rfl) hj) hj
  fpwr ado _ _ hado hj := by
    have hreg : ectRegStadr.toNat+2 ≤ ado.toNat := by
      have hle : ectRegEepcfg.toNat ≤ ado.toNat := UInt16.le_iff_toNat_le.mp hado
      have hcfg : ectRegEepcfg.toNat=0x500 := rfl
      have hstadr : ectRegStadr.toNat=0x10 := rfl
      omega
    exact callWrite_keeps (fun g hj => h.congr g _ rfl (fun _ => rfl) hj)
      (fun g hj => h.congr g _ rfl (fun _ => stadr_kept hreg) hj) hj
  timer g hj := h.congr g _ rfl (fun _ => rfl) hj

variable {slavelist : UInt16 → ConfiguredSlave} {slavecount slave : Nat}

theorem moved_ofAddresses : OfAddresses (Moved slavelist slavecount slave) where
  congr g g' hc ha h := by
    refine ⟨by rw [hc]; exact h.connected,fun place => ?_,fun place hp => ?_⟩
    · rw [ha]
      exact h.placed place
    · rw [ha] at hp
      exact h.temp place hp

theorem Moved.inPlace (h : Moved slavelist slavecount slave g) : InPlace slavelist slavecount g :=
  ⟨h.connected,h.placed,slave,h.temp⟩

/-- The write that takes `EC_TEMPNODE` away again, or gives the address of the place. -/
theorem Moved.release (h : Moved slavelist slavecount slave g)
    (hadr : adr=0 ∨ Configured slavelist slavecount slave adr) :
    Moved slavelist slavecount slave (g.write .station ecTempnode ectRegStadr (le16 adr)) := by
  refine ⟨h.connected,fun place => ?_,fun place hp => ?_⟩
  · rw [stadr_write]
    split_ifs with hin
    · have htemp : (g.stations place).stadr=ecTempnode := (mem_addressed.mp hin).2
      have hplace := h.temp place htemp
      subst hplace
      rcases hadr with hzero|hown
      · exact .inl hzero
      · exact .inr (.inr hown)
    · exact h.placed place
  · rw [stadr_write] at hp
    split_ifs at hp with hin
    · exact h.temp place (mem_addressed.mp hin).2
    · exact h.temp place hp

/-- The write that puts a slave at `EC_TEMPNODE`. -/
theorem Moved.move {k : UInt16} (hk : 0 < k.toNat) (h : Moved slavelist slavecount k.toNat g) :
    Moved slavelist slavecount k.toNat
      (g.write .position (1-k) ectRegStadr (le16 ecTempnode)) := by
  have hin : ∀ place,place ∈ g.addressed .position (1-k) → place=k.toNat := by
    intro place hp
    obtain ⟨hrange,hsel⟩ := mem_addressed.mp hp
    have hc := h.connected
    exact (position_selects hk ⟨hrange.1,by omega⟩).mp hsel
  refine ⟨h.connected,fun place => ?_,fun place hp => ?_⟩
  · rw [stadr_write]
    split_ifs
    · exact .inr (.inl rfl)
    · exact h.placed place
  · rw [stadr_write] at hp
    split_ifs at hp with hsel
    · exact hin place hsel
    · exact h.temp place hp

/-- What is left of the slaves at `EC_TEMPNODE` where the clearing write has been. -/
theorem placed_clear (h : Placed slavelist slavecount g) :
    Placed slavelist slavecount (g.write .station ecTempnode ectRegStadr (le16 0)) := by
  intro place
  rw [stadr_write]
  split_ifs
  · exact .inl rfl
  · exact h place

theorem cleared_again (h : Cleared slavelist slavecount g) :
    Cleared slavelist slavecount (g.write .station ecTempnode ectRegStadr (le16 0)) := by
  refine ⟨h.connected,placed_clear h.placed,fun place => ?_⟩
  rw [stadr_write]
  split_ifs
  · decide
  · exact h.temp place

end Datagrams

section Recovering

variable {P Q : Segment → Prop} {adp ado adr : UInt16}

theorem fpwrw_leads (h : ∀ g,P g → Q (g.callWrite .station adp ado (le16 adr)).2) :
    Accounts Leads P (segmentPort.fpwrw adp ado adr) fun _ => Q := by
  intro g a g' hrun hp
  have hw : g.callWrite .station adp ado (le16 adr)=(a,g') := Except.ok.inj hrun
  have hq := h g hp
  rw [hw] at hq
  exact hq

theorem apwrw_leads (h : ∀ g,P g → Q (g.callWrite .position adp ado (le16 adr)).2) :
    Accounts Leads P (segmentPort.apwrw adp ado adr) fun _ => Q := by
  intro g a g' hrun hp
  have hw : g.callWrite .position adp ado (le16 adr)=(a,g') := Except.ok.inj hrun
  have hq := h g hp
  rw [hw] at hq
  exact hq

theorem aprdWord_leads {default : UInt16} (h : ∀ g,P g → Q g.ended) :
    Accounts Leads P (segmentPort.aprdWord adp ado default) fun _ => Q := by
  intro g a g' hrun hp
  have hend : g'=g.ended := by
    cases hrun
    change (g.callRead .position adp ado 2).2=_
    rw [Segment.callRead]
    split_ifs <;> rfl
  rw [hend]
  exact h g hp

variable {slavelist : UInt16 → ConfiguredSlave} {slavecount : Nat} {slave : UInt16}

/-- The state in which the clearing write is sent. -/
structure BeforeClear (slavelist : UInt16 → ConfiguredSlave) (slavecount : Nat) (g : Segment) :
    Prop where
  inPlace : InPlace slavelist slavecount g
  worked : g.fare.Worked
  reached : ∀ place,(g.stations place).stadr=ecTempnode → 1 ≤ place ∧ place ≤ g.connected

theorem clear_leads : Accounts Leads (BeforeClear slavelist slavecount)
    (segmentPort.fpwrw ecTempnode ectRegStadr 0) fun _ => Cleared slavelist slavecount := by
  apply fpwrw_leads
  intro g h
  refine callWrite_worked (J := fun g => InPlace slavelist slavecount g ∧ ∀ place,
    (g.stations place).stadr=ecTempnode → 1 ≤ place ∧ place ≤ g.connected)
    (fun g hj => ⟨⟨hj.1.connected,hj.1.placed,hj.1.temp⟩,hj.2⟩) ?_ (fun g hk => cleared_again hk)
    h.worked ⟨h.inPlace,h.reached⟩
  intro g hj
  refine ⟨hj.1.connected,placed_clear hj.1.placed,fun place => ?_⟩
  rw [stadr_write]
  split_ifs with hin
  · decide
  · intro htemp
    exact hin (mem_addressed.mpr ⟨hj.2 place htemp,htemp⟩)

/-- A recovery whose clearing write gets through leaves every slave in its place. -/
theorem recoverSlave_leads (fuel : Nat) (hpos : 0 < slave.toNat) (hle : slave.toNat ≤ slavecount) :
    Accounts Leads (OnLine fun g => InPlace slavelist slavecount g ∧ ClearArrives g)
      (recoverSlave segmentPort fuel slavelist slave) fun _ =>
        OnLine (InPlace slavelist slavecount) := by
  have hown : Configured slavelist slavecount slave.toNat (slavelist slave).configadr :=
    ⟨hpos,hle,by rw [UInt16.ofNat_toNat]⟩
  have hmoved : OfAddresses (Moved slavelist slavecount slave.toNat) := moved_ofAddresses
  have hended : ∀ g,Moved slavelist slavecount slave.toNat g →
      Moved slavelist slavecount slave.toNat g.ended := fun g h => ⟨h.connected,h.placed,h.temp⟩
  -- what is written to `EC_TEMPNODE` from here on
  have hrelease : ∀ adr,adr=0 ∨ Configured slavelist slavecount slave.toNat adr →
      Accounts Leads (OnLine (Moved slavelist slavecount slave.toNat))
        (onPort (segmentPort.fpwrw ecTempnode ectRegStadr adr)) fun _ =>
          OnLine (InPlace slavelist slavecount) := by
    intro adr hadr
    apply onPort_leads
    apply fpwrw_leads
    intro g h
    exact (callWrite_keeps hended (fun _ h => h.release hadr) h).inPlace
  have hend : ∀ a : Int,Accounts Leads (OnLine (InPlace slavelist slavecount))
      (pure a : SiiM Segment Int) fun _ => OnLine (InPlace slavelist slavecount) :=
    fun a => keeps_pure a
  have hread : Accounts Leads (OnLine fun g => InPlace slavelist slavecount g ∧ ClearArrives g)
      (onPort (segmentPort.aprdWord (1-slave) ectRegStadr 0xfffe)) fun _ =>
        OnLine (BeforeClear slavelist slavecount) := by
    apply onPort_leads
    apply aprdWord_leads
    intro g h
    exact ⟨⟨h.1.connected,h.1.placed,h.1.temp⟩,h.2.1,h.2.2⟩
  have hmove : Accounts Leads (OnLine (Cleared slavelist slavecount))
      (onPort (segmentPort.apwrw (1-slave) ectRegStadr ecTempnode)) fun _ =>
        OnLine (Moved slavelist slavecount slave.toNat) := by
    apply onPort_leads
    apply apwrw_leads
    intro g h
    exact callWrite_keeps hended (fun _ h => h.move hpos)
      ⟨h.connected,h.placed,fun place hp => absurd hp (h.temp place)⟩
  have htemp : EepromKeeps (tempContext segmentPort slavelist slave).port
      ((tempContext segmentPort slavelist slave).configadr slave)
      (Moved slavelist slavecount slave.toNat) := hmoved.eeprom _
  have hstay : ∀ a : Int,Accounts Leads (OnLine (BeforeClear slavelist slavecount))
      (pure a : SiiM Segment Int) fun _ => OnLine (InPlace slavelist slavecount) := by
    intro a st b st' hrun h
    cases pure_ok.mp hrun
    exact BeforeClear.inPlace h
  rw [recoverSlave]
  refine leads_bind hread fun r => .ite (fun _ => hstay 1) fun _ => .ite (fun _ => ?_)
    fun _ => hstay 0
  refine leads_bind (onPort_leads clear_leads) fun _ => leads_bind hmove fun wkc => .ite (fun _ => ?_)
    fun _ => ?_
  · exact leads_bind (hrelease 0 (.inl rfl)) fun _ => hend 0
  · refine leads_bind htemp.eeprom2master fun _ =>
      leads_bind (sameSlave_keeps (hmoved.eeprom _) fuel slavelist slave) fun same => ?_
    apply Accounts.ite
    · intro _
      exact hrelease _ (.inr hown)
    · intro _
      exact leads_bind (hrelease 0 (.inl rfl)) fun _ => hend 0

end Recovering

/-- What happens on the line while the master supervises it. A slave that is switched on has no
address, and its EEPROM is not assigned to the PDI. -/
inductive LineStep (fuel : Nat) (slavelist : UInt16 → ConfiguredSlave) (slavecount : Nat)
    (Fair : Segment → Prop) : SiiState Segment → SiiState Segment → Prop
  /-- A slave is switched on at a place, the one that was there or another. -/
  | power {st : SiiState Segment} (place : Nat) (s : Station) (haddress : s.stadr=0)
      (hpdi : s.pdi=false) : LineStep fuel slavelist slavecount Fair st
        { st with env := st.env.put place s }
  /-- The line is cut behind a place, or joined again. -/
  | connect {st : SiiState Segment} (connected : Nat) (hc : connected<2^16) :
      LineStep fuel slavelist slavecount Fair st { st with env := { st.env with connected } }
  /-- How the next calls fare, and how long they may take. -/
  | calls {st : SiiState Segment} (fares : List Fare) (timer : List Bool) :
      LineStep fuel slavelist slavecount Fair st { st with env := { st.env with fares,timer } }
  /-- The other datagrams of the master, to the configured addresses. -/
  | traffic {st st' : SiiState Segment} (place : Nat) (ado : UInt16) (data : List UInt8)
      (hplace : 1 ≤ place ∧ place ≤ slavecount) (hado : ectRegAlias.toNat+2 ≤ ado.toNat)
      (henv : st'.env=st.env.write .station (slavelist (UInt16.ofNat place)).configadr ado data) :
      LineStep fuel slavelist slavecount Fair st st'
  | recover {st st' : SiiState Segment} {slave : UInt16} {r : Int} (hpos : 0 < slave.toNat)
      (hle : slave.toNat ≤ slavecount) (hfair : Fair st.env)
      (hrun : recoverSlave segmentPort fuel slavelist slave st=.ok (r,st')) :
      LineStep fuel slavelist slavecount Fair st st'

/-- Addresses that tell the slaves apart. -/
structure DistinctAddresses (slavelist : UInt16 → ConfiguredSlave) (slavecount : Nat) : Prop where
  proper : ∀ adr place,Configured slavelist slavecount place adr → adr≠0 ∧ adr≠ecTempnode
  distinct : ∀ adr p q,Configured slavelist slavecount p adr →
    Configured slavelist slavecount q adr → p=q

/-- The slaves have their number as address, with the node offset. -/
structure OffsetAddresses (slavelist : UInt16 → ConfiguredSlave) (slavecount : Nat) : Prop where
  few : slavecount+ecNodeoffset.toNat<0xfffe
  configadr : ∀ slave : UInt16,1 ≤ slave.toNat → slave.toNat ≤ slavecount →
    (slavelist slave).configadr=slave+ecNodeoffset

theorem OffsetAddresses.toNat {slavelist : UInt16 → ConfiguredSlave} {slavecount place : Nat}
    {adr : UInt16} (h : OffsetAddresses slavelist slavecount)
    (hown : Configured slavelist slavecount place adr) :
    adr.toNat=place+ecNodeoffset.toNat ∧ adr.toNat<0xfffe := by
  obtain ⟨hpos,hle,rfl⟩ := hown
  have hfew := h.few
  have hplace : (UInt16.ofNat place).toNat=place := UInt16.toNat_ofNat_of_lt' (by
    change place<2^16
    omega)
  rw [h.configadr _ (by omega) (by omega),UInt16.toNat_add,hplace,Nat.mod_eq_of_lt (by omega)]
  exact ⟨rfl,by omega⟩

theorem OffsetAddresses.distinct {slavelist : UInt16 → ConfiguredSlave} {slavecount : Nat}
    (h : OffsetAddresses slavelist slavecount) : DistinctAddresses slavelist slavecount where
  proper adr place hown := by
    have hadr := h.toNat hown
    have hoffset : ecNodeoffset.toNat=0x1000 := rfl
    constructor
    · rintro rfl
      have hzero : (0 : UInt16).toNat=0 := rfl
      omega
    · rintro rfl
      have htemp : ecTempnode.toNat=0xffff := rfl
      omega
  distinct adr p q hp hq := by
    have hadr := h.toNat hp
    have hadr' := h.toNat hq
    omega

section Runs

variable {slavelist : UInt16 → ConfiguredSlave} {slavecount fuel : Nat} {st st' : SiiState Segment}

theorem InPlace.step (h : InPlace slavelist slavecount st.env)
    (hstep : LineStep fuel slavelist slavecount ClearArrives st st') :
    InPlace slavelist slavecount st'.env := by
  cases hstep with
  | power place s haddress hpdi =>
    obtain ⟨k,hk⟩ := h.temp
    refine ⟨h.connected,fun p => ?_,k,fun p hp => ?_⟩
    · by_cases heq : p=place
      · subst heq
        rw [put_station]
        exact .inl haddress
      · rw [put_other heq]
        exact h.placed p
    · by_cases heq : p=place
      · subst heq
        rw [put_station,haddress] at hp
        exact absurd hp (by decide)
      · rw [put_other heq] at hp
        exact hk p hp
  | connect connected hc => exact ⟨hc,h.placed,h.temp⟩
  | calls fares timer => exact ⟨h.connected,h.placed,h.temp⟩
  | traffic place ado data hplace hado henv =>
    have hreg : ectRegAlias.toNat=ectRegStadr.toNat+2 := rfl
    have hkept : ∀ p,(st'.env.stations p).stadr=(st.env.stations p).stadr := by
      intro p
      rw [henv]
      exact stadr_kept (by omega)
    have hconnected : st'.env.connected=st.env.connected := by
      rw [henv]
      rfl
    obtain ⟨k,hk⟩ := h.temp
    have hmoved : Moved slavelist slavecount k st.env := ⟨h.connected,h.placed,hk⟩
    exact (moved_ofAddresses.congr _ _ hconnected hkept hmoved).inPlace
  | recover hpos hle hfair hrun =>
    exact recoverSlave_leads fuel hpos hle _ _ _ hrun ⟨h,hfair⟩

theorem inPlace_run (h : InPlace slavelist slavecount st.env)
    (hrun : Relation.ReflTransGen (LineStep fuel slavelist slavecount ClearArrives) st st') :
    InPlace slavelist slavecount st'.env := by
  induction hrun with
  | refl => exact h
  | tail _ hstep ih => exact ih.step hstep

theorem InPlace.unique (hd : DistinctAddresses slavelist slavecount) {g : Segment}
    (h : InPlace slavelist slavecount g) {p q : Nat} (hne : (g.stations p).stadr≠0)
    (heq : (g.stations p).stadr=(g.stations q).stadr) : p=q := by
  obtain ⟨k,hk⟩ := h.temp
  rcases h.placed p with hzero|htemp|hown
  · exact absurd hzero hne
  · rw [hk p htemp,hk q (heq.symm.trans htemp)]
  · have hproper := hd.proper _ _ hown
    rw [heq] at hproper hown
    rcases h.placed q with hzero|htemp|hown'
    · exact absurd hzero hproper.1
    · exact absurd htemp hproper.2
    · exact hd.distinct _ _ _ hown hown'

/-- Whatever is switched on, exchanged, cut off and recovered, in whatever order, and whatever frames
are lost: as long as the writes that clear `EC_TEMPNODE` arrive, a datagram to a station address meets
at most one slave, and one to a configured address only the slave at the place that has it. -/
theorem recovered_addresses (hd : DistinctAddresses slavelist slavecount)
    (h : InPlace slavelist slavecount st.env)
    (hrun : Relation.ReflTransGen (LineStep fuel slavelist slavecount ClearArrives) st st') :
    (∀ adr≠0,(st'.env.addressed .station adr).length ≤ 1) ∧
    ∀ adr place,Configured slavelist slavecount place adr →
      ∀ p ∈ st'.env.addressed .station adr,p=place := by
  have hin := inPlace_run h hrun
  constructor
  · intro adr hadr
    have hsame : ∀ p ∈ st'.env.addressed .station adr,∀ q ∈ st'.env.addressed .station adr,p=q := by
      intro p hp q hq
      have hstadr : (st'.env.stations p).stadr=adr := (mem_addressed.mp hp).2
      have hstadr' : (st'.env.stations q).stadr=adr := (mem_addressed.mp hq).2
      exact hin.unique hd (by rw [hstadr]; exact hadr) (hstadr.trans hstadr'.symm)
    have hnodup : (st'.env.addressed .station adr).Nodup := List.Nodup.filter _ List.nodup_range'
    cases hlist : st'.env.addressed .station adr with
    | nil => exact Nat.zero_le 1
    | cons p rest =>
      rw [hlist] at hsame hnodup
      have hrest : rest=[] := by
        apply List.eq_nil_iff_forall_not_mem.mpr
        intro q hq
        have heq := hsame p List.mem_cons_self q (List.mem_cons_of_mem _ hq)
        subst heq
        exact (List.nodup_cons.mp hnodup).1 hq
      rw [hrest]
      exact Nat.le_refl 1
  · intro adr place hown p hp
    have hstadr : (st'.env.stations p).stadr=adr := (mem_addressed.mp hp).2
    have hproper := hd.proper _ _ hown
    rcases hin.placed p with hzero|htemp|hown'
    · exact absurd (hstadr.symm.trans hzero) hproper.1
    · exact absurd (hstadr.symm.trans htemp) hproper.2
    · rw [hstadr] at hown'
      exact hd.distinct _ _ _ hown' hown

end Runs

def blankStation : Station := ⟨fun _ => 0,fun _ => 0,false⟩

/-- A slave list with nothing but addresses. -/
def offsetList (slave : UInt16) : ConfiguredSlave := ⟨slave+ecNodeoffset,0,false,0,0,0⟩

theorem offsetList_offset : OffsetAddresses offsetList 2 := ⟨by decide,fun _ _ _ => rfl⟩

/-- Two slaves in their places, where the call after the next one is worked on and not answered. -/
def lineOfTwo : SiiState Segment := SiiState.start
  { stations := fun place =>
      if 1 ≤ place ∧ place ≤ 2 then
        blankStation.write ectRegStadr (le16 (UInt16.ofNat place+ecNodeoffset))
      else blankStation
    connected := 2
    fares := [⟨0,true⟩,⟨1,false⟩]
    timer := [] }

theorem lineOfTwo_stadr (place : Nat) : (lineOfTwo.env.stations place).stadr=
    if 1 ≤ place ∧ place ≤ 2 then UInt16.ofNat place+ecNodeoffset else 0 := by
  change Station.stadr (if 1 ≤ place ∧ place ≤ 2 then _ else blankStation)=_
  split_ifs
  · exact Station.write_stadr_self _ _
  · rfl

theorem lineOfTwo_inPlace : InPlace offsetList 2 lineOfTwo.env := by
  refine ⟨by decide,fun place => ?_,0,fun place htemp => ?_⟩
  · rw [lineOfTwo_stadr]
    split_ifs with hin
    · exact .inr (.inr ⟨hin.1,hin.2,rfl⟩)
    · exact .inl rfl
  · rw [lineOfTwo_stadr] at htemp
    split_ifs at htemp with hin
    · have hown : Configured offsetList 2 place ecTempnode := ⟨hin.1,hin.2,htemp.symm⟩
      exact absurd rfl (offsetList_offset.distinct.proper _ _ hown).2
    · exact absurd htemp (by decide)

/-- The second slave is switched on again, and recovered. -/
theorem second_recovered : ∃ st',
    Relation.ReflTransGen (LineStep 1 offsetList 2 ClearArrives) lineOfTwo st' ∧
      (st'.env.stations 2).stadr=0x1002 ∧ (st'.env.addressed .station 0x1002).length ≤ 1 := by
  have hrun : (recoverSlave segmentPort 1 offsetList 2 { lineOfTwo with
      env := lineOfTwo.env.put 2 blankStation }).toOption.map (fun r => (r.2.env.stations 2).stadr)=
        some 0x1002 := by
    decide +kernel
  obtain ⟨r,st',hrecover,hstadr⟩ := returned_of_map hrun
  have hsteps : Relation.ReflTransGen (LineStep 1 offsetList 2 ClearArrives) lineOfTwo st' := by
    refine (Relation.ReflTransGen.single (.power 2 blankStation (by decide) (by decide))).tail
      (.recover (by decide) (by decide) ⟨.inl (by decide),fun place htemp => ?_⟩ hrecover)
    by_cases heq : place=2
    · subst heq
      exact absurd htemp (by decide)
    · rw [put_other heq] at htemp
      exact absurd htemp (by
        rw [lineOfTwo_stadr]
        split_ifs with hin
        · exact (offsetList_offset.distinct.proper _ _ ⟨hin.1,hin.2,rfl⟩).2
        · decide)
  exact ⟨st',hsteps,hstadr,
    (recovered_addresses offsetList_offset.distinct lineOfTwo_inPlace hsteps).1 _ (by decide)⟩

end EtherCATMaster.Config
