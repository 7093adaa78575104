import EtherCATMaster.Nicdrv.FrameBuilder
import EtherCATMaster.Sii.Eeprom

namespace EtherCATMaster.Config

open EtherCATMaster.Framework EtherCATMaster.Sii
open EtherCATMaster.Mapping (ecNoFrame writeBytes readBytes)
open EtherCATMaster.Nicdrv (readBytes_written readBytes_apart)

def ectRegStadr : UInt16 := 0x0010
def ectRegAlias : UInt16 := 0x0012

/-- A slave on the line: its registers, and its EEPROM. -/
structure Station where
  registers : Nat → UInt8
  eeprom : Nat → UInt8
  eep8byte : Bool

namespace Station

def word (s : Station) (ado : UInt16) : UInt16 := get16 (readBytes s.registers ado.toNat 2) 0

/-- The address that the slave answers to. -/
def stadr (s : Station) : UInt16 := s.word ectRegStadr

/-- Whether the EEPROM is assigned to the PDI. -/
def pdi (s : Station) : Bool := decide (s.registers ectRegEepcfg.toNat &&& 1≠0)

def eepstat (s : Station) : UInt16 := if s.eep8byte then ecEstatR64 else 0

def read (s : Station) (ado : UInt16) (length : Nat) : List UInt8 :=
  if ado=ectRegEepstat then le16 s.eepstat else readBytes s.registers ado.toNat length

/-- A command to the EEPROM. It is taken if the EEPROM is not assigned to the PDI. -/
def command (s : Station) (comm addr : UInt16) : Station :=
  if s.pdi=false ∧ comm=ecEcmdRead then
    let block := romBlock s.eeprom addr.toNat (eepBlockSize s.eep8byte)
    { s with registers := writeBytes s.registers ectRegEepdat.toNat block }
  else s

def write (s : Station) (ado : UInt16) (data : List UInt8) : Station :=
  if ado=ectRegEepctl then s.command (get16 data 0) (get16 data 2)
  else { s with registers := writeBytes s.registers ado.toNat data }

def fixed (s : Station) : (Nat → UInt8) × Bool := (s.eeprom,s.eep8byte)

theorem command_fixed (s : Station) (comm addr : UInt16) : (s.command comm addr).fixed=s.fixed := by
  rw [command]
  split_ifs <;> rfl

theorem write_fixed (s : Station) (ado : UInt16) (data : List UInt8) :
    (s.write ado data).fixed=s.fixed := by
  rw [write]
  split_ifs
  · exact s.command_fixed _ _
  · rfl

theorem command_below (s : Station) (comm addr : UInt16) {i : Nat} (hi : i<ectRegEepdat.toNat) :
    (s.command comm addr).registers i=s.registers i := by
  rw [command]
  split_ifs
  · exact if_neg fun h => Nat.not_le.mpr hi h.1
  · rfl

theorem write_outside (s : Station) {ado : UInt16} {data : List UInt8} {i : Nat}
    (hi : i<ectRegEepdat.toNat) (h : i<ado.toNat ∨ ado.toNat+data.length ≤ i) :
    (s.write ado data).registers i=s.registers i := by
  rw [write]
  split_ifs
  · exact s.command_below _ _ hi
  · exact if_neg fun hin => by omega

theorem word_congr {s s' : Station} {ado : UInt16}
    (h : ∀ i,i=ado.toNat ∨ i=ado.toNat+1 → s'.registers i=s.registers i) :
    s'.word ado=s.word ado := by
  rw [word,word]
  congr 1
  apply List.map_congr_left
  intro i hi
  have hlt := List.mem_range.mp hi
  exact h _ (by omega)

theorem write_stadr (s : Station) {ado : UInt16} {data : List UInt8}
    (h : ectRegStadr.toNat+2 ≤ ado.toNat) : (s.write ado data).stadr=s.stadr := by
  have hreg : ectRegStadr.toNat=16 := rfl
  have hdat : ectRegEepdat.toNat=0x508 := rfl
  exact word_congr fun i hi => s.write_outside (by omega) (by omega)

theorem write_stadr_self (s : Station) (adr : UInt16) :
    (s.write ectRegStadr (le16 adr)).stadr=adr := by
  have hplain : ¬ectRegStadr=ectRegEepctl := by decide
  rw [stadr,word,write,if_neg hplain]
  simp only [readBytes_written _ _ (le16 adr) (le16_length adr).symm]
  exact get16_le16 [] adr []

end Station

/-- How the slaves of a datagram are found: by the place on the line, by the station address, or
all of them. -/
inductive Addressing where
  | position
  | station
  | broadcast
  deriving DecidableEq, Repr

/-- Whether the slave at a place takes part. A position is counted up from slave to slave, and it is
zero where it is meant. -/
def Addressing.Selects (a : Addressing) (adp : UInt16) (place : Nat) (s : Station) : Prop :=
  match a with
  | .position => adp+UInt16.ofNat (place-1)=0
  | .station => s.stadr=adp
  | .broadcast => True

instance (a : Addressing) (adp : UInt16) (place : Nat) (s : Station) :
    Decidable (a.Selects adp place s) :=
  match a with
  | .position => inferInstanceAs (Decidable (adp+UInt16.ofNat (place-1)=0))
  | .station => inferInstanceAs (Decidable (s.stadr=adp))
  | .broadcast => isTrue trivial

/-- How a call fares: the frames that have done their work and do not come back, and whether one
comes back in the end. -/
structure Fare where
  unanswered : Nat
  answered : Bool
  deriving DecidableEq, Repr

def Fare.Worked (f : Fare) : Prop := 0 < f.unanswered ∨ f.answered=true

/-- The line: the slaves by their places from 1 on, those that are connected, how the calls to come
fare, and what the timer says to come. A call that nothing is said of is answered at once. -/
structure Segment where
  stations : Nat → Station
  connected : Nat
  fares : List Fare
  timer : List Bool

namespace Segment

/-- The places of the slaves that a datagram is for, in the order of the line. -/
def addressed (g : Segment) (a : Addressing) (adp : UInt16) : List Nat :=
  (List.range' 1 g.connected).filter fun place => a.Selects adp place (g.stations place)

def write (g : Segment) (a : Addressing) (adp ado : UInt16) (data : List UInt8) : Segment :=
  { g with stations := fun place =>
      if place ∈ g.addressed a adp then (g.stations place).write ado data else g.stations place }

def put (g : Segment) (place : Nat) (s : Station) : Segment :=
  { g with stations := Function.update g.stations place s }

/-- The bytes of the last one that answers remain. What a broadcast brings is not looked at but for
the count. -/
def read (g : Segment) (a : Addressing) (adp ado : UInt16) (length : Nat) : List UInt8 :=
  match (g.addressed a adp).getLast? with
  | some place => (g.stations place).read ado length
  | none => []

def unanswered (work : Segment → Segment) : Nat → Segment → Segment
  | 0,g => g
  | n+1,g => unanswered work n (work g)

def fare (g : Segment) : Fare := g.fares.headD ⟨0,true⟩

def ended (g : Segment) : Segment := { g with fares := g.fares.tail }

/-- `ecx_APWR` and `ecx_FPWR`. The frame is sent again until it comes back or there is no time. -/
def callWrite (a : Addressing) (adp ado : UInt16) (data : List UInt8) (g : Segment) :
    Int × Segment :=
  let worked := unanswered (fun g => g.write a adp ado data) g.fare.unanswered g.ended
  if g.fare.answered then ((worked.addressed a adp).length,worked.write a adp ado data)
  else (ecNoFrame,worked)

/-- `ecx_APRD` and `ecx_FPRD` -/
def callRead (a : Addressing) (adp ado : UInt16) (length : Nat) (g : Segment) :
    (Int × List UInt8) × Segment :=
  if g.fare.answered then (((g.addressed a adp).length,g.read a adp ado length),g.ended)
  else ((ecNoFrame,[]),g.ended)

/-- `osal_timer_is_expired`. A timer that nothing is said of has expired. -/
def timerIsExpired (g : Segment) : Bool × Segment :=
  (g.timer.headD true,{ g with timer := g.timer.tail })

end Segment

/-- The calls by which the configuration talks to the slaves. -/
structure ConfigPort (σ : Type) extends EepromPort σ where
  aprd : UInt16 → UInt16 → Nat → σ → (Int × List UInt8) × σ
  apwr : UInt16 → UInt16 → List UInt8 → σ → Int × σ
  brd : UInt16 → Nat → σ → (Int × List UInt8) × σ
  bwr : UInt16 → List UInt8 → σ → Int × σ

def segmentPort : ConfigPort Segment where
  fprd := Segment.callRead .station
  fpwr := Segment.callWrite .station
  timerIsExpired := Segment.timerIsExpired
  aprd := Segment.callRead .position
  apwr := Segment.callWrite .position
  brd := Segment.callRead .broadcast 0
  bwr := Segment.callWrite .broadcast 0

section Calls

variable {g : Segment} {a : Addressing} {adp ado : UInt16} {data : List UInt8} {place : Nat}
  {s : Station}

@[simp] theorem put_put (s s' : Station) : (g.put place s).put place s'=g.put place s' := by
  rw [Segment.put,Segment.put,Segment.put,Function.update_idem]

@[simp] theorem put_station : (g.put place s).stations place=s := Function.update_self ..

theorem put_other {p : Nat} (h : p≠place) : (g.put place s).stations p=g.stations p :=
  Function.update_of_ne h _ _

theorem put_eq : g.put place (g.stations place)=g := by
  rw [Segment.put,Function.update_eq_self]

theorem write_station : (g.write a adp ado data).stations place=
    if place ∈ g.addressed a adp then (g.stations place).write ado data else g.stations place := rfl

theorem mem_addressed : place ∈ g.addressed a adp ↔
    (1 ≤ place ∧ place ≤ g.connected) ∧ a.Selects adp place (g.stations place) := by
  rw [Segment.addressed,List.mem_filter,List.mem_range'_1,decide_eq_true_iff]
  apply and_congr_left
  intro _
  omega

theorem addressed_eq_singleton (h : ∀ q,q ∈ g.addressed a adp ↔ q=place) :
    g.addressed a adp=[place] := by
  have hnodup : (g.addressed a adp).Nodup := List.Nodup.filter _ List.nodup_range'
  exact List.perm_singleton.mp ((List.perm_ext_iff_of_nodup hnodup (List.nodup_singleton _)).mpr
    fun q => (h q).trans List.mem_singleton.symm)

theorem addressed_eq_nil (h : ∀ q,q ∉ g.addressed a adp) : g.addressed a adp=[] :=
  List.eq_nil_iff_forall_not_mem.mpr h

/-- The address of a position: `(uint16)(1 - slave)`. -/
theorem position_selects {slave : UInt16} (hslave : 0 < slave.toNat)
    (hplace : 1 ≤ place ∧ place<2^16) :
    Addressing.position.Selects (1-slave) place s ↔ place=slave.toNat := by
  have hlt := slave.toNat_lt
  change 1-slave+UInt16.ofNat (place-1)=0 ↔ _
  rw [← UInt16.toNat_inj,UInt16.toNat_add,UInt16.toNat_sub,UInt16.toNat_ofNat']
  change ((2^16-slave.toNat+1)%2^16+(place-1)%2^16)%2^16=0 ↔ _
  omega

theorem addressed_position {slave : UInt16} (hslave : 0 < slave.toNat)
    (hc : g.connected<2^16) : g.addressed .position (1-slave)=
      if slave.toNat ≤ g.connected then [slave.toNat] else [] := by
  have hmem : ∀ q,q ∈ g.addressed .position (1-slave) ↔
      q=slave.toNat ∧ slave.toNat ≤ g.connected := by
    intro q
    rw [mem_addressed]
    constructor
    · intro h
      obtain ⟨hin,hsel⟩ := h
      have heq := (position_selects hslave (by omega)).mp hsel
      exact ⟨heq,by omega⟩
    · intro h
      obtain ⟨heq,hle⟩ := h
      exact ⟨by omega,(position_selects hslave (by omega)).mpr heq⟩
  split_ifs with hle
  · exact addressed_eq_singleton fun q => by rw [hmem,and_iff_left hle]
  · exact addressed_eq_nil fun q hq => hle ((hmem q).mp hq).2

theorem unanswered_keeps {J : Segment → Prop} {work : Segment → Segment}
    (hwork : ∀ g,J g → J (work g)) (n : Nat) : ∀ g,J g → J (Segment.unanswered work n g) := by
  induction n with
  | zero => exact fun _ h => h
  | succ n ih => exact fun g h => ih _ (hwork g h)

theorem callWrite_keeps {J : Segment → Prop} (hended : ∀ g,J g → J g.ended)
    (hwrite : ∀ g,J g → J (g.write a adp ado data)) (h : J g) :
    J (g.callWrite a adp ado data).2 := by
  have hworked := unanswered_keeps hwrite g.fare.unanswered _ (hended g h)
  rw [Segment.callWrite]
  split_ifs
  · exact hwrite _ hworked
  · exact hworked

theorem callWrite_worked {J K : Segment → Prop} (hended : ∀ g,J g → J g.ended)
    (hfirst : ∀ g,J g → K (g.write a adp ado data))
    (hagain : ∀ g,K g → K (g.write a adp ado data)) (hworked : g.fare.Worked) (h : J g) :
    K (g.callWrite a adp ado data).2 := by
  rw [Segment.callWrite]
  cases hn : g.fare.unanswered with
  | zero =>
    have hanswered : g.fare.answered=true := by
      rcases hworked with hpos|hanswered
      · omega
      · exact hanswered
    rw [if_pos hanswered]
    exact hfirst _ (hended g h)
  | succ n =>
    have hsent : K (Segment.unanswered (fun g => g.write a adp ado data) (n+1) g.ended) :=
      unanswered_keeps hagain n _ (hfirst _ (hended g h))
    split_ifs
    · exact hagain _ hsent
    · exact hsent

theorem callRead_keeps {J : Segment → Prop} {length : Nat} (hended : ∀ g,J g → J g.ended)
    (h : J g) : J (g.callRead a adp ado length).2 := by
  rw [Segment.callRead]
  split_ifs
  · exact hended g h
  · exact hended g h

end Calls

end EtherCATMaster.Config
