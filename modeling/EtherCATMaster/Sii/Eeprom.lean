import EtherCATMaster.Framework.ByteStream
import EtherCATMaster.Framework.Program

namespace EtherCATMaster.Sii
open EtherCATMaster.Framework

/-- The datagrams that one call sends, and its timer. A read returns its work counter and the bytes
that came with it. -/
structure EepromPort (σ : Type) where
  fprd : UInt16 → UInt16 → Nat → σ → (Int × List UInt8) × σ
  fpwr : UInt16 → UInt16 → List UInt8 → σ → Int × σ
  timerIsExpired : σ → Bool × σ

/-- A loop that has not come to its end within the rounds it was given. -/
inductive SiiHalt where
  | unfinished
deriving DecidableEq,Repr

def ectRegEepcfg : UInt16 := 0x0500
def ectRegEepctl : UInt16 := 0x0502
def ectRegEepstat : UInt16 := 0x0502
def ectRegEepdat : UInt16 := 0x0508

def ecEcmdNop : UInt16 := 0x0000
def ecEcmdRead : UInt16 := 0x0100

def ecEstatR64 : UInt16 := 0x0040
def ecEstatBusy : UInt16 := 0x8000
def ecEstatEmask : UInt16 := 0x7800
def ecEstatNack : UInt16 := 0x2000

def ecDefaultRetries : Nat := 3

variable {σ : Type}

/-- `ecx_FPRD` into a variable that is zero before. -/
def EepromPort.read (port : EepromPort σ) (configadr ado : UInt16) (length : Nat) :
    Program SiiHalt σ (Int × List UInt8) := fun s =>
  let ((wkc,data),t) := port.fprd configadr ado length s
  .ok ((wkc,if wkc>0 then data else List.replicate length 0),t)

def EepromPort.write (port : EepromPort σ) (configadr ado : UInt16) (data : List UInt8) :
    Program SiiHalt σ Int := fun s => .ok (port.fpwr configadr ado data s)

def EepromPort.writeRetry (port : EepromPort σ) (configadr ado : UInt16) (data : List UInt8) :
    Nat → Program SiiHalt σ Int
  | 0 => port.write configadr ado data
  | cnt+1 => do
    let wkc ← port.write configadr ado data
    if wkc ≤ 0 then port.writeRetry configadr ado data cnt else pure wkc

def EepromPort.readRetry (port : EepromPort σ) (configadr ado : UInt16) (length : Nat) :
    Nat → Program SiiHalt σ (Int × List UInt8)
  | 0 => port.read configadr ado length
  | cnt+1 => do
    let (wkc,data) ← port.read configadr ado length
    if wkc ≤ 0 then port.readRetry configadr ado length cnt else pure (wkc,data)

/-- `ecx_eeprom_waitnotbusyFP`: whether the interface is ready, and the status read last. -/
def eepromWaitnotbusyFP (port : EepromPort σ) (configadr : UInt16) :
    Nat → Program SiiHalt σ (Bool × UInt16)
  | 0 => throw .unfinished
  | fuel+1 => do
    let (wkc,data) ← port.read configadr ectRegEepstat 2
    let estat := get16 data 0
    if wkc ≤ 0 ∨ estat &&& ecEstatBusy≠0 then
      let expired ← (fun s => .ok (port.timerIsExpired s) : Program SiiHalt σ Bool)
      if expired then pure (decide (estat &&& ecEstatBusy=0),estat)
      else eepromWaitnotbusyFP port configadr fuel
    else pure (decide (estat &&& ecEstatBusy=0),estat)

/-- `ec_eepromt` as it is sent to read the word at `eeproma`. -/
def readCommand (eeproma : UInt16) : List UInt8 := le16 ecEcmdRead++(le16 eeproma++le16 0)

/-- One round of `ecx_readeepromFP`: the number of refusals so far, and the data. -/
def readeepromRound (port : EepromPort σ) (fuel : Nat) (configadr eeproma : UInt16)
    (nackcnt : Nat) : Program SiiHalt σ (Nat × UInt64) := do
  let wkc ← port.writeRetry configadr ectRegEepctl (readCommand eeproma) ecDefaultRetries
  if wkc≠0 then
    let (ready,estat) ← eepromWaitnotbusyFP port configadr fuel
    if ready then
      if estat &&& ecEstatNack≠0 then pure (nackcnt+1,0)
      else if estat &&& ecEstatR64≠0 then
        let (_,edat64) ← port.readRetry configadr ectRegEepdat 8 ecDefaultRetries
        pure (0,UInt64.ofNat (leValue edat64))
      else
        let (_,edat32) ← port.readRetry configadr ectRegEepdat 4 ecDefaultRetries
        pure (0,UInt64.ofNat (leValue edat32))
    else pure (nackcnt,0)
  else pure (nackcnt,0)

/-- The rounds are repeated while the slave refuses the command, up to three times. -/
def readeepromLoop (port : EepromPort σ) (fuel : Nat) (configadr eeproma : UInt16) :
    Nat → Nat → Program SiiHalt σ UInt64
  | 0,_ => throw .unfinished
  | rounds+1,nackcnt => do
    let (nackcnt',edat64) ← readeepromRound port fuel configadr eeproma nackcnt
    if nackcnt'>0 ∧ nackcnt'<3 then readeepromLoop port fuel configadr eeproma rounds nackcnt'
    else pure edat64

/-- `ecx_readeepromFP` -/
def readeepromFP (port : EepromPort σ) (fuel : Nat) (configadr eeproma : UInt16) :
    Program SiiHalt σ UInt64 := do
  let (ready,estat) ← eepromWaitnotbusyFP port configadr fuel
  if ready then
    if estat &&& ecEstatEmask≠0 then
      -- clear error bits
      let _ ← port.write configadr ectRegEepctl (le16 ecEcmdNop)
      readeepromLoop port fuel configadr eeproma fuel 0
    else readeepromLoop port fuel configadr eeproma fuel 0
  else pure 0

def eepBlockSize (eep8byte : Bool) : Nat := if eep8byte then 8 else 4

def romBlock (rom : Nat → UInt8) (word n : Nat) : List UInt8 :=
  (List.range n).map fun i => rom (2*word+i)

/-- Reads of this slave's EEPROM succeed: its interface gets ready without an error, it takes the
command, and the block arrives, each within the attempts that the code makes. `loaded` tells the
word that the last command has asked for. -/
structure EepromAnswers (port : EepromPort σ) (fuel : Nat) (configadr : UInt16) (rom : Nat → UInt8)
    (eep8byte : Bool) (loaded : UInt16 → σ → Prop) : Prop where
  ready : ∀ s,∃ estat t,eepromWaitnotbusyFP port configadr fuel s=.ok ((true,estat),t) ∧
    estat &&& ecEstatNack=0 ∧ (estat &&& ecEstatR64≠0 ↔ eep8byte=true) ∧
    ∀ word,loaded word s → loaded word t
  taken : ∀ word s,∃ wkc t,port.writeRetry configadr ectRegEepctl (readCommand word)
    ecDefaultRetries s=.ok (wkc,t) ∧ wkc≠0 ∧ loaded word t
  arrives : ∀ word s,loaded word s → ∃ wkc t,port.readRetry configadr ectRegEepdat
    (eepBlockSize eep8byte) ecDefaultRetries s=
      .ok ((wkc,romBlock rom word.toNat (eepBlockSize eep8byte)),t)

def ServesEeprom (port : EepromPort σ) (fuel : Nat) (configadr : UInt16) (rom : Nat → UInt8)
    (eep8byte : Bool) : Prop :=
  ∃ loaded,EepromAnswers port fuel configadr rom eep8byte loaded

theorem romBlock_length (rom : Nat → UInt8) (word n : Nat) : (romBlock rom word n).length=n := by
  rw [romBlock,List.length_map,List.length_range]

theorem romBlock_get {rom : Nat → UInt8} {word n i : Nat} (hi : i<n) :
    (romBlock rom word n)[i]?=some (rom (2*word+i)) := by
  rw [romBlock,List.getElem?_map,List.getElem?_range hi]
  rfl

section Reading

variable {port : EepromPort σ} {fuel : Nat} {configadr : UInt16} {rom : Nat → UInt8}
  {eep8byte : Bool} {loaded : UInt16 → σ → Prop}

theorem EepromAnswers.round (h : EepromAnswers port fuel configadr rom eep8byte loaded)
    (word : UInt16) (s : σ) : ∃ t,readeepromRound port fuel configadr word 0 s=
      .ok ((0,UInt64.ofNat (leValue (romBlock rom word.toNat (eepBlockSize eep8byte)))),t) := by
  obtain ⟨wkc,s1,htaken,hwkc,hloaded⟩ := h.taken word s
  obtain ⟨estat,s2,hready,hnack,hwide,hkept⟩ := h.ready s1
  obtain ⟨wkc2,s3,harrives⟩ := h.arrives word s2 (hkept word hloaded)
  refine ⟨s3,?_⟩
  rw [readeepromRound,run_bind htaken,if_pos hwkc,run_bind hready]
  dsimp only
  rw [if_pos rfl,if_neg (not_not_intro hnack)]
  by_cases hr64 : estat &&& ecEstatR64≠0
  · rw [hwide.mp hr64,show eepBlockSize true=8 from rfl] at harrives ⊢
    rw [if_pos hr64,run_bind harrives]
    rfl
  · have hnarrow : eep8byte=false := by
      rw [← Bool.not_eq_true,← hwide]
      exact hr64
    rw [hnarrow,show eepBlockSize false=4 from rfl] at harrives ⊢
    rw [if_neg hr64,run_bind harrives]
    rfl

theorem ServesEeprom.readeepromFP (h : ServesEeprom port fuel configadr rom eep8byte)
    (word : UInt16) (s : σ) : ∃ t,readeepromFP port fuel configadr word s=
      .ok (UInt64.ofNat (leValue (romBlock rom word.toNat (eepBlockSize eep8byte))),t) := by
  obtain ⟨loaded,h⟩ := h
  obtain ⟨rounds,rfl⟩ : ∃ rounds,fuel=rounds+1 := by
    cases fuel with
    | zero =>
      obtain ⟨estat,t,hready,-⟩ := h.ready s
      exact absurd hready throw_ok
    | succ rounds => exact ⟨rounds,rfl⟩
  have hloop : ∀ s1,∃ t,readeepromLoop port (rounds+1) configadr word (rounds+1) 0 s1=
      .ok (UInt64.ofNat (leValue (romBlock rom word.toNat (eepBlockSize eep8byte))),t) := by
    intro s1
    obtain ⟨t,hround⟩ := h.round word s1
    refine ⟨t,?_⟩
    rw [readeepromLoop,run_bind hround]
    dsimp only
    rw [if_neg (by decide)]
    rfl
  obtain ⟨estat,s1,hready,-⟩ := h.ready s
  by_cases hbits : estat &&& ecEstatEmask≠0
  · obtain ⟨t,hrun⟩ := hloop (port.fpwr configadr ectRegEepctl (le16 ecEcmdNop) s1).2
    refine ⟨t,?_⟩
    rw [Sii.readeepromFP,run_bind hready]
    dsimp only
    rw [if_pos rfl,if_pos hbits]
    exact hrun
  · obtain ⟨t,hrun⟩ := hloop s1
    refine ⟨t,?_⟩
    rw [Sii.readeepromFP,run_bind hready]
    dsimp only
    rw [if_pos rfl,if_neg hbits]
    exact hrun

end Reading

theorem EepromPort.writeRetry_returns (port : EepromPort σ) (configadr ado : UInt16)
    (data : List UInt8) (cnt : Nat) :
    ∀ s,∃ wkc t,port.writeRetry configadr ado data cnt s=.ok (wkc,t) := by
  induction cnt with
  | zero => exact fun s => ⟨_,_,rfl⟩
  | succ cnt ih =>
    intro s
    by_cases hwkc : (port.fpwr configadr ado data s).1 ≤ 0
    · obtain ⟨wkc,t,h⟩ := ih (port.fpwr configadr ado data s).2
      refine ⟨wkc,t,?_⟩
      rw [EepromPort.writeRetry,run_bind rfl,if_pos hwkc]
      exact h
    · refine ⟨(port.fpwr configadr ado data s).1,(port.fpwr configadr ado data s).2,?_⟩
      rw [EepromPort.writeRetry,run_bind rfl,if_neg hwkc]
      rfl

end EtherCATMaster.Sii
