import EtherCATMaster.Config.Scan
import EtherCATMaster.Sii.Sections

namespace EtherCATMaster.Config

open EtherCATMaster.Framework EtherCATMaster.Sii
open EtherCATMaster.Dll (ecStateAck)

def ecMaxSm : Nat := 8
def ecStatePreOp : UInt16 := 0x02

def ecDefaultMbxSm0 : UInt32 := 0x00010026
def ecDefaultMbxSm1 : UInt32 := 0x00010022

/-- `ec_smt` -/
structure EcSm where
  startAddr : UInt16
  smLength : UInt16
  smFlags : UInt32

def EcSm.bytes (sm : EcSm) : List UInt8 := le16 sm.startAddr++(le16 sm.smLength++le32 sm.smFlags)

/-- The fields of `ec_slavet` that tell a slave's identity and mailbox, and those that its SII is to
fill in. -/
@[ext] structure SiiSlave where
  eepMan : UInt32
  eepId : UInt32
  eepRev : UInt32
  mbxL : UInt16
  mbxWo : UInt16
  mbxRl : UInt16
  mbxRo : UInt16
  coeDetails : UInt8
  foeDetails : UInt8
  eoeDetails : UInt8
  soeDetails : UInt8
  ebuscurrent : Int16
  blockLRW : UInt8
  name : List UInt8
  sm : Nat → EcSm
  smType : Nat → UInt8
  fmmu0func : UInt8
  fmmu1func : UInt8
  fmmu2func : UInt8
  fmmu3func : UInt8

/-- The slaves by their numbers. The master is "slave 0", with the totals of the line. -/
abbrev SiiList := Nat → SiiSlave

def SiiSlave.Differs (a b : SiiSlave) : Prop :=
  a.eepMan≠b.eepMan ∨ a.eepId≠b.eepId ∨ a.eepRev≠b.eepRev

instance (a b : SiiSlave) : Decidable (a.Differs b) := inferInstanceAs (Decidable (_ ∨ _))

/-- The search loop of `ecx_lookup_prev_sii`. -/
def prevSlave (slavelist : SiiList) (slave : Nat) : Nat → Nat → Nat
  | 0,i => i
  | left+1,i =>
    if (slavelist i).Differs (slavelist slave) then prevSlave slavelist slave left (i+1) else i

def copySii (old e : SiiSlave) : SiiSlave :=
  { e with
    coeDetails := old.coeDetails
    foeDetails := old.foeDetails
    eoeDetails := old.eoeDetails
    soeDetails := old.soeDetails
    blockLRW := if old.blockLRW>0 then 1 else e.blockLRW
    ebuscurrent := old.ebuscurrent
    name := old.name
    sm := fun n => if n<ecMaxSm then old.sm n else e.sm n
    fmmu0func := old.fmmu0func
    fmmu1func := old.fmmu1func
    fmmu2func := old.fmmu2func
    fmmu3func := old.fmmu3func }

def SiiSlave.addTotals (master : SiiSlave) (blocks : Bool) (current : Int16) : SiiSlave :=
  { master with
    blockLRW := if blocks then master.blockLRW+1 else master.blockLRW
    ebuscurrent := master.ebuscurrent+current }

/-- `ecx_lookup_prev_sii`: the list, if the data of a slave before is used. -/
def lookupPrevSii (slavelist : SiiList) (slavecount slave : Nat) : Option SiiList :=
  if slave>1 ∧ slavecount>0 then
    let i := prevSlave slavelist slave (slave-1) 1
    if i<slave then
      let e := copySii (slavelist i) (slavelist slave)
      let master := (slavelist 0).addTotals (decide ((slavelist i).blockLRW>0)) e.ebuscurrent
      some (Function.update (Function.update slavelist 0 master) slave e)
    else none
  else none

/-- What is taken of the general section. -/
structure SiiGeneral where
  coeDetails : UInt8
  foeDetails : UInt8
  eoeDetails : UInt8
  soeDetails : UInt8
  flags : UInt8
  ebuscurrent : Int16

def generalAt (ssigen : UInt16) : ByteQuery SiiGeneral := do
  let coeDetails ← .entry (ssigen+0x07)
  let foeDetails ← .entry (ssigen+0x08)
  let eoeDetails ← .entry (ssigen+0x09)
  let soeDetails ← .entry (ssigen+0x0a)
  let flags ← .entry (ssigen+0x0d)
  let current ← wordAt (ssigen+0x0e)
  pure ⟨coeDetails,foeDetails,eoeDetails,soeDetails,flags,current.toInt16⟩

def SiiGeneral.blocks (g : SiiGeneral) : Bool := decide (g.flags &&& 0x02>0)

def SiiSlave.withGeneral (e : SiiSlave) (g : SiiGeneral) : SiiSlave :=
  { e with
    coeDetails := g.coeDetails
    foeDetails := g.foeDetails
    eoeDetails := g.eoeDetails
    soeDetails := g.soeDetails
    blockLRW := if g.blocks then 1 else e.blockLRW
    ebuscurrent := g.ebuscurrent }

def hexDigits (x : UInt32) : List UInt8 := (List.range 8).map fun k =>
  let d := UInt8.ofNat (x.toNat/16^(7-k)%16)
  if d<10 then 48+d else 87+d

/-- `"? M:%8.8x I:%8.8x"` -/
def constructedName (e : SiiSlave) : List UInt8 :=
  [63,32,77,58]++(hexDigits e.eepMan++([32,73,58]++hexDigits e.eepId))

def smOf (sm : EepromSm) : EcSm :=
  ⟨sm.phStart,sm.plength,sm.creg.toUInt32+(sm.activate.toUInt32 <<< 16)⟩

def SiiSlave.withFmmu (e : SiiSlave) (f : EepromFmmu) : SiiSlave :=
  { e with
    fmmu0func := if f.fmmu0≠0xff then f.fmmu0 else e.fmmu0func
    fmmu1func := if f.fmmu1≠0xff then f.fmmu1 else e.fmmu1func
    fmmu2func := if f.fmmu2≠0xff then f.fmmu2 else e.fmmu2func
    fmmu3func := if f.fmmu3≠0xff then f.fmmu3 else e.fmmu3func }

def SiiSlave.withMailbox (e : SiiSlave) : SiiSlave :=
  if e.mbxL>0 then
    let sm := Function.update e.sm 0 ⟨e.mbxWo,e.mbxL,ecDefaultMbxSm0⟩
    { e with
      sm := Function.update sm 1 ⟨e.mbxRo,e.mbxRl,ecDefaultMbxSm1⟩
      smType := fun k => if k<4 then UInt8.ofNat (k+1) else e.smType k }
  else e

def SiiSlave.mailboxPlace (e : SiiSlave) (k : Nat) (place : EcSm) (smType : UInt8) : SiiSlave :=
  if (e.sm k).startAddr=0 then
    { e with
      sm := Function.update e.sm k place
      smType := Function.update e.smType k smType }
  else e

def SiiSlave.fallback (e : SiiSlave) : SiiSlave :=
  if e.mbxL>0 then
    (e.mailboxPlace 0 ⟨0x1000,0x0080,ecDefaultMbxSm0⟩ 1).mailboxPlace 1
      ⟨0x1080,0x0080,ecDefaultMbxSm1⟩ 2
  else e

variable {σ : Type}

section Reading

variable (ctx : SiiContext σ) (fuel steps : Nat) (slave : Nat)

/-- SII general section. -/
def readGeneral (slavelist : SiiList) : SiiM σ SiiList := do
  let ssigen ← siifind ctx fuel steps (UInt16.ofNat slave) ectSiiGeneral
  if ssigen.toUInt16≠0 then
    let g ← readOut ctx fuel (UInt16.ofNat slave) (generalAt ssigen.toUInt16)
    let master := (slavelist 0).addTotals g.blocks g.ebuscurrent
    pure (Function.update (Function.update slavelist 0 master) slave
      ((slavelist slave).withGeneral g))
  else pure slavelist

def readName (e : SiiSlave) : SiiM σ SiiSlave := do
  let a ← siifind ctx fuel steps (UInt16.ofNat slave) ectSiiString
  if a>0 then
    let name ← siistring ctx fuel (UInt16.ofNat slave) steps e.name 1
    pure { e with name }
  else pure { e with name := constructedName e }

def smLoop : Nat → Nat → EepromSm → (Nat → EcSm) → SiiM σ (EepromSm × (Nat → EcSm))
  | 0,_,eepSM,sm => pure (eepSM,sm)
  | left+1,smc,eepSM,sm => do
    let (more,eepSM) ← siiSmNext ctx fuel (UInt16.ofNat slave) eepSM (UInt16.ofNat smc)
    if more≠0 then smLoop left (smc+1) eepSM (Function.update sm smc (smOf eepSM))
    else pure (eepSM,sm)

def readSms (eepSM : EepromSm) (e : SiiSlave) : SiiM σ (EepromSm × SiiSlave) := do
  let eepSM ← siiSm ctx fuel (UInt16.ofNat slave) steps eepSM
  if eepSM.nSm>0 then
    let (eepSM,sm) ← smLoop ctx fuel slave (ecMaxSm-1) 1 eepSM
      (Function.update e.sm 0 (smOf eepSM))
    pure (eepSM,{ e with sm })
  else pure (eepSM,e)

def readFmmus (e : SiiSlave) : SiiM σ SiiSlave := do
  let f ← siiFmmu ctx fuel (UInt16.ofNat slave) steps
  pure (if f.nFmmu≠0 then e.withFmmu f else e)

/-- The configuration that `ecx_config_init` finds for a slave in its own SII. -/
def readSii (eepSM : EepromSm) (slavelist : SiiList) : SiiM σ (EepromSm × SiiList) := do
  let slavelist ← readGeneral ctx fuel steps slave slavelist
  let e ← readName ctx fuel steps slave (slavelist slave)
  let (eepSM,e) ← readSms ctx fuel steps slave eepSM e
  let e ← readFmmus ctx fuel steps slave e
  pure (eepSM,Function.update slavelist slave e)

/-- The end of the last loop of `ecx_config_init`: the slave gets its mailbox, and is to go to
PRE_OP. -/
def finishSlave (manualstatechange : Bool) (slavelist : SiiList) : SiiM σ SiiList := do
  let slavelist := Function.update slavelist slave (slavelist slave).fallback
  let configadr := ctx.configadr (UInt16.ofNat slave)
  -- writing both SM in one datagram will solve timing issue in old NETX
  let _ ← (if (slavelist slave).mbxL>0 then
      onPort (ctx.port.write configadr ectRegSm0
        (((slavelist slave).sm 0).bytes++((slavelist slave).sm 1).bytes))
    else pure 0 : SiiM σ Int)
  -- some slaves need eeprom available to PDI in init->preop transition
  let _ ← eeprom2pdi ctx (UInt16.ofNat slave)
  -- User may override automatic state change
  let _ ← (if manualstatechange=false then
      onPort (ctx.port.write configadr ectRegAlctl (le16 (ecStatePreOp ||| ecStateAck)))
    else pure 0 : SiiM σ Int)
  pure slavelist

/-- A way to take over what is known of other slaves. -/
abbrev SiiLookup := SiiList → Nat → Nat → Option SiiList

/-- The last loop of `ecx_config_init`, from where a slave is in INIT. -/
def configSlaveBy (lookup : SiiLookup) (manualstatechange : Bool) (slavecount : Nat)
    (r : EepromSm × SiiList) : SiiM σ (EepromSm × SiiList) := do
  let (eepSM,slavelist) := r
  let slavelist := Function.update slavelist slave (slavelist slave).withMailbox
  let (eepSM,slavelist) ← (match lookup slavelist slavecount slave with
    | some slavelist => pure (eepSM,slavelist)
    | none => readSii ctx fuel steps slave eepSM slavelist : SiiM σ (EepromSm × SiiList))
  let slavelist ← finishSlave ctx slave manualstatechange slavelist
  pure (eepSM,slavelist)

end Reading

def configSlavesBy (lookup : SiiLookup) (ctx : SiiContext σ) (fuel steps : Nat)
    (manualstatechange : Bool) (slavecount : Nat) (r : EepromSm × SiiList) :
    SiiM σ (EepromSm × SiiList) :=
  forSlots (fun slave => configSlaveBy ctx fuel steps slave lookup manualstatechange slavecount)
    slavecount r

/-- That loop, with `ecx_lookup_prev_sii`. -/
def configSlaves (ctx : SiiContext σ) : Nat → Nat → Bool → Nat → EepromSm × SiiList →
    SiiM σ (EepromSm × SiiList) := configSlavesBy lookupPrevSii ctx

end EtherCATMaster.Config
