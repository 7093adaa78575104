import EtherCATMaster.Config.Recovered
import EtherCATMaster.Dll.Supervision

namespace EtherCATMaster.Config

open EtherCATMaster.Framework EtherCATMaster.Sii
open EtherCATMaster.Dll (ecStateInit ecStateAck)
open EtherCATMaster.Nicdrv (readBytes_written readBytes_apart)

def ectRegType : UInt16 := 0x0000
def ectRegDlctl : UInt16 := 0x0100
def ectRegDlport : UInt16 := 0x0101
def ectRegDlalias : UInt16 := 0x0103
def ectRegAlctl : UInt16 := 0x0120
def ectRegPdictl : UInt16 := 0x0140
def ectRegIrqmask : UInt16 := 0x0200
def ectRegRxerr : UInt16 := 0x0300
def ectRegFmmu0 : UInt16 := 0x0600
def ectRegSm0 : UInt16 := 0x0800
def ectRegDcsystime : UInt16 := 0x0910
def ectRegDcspeedcnt : UInt16 := 0x0930
def ectRegDctimefilt : UInt16 := 0x0934
def ectRegDcsyncact : UInt16 := 0x0981

def ectSiiSer : UInt16 := 0x000e

def ecSlavecountexceeded : Int := -4

variable {σ : Type}

/-- `ecx_BWR` -/
def ConfigPort.broadcast (port : ConfigPort σ) (ADO : UInt16) (data : List UInt8) :
    Program SiiHalt σ Int := fun s => .ok (port.bwr ADO data s)

/-- `ecx_APRDw` -/
def ConfigPort.aprdw (port : ConfigPort σ) (ADP ADO : UInt16) : Program SiiHalt σ UInt16 := do
  let (_,w) ← port.aprdWord ADP ADO 0
  pure w

/-- `ecx_FPRD` of a word into a variable that keeps its value if nothing comes. -/
def ConfigPort.fprdInto (port : ConfigPort σ) (ADP ADO old : UInt16) : Program SiiHalt σ UInt16 :=
  fun s =>
    let ((wkc,data),t) := port.fprd ADP ADO 2 s
    .ok (if wkc>0 then get16 data 0 else old,t)

/-- `ecx_detect_slaves`: the result, and the number of slaves in the list. -/
def detectSlaves (port : ConfigPort σ) (ecMaxslave : Nat) : Program SiiHalt σ (Int × Nat) := do
  let _ ← port.broadcast ectRegDlalias [0]
  let _ ← port.broadcast ectRegAlctl (le16 (ecStateInit ||| ecStateAck))
  let _ ← port.broadcast ectRegAlctl (le16 (ecStateInit ||| ecStateAck))
  let (wkc,_) ← (fun s => .ok (port.brd ectRegType 2 s) : Program SiiHalt σ (Int × List UInt8))
  if wkc>0 then
    -- this is strictly "less than" since the master is "slave 0"
    if wkc<ecMaxslave then pure (wkc,wkc.toNat) else pure (ecSlavecountexceeded,0)
  else pure (wkc,0)

/-- What `ecx_set_slaves_to_default` writes to all slaves. The last two take the EEPROM from the PDI
and give it to the master. -/
def defaultWrites : List (UInt16 × List UInt8) :=
  [(ectRegDlport,[0]),(ectRegIrqmask,le16 0x0004),(ectRegRxerr,List.replicate 8 0),
    (ectRegFmmu0,List.replicate (16*3) 0),(ectRegSm0,List.replicate (8*4) 0),(ectRegDcsyncact,[0]),
    (ectRegDcsystime,List.replicate 4 0),(ectRegDcspeedcnt,le16 0x1000),
    (ectRegDctimefilt,le16 0x0c00),(ectRegDlalias,[0]),
    (ectRegAlctl,le16 (ecStateInit ||| ecStateAck)),(ectRegEepcfg,[2]),(ectRegEepcfg,[0])]

def writeAll (port : ConfigPort σ) : List (UInt16 × List UInt8) → Program SiiHalt σ Unit
  | [] => pure ()
  | (ado,data)::rest => do
    let _ ← port.broadcast ado data
    writeAll port rest

/-- `ecx_set_slaves_to_default` -/
def setSlavesToDefault (port : ConfigPort σ) : Program SiiHalt σ Unit := writeAll port defaultWrites

def listContext (port : ConfigPort σ) (slavelist : UInt16 → ConfiguredSlave) : SiiContext σ where
  port := port.toEepromPort
  configadr i := (slavelist i).configadr
  eep8byte i := (slavelist i).eep8byte

/-- `ecx_readeeprom1`: the command is sent, and the slave has time to fetch the data. -/
def readeeprom1 (ctx : SiiContext σ) (fuel : Nat) (slave eeproma : UInt16) : SiiM σ Unit := do
  let _ ← eeprom2master ctx slave
  let configadr := ctx.configadr slave
  let (ready,estat) ← onPort (eepromWaitnotbusyFP ctx.port configadr fuel)
  if ready then
    -- clear error bits
    let _ ← if estat &&& ecEstatEmask≠0 then
        onPort (ctx.port.write configadr ectRegEepctl (le16 ecEcmdNop))
      else pure 0
    let _ ← onPort
      (ctx.port.writeRetry configadr ectRegEepctl (readCommand eeproma) ecDefaultRetries)
    pure ()
  else pure ()

/-- `ecx_readeeprom2`: the data of the command before. -/
def readeeprom2 (ctx : SiiContext σ) (fuel : Nat) (slave : UInt16) : SiiM σ UInt32 := do
  let configadr := ctx.configadr slave
  let (ready,_) ← onPort (eepromWaitnotbusyFP ctx.port configadr fuel)
  if ready then
    let (_,edat) ← onPort (ctx.port.readRetry configadr ectRegEepdat 4 ecDefaultRetries)
    pure (UInt32.ofNat (leValue edat))
  else pure 0

/-- What is known of a slave in the scan: its list, and the two variables of the loop. -/
abbrev ScanLocals := (UInt16 → ConfiguredSlave) × (UInt16 × UInt16)

/-- The first loop of `ecx_config_init`. -/
def addressSlave (port : ConfigPort σ) (fuel : Nat) (slave : UInt16) (r : ScanLocals) :
    SiiM σ ScanLocals := do
  let (slavelist,(aliasadr,estat)) := r
  let ADPh := 1-slave
  -- read interface type of slave
  let _ ← onPort (port.aprdw ADPh ectRegPdictl)
  let _ ← onPort (port.apwrw ADPh ectRegStadr (slave+ecNodeoffset))
  -- kill non ecat frames for first slave
  let _ ← onPort (port.apwrw ADPh ectRegDlctl (if slave=1 then 1 else 0))
  let configadr ← onPort (port.aprdw ADPh ectRegStadr)
  let aliasadr ← onPort (port.fprdInto configadr ectRegAlias aliasadr)
  let estat ← onPort (port.fprdInto configadr ectRegEepstat estat)
  let eep8byte := if estat &&& ecEstatR64≠0 then true else (slavelist slave).eep8byte
  let slavelist := Function.update slavelist slave
    { slavelist slave with configadr,aliasadr,eep8byte }
  readeeprom1 (listContext port slavelist) fuel slave ectSiiManuf
  pure (slavelist,(aliasadr,estat))

/-- The loops of `ecx_config_init` that take one number out of the EEPROM and ask for the next. -/
def identifySlave (port : ConfigPort σ) (fuel : Nat)
    (enter : UInt32 → ConfiguredSlave → ConfiguredSlave) (eeproma slave : UInt16)
    (slavelist : UInt16 → ConfiguredSlave) : SiiM σ (UInt16 → ConfiguredSlave) := do
  let eedat ← readeeprom2 (listContext port slavelist) fuel slave
  let slavelist := Function.update slavelist slave (enter eedat (slavelist slave))
  readeeprom1 (listContext port slavelist) fuel slave eeproma
  pure slavelist

/-- The entries after `ecx_init_context`. -/
def emptyList (_ : UInt16) : ConfiguredSlave := ⟨0,0,false,0,0,0⟩

def enterMan (eedat : UInt32) (c : ConfiguredSlave) : ConfiguredSlave := { c with eepMan := eedat }
def enterId (eedat : UInt32) (c : ConfiguredSlave) : ConfiguredSlave := { c with eepId := eedat }
def enterRev (eedat : UInt32) (c : ConfiguredSlave) : ConfiguredSlave := { c with eepRev := eedat }

/-- `ecx_config_init`, up to the numbers by which the slaves are recognised later. `aliasadr` and
`estat` are the variables before they are set. -/
def configInit (port : ConfigPort σ) (fuel ecMaxslave : Nat) (aliasadr estat : UInt16) :
    SiiM σ (Int × (UInt16 → ConfiguredSlave)) := do
  modify fun st => { st with eepPdi := fun _ => false }
  let (wkc,slavecount) ← onPort (detectSlaves port ecMaxslave)
  if wkc>0 then
    onPort (setSlavesToDefault port)
    let (slavelist,_) ← forSlots (fun i => addressSlave port fuel (UInt16.ofNat i)) slavecount
      (emptyList,(aliasadr,estat))
    let slavelist ← forSlots (fun i => identifySlave port fuel enterMan ectSiiId (UInt16.ofNat i))
      slavecount slavelist
    let slavelist ← forSlots (fun i => identifySlave port fuel enterId ectSiiRev (UInt16.ofNat i))
      slavecount slavelist
    let slavelist ← forSlots (fun i => identifySlave port fuel enterRev ectSiiSer (UInt16.ofNat i))
      slavecount slavelist
    pure (wkc,slavelist)
  else pure (wkc,emptyList)

end EtherCATMaster.Config
