import EtherCATMaster.Eni.Convert
import Mathlib.Logic.Function.Basic

namespace EtherCATMaster.Eni

/-- What the search for a slave compares: `eep_man`, `eep_id`, `eep_rev` and `mbx_proto`. -/
structure SlaveIdent where
  eepMan : UInt32
  eepId : UInt32
  eepRev : UInt32
  mbxProto : UInt16

def ectMbxprotCoe : UInt16 := 0x0004

/-- The arguments of `ecx_SDOwrite`, with the bytes that `p` points to. -/
structure SdoWrite where
  slave : UInt16
  index : UInt16
  subIndex : UInt8
  ca : Bool
  psize : Int
  p : List UInt8
  timeout : Int

/-- The arguments of `ecx_SDOread`. -/
structure SdoRead where
  slave : UInt16
  index : UInt16
  subIndex : UInt8
  ca : Bool
  psize : Int
  timeout : Int

/-- What a transfer gives in a state of the slaves: the working counter, and for a read the bytes
that are put into the buffer, no more than it has room for. -/
structure SdoPort (σ : Type) where
  sdoWrite : SdoWrite → σ → Int × σ
  sdoRead : (call : SdoRead) → σ →
    Int × { bytes : List UInt8 // bytes.length ≤ call.psize.toNat } × σ

def pointed (coeData : List UInt8) (data : Option Nat) (size : Int) : List UInt8 :=
  match data with
  | none => []
  | some offset => (coeData.drop offset).take size.toNat

def store (coeData : List UInt8) (data : Option Nat) (bytes : List UInt8) : List UInt8 :=
  match data with
  | none => coeData
  | some offset => coeData.take offset++bytes++coeData.drop (offset+bytes.length)

section Calls

variable {σ : Type} (port : SdoPort σ)

/-- The loop over the commands of a slave, with its data array. -/
def coeCmdsLoop (slave transition : UInt16) :
    List EniCoeCmd → List UInt8 → σ → Int × List UInt8 × σ
  | [],coeData,s => (1,coeData,s)
  | cmd::cmds,coeData,s =>
    if cmd.transition &&& transition≠0 then
      if cmd.ccs=2 then
        let (wkc,s) := port.sdoWrite ⟨slave,cmd.index,cmd.subIdx,cmd.ca,cmd.dataSize,
          pointed coeData cmd.data cmd.dataSize,cmd.timeout⟩ s
        if wkc<1 then (0,coeData,s) else coeCmdsLoop slave transition cmds coeData s
      else if cmd.ccs=1 then
        let (wkc,bytes,s) := port.sdoRead ⟨slave,cmd.index,cmd.subIdx,cmd.ca,cmd.dataSize,
          cmd.timeout⟩ s
        let coeData := store coeData cmd.data bytes
        if wkc<1 then (0,coeData,s) else coeCmdsLoop slave transition cmds coeData s
      else coeCmdsLoop slave transition cmds coeData s
    else coeCmdsLoop slave transition cmds coeData s

/-- The entry at which the search stops: the first that is not below the slave, or the last one. -/
def eniSlaveAt (slave : UInt16) : List EniSlave → Option EniSlave
  | [] => none
  | [e] => some e
  | e::entries => if slave ≤ e.slave then some e else eniSlaveAt slave entries

/-- `ecx_mbxENIinitcmds`, with the data arrays of the slaves by their numbers. -/
def mbxEniInitcmds (slavelist : UInt16 → SlaveIdent) (eni : List EniSlave)
    (slave transition : UInt16) (coeData : UInt16 → List UInt8) (s : σ) :
    Int × (UInt16 → List UInt8) × σ :=
  match eniSlaveAt slave eni with
  | none => (1,coeData,s)
  | some e =>
    if slave=e.slave then
      if e.vendorId=(slavelist slave).eepMan ∧ e.productCode=(slavelist slave).eepId ∧
          e.revisionNo=(slavelist slave).eepRev then
        if (slavelist slave).mbxProto &&& ectMbxprotCoe≠0 then
          let (result,data,s) := coeCmdsLoop port slave transition e.coeCmds (coeData slave) s
          (result,Function.update coeData slave data,s)
        else (1,coeData,s)
      else (1,coeData,s)
    else (1,coeData,s)

end Calls

def compiledData (eni : List EniSlave) (slave : UInt16) : List UInt8 :=
  match eni.find? fun e => decide (e.slave=slave) with
  | none => []
  | some e => e.coeData

/-- The data arrays after calls for any slaves and transitions. -/
inductive Reached (eni : List EniSlave) : (UInt16 → List UInt8) → Prop where
  | compiled : Reached eni (compiledData eni)
  | call {σ : Type} (port : SdoPort σ) (slavelist : UInt16 → SlaveIdent) (slave transition : UInt16)
      (s : σ) {coeData : UInt16 → List UInt8} (h : Reached eni coeData) :
      Reached eni (mbxEniInitcmds port slavelist eni slave transition coeData s).2.1

end EtherCATMaster.Eni
