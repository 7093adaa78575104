import EtherCATMaster.Mailbox.Sdo

namespace EtherCATMaster.Mailbox

open EtherCATMaster.Framework

def ectFoeRead : UInt8 := 0x01
def ectFoeWrite : UInt8 := 0x02
def ectFoeData : UInt8 := 0x03
def ectFoeAck : UInt8 := 0x04
def ectFoeError : UInt8 := 0x05
def ectFoeBusy : UInt8 := 0x06

/-- `EC_MAXFOEDATA` -/
def ecMaxFoeData : Nat := ecMaxMbx-12

def foeFrame (length : UInt16) (cnt opcode : UInt8) (word : UInt32) (data : List UInt8) :
    List UInt8 :=
  mbxHeader length ectMbxtFoe cnt++[opcode,0]++le32 word++data

/-- Fields of `ec_FOEt`. -/
def foeOpcode (mbx : List UInt8) : UInt8 := byteAt mbx 6
def foeWord (mbx : List UInt8) : UInt32 := get32 mbx 8

variable {σ : Type} (port : Port σ) (cfg : SlaveCfg)

/-- `maxdata`, a `uint16`. -/
def foeMaxData : UInt16 := cfg.mbxL-12

def foeNameSize (filename : List UInt8) : Nat :=
  let fnsize := (UInt16.ofNat filename.length).toNat
  let fnsize := if fnsize>ecMaxFoeData then ecMaxFoeData else fnsize
  if fnsize>(foeMaxData cfg).toNat then (foeMaxData cfg).toNat else fnsize

/-- The request that opens a transfer. -/
def foeOpen (opcode : UInt8) (filename : List UInt8) (password : UInt32) : MbxM σ Int := do
  let mbxOut ← getMbxM port
  match mbxOut with
  | none => throw .nullPointer
  | some out => do
      clearMbx out
      let fnsize := foeNameSize cfg filename
      let cnt ← nextMbxCnt cfg
      fillMbx out (foeFrame (UInt16.ofNat (0x0006+fnsize)) cnt opcode password
        (filename.take fnsize))
      mbxSend port cfg out

/-- A frame with a packet number, on a mailbox of its own. -/
def foeSend (opcode : UInt8) (packet : UInt32) (data : List UInt8) : MbxM σ Int := do
  let mbxOut ← getMbxM port
  match mbxOut with
  | none => throw .nullPointer
  | some out => do
      clearMbx out
      let cnt ← nextMbxCnt cfg
      fillMbx out (foeFrame (UInt16.ofNat (0x0006+data.length)) cnt opcode packet data)
      mbxSend port cfg out

/-- The loop of `ecx_FOEread`, with the number of the last packet and the data read so far. Returns
with the mailbox it holds. -/
def foeReadLoop (buffersize : Int) :
    Nat → Option Nat → UInt32 → SdoRead → MbxM σ (Option Nat × SdoRead)
  | 0,_,_,_ => throw .unfinished
  | fuel+1,mbxIn,prevpacket,foe => do
      dropMbxIn port mbxIn
      let reply ← mbxReceive port cfg
      if reply.wkc>0 then
        if mbxType reply.data=ectMbxtFoe then
          if foeOpcode reply.data=ectFoeData then
            let segmentdata := sdoLength reply.data-0x0006
            let packetnumber := foeWord reply.data
            if packetnumber=prevpacket+1 ∧
                (foe.data.length : Int)+segmentdata.toNat ≤ buffersize then do
              let data := foe.data++bytesAt reply.data 12 segmentdata.toNat
              let wkc ← foeSend port cfg ectFoeAck packetnumber []
              if segmentdata=foeMaxData cfg ∧ wkc>0 then
                foeReadLoop buffersize fuel reply.mbx (prevpacket+1) ⟨wkc,data.length,data⟩
              else pure (reply.mbx,⟨wkc,data.length,data⟩)
            else pure (reply.mbx,⟨errFoeBuf2Small,foe.data.length,foe.data⟩)
          else if foeOpcode reply.data=ectFoeError then
            pure (reply.mbx,⟨errFoeError,foe.data.length,foe.data⟩)
          else pure (reply.mbx,⟨errPacketError,foe.data.length,foe.data⟩)
        else pure (reply.mbx,⟨errPacketError,foe.data.length,foe.data⟩)
      else pure (reply.mbx,{ foe with wkc := reply.wkc })

/-- `ecx_FOEread`; `fuel` bounds the rounds of its loop. -/
def foeRead (fuel : Nat) (filename : List UInt8) (password : UInt32) (psize : Int) :
    MbxM σ SdoRead := do
  let stale ← mbxReceive port cfg
  let wkc ← foeOpen port cfg ectFoeRead filename password
  if wkc>0 then do
    let r ← foeReadLoop port cfg psize fuel stale.mbx 0 ⟨wkc,psize,[]⟩
    dropMbxIn port r.1
    pure r.2
  else do
    dropMbxIn port stale.mbx
    pure ⟨wkc,psize,[]⟩

/-- Local variables of `ecx_FOEwrite`: where it stands in the file, the size of the last segment
and its number, and whether a closing packet is due. -/
structure FoeWrite where
  pos : Nat
  segmentdata : Nat
  sendpacket : UInt32
  dofinalzero : Bool
  deriving DecidableEq, Repr

def foeWriteNext (file : List UInt8) (s : FoeWrite) : MbxM σ (Option Int × FoeWrite) :=
  let tsize := min (file.length-s.pos) (foeMaxData cfg).toNat
  if tsize≠0 ∨ s.dofinalzero=true then do
    let last : Bool := decide (file.length-s.pos-tsize=0 ∧ tsize=(foeMaxData cfg).toNat)
    let wkc ← foeSend port cfg ectFoeData (s.sendpacket+1) ((file.drop s.pos).take tsize)
    pure (some wkc,⟨s.pos+tsize,tsize,s.sendpacket+1,last⟩)
  else pure (none,s)

/-- What an answer of the slave leads to: the result, the variables, and whether there is more to
do. -/
structure FoeTurn where
  wkc : Int
  vars : FoeWrite
  worktodo : Bool

def foeTurnOf (wkc : Int) (r : Option Int × FoeWrite) : FoeTurn :=
  match r.1 with
  | some sent => ⟨sent,r.2,decide (sent>0)⟩
  | none => ⟨wkc,r.2,false⟩

/-- The `switch` of `ecx_FOEwrite` on the opcode of the answer. -/
def foeWriteTurn (file : List UInt8) (s : FoeWrite) (reply : Received) : MbxM σ FoeTurn :=
  if mbxType reply.data=ectMbxtFoe then
    if foeOpcode reply.data=ectFoeAck then
      if foeWord reply.data=s.sendpacket then do
        let r ← foeWriteNext port cfg file s
        pure (foeTurnOf reply.wkc r)
      else pure ⟨errFoePacketNumber,s,false⟩
    else if foeOpcode reply.data=ectFoeBusy then
      if s.sendpacket≠0 then do
        let r ← foeWriteNext port cfg file
          { s with pos := s.pos-s.segmentdata, sendpacket := s.sendpacket-1 }
        pure (foeTurnOf reply.wkc r)
      else pure ⟨reply.wkc,s,false⟩
    else if foeOpcode reply.data=ectFoeError then
      pure ⟨if foeWord reply.data=0x8001 then errFoeFileNotFound else errFoeError,s,false⟩
    else pure ⟨errPacketError,s,false⟩
  else pure ⟨errPacketError,s,false⟩

/-- The loop of `ecx_FOEwrite`. Returns with the mailbox it holds. -/
def foeWriteLoop (file : List UInt8) :
    Nat → Option Nat → FoeWrite → MbxM σ (Option Nat × Int)
  | 0,_,_ => throw .unfinished
  | fuel+1,mbxIn,s => do
      dropMbxIn port mbxIn
      let reply ← mbxReceive port cfg
      if reply.wkc>0 then do
        let turn ← foeWriteTurn port cfg file s reply
        if turn.worktodo=true then foeWriteLoop file fuel reply.mbx turn.vars
        else pure (reply.mbx,turn.wkc)
      else pure (reply.mbx,reply.wkc)

/-- `ecx_FOEwrite` of the bytes `file`; `fuel` bounds the rounds of its loop. -/
def foeWrite (fuel : Nat) (filename : List UInt8) (password : UInt32) (file : List UInt8) :
    MbxM σ Int := do
  let stale ← mbxReceive port cfg
  let wkc ← foeOpen port cfg ectFoeWrite filename password
  if wkc>0 then do
    let r ← foeWriteLoop port cfg file fuel stale.mbx ⟨0,0,0,true⟩
    dropMbxIn port r.1
    pure r.2
  else do
    dropMbxIn port stale.mbx
    pure wkc

end EtherCATMaster.Mailbox
