import EtherCATMaster.Mailbox.Sdo

namespace EtherCATMaster.Mailbox

open EtherCATMaster.Framework

def ectSoeReadreq : UInt8 := 0x01
def ectSoeReadres : UInt8 := 0x02
def ectSoeWritereq : UInt8 := 0x03
def ectSoeWriteres : UInt8 := 0x04

/-- `sizeof(ec_SoEt)` -/
def soeSize : Nat := 10

def soeFrame (length : UInt16) (cnt opcode incomplete driveNo elementflags : UInt8)
    (idn : UInt16) (data : List UInt8) : List UInt8 :=
  mbxHeader length ectMbxtSoe cnt++
    [opcode+(incomplete <<< 3)+(driveNo <<< 5),elementflags]++le16 idn++data

/-- Fields of `ec_SoEt`. -/
def soeOpcode (mbx : List UInt8) : UInt8 := byteAt mbx 6 &&& 0x07
def soeIncomplete (mbx : List UInt8) : UInt8 := (byteAt mbx 6 >>> 3) &&& 0x01
def soeError (mbx : List UInt8) : UInt8 := (byteAt mbx 6 >>> 4) &&& 0x01
def soeDriveNo (mbx : List UInt8) : UInt8 := byteAt mbx 6 >>> 5
def soeElementflags (mbx : List UInt8) : UInt8 := byteAt mbx 7

def isSoeResponse (opcode driveNo elementflags : UInt8) (mbx : List UInt8) : Prop :=
  mbxType mbx=ectMbxtSoe ∧ soeOpcode mbx=opcode ∧ soeError mbx=0 ∧ soeDriveNo mbx=driveNo ∧
    soeElementflags mbx=elementflags

instance isSoeResponse.decidable (opcode driveNo elementflags : UInt8) (mbx : List UInt8) :
    Decidable (isSoeResponse opcode driveNo elementflags mbx) :=
  inferInstanceAs (Decidable (_ ∧ _))

variable {σ : Type} (port : Port σ) (cfg : SlaveCfg)

def reportSoeReply (idn : UInt16) (mbx : List UInt8) : MbxM σ Unit :=
  if mbxType mbx=ectMbxtSoe ∧ soeOpcode mbx=ectSoeReadres ∧ soeError mbx=1 then
    pushError (.soe idn (get16 mbx ((sdoLength mbx).toNat+6-2)))
  else pushError (.packet idn 0 1)

/-- `memcpy(bp, mp, n)` where `mp` lies behind the SoE header in the mailbox that was found at the
start of the call, which has been given back since. -/
def copyFromStale (stale : Option Nat) (n : Int) : MbxM σ (List UInt8) :=
  if n<0 then throw .badLength
  else if n=0 then pure []
  else
    match stale with
    | none => throw .nullPointer
    | some m => do
        let mbx ← peek port m
        pure (bytesAt mbx soeSize n.toNat)

def soeCopy (stale : Option Nat) (total size psize : Int) : MbxM σ (List UInt8) :=
  if total+size ≤ psize then copyFromStale port stale size
  else if size-(total+size-psize)>0 then copyFromStale port stale (size-(total+size-psize))
  else pure []

/-- The loop of `ecx_SoEread`; `total` and `data` are what it has so far. Returns with the mailbox
it holds. -/
def soeReadLoop (stale : Option Nat) (driveNo elementflags : UInt8) (idn : UInt16) (psize : Int) :
    Nat → Option Nat → Int → List UInt8 → MbxM σ (Option Nat × SdoRead)
  | 0,_,_,_ => throw .unfinished
  | fuel+1,mbxIn,total,data => do
      dropMbxIn port mbxIn
      let reply ← mbxReceive port cfg
      if reply.wkc>0 then
        if isSoeResponse ectSoeReadres driveNo elementflags reply.data then do
          let size : Int := (sdoLength reply.data).toNat-soeSize+6
          let bytes ← soeCopy port stale total size psize
          let total := if total+size ≤ psize then total+size else psize
          if soeIncomplete reply.data=0 then pure (reply.mbx,⟨reply.wkc,total,data++bytes⟩)
          else soeReadLoop stale driveNo elementflags idn psize fuel reply.mbx total (data++bytes)
        else do
          reportSoeReply idn reply.data
          pure (reply.mbx,⟨0,psize,data⟩)
      else do
        pushError (.packet idn 0 4)
        pure (reply.mbx,⟨reply.wkc,psize,data⟩)

/-- `ecx_SoEread`; `fuel` bounds the rounds of its loop. -/
def soeRead (fuel : Nat) (driveNo elementflags : UInt8) (idn : UInt16) (psize : Int) :
    MbxM σ SdoRead := do
  let stale ← mbxReceive port cfg
  let mbxOut ← getMbxM port
  match mbxOut with
  | none => throw .nullPointer
  | some out => do
      clearMbx out
      let cnt ← nextMbxCnt cfg
      fillMbx out (soeFrame (UInt16.ofNat (soeSize-6)) cnt ectSoeReadreq 0 driveNo elementflags idn
        [])
      let wkc ← mbxSend port cfg out
      if wkc>0 then do
        let r ← soeReadLoop port cfg stale.mbx driveNo elementflags idn psize fuel stale.mbx 0 []
        dropMbxIn port r.1
        pure r.2
      else do
        dropMbxIn port stale.mbx
        pure ⟨wkc,psize,[]⟩

/-- The result that the answer read after a fragment gives. -/
def soeWriteReply (driveNo elementflags : UInt8) (idn : UInt16) (reply : Received) : MbxM σ Int :=
  if reply.wkc>0 then
    if isSoeResponse ectSoeWriteres driveNo elementflags reply.data then pure reply.wkc
    else do
      reportSoeReply idn reply.data
      pure 0
  else do
    pushError (.packet idn 0 4)
    pure reply.wkc

/-- An answer is read after the last fragment, and after one that the slave does not take. -/
def soeReads (notLast : Bool) : MbxM σ Bool :=
  if notLast=true then do
    let empty ← mbxEmpty port
    pure (!empty)
  else pure true

/-- The loop of `ecx_SoEwrite`, with `p` still to be sent. Returns with the mailbox it holds. -/
def soeWriteLoop (driveNo elementflags : UInt8) (idn : UInt16) (maxdata : Int) :
    Nat → Option Nat → List UInt8 → MbxM σ (Option Nat × Int)
  | 0,_,_ => throw .unfinished
  | fuel+1,mbxIn,p => do
      let mbxOut ← getMbxM port
      match mbxOut with
      | none => throw .nullPointer
      | some out => do
          clearMbx out
          let notLast : Bool := decide ((p.length : Int)>maxdata)
          if notLast=true ∧ maxdata=0 then throw .divByZero
          else if notLast=true ∧ maxdata<0 then throw .badLength
          else do
            let size := if notLast=true then maxdata.toNat else p.length
            let cnt ← nextMbxCnt cfg
            fillMbx out (soeFrame (UInt16.ofNat (soeSize-6+size)) cnt ectSoeWritereq
              (if notLast=true then 1 else 0) driveNo elementflags
              (if notLast=true then UInt16.ofNat (p.length/maxdata.toNat) else idn) (p.take size))
            let wkc ← mbxSend port cfg out
            if wkc>0 then do
              let reads ← soeReads port notLast
              if reads=true then do
                dropMbxIn port mbxIn
                let reply ← mbxReceive port cfg
                let wkc' ← soeWriteReply driveNo elementflags idn reply
                -- an answer ends the loop, silence does not
                if reply.wkc>0 ∨ notLast=false then pure (reply.mbx,wkc')
                else soeWriteLoop driveNo elementflags idn maxdata fuel reply.mbx (p.drop size)
              else soeWriteLoop driveNo elementflags idn maxdata fuel mbxIn (p.drop size)
            else if notLast=true then
              soeWriteLoop driveNo elementflags idn maxdata fuel mbxIn (p.drop size)
            else pure (mbxIn,wkc)

/-- `ecx_SoEwrite` of the bytes `p`; `fuel` bounds the rounds of its loop. -/
def soeWrite (fuel : Nat) (driveNo elementflags : UInt8) (idn : UInt16) (p : List UInt8) :
    MbxM σ Int := do
  let stale ← mbxReceive port cfg
  let r ← soeWriteLoop port cfg driveNo elementflags idn ((cfg.mbxL.toNat : Int)-soeSize) fuel
    stale.mbx p
  dropMbxIn port r.1
  pure r.2

end EtherCATMaster.Mailbox
