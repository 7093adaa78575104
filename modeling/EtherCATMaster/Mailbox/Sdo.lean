import EtherCATMaster.Mailbox.Link

namespace EtherCATMaster.Mailbox

open EtherCATMaster.Framework

/-- Values of `ec_coes` and of the SDO commands. -/
def ectCoesSdoreq : UInt16 := 2
def ectCoesSdores : UInt16 := 3
def ectSdoDownInit : UInt8 := 0x21
def ectSdoDownExp : UInt8 := 0x23
def ectSdoDownInitCa : UInt8 := 0x31
def ectSdoUpReq : UInt8 := 0x40
def ectSdoUpReqCa : UInt8 := 0x50
def ectSdoSegUpReq : UInt8 := 0x60
def ectSdoAbort : UInt8 := 0x80

/-- A 32 bit field read as `int32`. -/
def asInt32 (x : UInt32) : Int := if x.toNat < 2^31 then x.toNat else x.toNat-2^32

/-- `ec_mbxheadert`: length, address, priority, type and counter. -/
def mbxHeader (length : UInt16) (mbxtype cnt : UInt8) : List UInt8 :=
  le16 length++le16 0++[(0 : UInt8),mbxtype+(cnt <<< 4)]

def sdoHeader (length : UInt16) (cnt command : UInt8) : List UInt8 :=
  mbxHeader length ectMbxtCoe cnt++le16 (ectCoesSdoreq <<< 12)++[command]

def sdoFrame (length : UInt16) (cnt command : UInt8) (index : UInt16) (subindex : UInt8)
    (data : List UInt8) : List UInt8 :=
  sdoHeader length cnt command++le16 index++[subindex]++data

/-- Fields of `ec_SDOt`. -/
def sdoLength (mbx : List UInt8) : UInt16 := get16 mbx 0
def sdoCommand (mbx : List UInt8) : UInt8 := byteAt mbx 8
def sdoIndex (mbx : List UInt8) : UInt16 := get16 mbx 9
def sdoSubIndex (mbx : List UInt8) : UInt8 := byteAt mbx 11
def sdoLdata (mbx : List UInt8) : UInt32 := get32 mbx 12

def isSdoResponse (mbx : List UInt8) : Prop :=
  mbxType mbx=ectMbxtCoe ∧ coeService mbx=ectCoesSdores

instance isSdoResponse.decidable (mbx : List UInt8) : Decidable (isSdoResponse mbx) :=
  inferInstanceAs (Decidable (_ ∧ _))

variable {σ : Type} (port : Port σ) (cfg : SlaveCfg)

def reportSdoReply (index : UInt16) (subindex : UInt8) (mbx : List UInt8) : MbxM σ Unit :=
  if sdoCommand mbx=ectSdoAbort then pushError (.sdo index subindex (sdoLdata mbx))
  else pushError (.packet index subindex 1)

/-- How `ecx_SDOread` and `ecx_SDOwrite` begin: a mailbox that waits in the slave is read into
`MbxIn`, and one is drawn for the request. -/
def sdoService {α : Type} (refused : Int → α) (request : Nat → Option Nat → MbxM σ α) :
    MbxM σ α := do
  let stale ← mbxReceive port cfg
  let mbxOut ← getMbxM port
  match mbxOut with
  | none => pure (refused stale.wkc)
  | some out => request out stale.mbx

/-- What `ecx_SDOread` returns: the result, `*psize` and the bytes it put in the buffer. -/
structure SdoRead where
  wkc : Int
  psize : Int
  data : List UInt8

def receiveReply : Nat → MbxM σ Received
  | 0 => throw .unfinished
  | fuel+1 => do
      let r ← mbxReceive port cfg
      if r.wkc>0 ∧ r.mbx=none then receiveReply fuel else pure r

/-- The `while (NotLast)` loop of `ecx_SDOread`. Returns with the mailbox it holds. -/
def sdoReadSegments (index : UInt16) (subindex : UInt8) :
    Nat → Option Nat → UInt8 → SdoRead → MbxM σ (Option Nat × SdoRead)
  | 0,_,_,_ => throw .unfinished
  | fuel+1,mbxIn,toggle,sdo => do
      let mbxOut ← getMbxM port
      match mbxOut with
      | none => pure (mbxIn,sdo)
      | some out => do
          let cnt ← nextMbxCnt cfg
          -- this request is not cleared before it is filled in
          fillMbx out (sdoFrame 10 cnt (ectSdoSegUpReq+toggle) index subindex [0,0,0,0])
          let wkc ← mbxSend port cfg out
          if wkc>0 then do
            dropMbxIn port mbxIn
            let reply ← mbxReceive port cfg
            if reply.wkc>0 then
              if isSdoResponse reply.data ∧ sdoCommand reply.data &&& 0xe0=0 then
                let size := sdoLength reply.data-3
                if sdoCommand reply.data &&& 0x01>0 then
                  let size := if size=7 then
                      size-((sdoCommand reply.data &&& 0x0e) >>> 1).toUInt16
                    else size
                  pure (reply.mbx,⟨reply.wkc,sdo.psize+size.toNat,
                    sdo.data++bytesAt reply.data 9 size.toNat⟩)
                else
                  sdoReadSegments index subindex fuel reply.mbx (toggle ^^^ 0x10)
                    ⟨reply.wkc,sdo.psize+size.toNat,sdo.data++bytesAt reply.data 9 size.toNat⟩
              else do
                reportSdoReply index subindex reply.data
                pure (reply.mbx,{ sdo with wkc := 0 })
            else
              sdoReadSegments index subindex fuel reply.mbx (toggle ^^^ 0x10)
                { sdo with wkc := reply.wkc }
          else
            sdoReadSegments index subindex fuel mbxIn (toggle ^^^ 0x10) { sdo with wkc := wkc }

/-- The initial reply once it is known to be for this request. Returns with the mailbox held. -/
def sdoReadAccepted (fuel : Nat) (index : UInt16) (subindex : UInt8) (psize : Int)
    (reply : Received) : MbxM σ (Option Nat × SdoRead) :=
  if sdoCommand reply.data &&& 0x02>0 then
    let bytesize := 4-((sdoCommand reply.data >>> 2) &&& 0x03).toNat
    if psize ≥ bytesize then
      pure (reply.mbx,⟨reply.wkc,bytesize,bytesAt reply.data 12 bytesize⟩)
    else do
      pushError (.packet index subindex 3)
      pure (reply.mbx,⟨0,psize,[]⟩)
  else
    let sdolen := asInt32 (sdoLdata reply.data)
    if sdolen ≤ psize then
      let size := sdoLength reply.data-10
      if (size.toNat : Int) < sdolen then
        sdoReadSegments port cfg index subindex fuel reply.mbx 0
          ⟨reply.wkc,size.toNat,bytesAt reply.data 16 size.toNat⟩
      else if sdolen<0 then throw .badLength
      else pure (reply.mbx,⟨reply.wkc,sdolen,bytesAt reply.data 16 sdolen.toNat⟩)
    else do
      pushError (.packet index subindex 3)
      pure (reply.mbx,⟨0,psize,[]⟩)

/-- The reply to the upload request. The request is looked at in the mailbox `out`, which was given
back when it was sent. -/
def sdoReadReply (fuel out : Nat) (index : UInt16) (subindex : UInt8) (psize : Int)
    (reply : Received) : MbxM σ (Option Nat × SdoRead) :=
  if reply.wkc>0 ∧ reply.mbx≠none then do
    let request ← peek port out
    if isSdoResponse reply.data ∧ sdoIndex reply.data=sdoIndex request then
      sdoReadAccepted port cfg fuel index subindex psize reply
    else do
      reportSdoReply index subindex reply.data
      pure (reply.mbx,⟨0,psize,[]⟩)
  else pure (reply.mbx,⟨reply.wkc,psize,[]⟩)

/-- `ecx_SDOread` from the point where it has a mailbox for its request. -/
def sdoReadRequest (fuel out : Nat) (mbxIn : Option Nat) (index : UInt16) (subindex : UInt8)
    (ca : Bool) (psize : Int) : MbxM σ SdoRead := do
  clearMbx out
  let cnt ← nextMbxCnt cfg
  let subindex := if ca=true ∧ subindex>1 then 1 else subindex
  fillMbx out (sdoFrame 10 cnt (if ca=true then ectSdoUpReqCa else ectSdoUpReq) index subindex
    [0,0,0,0])
  let wkc ← mbxSend port cfg out
  if wkc>0 then do
    dropMbxIn port mbxIn
    let reply ← receiveReply port cfg fuel
    let r ← sdoReadReply port cfg fuel out index subindex psize reply
    dropMbxIn port r.1
    pure r.2
  else do
    dropMbxIn port mbxIn
    pure ⟨wkc,psize,[]⟩

/-- `ecx_SDOread`; `fuel` bounds the rounds of its loops. -/
def sdoRead (fuel : Nat) (index : UInt16) (subindex : UInt8) (ca : Bool) (psize : Int) :
    MbxM σ SdoRead :=
  sdoService port cfg (fun wkc => ⟨wkc,psize,[]⟩)
    (fun out mbxIn => sdoReadRequest port cfg fuel out mbxIn index subindex ca psize)

/-- The segment of a download that starts at the bytes `p`: its size, whether more follow, and the
length and command of its frame. -/
structure DownSegment where
  size : Nat
  notLast : Bool
  length : UInt16
  command : UInt8
  deriving DecidableEq, Repr

def downSegment (maxdata : Nat) (p : List UInt8) : DownSegment :=
  if p.length>maxdata then ⟨maxdata,true,UInt16.ofNat (maxdata+3),0x00⟩
  else if p.length<7 then
    ⟨p.length,false,0x0a,UInt8.ofNat (0x01+((7-p.length) <<< 1))⟩
  else ⟨p.length,false,UInt16.ofNat (p.length+3),0x01⟩

/-- The `while (NotLast)` loop of `ecx_SDOwrite`, with `p` still to be sent. Returns with the
mailbox it holds. -/
def sdoWriteSegments (index : UInt16) (subindex : UInt8) (maxdata : Nat) :
    Nat → Option Nat → UInt8 → List UInt8 → Int → MbxM σ (Option Nat × Int)
  | 0,_,_,_,_ => throw .unfinished
  | fuel+1,mbxIn,toggle,p,wkc => do
      let mbxOut ← getMbxM port
      match mbxOut with
      | none => pure (mbxIn,wkc)
      | some out => do
          clearMbx out
          let seg := downSegment maxdata p
          let cnt ← nextMbxCnt cfg
          fillMbx out (sdoHeader seg.length cnt (seg.command+toggle)++p.take seg.size)
          let wkc ← mbxSend port cfg out
          if wkc>0 then do
            dropMbxIn port mbxIn
            let reply ← mbxReceive port cfg
            if reply.wkc>0 ∧
                ¬(isSdoResponse reply.data ∧ sdoCommand reply.data &&& 0xe0=0x20) then do
              reportSdoReply index subindex reply.data
              pure (reply.mbx,0)
            else if seg.notLast=true then
              sdoWriteSegments index subindex maxdata fuel reply.mbx (toggle ^^^ 0x10)
                (p.drop seg.size) reply.wkc
            else pure (reply.mbx,reply.wkc)
          else if seg.notLast=true then
            sdoWriteSegments index subindex maxdata fuel mbxIn (toggle ^^^ 0x10)
              (p.drop seg.size) wkc
          else pure (mbxIn,wkc)

/-- The reply to a download request has to be for the index and subindex in the mailbox `out`. -/
def sdoWriteAccepts (out : Nat) (reply : List UInt8) : MbxM σ Bool := do
  let request ← peek port out
  pure (decide (isSdoResponse reply ∧ sdoIndex reply=sdoIndex request ∧
    sdoSubIndex reply=sdoSubIndex request))

/-- `ecx_SDOwrite` from its request on, which is in the mailbox `out`; `p` is left for segments,
if any are needed. -/
def sdoWriteRequest (fuel out : Nat) (mbxIn : Option Nat) (index : UInt16) (subindex : UInt8)
    (maxdata : Nat) (notLast : Bool) (p : List UInt8) : MbxM σ Int := do
  let wkc ← mbxSend port cfg out
  if wkc>0 then do
    dropMbxIn port mbxIn
    let reply ← mbxReceive port cfg
    if reply.wkc>0 then do
      let accepted ← sdoWriteAccepts port out reply.data
      if accepted=true then
        if notLast=true then do
          let r ← sdoWriteSegments port cfg index subindex (maxdata+7) fuel reply.mbx 0 p
            reply.wkc
          dropMbxIn port r.1
          pure r.2
        else do
          dropMbxIn port reply.mbx
          pure reply.wkc
      else do
        reportSdoReply index subindex reply.data
        dropMbxIn port reply.mbx
        pure 0
    else do
      dropMbxIn port reply.mbx
      pure reply.wkc
  else do
    dropMbxIn port mbxIn
    pure wkc

/-- `ecx_SDOwrite` from the point where it has a mailbox for its request. -/
def sdoWriteStart (fuel out : Nat) (mbxIn : Option Nat) (index : UInt16) (subindex : UInt8)
    (ca : Bool) (p : List UInt8) : MbxM σ Int := do
  clearMbx out
  let maxdata : Int := (cfg.mbxL.toNat : Int)-0x10
  if p.length ≤ 4 ∧ ca=false then do
    let cnt ← nextMbxCnt cfg
    fillMbx out (sdoFrame 10 cnt (ectSdoDownExp ||| (UInt8.ofNat ((4-p.length) <<< 2) &&& 0x0c))
      index subindex p)
    sdoWriteRequest port cfg fuel out mbxIn index subindex 0 false []
  else do
    let cnt ← nextMbxCnt cfg
    let command := if ca=true then ectSdoDownInitCa else ectSdoDownInit
    let sub := if ca=true ∧ subindex>1 then 1 else subindex
    if (p.length : Int)>maxdata then
      if maxdata<0 then throw .badLength
      else do
        fillMbx out (sdoFrame (UInt16.ofNat (0x0a+maxdata.toNat)) cnt command index sub
          (le32 (UInt32.ofNat p.length)++p.take maxdata.toNat))
        sdoWriteRequest port cfg fuel out mbxIn index subindex maxdata.toNat true
          (p.drop maxdata.toNat)
    else do
      fillMbx out (sdoFrame (UInt16.ofNat (0x0a+p.length)) cnt command index sub
        (le32 (UInt32.ofNat p.length)++p))
      sdoWriteRequest port cfg fuel out mbxIn index subindex 0 false []

/-- `ecx_SDOwrite` of the bytes `p`; `fuel` bounds the rounds of its loop. -/
def sdoWrite (fuel : Nat) (index : UInt16) (subindex : UInt8) (ca : Bool) (p : List UInt8) :
    MbxM σ Int :=
  sdoService port cfg id
    (fun out mbxIn => sdoWriteStart port cfg fuel out mbxIn index subindex ca p)

end EtherCATMaster.Mailbox
