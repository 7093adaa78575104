import EtherCATMaster.Mailbox.Sdo

namespace EtherCATMaster.Mailbox

open EtherCATMaster.Framework

/-- Further values of `ec_coes`, and the opcodes of the SDO information service. -/
def ectCoesTxpdo : UInt16 := 4
def ectCoesRxpdo : UInt16 := 5
def ectCoesTxpdoRr : UInt16 := 6
def ectCoesSdoinfo : UInt16 := 8
def ectGetOdlistReq : UInt8 := 0x01
def ectGetOdlistRes : UInt8 := 0x02
def ectGetOdReq : UInt8 := 0x03
def ectGetOdRes : UInt8 := 0x04
def ectGetOeReq : UInt8 := 0x05
def ectGetOeRes : UInt8 := 0x06
def ectSdoinfoError : UInt8 := 0x07

/-- `EC_MAXODLIST` and `EC_MAXNAME`, as the build sets them. -/
def ecMaxOdList : Nat := 1024
def ecMaxName : Nat := 40

/-- An `int` stored in a `uint16`. -/
def toUInt16 (x : Int) : UInt16 := UInt16.ofNat (x%65536).toNat

def coeHeader (length : UInt16) (cnt : UInt8) (canopen : UInt16) : List UInt8 :=
  mbxHeader length ectMbxtCoe cnt++le16 canopen

variable {σ : Type} (port : Port σ) (cfg : SlaveCfg)

/-- `ecx_RxPDO` of the bytes `p`. -/
def rxPdo (number : UInt16) (p : List UInt8) : MbxM σ Int := do
  let stale ← mbxReceive port cfg
  dropMbxIn port stale.mbx
  let mbxOut ← getMbxM port
  match mbxOut with
  | none => pure stale.wkc
  | some out => do
      clearMbx out
      let maxdata : Int := (cfg.mbxL.toNat : Int)-0x08
      let size : Int := if (p.length : Int)>maxdata then maxdata else p.length
      let cnt ← nextMbxCnt cfg
      if size<0 then throw .badLength
      else do
        fillMbx out (coeHeader (UInt16.ofNat (0x02+size.toNat)) cnt
          ((number &&& (0x01ff : UInt16))+(ectCoesRxpdo <<< 12))++p.take size.toNat)
        mbxSend port cfg out

/-- The reply to a TxPDO request: the result, `*psize` and the data. -/
def txPdoReply (psize : Int) (reply : Received) : MbxM σ SdoRead :=
  if reply.wkc>0 then
    if mbxType reply.data=ectMbxtCoe ∧ coeService reply.data=ectCoesTxpdo then
      let size := sdoLength reply.data-2
      if psize ≥ size.toNat then pure ⟨reply.wkc,size.toNat,bytesAt reply.data 8 size.toNat⟩
      else do
        pushError (.packet 0 0 3)
        pure ⟨0,psize,[]⟩
    else do
      reportSdoReply 0 0 reply.data
      pure ⟨0,psize,[]⟩
  else pure ⟨reply.wkc,psize,[]⟩

/-- How `ecx_TxPDO` and the information services begin: a mailbox that waits in the slave is read
and given back, and one is drawn for the request. `MbxIn` is not set to NULL in between. -/
def infoService {α : Type} (refused : Int → α) (request : Nat → Option Nat → MbxM σ α) :
    MbxM σ α := do
  let stale ← mbxReceive port cfg
  dropMbxIn port stale.mbx
  let mbxOut ← getMbxM port
  match mbxOut with
  | none => pure (refused stale.wkc)
  | some out => request out stale.mbx

/-- The exchange most of them go on with: the request is sent, `MbxIn` goes back, and so does the
mailbox of the reply. -/
def infoExchange {α : Type} (out : Nat) (mbxIn : Option Nat) (failed : Int → α)
    (onReply : Received → MbxM σ α) : MbxM σ α := do
  let wkc ← mbxSend port cfg out
  if wkc>0 then do
    dropMbxIn port mbxIn
    let reply ← mbxReceive port cfg
    let r ← onReply reply
    dropMbxIn port reply.mbx
    pure r
  else do
    dropMbxIn port mbxIn
    pure (failed wkc)

def txPdoRequest (number : UInt16) (psize : Int) (out : Nat) (mbxIn : Option Nat) :
    MbxM σ SdoRead := do
  clearMbx out
  let cnt ← nextMbxCnt cfg
  fillMbx out (coeHeader 2 cnt ((number &&& (0x01ff : UInt16))+(ectCoesTxpdoRr <<< 12)))
  infoExchange port cfg out mbxIn (fun wkc => ⟨wkc,psize,[]⟩) (txPdoReply psize)

/-- `ecx_TxPDO` -/
def txPdo (number : UInt16) (psize : Int) : MbxM σ SdoRead :=
  infoService port cfg (fun wkc => ⟨wkc,psize,[]⟩) (txPdoRequest port cfg number psize)

def infoFrame (length : UInt16) (cnt opcode : UInt8) (data : List UInt8) : List UInt8 :=
  coeHeader length cnt (ectCoesSdoinfo <<< 12)++[opcode,0]++le16 0++data

/-- Fields of `ec_SDOservicet`. -/
def infoOpcode (mbx : List UInt8) : UInt8 := byteAt mbx 8 &&& 0x7f
def infoFragments (mbx : List UInt8) : UInt16 := get16 mbx 10
def infoWdata (mbx : List UInt8) (i : Nat) : UInt16 := get16 mbx (12+2*i)
def infoBdata (mbx : List UInt8) (i : Nat) : UInt8 := byteAt mbx (12+i)

def reportInfoReply (index : UInt16) (subindex : UInt8) (mbx : List UInt8) : MbxM σ Unit :=
  if infoOpcode mbx=ectSdoinfoError then pushError (.sdoInfo index subindex (get32 mbx 12))
  else pushError (.packet index subindex 1)

/-- `ec_ODlistt`, as far as `ecx_readODlist` fills it in, with the result. -/
structure OdList where
  wkc : Int
  index : List UInt16

/-- The number of indexes that a fragment has by its length; the first one has a header more. -/
def odSent (first : Bool) (mbx : List UInt8) : UInt16 :=
  toUInt16 (((sdoLength mbx).toNat-(if first=true then 8 else 6 : Int)).tdiv 2)

def odCount (first : Bool) (mbx : List UInt8) (entries : Nat) : UInt16 :=
  let n := odSent first mbx
  let n := if entries+n.toNat>ecMaxOdList then toUInt16 (ecMaxOdList+1-(entries : Int)) else n
  if entries+n.toNat>ecMaxOdList then toUInt16 (ecMaxOdList-(entries : Int)) else n

def reportOdOverflow (first : Bool) (mbx : List UInt8) (entries : Nat) : MbxM σ Unit :=
  if entries+(odSent first mbx).toNat>ecMaxOdList then pushError (.sdoInfo 0 0 0xf000000)
  else pure ()

/-- The loop of `ecx_readODlist`, at most 129 rounds. Returns with the mailbox it holds. -/
def odListLoop : Nat → Bool → Option Nat → OdList → MbxM σ (Option Nat × OdList)
  | 0,_,mbxIn,od => pure (mbxIn,od)
  | rounds+1,first,mbxIn,od => do
      dropMbxIn port mbxIn
      let reply ← mbxReceive port cfg
      if reply.wkc>0 then
        if mbxType reply.data=ectMbxtCoe ∧ infoOpcode reply.data=ectGetOdlistRes then do
          reportOdOverflow first reply.data od.index.length
          let n := odCount first reply.data od.index.length
          let offset := if first=true then 1 else 0
          let od : OdList := ⟨reply.wkc,
            od.index++(List.range n.toNat).map fun i => infoWdata reply.data (i+offset)⟩
          if infoFragments reply.data>0 then odListLoop rounds false reply.mbx od
          else pure (reply.mbx,od)
        else do
          reportInfoReply 0 0 reply.data
          pure (reply.mbx,{ od with wkc := 0 })
      else pure (reply.mbx,{ od with wkc := reply.wkc })

def readOdListRequest (out : Nat) (mbxIn : Option Nat) : MbxM σ OdList := do
  clearMbx out
  let cnt ← nextMbxCnt cfg
  fillMbx out (infoFrame 8 cnt ectGetOdlistReq (le16 0x01))
  let wkc ← mbxSend port cfg out
  if wkc>0 then do
    let r ← odListLoop port cfg 129 true mbxIn ⟨wkc,[]⟩
    dropMbxIn port r.1
    pure r.2
  else do
    dropMbxIn port mbxIn
    pure ⟨wkc,[]⟩

/-- `ecx_readODlist` -/
def readOdList : MbxM σ OdList :=
  infoService port cfg (fun wkc => ⟨wkc,[]⟩) (readOdListRequest port cfg)

/-- What `ecx_readODdescription` fills in for an object. -/
structure OdDescription where
  wkc : Int
  dataType : UInt16
  objectCode : UInt8
  maxSub : UInt8
  name : List UInt8

def OdDescription.none (wkc : Int) : OdDescription := ⟨wkc,0,0,0,[]⟩

def odDescriptionReply (index : UInt16) (reply : Received) : MbxM σ OdDescription :=
  if reply.wkc>0 then
    if mbxType reply.data=ectMbxtCoe ∧ infoOpcode reply.data=ectGetOdRes then
      let n := (sdoLength reply.data-12).toNat
      let n := if n>ecMaxName then ecMaxName else n
      pure ⟨reply.wkc,infoWdata reply.data 1,infoBdata reply.data 5,infoBdata reply.data 4,
        bytesAt reply.data 18 n⟩
    else do
      reportInfoReply index 0 reply.data
      pure (OdDescription.none 0)
  else pure (OdDescription.none reply.wkc)

def readOdDescriptionRequest (index : UInt16) (out : Nat) (mbxIn : Option Nat) :
    MbxM σ OdDescription := do
  clearMbx out
  let cnt ← nextMbxCnt cfg
  fillMbx out (infoFrame 8 cnt ectGetOdReq (le16 index))
  infoExchange port cfg out mbxIn OdDescription.none (odDescriptionReply index)

/-- `ecx_readODdescription` of the object with this index. -/
def readOdDescription (index : UInt16) : MbxM σ OdDescription :=
  infoService port cfg OdDescription.none (readOdDescriptionRequest port cfg index)

/-- What `ecx_readOEsingle` fills in for an entry, if it does. -/
structure OeEntry where
  valueInfo : UInt8
  dataType : UInt16
  bitLength : UInt16
  objAccess : UInt16
  name : List UInt8

/-- The length of a name as the `int16` the code computes, cut to the room there is. -/
def oeNameLength (mbx : List UInt8) : Nat :=
  let n : Int := (sdoLength mbx).toNat-16
  let n := if n ≥ 2^15 then n-2^16 else n
  (if n>ecMaxName then (ecMaxName : Int) else n).toNat

def oeSingleReply (index : UInt16) (subi : UInt8) (reply : Received) :
    MbxM σ (Int × Option OeEntry) :=
  if reply.wkc>0 then
    if mbxType reply.data=ectMbxtCoe ∧ infoOpcode reply.data=ectGetOeRes then
      pure (reply.wkc,some ⟨infoBdata reply.data 3,infoWdata reply.data 2,infoWdata reply.data 3,
        infoWdata reply.data 4,bytesAt reply.data 22 (oeNameLength reply.data)⟩)
    else do
      reportInfoReply index subi reply.data
      pure (0,none)
  else pure (reply.wkc,none)

def readOeSingleRequest (index : UInt16) (subi : UInt8) (out : Nat) (mbxIn : Option Nat) :
    MbxM σ (Int × Option OeEntry) := do
  clearMbx out
  let cnt ← nextMbxCnt cfg
  fillMbx out (infoFrame 10 cnt ectGetOeReq (le16 index++[subi,1+2+4]))
  infoExchange port cfg out mbxIn (fun wkc => (wkc,none)) (oeSingleReply index subi)

/-- `ecx_readOEsingle` of one subindex of an object. -/
def readOeSingle (index : UInt16) (subi : UInt8) : MbxM σ (Int × Option OeEntry) :=
  infoService port cfg (fun wkc => (wkc,none)) (readOeSingleRequest port cfg index subi)

end EtherCATMaster.Mailbox
