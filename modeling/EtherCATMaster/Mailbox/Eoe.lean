import EtherCATMaster.Mailbox.SdoInfo

namespace EtherCATMaster.Mailbox

open EtherCATMaster.Framework

def eoeInitReq : UInt16 := 2
def eoeInitResp : UInt16 := 3
def eoeGetIpParamReq : UInt16 := 6
def eoeGetIpParamResp : UInt16 := 7

/-- `EOE_RESULT_UNSUPPORTED_FRAME_TYPE`, as a result. -/
def eoeUnsupportedFrameType : Int := -2

/-- `EOE_PARAM_OFFSET`, `EOE_ETHADDR_LENGTH`, `EOE_DNS_NAME_LENGTH` -/
def eoeParamOffset : Nat := 4
def eoeEthaddrLength : Nat := 6
def eoeDnsNameLength : Nat := 32

def eoeFrame (length : UInt16) (cnt : UInt8) (frameinfo1 frameinfo2 : UInt16)
    (data : List UInt8) : List UInt8 :=
  mbxHeader length ectMbxtEoe cnt++le16 frameinfo1++le16 frameinfo2++data

/-- Fields of `ec_EOEt`. -/
def eoeInfo1 (mbx : List UInt8) : UInt16 := get16 mbx 6
def eoeInfo2 (mbx : List UInt8) : UInt16 := get16 mbx 8
def eoeFrameType (mbx : List UInt8) : UInt16 := eoeInfo1 mbx &&& 0xf
def eoeFramePort (mbx : List UInt8) : UInt16 := (eoeInfo1 mbx >>> 4) &&& 0xf
def eoeLastFragment (mbx : List UInt8) : Bool := (eoeInfo1 mbx >>> 8) &&& 1=1
def eoeTimeAppend (mbx : List UInt8) : Bool := (eoeInfo1 mbx >>> 9) &&& 1=1
def eoeFragNo (mbx : List UInt8) : UInt16 := eoeInfo2 mbx &&& 0x3f
def eoeFrameOffset (mbx : List UInt8) : UInt16 := (eoeInfo2 mbx >>> 6) &&& 0x3f
def eoeFrameNo (mbx : List UInt8) : UInt16 := (eoeInfo2 mbx >>> 12) &&& 0xf

/-- `eoe_param_t`; a parameter that is not set is `none`. -/
structure EoeParam where
  mac : Option (List UInt8)
  ip : Option UInt32
  subnet : Option UInt32
  defaultGateway : Option UInt32
  dnsIp : Option UInt32
  dnsName : Option (List UInt8)
  deriving DecidableEq, Repr

/-- `EOE_ip_uint32_to_byte` -/
def eoeIpToByte (ip : UInt32) : List UInt8 := (le32 ip).reverse

/-- `EOE_ip_byte_to_uint32`, with `EOE_HTONL` as it is on a little endian host. -/
def eoeIpFromByte (bytes : List UInt8) : UInt32 := UInt32.ofNat (leValue bytes.reverse)

def EoeParam.flags (p : EoeParam) : UInt8 :=
  (if p.mac.isSome then 0x01 else 0)+(if p.ip.isSome then 0x02 else 0)+
    (if p.subnet.isSome then 0x04 else 0)+(if p.defaultGateway.isSome then 0x08 else 0)+
    (if p.dnsIp.isSome then 0x10 else 0)+(if p.dnsName.isSome then 0x20 else 0)

def EoeParam.bytes (p : EoeParam) : List UInt8 :=
  (p.mac.map (·.take eoeEthaddrLength)).getD []++(p.ip.map eoeIpToByte).getD []++
    (p.subnet.map eoeIpToByte).getD []++(p.defaultGateway.map eoeIpToByte).getD []++
    (p.dnsIp.map eoeIpToByte).getD []++(p.dnsName.map (·.take eoeDnsNameLength)).getD []

variable {σ : Type} (port : Port σ) (cfg : SlaveCfg)

/-- The answer to SET IP. -/
def eoeSetIpReply (reply : Received) : MbxM σ Int :=
  if reply.wkc>0 then
    if mbxType reply.data=ectMbxtEoe then
      if eoeFrameType reply.data≠eoeInitResp ∨ eoeInfo2 reply.data≠0 then
        pure (-(eoeInfo2 reply.data).toNat)
      else pure reply.wkc
    else pure errPacketError
  else pure reply.wkc

/-- `ecx_EOEsetIp` -/
def eoeSetIp (eoePort : UInt8) (ipparam : EoeParam) : MbxM σ Int := do
  let stale ← mbxReceive port cfg
  let mbxOut ← getMbxM port
  match mbxOut with
  | none => throw .nullPointer
  | some out => do
      clearMbx out
      let cnt ← nextMbxCnt cfg
      let dataOffset := eoeParamOffset+ipparam.bytes.length
      fillMbx out (eoeFrame (UInt16.ofNat (eoeParamOffset+dataOffset)) cnt
        (eoeInitReq ||| ((eoePort.toUInt16 &&& 0xf) <<< 4) ||| 0x100) 0
        ([ipparam.flags,0,0,0]++ipparam.bytes))
      infoExchange port cfg out stale.mbx id eoeSetIpReply

/-- One IPv4 parameter of the answer to GET IP, if its flag is set; with the offset behind it. -/
def eoeGetIp4 (mbx : List UInt8) (flag : UInt8) (offset : Nat) : Option UInt32 × Nat :=
  if byteAt mbx 10 &&& flag≠0 then (some (eoeIpFromByte (bytesAt mbx (10+offset) 4)),offset+4)
  else (none,offset)

/-- The parameters in the answer to GET IP and the offset behind the last one. -/
def eoeParseParam (mbx : List UInt8) : EoeParam × Nat :=
  let mac := if byteAt mbx 10 &&& 0x01≠0 then
      (some (bytesAt mbx (10+eoeParamOffset) eoeEthaddrLength),eoeParamOffset+eoeEthaddrLength)
    else (none,eoeParamOffset)
  let ip := eoeGetIp4 mbx 0x02 mac.2
  let subnet := eoeGetIp4 mbx 0x04 ip.2
  let gateway := eoeGetIp4 mbx 0x08 subnet.2
  let dnsIp := eoeGetIp4 mbx 0x10 gateway.2
  let eoedatasize := (sdoLength mbx-4).toNat
  let dnsLen : UInt16 :=
    if (eoedatasize : Int)-dnsIp.2<eoeDnsNameLength then toUInt16 ((eoedatasize : Int)-dnsIp.2)
    else UInt16.ofNat eoeDnsNameLength
  let dnsName := if byteAt mbx 10 &&& 0x20≠0 then
      (some (bytesAt mbx (10+dnsIp.2) dnsLen.toNat),dnsIp.2+eoeDnsNameLength)
    else (none,dnsIp.2)
  (⟨mac.1,ip.1,subnet.1,gateway.1,dnsIp.1,dnsName.1⟩,dnsName.2)

/-- The answer to GET IP. -/
def eoeGetIpReply (reply : Received) : MbxM σ (Int × Option EoeParam) :=
  if reply.wkc>0 then
    if mbxType reply.data=ectMbxtEoe then
      if eoeFrameType reply.data≠eoeGetIpParamResp then pure (eoeUnsupportedFrameType,none)
      else
        let parsed := eoeParseParam reply.data
        if parsed.2>(sdoLength reply.data-4).toNat then pure (errMbxError,some parsed.1)
        else pure (reply.wkc,some parsed.1)
    else pure (errPacketError,none)
  else pure (reply.wkc,none)

/-- `ecx_EOEgetIp`, with the parameters it takes from the answer. -/
def eoeGetIp (eoePort : UInt8) : MbxM σ (Int × Option EoeParam) := do
  let stale ← mbxReceive port cfg
  let mbxOut ← getMbxM port
  match mbxOut with
  | none => throw .nullPointer
  | some out => do
      clearMbx out
      let cnt ← nextMbxCnt cfg
      fillMbx out (eoeFrame 4 cnt
        (eoeGetIpParamReq ||| ((eoePort.toUInt16 &&& 0xf) <<< 4) ||| 0x100) 0 [0])
      infoExchange port cfg out stale.mbx (fun wkc => (wkc,none)) eoeGetIpReply

/-- The number of an EoE frame, which goes up with the first fragment of each frame. -/
def nextTxFrameNo (fragment : UInt8) : MbxM σ UInt8 := fun c =>
  let no := if fragment=0 then c.txframeno+1 else c.txframeno
  .ok (no,{ c with txframeno := no })

/-- The loop of `ecx_EOEsend` for the frame `p`, at an offset. -/
def eoeSendLoop (eoePort : UInt8) (maxdata : Nat) (p : List UInt8) :
    Nat → Nat → UInt8 → MbxM σ Int
  | 0,_,_ => throw .unfinished
  | fuel+1,offset,fragment => do
      let mbxOut ← getMbxM port
      match mbxOut with
      | none => throw .nullPointer
      | some out => do
          clearMbx out
          let rest := p.length-offset
          let size := if rest>maxdata then (maxdata >>> 5) <<< 5 else rest
          let last : Bool := decide (size=rest)
          let no ← nextTxFrameNo fragment
          let info1 := (if last=true then (0x100 : UInt16) else 0) |||
            ((eoePort.toUInt16 &&& 0xf) <<< 4)
          let place := if fragment>0 then offset >>> 5 else (p.length+31) >>> 5
          let info2 := (fragment.toUInt16 &&& (0x3f : UInt16)) |||
            ((UInt16.ofNat place &&& (0x3f : UInt16)) <<< 6) |||
            ((no.toUInt16 &&& (0xf : UInt16)) <<< 12)
          let cnt ← nextMbxCnt cfg
          fillMbx out (eoeFrame (UInt16.ofNat (4+size)) cnt info1 info2
            ((p.drop offset).take size))
          let wkc ← mbxSend port cfg out
          if last=false ∧ wkc>0 then
            eoeSendLoop eoePort maxdata p fuel (offset+size) (fragment+1)
          else pure wkc

/-- `ecx_EOEsend` of the frame `p`; `fuel` bounds the rounds of its loop. -/
def eoeSend (fuel : Nat) (eoePort : UInt8) (p : List UInt8) : MbxM σ Int :=
  if cfg.mbxL.toNat<0x0a then pure (-1)
  else eoeSendLoop port cfg eoePort (cfg.mbxL.toNat-0x0a) p fuel 0 0

/-- Local variables of `ecx_EOErecv`: number of the fragment expected, number of the frame, and the
bytes stored. -/
structure EoeRecv where
  fragment : UInt8
  frameno : UInt16
  data : List UInt8

def eoeRecvExpects (eoePort : UInt8) (buffersize : Int) (s : EoeRecv) (mbx : List UInt8) : Prop :=
  (s.fragment.toUInt16=eoeFragNo mbx ∨ eoeFragNo mbx=0) ∧
    if s.fragment=0 then
      (((eoeFrameOffset mbx).toNat <<< 5 : Nat) : Int) ≤ buffersize ∧
        eoePort.toUInt16=eoeFramePort mbx
    else s.frameno=eoeFrameNo mbx ∧ s.data.length=(eoeFrameOffset mbx).toNat <<< 5

instance eoeRecvExpects.decidable (eoePort : UInt8) (buffersize : Int) (s : EoeRecv)
    (mbx : List UInt8) : Decidable (eoeRecvExpects eoePort buffersize s mbx) :=
  inferInstanceAs (Decidable (_ ∧ ite _ _ _))

def eoeRecvStore (buffersize : Int) (s : EoeRecv) (mbx : List UInt8) : MbxM σ EoeRecv :=
  let size : Int := (sdoLength mbx).toNat-4
  let frameno := if s.fragment=0 then eoeFrameNo mbx else s.frameno
  if s.data.length+size ≤ buffersize then
    if size<0 then throw .badLength
    else pure ⟨s.fragment+1,frameno,s.data++bytesAt mbx 10 size.toNat⟩
  else pure { s with frameno := frameno }

/-- The loop of `ecx_EOErecv` on the mailbox it has received. Returns with the mailbox it holds. -/
def eoeRecvLoop (eoePort : UInt8) (buffersize : Int) :
    Nat → Received → EoeRecv → MbxM σ (Option Nat × SdoRead)
  | 0,_,_ => throw .unfinished
  | fuel+1,reply,s =>
      if reply.wkc>0 then
        if mbxType reply.data=ectMbxtEoe then
          if eoeRecvExpects eoePort buffersize s reply.data then do
            let s ← eoeRecvStore buffersize s reply.data
            if eoeLastFragment reply.data=true then
              pure (reply.mbx,⟨reply.wkc,
                if eoeTimeAppend reply.data=true then (s.data.length : Int)-4 else s.data.length,
                s.data⟩)
            else do
              dropMbxIn port reply.mbx
              let next ← mbxReceive port cfg
              eoeRecvLoop eoePort buffersize fuel next s
          else pure (reply.mbx,⟨errEoeInvalidRxData,buffersize,s.data⟩)
        else pure (reply.mbx,⟨errPacketError,buffersize,s.data⟩)
      else pure (reply.mbx,⟨reply.wkc,buffersize,s.data⟩)

/-- `ecx_EOErecv`; `fuel` bounds the rounds of its loop. -/
def eoeRecv (fuel : Nat) (eoePort : UInt8) (psize : Int) : MbxM σ SdoRead := do
  let first ← mbxReceive port cfg
  let r ← eoeRecvLoop port cfg eoePort psize fuel first ⟨0,0xff,[]⟩
  dropMbxIn port r.1
  pure r.2

end EtherCATMaster.Mailbox
