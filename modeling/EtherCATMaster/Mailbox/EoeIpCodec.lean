import EtherCATMaster.Mailbox.EoeIp

namespace EtherCATMaster.Mailbox

open EtherCATMaster.Framework

variable {p : EoeParam} {mbx : List UInt8} {offset : Nat}

/-- The arrays of `eoe_param_t` have the size they are declared with. -/
structure EoeParam.Sized (p : EoeParam) : Prop where
  mac : ∀ addr,p.mac=some addr → addr.length=eoeEthaddrLength
  name : ∀ name,p.dnsName=some name → name.length=eoeDnsNameLength

/-- The request of `ecx_EOEsetIp`, and an answer to GET IP with its length and its parameters. -/
def setIpRequest (cnt eoePort : UInt8) (p : EoeParam) : List UInt8 :=
  eoeFrame (UInt16.ofNat (eoeParamOffset+(eoeParamOffset+p.bytes.length))) cnt
    (eoeInitReq ||| ((eoePort.toUInt16 &&& 0xf) <<< 4) ||| 0x100) 0 ([p.flags,0,0,0]++p.bytes)

def asGetIpAnswer (request : List UInt8) (cnt : UInt8) (info1 result : UInt16) : List UInt8 :=
  eoeFrame (sdoLength request) cnt info1 result (request.drop 10)

section Fields

def standsAt (mbx : List UInt8) (offset : Nat) (bytes : List UInt8) : Prop :=
  bytes <+: mbx.drop offset

theorem standsAt.read {bytes rest : List UInt8} (h : standsAt mbx offset (bytes++rest)) :
    bytesAt mbx offset bytes.length=bytes ∧ standsAt mbx (offset+bytes.length) rest := by
  obtain ⟨tail,htail⟩ := h
  constructor
  · rw [bytesAt,← htail,List.append_assoc,List.append_assoc]
    exact List.take_left
  · refine ⟨tail,?_⟩
    rw [← List.drop_drop,← htail,List.append_assoc,List.drop_left]

theorem eoeIpFromByte_toByte (ip : UInt32) : eoeIpFromByte (eoeIpToByte ip)=ip := by
  rw [eoeIpFromByte,eoeIpToByte,List.reverse_reverse]
  have h := get32_le32 [] ip []
  rw [get32,List.nil_append,List.append_nil,List.length_nil,List.drop_zero,
    List.take_of_length_le (le32_length ip).le] at h
  exact h

theorem eoeIpToByte_length (ip : UInt32) : (eoeIpToByte ip).length=4 := by
  rw [eoeIpToByte,List.length_reverse,le32_length]

theorem eoeGetIp4_stands {ip : Option UInt32} {flag : UInt8} {rest : List UInt8}
    (hflag : byteAt mbx 10 &&& flag≠0 ↔ ip.isSome=true)
    (h : standsAt mbx (10+offset) ((ip.map eoeIpToByte).getD []++rest)) :
    eoeGetIp4 mbx flag offset=(ip,offset+((ip.map eoeIpToByte).getD []).length) ∧
      standsAt mbx (10+(offset+((ip.map eoeIpToByte).getD []).length)) rest := by
  obtain ⟨hread,hrest⟩ := h.read
  rw [Nat.add_assoc] at hrest
  refine ⟨?_,hrest⟩
  rw [eoeGetIp4]
  cases ip with
  | none =>
    rw [if_neg (mt hflag.mp (by simp))]
    rfl
  | some ip =>
    have hlen := eoeIpToByte_length ip
    rw [if_pos (hflag.mpr rfl)]
    simp only [Option.map_some,Option.getD_some] at hread ⊢
    rw [← hlen,hread,eoeIpFromByte_toByte]

theorem EoeParam.flags_set (p : EoeParam) :
    (p.flags &&& 0x01≠0 ↔ p.mac.isSome=true) ∧ (p.flags &&& 0x02≠0 ↔ p.ip.isSome=true) ∧
    (p.flags &&& 0x04≠0 ↔ p.subnet.isSome=true) ∧
    (p.flags &&& 0x08≠0 ↔ p.defaultGateway.isSome=true) ∧
    (p.flags &&& 0x10≠0 ↔ p.dnsIp.isSome=true) ∧ (p.flags &&& 0x20≠0 ↔ p.dnsName.isSome=true) := by
  rw [EoeParam.flags]
  generalize p.mac.isSome=mac
  generalize p.ip.isSome=ip
  generalize p.subnet.isSome=subnet
  generalize p.defaultGateway.isSome=gateway
  generalize p.dnsIp.isSome=dnsIp
  generalize p.dnsName.isSome=name
  revert mac ip subnet gateway dnsIp name
  decide

theorem eoeMac_stands {rest : List UInt8} (hp : p.Sized) (hflags : byteAt mbx 10=p.flags)
    (h : standsAt mbx (10+eoeParamOffset) ((p.mac.map (·.take eoeEthaddrLength)).getD []++rest)) :
    (if byteAt mbx 10 &&& 0x01≠0 then
        (some (bytesAt mbx (10+eoeParamOffset) eoeEthaddrLength),eoeParamOffset+eoeEthaddrLength)
      else (none,eoeParamOffset))=
      (p.mac,eoeParamOffset+((p.mac.map (·.take eoeEthaddrLength)).getD []).length) ∧
    standsAt mbx (10+(eoeParamOffset+((p.mac.map (·.take eoeEthaddrLength)).getD []).length))
      rest := by
  obtain ⟨hread,hrest⟩ := h.read
  rw [Nat.add_assoc] at hrest
  refine ⟨?_,hrest⟩
  have hset := p.flags_set.1
  rw [← hflags] at hset
  cases hmac : p.mac with
  | none =>
    rw [hmac] at hset
    rw [if_neg (mt hset.mp (by simp))]
    rfl
  | some addr =>
    have hlen := hp.mac addr hmac
    rw [hmac] at hset hread
    have hall : addr.take eoeEthaddrLength=addr := List.take_of_length_le hlen.le
    simp only [Option.map_some,Option.getD_some,hall,hlen] at hread ⊢
    rw [if_pos (hset.mpr rfl),hread]

/-- Parameters that were written are read back, with the offset behind the last one. -/
theorem eoeParseParam_stands (hp : p.Sized) (hflags : byteAt mbx 10=p.flags)
    (hlength : (sdoLength mbx-4).toNat=eoeParamOffset+p.bytes.length)
    (h : standsAt mbx (10+eoeParamOffset) p.bytes) :
    eoeParseParam mbx=(p,eoeParamOffset+p.bytes.length) := by
  obtain ⟨-,hip,hsubnet,hgateway,hdns,hname⟩ := p.flags_set
  rw [← hflags] at hip hsubnet hgateway hdns hname
  have hbytes : p.bytes.length=
      ((p.mac.map (·.take eoeEthaddrLength)).getD []).length+
      ((p.ip.map eoeIpToByte).getD []).length+((p.subnet.map eoeIpToByte).getD []).length+
      ((p.defaultGateway.map eoeIpToByte).getD []).length+
      ((p.dnsIp.map eoeIpToByte).getD []).length+
      ((p.dnsName.map (·.take eoeDnsNameLength)).getD []).length := by
    simp only [EoeParam.bytes,List.length_append]
  rw [EoeParam.bytes] at h
  simp only [List.append_assoc] at h
  obtain ⟨h1,h⟩ := eoeMac_stands hp hflags h
  obtain ⟨h2,h⟩ := eoeGetIp4_stands hip h
  obtain ⟨h3,h⟩ := eoeGetIp4_stands hsubnet h
  obtain ⟨h4,h⟩ := eoeGetIp4_stands hgateway h
  obtain ⟨h5,h⟩ := eoeGetIp4_stands hdns h
  rw [← List.append_nil ((p.dnsName.map (·.take eoeDnsNameLength)).getD [])] at h
  obtain ⟨hread,-⟩ := h.read
  simp only [eoeParseParam,h1,h2,h3,h4,h5,hlength]
  cases hset : p.dnsName with
  | none =>
    rw [hset] at hname hbytes
    have hsame : (⟨p.mac,p.ip,p.subnet,p.defaultGateway,p.dnsIp,none⟩ : EoeParam)=p := by
      rw [← hset]
    rw [if_neg (mt hname.mp (by simp)),hsame,hbytes]
    refine Prod.ext rfl ?_
    simp only [Option.map_none,Option.getD_none,List.length_nil]
    omega
  | some name =>
    have hlen := hp.name name hset
    rw [hset] at hname hbytes hread
    have hall : name.take eoeDnsNameLength=name := List.take_of_length_le hlen.le
    simp only [Option.map_some,Option.getD_some,hall,hlen] at hread hbytes
    -- the rest of the data is the name, which is copied whole
    rw [if_pos (hname.mpr rfl),if_neg (by omega)]
    have hsame : (⟨p.mac,p.ip,p.subnet,p.defaultGateway,p.dnsIp,some name⟩ : EoeParam)=p := by
      rw [← hset]
    rw [show (UInt16.ofNat eoeDnsNameLength).toNat=eoeDnsNameLength from rfl,hread,hsame,hbytes]
    refine Prod.ext rfl ?_
    simp only
    omega

end Fields

section Answer

theorem EoeParam.bytes_length_le (p : EoeParam) : p.bytes.length ≤ 54 := by
  have hip : ∀ ip : Option UInt32,((ip.map eoeIpToByte).getD []).length ≤ 4 := by
    intro ip
    cases ip with
    | none => exact Nat.zero_le _
    | some ip => exact (eoeIpToByte_length ip).le
  have harray : ∀ (n : Nat) (bytes : Option (List UInt8)),
      ((bytes.map (·.take n)).getD []).length ≤ n := by
    intro n bytes
    cases bytes with
    | none => exact Nat.zero_le _
    | some bytes => exact List.length_take_le _ _
  have hmac := harray eoeEthaddrLength p.mac
  have hname := harray eoeDnsNameLength p.dnsName
  have h1 := hip p.ip
  have h2 := hip p.subnet
  have h3 := hip p.defaultGateway
  have h4 := hip p.dnsIp
  simp only [EoeParam.bytes,List.length_append,eoeEthaddrLength,eoeDnsNameLength] at *
  omega

theorem eoeFrame_stands {length : UInt16} {cnt : UInt8} {info1 info2 : UInt16}
    {data mbx : List UInt8} (h : eoeFrame length cnt info1 info2 data <+: mbx) :
    standsAt mbx 10 data := by
  obtain ⟨tail,rfl⟩ := h
  refine ⟨tail,?_⟩
  have hfront : (mbxHeader length ectMbxtEoe cnt++le16 info1++le16 info2).length=10 := by
    simp [mbxHeader]
  rw [eoeFrame,List.append_assoc _ data tail,List.drop_left' hfront]

/-- What the call reads in an answer with the bytes of a request. -/
structure BringsParam (p : EoeParam) (mbx : List UInt8) : Prop where
  answer : isGetIpAnswer mbx
  flags : byteAt mbx 10=p.flags
  length : (sdoLength mbx-4).toNat=eoeParamOffset+p.bytes.length
  stands : standsAt mbx (10+eoeParamOffset) p.bytes

theorem asGetIpAnswer_brings {cnt cnt' eoePort : UInt8} {info1 result : UInt16}
    (hinfo : info1 &&& 0xf=eoeGetIpParamResp)
    (h : asGetIpAnswer (setIpRequest cnt eoePort p) cnt' info1 result <+: mbx) :
    BringsParam p mbx := by
  have hmax := p.bytes_length_le
  have hrequest : sdoLength (setIpRequest cnt eoePort p)=
      UInt16.ofNat (eoeParamOffset+(eoeParamOffset+p.bytes.length)) := get16_le16 [] _ _
  have hdata : (setIpRequest cnt eoePort p).drop 10=[p.flags,0,0,0]++p.bytes :=
    List.drop_left' (by simp [mbxHeader])
  rw [asGetIpAnswer,hrequest,hdata] at h
  obtain ⟨-,hstands⟩ := (eoeFrame_stands h).read
  have hlen := eoeFrame_length (UInt16.ofNat (eoeParamOffset+(eoeParamOffset+p.bytes.length)))
    cnt' info1 result ([p.flags,0,0,0]++p.bytes)
  have htype : byteAt mbx 5=_ := byteAt_of_front h (by omega)
  have hlength : get16 mbx 0=_ := get16_of_front h (by omega)
  have hread : get16 mbx 6=_ := get16_of_front h (by omega)
  have hinfo1 : get16 mbx 6=info1 := hread.trans (get16_le16 (mbxHeader (UInt16.ofNat
    (eoeParamOffset+(eoeParamOffset+p.bytes.length))) ectMbxtEoe cnt') _
    (le16 result++([p.flags,0,0,0]++p.bytes)))
  refine ⟨⟨?_,?_⟩,?_,?_,hstands⟩
  · rw [mbxType,htype]
    exact mbxType_eoe cnt'
  · rw [eoeFrameType,eoeInfo1,hinfo1,hinfo]
  · obtain ⟨tail,htail⟩ := eoeFrame_stands h
    rw [byteAt,List.getD_eq_getElem?_getD,← List.head?_drop,← htail]
    rfl
  · have hsize : sdoLength mbx=UInt16.ofNat (eoeParamOffset+(eoeParamOffset+p.bytes.length)) :=
      hlength.trans (get16_le16 [] _ _)
    have hnat : (sdoLength mbx).toNat=eoeParamOffset+(eoeParamOffset+p.bytes.length) := by
      rw [hsize]
      exact UInt16.toNat_ofNat_of_lt' (by simp only [UInt16.size,eoeParamOffset]; omega)
    have hoffset : eoeParamOffset=4 := rfl
    rw [eoedatasize_eq,if_pos (by omega)]
    omega

theorem BringsParam.reply {σ : Type} {reply : Received} {c : Client σ} (hp : p.Sized)
    (h : BringsParam p reply.data) (hw : reply.wkc>0) :
    eoeGetIpReply reply c=.ok ((reply.wkc,some p),c) := by
  have hparsed := eoeParseParam_stands hp h.flags h.length h.stands
  have hends : ¬((eoeParseParam reply.data).2>(sdoLength reply.data-4).toNat) := by
    rw [hparsed,h.length]
    exact Nat.lt_irrefl _
  rw [eoeGetIpReply,if_pos hw,if_pos h.answer.1,if_neg (not_not.mpr h.answer.2)]
  apply (congrFun (if_neg hends) c).trans
  rw [hparsed]
  rfl

end Answer

section Call

variable {σ τ : Type} {port : Port σ} {cfg : SlaveCfg} {view : σ → List (List UInt8) × τ}

def isGetIpRequest (frame : List UInt8) : Prop :=
  mbxType frame=ectMbxtEoe ∧ eoeFrameType frame=eoeGetIpParamReq

/-- A slave that answers GET IP. -/
structure AnswersGetIp (port : Port σ) (cfg : SlaveCfg) (view : σ → List (List UInt8) × τ)
    (reply : List UInt8) : Prop where
  line : Line port cfg view
  inbox : 11 ≤ cfg.mbxL.toNat
  answers : ∀ e t frame,view e=([],t) → isGetIpRequest frame →
    ∃ t',view (port.write e frame).2=([reply],t')

/-- The request of `ecx_EOEgetIp`. -/
def getIpRequest (cnt eoePort : UInt8) : List UInt8 :=
  eoeFrame 4 cnt (eoeGetIpParamReq ||| ((eoePort.toUInt16 &&& 0xf) <<< 4) ||| 0x100) 0 [0]

theorem getIpRequest_type (a : BitVec 16) :
    (6#16 ||| ((a &&& 0xf#16) <<< 4) ||| 0x100#16) &&& 0xf#16=6#16 := by
  apply BitVec.eq_of_getLsbD_eq
  intro i hi
  interval_cases i <;> simp

theorem getIpRequest_front {cnt eoePort : UInt8} (h : getIpRequest cnt eoePort <+: mbx) :
    isGetIpRequest mbx := by
  have hlen : (getIpRequest cnt eoePort).length=11 := eoeFrame_length _ _ _ _ _
  have htype : byteAt mbx 5=_ := byteAt_of_front h (by omega)
  have hread : get16 mbx 6=_ := get16_of_front h (by omega)
  have hinfo := hread.trans (get16_le16 (mbxHeader 4 ectMbxtEoe cnt) _ (le16 0++[0]))
  constructor
  · rw [mbxType,htype]
    exact mbxType_eoe cnt
  · rw [eoeFrameType,eoeInfo1,hinfo]
    exact UInt16.toBitVec_inj.mp (getIpRequest_type eoePort.toUInt16.toBitVec)

/-- A slave has got a request of `ecx_EOEsetIp`, and answers GET IP with its length and its
parameters. The call returns them as they were set. -/
theorem eoe_ip_codec {cnt cnt' eoePort : UInt8} {info1 result : UInt16} (hp : p.Sized)
    (hs : AnswersGetIp port cfg view
      (asGetIpAnswer (setIpRequest cnt eoePort p) cnt' info1 result))
    (hinfo : info1 &&& 0xf=eoeGetIpParamResp) (askPort : UInt8) {c : Client σ} (hwf : c.pool.Wf)
    (htwo : 2 ≤ c.pool.listcount) (hwaiting : (view c.env).1.length ≤ 1) :
    ∃ w c',eoeGetIp port cfg askPort c=.ok ((w,some p),c') ∧ 0 < w := by
  have h : Talking view 2 [] ((view c.env).1,(view c.env).2) c := Talking.start view hwf htwo
  obtain ⟨stale,c1,hstale,h1,hone⟩ := h.clearAll hs.line (by decide) hwaiting
  obtain ⟨out,c2,hget,h2,-⟩ := h1.get hs.line hone
  have h3 := h2.store out (List.replicate ecMaxMbx 0)
  obtain ⟨no,c4,hcnt,h4,-⟩ := h3.count cfg
  have h5 := h4.store out (getIpRequest no askPort)
  obtain ⟨wkc,c6,hsend,hwkc,h6,-⟩ := h5.send hs.line
  have hfront : getIpRequest no askPort <+:
      ((c4.store out (getIpRequest no askPort)).buffers out).take cfg.mbxL.toNat := by
    simp only [Client.store,Function.update_self]
    exact request_front _ hs.inbox
  obtain ⟨t',hview⟩ := hs.answers _ _ _ h5.seen (getIpRequest_front hfront)
  rw [hview] at h6
  obtain ⟨c7,hdrop,h7,-⟩ := h6.dropIn hs.line
  obtain ⟨r,m,c8,hreceive,hr,hm,hanswer,h8,-⟩ := h7.receive hs.line (by simp)
  have hreply := (asGetIpAnswer_brings hinfo hanswer).reply (c := c8) hp hr
  obtain ⟨c9,hlast,-⟩ := h8.drop hs.line
  refine ⟨r.wkc,c9,?_,hr⟩
  rw [eoeGetIp,run_bind hstale,run_bind hget]
  dsimp only
  rw [run_bind (show clearMbx out c2=.ok ((),c2.store out (List.replicate ecMaxMbx 0)) from rfl),
    run_bind hcnt]
  apply (run_bind (show fillMbx out (getIpRequest no askPort) c4=
    .ok ((),c4.store out (getIpRequest no askPort)) from rfl)).trans
  rw [infoExchange,run_bind hsend,if_pos hwkc,run_bind hdrop,run_bind hreceive,run_bind hreply,hm,
    run_bind (show dropMbxIn port (some m) c8=.ok ((),c9) from hlast)]
  rfl

end Call

theorem answering_getIp {cfg : SlaveCfg} {reply : List UInt8}
    (hin : 11 ≤ cfg.mbxL.toNat ∧ cfg.mbxL.toNat ≤ ecMaxMbx ∧ cfg.preop=true)
    (hout : 0 < cfg.mbxRl.toNat ∧ cfg.mbxRl.toNat ≤ ecMaxMbx) (htype : mbxType reply=ectMbxtEoe)
    (hreply : 6 ≤ reply.length ∧ reply.length ≤ cfg.mbxRl.toNat) :
    AnswersGetIp (answering reply) cfg (fun waiting => (if waiting then [reply] else [],()))
      reply where
  line := {
    inbox := ⟨by omega,hin.2⟩
    outbox := hout
    alone := fun _ => rfl
    steady := fun _ => rfl
    takes := fun _ _ => Int.one_pos
    hands := by
      intro waiting answer q t hview
      cases waiting with
      | false => cases hview
      | true =>
        cases hview
        refine ⟨⟨1,reply,false⟩,[],rfl,Int.one_pos,List.prefix_refl _,hreply.2,?_,rfl⟩
        intro mbx hfront
        have hsame : mbxType mbx=ectMbxtEoe := by
          rw [mbxType,byteAt_of_front hfront (by omega)]
          exact htype
        have herr : ectMbxtEoe≠ectMbxtErr := by decide
        have hcoe : ectMbxtEoe≠ectMbxtCoe := by decide
        simp [handledInReceive,hsame,herr,hcoe]
    silent := by
      intro waiting t hview
      cases waiting with
      | false => exact ⟨0,rfl,rfl⟩
      | true => cases hview }
  inbox := hin.1
  answers := fun _ _ _ _ _ => ⟨(),rfl⟩

/-- A hardware address, an IPv4 address and a gateway. -/
def threeParams : EoeParam :=
  ⟨some [2,0,0,0,0,1],some 0x0a01a8c0,none,some 0x0101a8c0,none,none⟩

theorem three_params_come_back : ∃ w c',
    eoeGetIp (answering (asGetIpAnswer (setIpRequest 1 0 threeParams) 1 0x107 0)) cfg128 0
      (Client.start false)=.ok ((w,some threeParams),c') ∧ 0 < w := by
  have hp : threeParams.Sized := by
    constructor
    · intro addr h
      cases h
      rfl
    · intro name h
      cases h
  exact eoe_ip_codec hp (answering_getIp (by decide) (by decide) (by decide +kernel)
    (by decide +kernel)) (by decide) 0 initMbxPool_wf (by decide) (by decide)

end EtherCATMaster.Mailbox
