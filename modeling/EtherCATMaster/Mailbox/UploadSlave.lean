import EtherCATMaster.Mailbox.Sdo
import EtherCATMaster.Mailbox.Account
import Mathlib.Tactic.IntervalCases

namespace EtherCATMaster.Mailbox

open EtherCATMaster.Framework

/-- The upload a slave has under way: what is left of the object, and the toggle of the segment that
is to be asked for next. -/
structure Upload where
  rest : List UInt8
  toggle : Bool

/-- What there is to see of a slave: the mailbox that waits to be read, and its upload. -/
structure SlaveView where
  waiting : Option (List UInt8)
  upload : Option Upload

def toggleBit (toggle : Bool) : UInt8 := if toggle then 0x10 else 0x00

def isSdoRequest (frame : List UInt8) (command : UInt8) : Prop :=
  sdoLength frame=10 ∧ mbxType frame=ectMbxtCoe ∧ coeService frame=ectCoesSdoreq ∧
    sdoCommand frame=command

def isUploadRequest (frame : List UInt8) (index : UInt16) (subindex : UInt8) (ca : Bool) : Prop :=
  isSdoRequest frame (if ca=true then ectSdoUpReqCa else ectSdoUpReq) ∧ sdoIndex frame=index ∧
    sdoSubIndex frame=subindex

def isSegmentRequest (frame : List UInt8) (toggle : Bool) : Prop :=
  isSdoRequest frame (ectSdoSegUpReq+toggleBit toggle)

/-- The subindex that is asked for: complete access starts with 0 or 1. -/
def requestedSub (ca : Bool) (subindex : UInt8) : UInt8 :=
  if ca=true ∧ subindex>1 then 1 else subindex

def isInitiated (reply : List UInt8) (index : UInt16) (subindex : UInt8) (length : Nat) : Prop :=
  isSdoResponse reply ∧ sdoIndex reply=index ∧ sdoSubIndex reply=subindex ∧
    sdoLength reply=UInt16.ofNat length ∧ reply.length=6+length

/-- The answers to an upload request: up to four bytes in place of the size, the whole object
behind its size, or as much of it as the slave likes. `room` is the size of its mailbox, and the
bit for complete access is left to the slave. -/
inductive Initiates (room : Nat) (index : UInt16) (subindex : UInt8) (data reply : List UInt8) :
    Option Upload → Prop
  | expedited : isInitiated reply index subindex 10 → 0 < data.length → data.length ≤ 4 →
      sdoCommand reply &&& 0xef=0x43+UInt8.ofNat ((4-data.length)*4) →
      (reply.drop 12).take data.length=data → Initiates room index subindex data reply none
  | normal : isInitiated reply index subindex (10+data.length) → 16+data.length ≤ room →
      sdoCommand reply &&& 0xef=0x41 → sdoLdata reply=UInt32.ofNat data.length →
      reply.drop 16=data → Initiates room index subindex data reply none
  | segmented (first rest : List UInt8) : data=first++rest → rest≠[] →
      isInitiated reply index subindex (10+first.length) → 16+first.length ≤ room →
      sdoCommand reply &&& 0xef=0x41 → sdoLdata reply=UInt32.ofNat data.length →
      reply.drop 16=first → Initiates room index subindex data reply (some ⟨rest,false⟩)

/-- The answers to a request for the next segment. Only the last one can be short; with less than
seven bytes it is filled up and the command tells how many bytes are not used. -/
inductive Continues (room : Nat) (toggle : Bool) (reply : List UInt8) :
    List UInt8 → Option Upload → Prop
  | segment (chunk rest : List UInt8) : isSdoResponse reply → 7 ≤ chunk.length →
      9+chunk.length ≤ room → sdoLength reply=UInt16.ofNat (3+chunk.length) →
      sdoCommand reply=toggleBit toggle → reply.drop 9=chunk →
      Continues room toggle reply (chunk++rest) (some ⟨rest,!toggle⟩)
  | last (chunk : List UInt8) : isSdoResponse reply → 7 ≤ chunk.length →
      9+chunk.length ≤ room → sdoLength reply=UInt16.ofNat (3+chunk.length) →
      sdoCommand reply=toggleBit toggle+0x01 → reply.drop 9=chunk →
      Continues room toggle reply chunk none
  | short (chunk : List UInt8) : isSdoResponse reply → chunk.length<7 →
      reply.length=16 → sdoLength reply=10 →
      sdoCommand reply=toggleBit toggle+0x01+UInt8.ofNat ((7-chunk.length)*2) →
      (reply.drop 9).take chunk.length=chunk → Continues room toggle reply chunk none

variable {σ : Type}

/-- A slave that serves uploads from its object dictionary, on a line that loses nothing, and
nobody else at the pool. -/
structure Conforms (port : Port σ) (cfg : SlaveCfg)
    (object : UInt16 → UInt8 → Bool → Option (List UInt8)) (view : σ → SlaveView) : Prop where
  inbox : 16 ≤ cfg.mbxL.toNat ∧ cfg.mbxL.toNat ≤ ecMaxMbx ∧ cfg.preop=true
  outbox : 16 ≤ cfg.mbxRl.toNat ∧ cfg.mbxRl.toNat ≤ ecMaxMbx
  size : ∀ index subindex ca data,object index subindex ca=some data → data.length<2^32
  alone : Alone port
  steady : ∀ e,view (port.others e).2=view e
  takes : ∀ e frame,0 < (port.write e frame).1
  initiates : ∀ e frame index subindex ca data,(view e).waiting=none →
    isUploadRequest frame index subindex ca → object index subindex ca=some data →
    ∃ reply upload,view (port.write e frame).2=⟨some reply,upload⟩ ∧
      Initiates cfg.mbxRl.toNat index subindex data reply upload
  continues : ∀ e frame rest toggle,view e=⟨none,some ⟨rest,toggle⟩⟩ →
    isSegmentRequest frame toggle →
    ∃ reply upload,view (port.write e frame).2=⟨some reply,upload⟩ ∧
      Continues cfg.mbxRl.toNat toggle reply rest upload
  hands : ∀ e reply upload,view e=⟨some reply,upload⟩ → ∃ a rest,
    (port.mailbox e).1=.full a rest ∧ 0 < a.wkc ∧ reply <+: a.bytes ∧ isSdoResponse reply ∧
      16 ≤ reply.length ∧ reply.length ≤ cfg.mbxRl.toNat ∧ view (port.mailbox e).2=⟨none,upload⟩
  silent : ∀ e upload,view e=⟨none,upload⟩ → ∃ wkc,
    (port.mailbox e).1=.silent wkc ∧ view (port.mailbox e).2=⟨none,upload⟩

theorem byteAt_of_front {xs ys : List UInt8} (h : xs <+: ys) {offset : Nat}
    (ho : offset < xs.length) : byteAt ys offset=byteAt xs offset := by
  obtain ⟨rest,rfl⟩ := h
  simp only [byteAt,List.getD_eq_getElem?_getD,List.getElem?_append_left ho]

theorem bytesAt_of_front {xs ys : List UInt8} (h : xs <+: ys) {offset n : Nat}
    (ho : offset+n ≤ xs.length) : bytesAt ys offset n=(xs.drop offset).take n := by
  have hlen := h.length_le
  rw [bytesAt,List.take_append_of_le_length]
  · exact field_of_front h ho
  · rw [List.length_drop]
    omega

theorem isSdoResponse_of_front {xs ys : List UInt8} (h : xs <+: ys) (hl : 16 ≤ xs.length)
    (hx : isSdoResponse xs) : isSdoResponse ys := by
  refine ⟨?_,?_⟩
  · rw [mbxType,byteAt_of_front h (by omega)]
    exact hx.1
  · rw [coeService,get16_of_front h (by omega)]
    exact hx.2

theorem isSdoRequest_of_front {xs ys : List UInt8} (h : xs <+: ys) (hl : 12 ≤ xs.length)
    {command : UInt8} (hx : isSdoRequest xs command) : isSdoRequest ys command := by
  refine ⟨?_,?_,?_,?_⟩
  · rw [sdoLength,get16_of_front h (by omega)]
    exact hx.1
  · rw [mbxType,byteAt_of_front h (by omega)]
    exact hx.2.1
  · rw [coeService,get16_of_front h (by omega)]
    exact hx.2.2.1
  · rw [sdoCommand,byteAt_of_front h (by omega)]
    exact hx.2.2.2

theorem request_front (old : List UInt8) {frame : List UInt8} {n : Nat} (hn : frame.length ≤ n) :
    frame <+: (overwrite old frame).take n := by
  rw [List.prefix_take_iff]
  exact ⟨List.prefix_append _ _,hn⟩

theorem not_handled_of_response {mbx : List UInt8} (h : isSdoResponse mbx) (hooked : Bool) :
    handledInReceive mbx hooked=false := by
  have herr : ectMbxtCoe≠ectMbxtErr := by decide
  have heoe : ectMbxtCoe≠ectMbxtEoe := by decide
  have hemergency : ectCoesSdores≠1 := by decide
  simp [handledInReceive,h.1,h.2,herr,heoe,hemergency]

theorem mbxType_header (cnt : UInt8) : (ectMbxtCoe+(cnt <<< 4)) &&& 0x0f=ectMbxtCoe := by
  have h : ∀ v : BitVec 8,(3#8+(v <<< 4)) &&& 0x0f#8=3#8 := by decide +kernel
  apply UInt8.toBitVec_inj.mp
  simpa [ectMbxtCoe] using h cnt.toBitVec

theorem toggleBit_not (toggle : Bool) : toggleBit toggle ^^^ 0x10=toggleBit (!toggle) := by
  cases toggle <;> decide

theorem segment_command (toggle : Bool) :
    toggleBit toggle &&& 0xe0=0 ∧ ¬(toggleBit toggle &&& 0x01>0) := by
  cases toggle <;> decide

theorem last_command (toggle : Bool) :
    (toggleBit toggle+0x01) &&& 0xe0=0 ∧ (toggleBit toggle+0x01) &&& 0x01>0 ∧
      (((toggleBit toggle+0x01) &&& 0x0e) >>> 1).toUInt16=0 := by
  cases toggle <;> decide

theorem short_command (toggle : Bool) {n : Nat} (hn : n<7) :
    (toggleBit toggle+0x01+UInt8.ofNat ((7-n)*2)) &&& 0xe0=0 ∧
      (toggleBit toggle+0x01+UInt8.ofNat ((7-n)*2)) &&& 0x01>0 ∧
      ((7 : UInt16)-(((toggleBit toggle+0x01+UInt8.ofNat ((7-n)*2)) &&& 0x0e) >>> 1).toUInt16).toNat=
        n := by
  cases toggle <;> interval_cases n <;> decide

theorem segment_size {n : Nat} (hn : n ≤ ecMaxMbx) : (UInt16.ofNat (3+n)-3).toNat=n := by
  have : n ≤ 1486 := hn
  rw [UInt16.toNat_sub_of_le]
  · rw [UInt16.toNat_ofNat_of_lt' (show 3+n<UInt16.size by simp [UInt16.size]; omega)]
    simp
  · rw [UInt16.le_iff_toNat_le,UInt16.toNat_ofNat_of_lt' (show 3+n<UInt16.size by
      simp [UInt16.size]; omega)]
    simp

theorem initial_size {n : Nat} (hn : n ≤ ecMaxMbx) : (UInt16.ofNat (10+n)-10).toNat=n := by
  have : n ≤ 1486 := hn
  have hlt : 10+n<UInt16.size := by
    simp only [UInt16.size]
    omega
  rw [UInt16.toNat_sub_of_le]
  · rw [UInt16.toNat_ofNat_of_lt' hlt]
    simp
  · rw [UInt16.le_iff_toNat_le,UInt16.toNat_ofNat_of_lt' hlt]
    simp

section Request

variable (length : UInt16) (cnt command : UInt8) (index : UInt16) (subindex : UInt8)
  (data : List UInt8)

theorem sdoFrame_length :
    (sdoFrame length cnt command index subindex data).length=12+data.length := by
  simp [sdoFrame,sdoHeader,mbxHeader]
  omega

theorem sdoFrame_isSdoRequest :
    isSdoRequest (sdoFrame 10 cnt command index subindex data) command := by
  refine ⟨get16_le16 [] 10 _,mbxType_header cnt,?_,rfl⟩
  have hword : get16 (sdoFrame 10 cnt command index subindex data) 6=ectCoesSdoreq <<< 12 :=
    get16_le16 (mbxHeader 10 ectMbxtCoe cnt) (ectCoesSdoreq <<< 12)
      (command::(le16 index++subindex::data))
  rw [coeService,hword]
  decide

theorem sdoFrame_index : sdoIndex (sdoFrame length cnt command index subindex data)=index := by
  have := get16_le16 (sdoHeader length cnt command) index ([subindex]++data)
  rw [← List.append_assoc,← List.append_assoc] at this
  exact this

theorem sdoFrame_subindex :
    sdoSubIndex (sdoFrame length cnt command index subindex data)=subindex := rfl

end Request

section Slave

instance isSdoRequest.decidable (frame : List UInt8) (command : UInt8) :
    Decidable (isSdoRequest frame command) :=
  inferInstanceAs (Decidable (_ ∧ _))

instance isSegmentRequest.decidable (frame : List UInt8) (toggle : Bool) :
    Decidable (isSegmentRequest frame toggle) :=
  inferInstanceAs (Decidable (isSdoRequest _ _))

def answerFrame (length : UInt16) (command : UInt8) (rest : List UInt8) : List UInt8 :=
  mbxHeader length ectMbxtCoe 0++(le16 (ectCoesSdores <<< 12)++command::rest)

def initiatedFrame (length : UInt16) (command : UInt8) (index : UInt16) (subindex : UInt8)
    (data : List UInt8) : List UInt8 :=
  answerFrame length command (le16 index++subindex::data)

/-- A slave that fills its mailbox as far as it can. -/
def initiate (room : Nat) (index : UInt16) (subindex : UInt8) (data : List UInt8) : SlaveView :=
  if 0 < data.length ∧ data.length ≤ 4 then
    ⟨some (initiatedFrame 10 (0x43+UInt8.ofNat ((4-data.length)*4)) index subindex
      (data++List.replicate (4-data.length) 0)),none⟩
  else if 16+data.length ≤ room then
    ⟨some (initiatedFrame (UInt16.ofNat (10+data.length)) 0x41 index subindex
      (le32 (UInt32.ofNat data.length)++data)),none⟩
  else
    ⟨some (initiatedFrame (UInt16.ofNat (10+(data.take (room-16)).length)) 0x41 index subindex
      (le32 (UInt32.ofNat data.length)++data.take (room-16))),some ⟨data.drop (room-16),false⟩⟩

def continueUpload (room : Nat) (rest : List UInt8) (toggle : Bool) : SlaveView :=
  if 9+rest.length>room then
    ⟨some (answerFrame (UInt16.ofNat (3+(rest.take (room-9)).length)) (toggleBit toggle)
      (rest.take (room-9))),some ⟨rest.drop (room-9),!toggle⟩⟩
  else if rest.length<7 then
    ⟨some (answerFrame 10 (toggleBit toggle+0x01+UInt8.ofNat ((7-rest.length)*2))
      (rest++List.replicate (7-rest.length) 0)),none⟩
  else
    ⟨some (answerFrame (UInt16.ofNat (3+rest.length)) (toggleBit toggle+0x01) rest),none⟩

theorem answerFrame_length (length : UInt16) (command : UInt8) (rest : List UInt8) :
    (answerFrame length command rest).length=9+rest.length := by
  simp [answerFrame,mbxHeader]
  omega

theorem answerFrame_response (length : UInt16) (command : UInt8) (rest : List UInt8) :
    isSdoResponse (answerFrame length command rest) ∧
      sdoLength (answerFrame length command rest)=length ∧
      sdoCommand (answerFrame length command rest)=command := by
  refine ⟨⟨mbxType_header 0,?_⟩,get16_le16 [] length _,rfl⟩
  have hword : get16 (answerFrame length command rest) 6=ectCoesSdores <<< 12 :=
    get16_le16 (mbxHeader length ectMbxtCoe 0) (ectCoesSdores <<< 12) (command::rest)
  rw [coeService,hword]
  decide

theorem initiatedFrame_isInitiated {length : Nat} (command : UInt8) (index : UInt16)
    (subindex : UInt8) {data : List UInt8} (hl : length=6+data.length) :
    isInitiated (initiatedFrame (UInt16.ofNat length) command index subindex data) index subindex
      length := by
  obtain ⟨hresponse,hlength,-⟩ :=
    answerFrame_response (UInt16.ofNat length) command (le16 index++subindex::data)
  refine ⟨hresponse,?_,rfl,hlength,?_⟩
  · exact get16_le16 (mbxHeader (UInt16.ofNat length) ectMbxtCoe 0++
      (le16 (ectCoesSdores <<< 12)++[command])) index (subindex::data)
  · rw [initiatedFrame,answerFrame_length]
    simp
    omega

theorem initiatedFrame_sized (length : UInt16) (command : UInt8) (index : UInt16)
    (subindex : UInt8) (n : UInt32) (data : List UInt8) :
    sdoLdata (initiatedFrame length command index subindex (le32 n++data))=n ∧
      (initiatedFrame length command index subindex (le32 n++data)).drop 16=data := by
  refine ⟨?_,rfl⟩
  exact get32_le32 (mbxHeader length ectMbxtCoe 0++
    (le16 (ectCoesSdores <<< 12)++command::(le16 index++[subindex]))) n data

theorem expedited_bits {n : Nat} (hpos : 0 < n) (hfour : n ≤ 4) :
    (0x43+UInt8.ofNat ((4-n)*4)) &&& 0xef=0x43+UInt8.ofNat ((4-n)*4) := by
  interval_cases n <;> decide

theorem normal_bits (length : UInt16) (index : UInt16) (subindex : UInt8) (data : List UInt8) :
    sdoCommand (initiatedFrame length 0x41 index subindex data) &&& 0xef=0x41 := by
  rw [show sdoCommand (initiatedFrame length 0x41 index subindex data)=0x41 from rfl]
  decide

def fitsMailbox (room : Nat) (v : SlaveView) : Prop :=
  ∀ reply,v.waiting=some reply → isSdoResponse reply ∧ 16 ≤ reply.length ∧ reply.length ≤ room

theorem initiate_spec {room : Nat} (hroom : 16 ≤ room) (index : UInt16) (subindex : UInt8)
    (data : List UInt8) : ∃ reply upload,initiate room index subindex data=⟨some reply,upload⟩ ∧
      Initiates room index subindex data reply upload ∧ 16 ≤ reply.length ∧
      reply.length ≤ room := by
  simp only [initiate]
  split_ifs with hsmall hfit
  · have hinit := initiatedFrame_isInitiated (0x43+UInt8.ofNat ((4-data.length)*4)) index subindex
      (show 10=6+(data++List.replicate (4-data.length) (0 : UInt8)).length by
        rw [List.length_append,List.length_replicate]
        omega)
    have hlen : (initiatedFrame 10 (0x43+UInt8.ofNat ((4-data.length)*4)) index subindex
      (data++List.replicate (4-data.length) 0)).length=6+10 := hinit.2.2.2.2
    refine ⟨_,_,rfl,?_,by omega,by omega⟩
    apply Initiates.expedited hinit hsmall.1 hsmall.2
    · exact expedited_bits hsmall.1 hsmall.2
    · exact List.take_left
  · have hinit := initiatedFrame_isInitiated 0x41 index subindex
      (show 10+data.length=6+(le32 (UInt32.ofNat data.length)++data).length by
        rw [List.length_append,le32_length]
        omega)
    have hlen := hinit.2.2.2.2
    obtain ⟨hldata,hdrop⟩ := initiatedFrame_sized (UInt16.ofNat (10+data.length)) 0x41 index subindex
      (UInt32.ofNat data.length) data
    refine ⟨_,_,rfl,?_,by omega,by omega⟩
    exact Initiates.normal hinit hfit (normal_bits _ _ _ _) hldata hdrop
  · have hinit := initiatedFrame_isInitiated 0x41 index subindex
      (show 10+(data.take (room-16)).length=
          6+(le32 (UInt32.ofNat data.length)++data.take (room-16)).length by
        rw [List.length_append,le32_length]
        omega)
    have hlen := hinit.2.2.2.2
    have htake : (data.take (room-16)).length=room-16 := by
      rw [List.length_take]
      omega
    obtain ⟨hldata,hdrop⟩ := initiatedFrame_sized
      (UInt16.ofNat (10+(data.take (room-16)).length)) 0x41 index subindex
      (UInt32.ofNat data.length) (data.take (room-16))
    refine ⟨_,_,rfl,?_,by omega,by omega⟩
    refine Initiates.segmented _ _ (List.take_append_drop _ _).symm ?_ hinit (by omega)
      (normal_bits _ _ _ _) hldata hdrop
    intro hnil
    have := congrArg List.length hnil
    rw [List.length_drop,List.length_nil] at this
    omega

theorem continueUpload_spec {room : Nat} (hroom : 16 ≤ room) (rest : List UInt8) (toggle : Bool) :
    ∃ reply upload,continueUpload room rest toggle=⟨some reply,upload⟩ ∧
      Continues room toggle reply rest upload ∧ isSdoResponse reply ∧ 16 ≤ reply.length ∧
      reply.length ≤ room := by
  simp only [continueUpload]
  split_ifs with hmore hshort
  · have htake : (rest.take (room-9)).length=room-9 := by
      rw [List.length_take]
      omega
    obtain ⟨hresponse,hlength,hcommand⟩ := answerFrame_response
      (UInt16.ofNat (3+(rest.take (room-9)).length)) (toggleBit toggle) (rest.take (room-9))
    have hlen := answerFrame_length (UInt16.ofNat (3+(rest.take (room-9)).length))
      (toggleBit toggle) (rest.take (room-9))
    refine ⟨_,_,rfl,?_,hresponse,by omega,by omega⟩
    have hfit : 9+(rest.take (room-9)).length ≤ room := by omega
    have := Continues.segment (rest.take (room-9)) (rest.drop (room-9)) hresponse (by omega) hfit
      hlength hcommand rfl
    rw [List.take_append_drop] at this
    exact this
  · obtain ⟨hresponse,hlength,hcommand⟩ := answerFrame_response 10
      (toggleBit toggle+0x01+UInt8.ofNat ((7-rest.length)*2))
      (rest++List.replicate (7-rest.length) 0)
    have hlen := answerFrame_length 10 (toggleBit toggle+0x01+UInt8.ofNat ((7-rest.length)*2))
      (rest++List.replicate (7-rest.length) 0)
    rw [List.length_append,List.length_replicate] at hlen
    refine ⟨_,_,rfl,?_,hresponse,by omega,by omega⟩
    exact Continues.short rest hresponse hshort (by omega) hlength hcommand List.take_left
  · obtain ⟨hresponse,hlength,hcommand⟩ := answerFrame_response (UInt16.ofNat (3+rest.length))
      (toggleBit toggle+0x01) rest
    have hlen := answerFrame_length (UInt16.ofNat (3+rest.length)) (toggleBit toggle+0x01) rest
    refine ⟨_,_,rfl,?_,hresponse,by omega,by omega⟩
    exact Continues.last rest hresponse (by omega) (by omega) hlength hcommand rfl

/-- What the slave does with a request. Others than for an upload it does not answer. -/
def beginUpload (object : UInt16 → UInt8 → Bool → Option (List UInt8)) (room : Nat)
    (v : SlaveView) (frame : List UInt8) : SlaveView :=
  let ca : Bool := decide (isSdoRequest frame ectSdoUpReqCa)
  if isSdoRequest frame (if ca=true then ectSdoUpReqCa else ectSdoUpReq) then
    match object (sdoIndex frame) (sdoSubIndex frame) ca with
    | some data => initiate room (sdoIndex frame) (sdoSubIndex frame) data
    | none => ⟨none,v.upload⟩
  else ⟨none,v.upload⟩

def respond (object : UInt16 → UInt8 → Bool → Option (List UInt8)) (room : Nat) (v : SlaveView)
    (frame : List UInt8) : SlaveView :=
  match v.upload with
  | some upload =>
      if isSegmentRequest frame upload.toggle then continueUpload room upload.rest upload.toggle
      else beginUpload object room v frame
  | none => beginUpload object room v frame

theorem fits_of_empty (room : Nat) (upload : Option Upload) : fitsMailbox room ⟨none,upload⟩ := by
  intro reply hreply
  cases hreply

theorem Initiates.isSdoResponse {room : Nat} {index : UInt16} {subindex : UInt8}
    {data reply : List UInt8} {upload : Option Upload}
    (h : Initiates room index subindex data reply upload) : isSdoResponse reply := by
  cases h with
  | expedited h => exact h.1
  | normal h => exact h.1
  | segmented _ _ _ _ h => exact h.1

theorem beginUpload_fits {room : Nat} (hroom : 16 ≤ room)
    (object : UInt16 → UInt8 → Bool → Option (List UInt8)) (v : SlaveView) (frame : List UInt8) :
    fitsMailbox room (beginUpload object room v frame) := by
  simp only [beginUpload]
  generalize decide (isSdoRequest frame ectSdoUpReqCa)=ca
  by_cases hrequest : isSdoRequest frame (if ca=true then ectSdoUpReqCa else ectSdoUpReq)
  · rw [if_pos hrequest]
    cases object (sdoIndex frame) (sdoSubIndex frame) ca with
    | none => exact fits_of_empty room _
    | some data =>
      obtain ⟨reply,upload,heq,hanswer,hmin,hmax⟩ :=
        initiate_spec hroom (sdoIndex frame) (sdoSubIndex frame) data
      simp only [heq]
      intro reply' hreply
      cases hreply
      exact ⟨hanswer.isSdoResponse,hmin,hmax⟩
  · rw [if_neg hrequest]
    exact fits_of_empty room _

theorem respond_fits {room : Nat} (hroom : 16 ≤ room)
    (object : UInt16 → UInt8 → Bool → Option (List UInt8)) (v : SlaveView) (frame : List UInt8) :
    fitsMailbox room (respond object room v frame) := by
  simp only [respond]
  split
  · next upload _ =>
    split_ifs
    · obtain ⟨reply,upload',heq,-,hresponse,hmin,hmax⟩ :=
        continueUpload_spec hroom upload.rest upload.toggle
      rw [heq]
      intro reply' hreply
      cases hreply
      exact ⟨hresponse,hmin,hmax⟩
    · exact beginUpload_fits hroom object v frame
  · exact beginUpload_fits hroom object v frame

/-- The state of the slave. What waits in its mailbox can be handed out. -/
structure UploadState (room : Nat) where
  view : SlaveView
  fits : fitsMailbox room view

def uploadSlave (object : UInt16 → UInt8 → Bool → Option (List UInt8)) {room : Nat}
    (hroom : 16 ≤ room) : Port (UploadState room) where
  write := fun s frame =>
    (1,⟨respond object room s.view frame,respond_fits hroom object s.view frame⟩)
  empty := fun s => (true,s)
  mailbox := fun s =>
    match s.view.waiting with
    | some reply => (.full ⟨1,reply,false⟩ [],⟨⟨none,s.view.upload⟩,fits_of_empty _ _⟩)
    | none => (.silent 0,s)
  others := fun s => ([],s)

theorem beginUpload_of_request {object : UInt16 → UInt8 → Bool → Option (List UInt8)} (room : Nat)
    (v : SlaveView) {frame : List UInt8} {index : UInt16} {subindex : UInt8} {ca : Bool}
    {data : List UInt8} (h : isUploadRequest frame index subindex ca)
    (hobject : object index subindex ca=some data) :
    beginUpload object room v frame=initiate room index subindex data := by
  obtain ⟨hrequest,hindex,hsub⟩ := h
  have hca : decide (isSdoRequest frame ectSdoUpReqCa)=ca := by
    cases ca with
    | true => exact decide_eq_true hrequest
    | false =>
      apply decide_eq_false
      intro hbad
      have hcommand := hbad.2.2.2.symm.trans hrequest.2.2.2
      exact absurd hcommand (by decide)
  simp only [beginUpload,hca,if_pos hrequest,hindex,hsub,hobject]

/-- The slave conforms, whatever its objects are. -/
theorem uploadSlave_conforms {cfg : SlaveCfg}
    (object : UInt16 → UInt8 → Bool → Option (List UInt8))
    (hsize : ∀ index subindex ca data,object index subindex ca=some data → data.length<2^32)
    (hin : 16 ≤ cfg.mbxL.toNat ∧ cfg.mbxL.toNat ≤ ecMaxMbx ∧ cfg.preop=true)
    (hroom : 16 ≤ cfg.mbxRl.toNat) (hmax : cfg.mbxRl.toNat ≤ ecMaxMbx) :
    Conforms (uploadSlave object hroom) cfg object UploadState.view where
  inbox := hin
  outbox := ⟨hroom,hmax⟩
  size := hsize
  alone := fun _ => rfl
  steady := fun _ => rfl
  takes := fun _ _ => Int.one_pos
  initiates := by
    intro e frame index subindex ca data _ hrequest hobject
    obtain ⟨reply,upload,heq,hanswer,-,-⟩ := initiate_spec hroom index subindex data
    refine ⟨reply,upload,?_,hanswer⟩
    have hbegin := beginUpload_of_request cfg.mbxRl.toNat e.view hrequest hobject
    simp only [uploadSlave,respond]
    split
    · next u _ =>
      have hother : ¬isSegmentRequest frame u.toggle := by
        intro hbad
        have hcommand := hbad.2.2.2.symm.trans hrequest.1.2.2.2
        revert hcommand
        cases u.toggle <;> cases ca <;> decide
      rw [if_neg hother,hbegin,heq]
    · rw [hbegin,heq]
  continues := by
    intro e frame rest toggle hview hrequest
    obtain ⟨reply,upload,heq,hanswer,-,-,-⟩ := continueUpload_spec hroom rest toggle
    refine ⟨reply,upload,?_,hanswer⟩
    simp only [uploadSlave,respond,hview,if_pos hrequest]
    exact heq
  hands := by
    intro e reply upload hview
    obtain ⟨hresponse,hmin,hmax⟩ := e.fits reply (by rw [hview])
    refine ⟨⟨1,reply,false⟩,[],?_,Int.one_pos,List.prefix_refl _,hresponse,hmin,hmax,?_⟩
    · simp only [uploadSlave,hview]
    · simp only [uploadSlave,hview]
  silent := by
    intro e upload hview
    refine ⟨0,?_,?_⟩
    · simp only [uploadSlave,hview]
    · simp only [uploadSlave,hview]

end Slave

end EtherCATMaster.Mailbox
