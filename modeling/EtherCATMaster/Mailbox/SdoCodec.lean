import EtherCATMaster.Mailbox.Dialogue
import EtherCATMaster.Mailbox.SdoComplete

namespace EtherCATMaster.Mailbox

open EtherCATMaster.Framework

/-- A request that begins a download, and a segment of one. The bit for complete access and the
toggle stand at the same place. -/
def isDownRequest (frame : List UInt8) (index : UInt16) (subindex : UInt8) (ca : Bool) : Prop :=
  mbxType frame=ectMbxtCoe ∧ coeService frame=ectCoesSdoreq ∧
    sdoCommand frame &&& 0xf1=ectSdoDownInit+toggleBit ca ∧ sdoIndex frame=index ∧
    sdoSubIndex frame=subindex

def isDownSegment (frame : List UInt8) (toggle : Bool) : Prop :=
  mbxType frame=ectMbxtCoe ∧ coeService frame=ectCoesSdoreq ∧
    sdoCommand frame &&& 0xf0=toggleBit toggle

def fitsInbox (room : Nat) (frame : List UInt8) : Prop :=
  10 ≤ (sdoLength frame).toNat ∧ 6+(sdoLength frame).toNat ≤ room

def isLastSegment (frame : List UInt8) : Prop := sdoCommand frame &&& 0x01>0

def isWhole (frame : List UInt8) : Prop :=
  sdoCommand frame &&& 0x02>0 ∨ (downBytes frame).length=(sdoLdata frame).toNat

instance isDownRequest.decidable (frame : List UInt8) (index : UInt16) (subindex : UInt8)
    (ca : Bool) : Decidable (isDownRequest frame index subindex ca) :=
  inferInstanceAs (Decidable (_ ∧ _))

instance isDownSegment.decidable (frame : List UInt8) (toggle : Bool) :
    Decidable (isDownSegment frame toggle) := inferInstanceAs (Decidable (_ ∧ _))

instance fitsInbox.decidable (room : Nat) (frame : List UInt8) :
    Decidable (fitsInbox room frame) := inferInstanceAs (Decidable (_ ∧ _))

instance isLastSegment.decidable (frame : List UInt8) : Decidable (isLastSegment frame) :=
  inferInstanceAs (Decidable (_ > _))

instance isWhole.decidable (frame : List UInt8) : Decidable (isWhole frame) :=
  inferInstanceAs (Decidable (_ ∨ _))

/-- What a slave makes of the segments it gets: the toggle has to alternate, and the transfer ends
with the segment that says so. -/
def decodeSegments (room : Nat) : Bool → List (List UInt8) → Option (List UInt8)
  | _,[] => none
  | toggle,frame::rest =>
      if isDownSegment frame toggle ∧ fitsInbox room frame then
        if isLastSegment frame then
          if rest=[] then some (segmentBytes frame) else none
        else (decodeSegments room (!toggle) rest).map (segmentBytes frame++·)
      else none

/-- What it makes of a whole download. -/
def decodeDownload (room : Nat) (index : UInt16) (subindex : UInt8) (ca : Bool) :
    List (List UInt8) → Option (List UInt8)
  | [] => none
  | frame::rest =>
      if isDownRequest frame index subindex ca ∧ fitsInbox room frame then
        if isWhole frame then
          if rest=[] then some (downBytes frame) else none
        else
          ((decodeSegments room false rest).map (downBytes frame++·)).filter
            (fun data => data.length=(sdoLdata frame).toNat)
      else none

/-- The toggle of the segments alternates, the last one and no other says so, and each ends in the
mailbox. -/
def Alternates (room : Nat) (toggle : Bool) (frames : List (List UInt8)) : Prop :=
  ∀ (k : Nat) (frame : List UInt8),frames[k]?=some frame →
    sdoCommand frame &&& 0xf0=toggleBit (toggle ^^ decide (k%2=1)) ∧
    (isLastSegment frame ↔ k+1=frames.length) ∧ 6+(sdoLength frame).toNat ≤ room

theorem decodeSegments_alternates {room : Nat} (frames : List (List UInt8)) :
    ∀ {toggle : Bool} {data : List UInt8},decodeSegments room toggle frames=some data →
      Alternates room toggle frames := by
  induction frames with
  | nil =>
    intro toggle data h
    cases h
  | cons frame rest ih =>
    intro toggle data h
    simp only [decodeSegments] at h
    by_cases hseg : isDownSegment frame toggle ∧ fitsInbox room frame
    · rw [if_pos hseg] at h
      by_cases hlast : isLastSegment frame
      · rw [if_pos hlast] at h
        by_cases hrest : rest=[]
        · intro k x hx
          have hk : k=0 := by
            have := (List.getElem?_eq_some_iff.mp hx).1
            simp [hrest] at this
            exact this
          simp only [hk,List.getElem?_cons_zero,Option.some.injEq] at hx
          rw [← hx]
          exact ⟨by simpa [hk] using hseg.1.2.2,by simp [hlast,hk,hrest],hseg.2.2⟩
        · rw [if_neg hrest] at h
          cases h
      · rw [if_neg hlast] at h
        obtain ⟨more,hmore,-⟩ := Option.map_eq_some_iff.mp h
        have hnext := ih hmore
        have hne : rest≠[] := by
          intro hnil
          rw [hnil] at hmore
          cases hmore
        intro k x hx
        cases k with
        | zero =>
          simp only [List.getElem?_cons_zero,Option.some.injEq] at hx
          rw [← hx]
          have hlen : 0 < rest.length := List.length_pos_iff.mpr hne
          exact ⟨by simpa using hseg.1.2.2,⟨fun hx => absurd hx hlast,fun hk => by
            simp only [List.length_cons] at hk
            omega⟩,hseg.2.2⟩
        | succ k =>
          rw [List.getElem?_cons_succ] at hx
          obtain ⟨htoggle,hend,hfit⟩ := hnext k x hx
          refine ⟨?_,?_,hfit⟩
          · rw [htoggle]
            have hodd : decide ((k+1)%2=1)=!decide (k%2=1) := by
              rcases Nat.mod_two_eq_zero_or_one k with hk|hk <;> simp [hk,Nat.add_mod]
            rw [hodd,Bool.not_xor,Bool.xor_not]
          · rw [hend,List.length_cons]
            omega
    · rw [if_neg hseg] at h
      cases h

/-- A slave that takes downloads of the objects that can be written, and acknowledges what it has
taken. It keeps the toggle it expects. -/
structure TakesDownloads {σ : Type} (port : Port σ) (cfg : SlaveCfg)
    (writable : UInt16 → UInt8 → Bool → Prop) (view : σ → List (List UInt8) × Option Bool) :
    Prop where
  line : Line port cfg view
  begins : ∀ e t frame index subindex ca,view e=([],t) → writable index subindex ca →
    isDownRequest frame index subindex ca → fitsInbox cfg.mbxL.toNat frame →
    ∃ ack t',isDownloadAck ack (index,subindex) ∧ 16 ≤ ack.length ∧
      view (port.write e frame).2=([ack],t') ∧ (¬isWhole frame → t'=some false)
  continues : ∀ e toggle frame,view e=([],some toggle) → isDownSegment frame toggle →
    fitsInbox cfg.mbxL.toNat frame →
    ∃ ack t',isSegmentAck ack ∧ 16 ≤ ack.length ∧
      view (port.write e frame).2=([ack],t') ∧ (¬isLastSegment frame → t'=some !toggle)

section Frames

theorem sdoHeader_request (length : UInt16) (cnt command : UInt8) (rest : List UInt8) :
    mbxType (sdoHeader length cnt command++rest)=ectMbxtCoe ∧
      coeService (sdoHeader length cnt command++rest)=ectCoesSdoreq ∧
      sdoLength (sdoHeader length cnt command++rest)=length ∧
      sdoCommand (sdoHeader length cnt command++rest)=command := by
  have hword : get16 (sdoHeader length cnt command++rest) 6=ectCoesSdoreq <<< 12 :=
    get16_le16 (mbxHeader length ectMbxtCoe cnt) (ectCoesSdoreq <<< 12) (command::rest)
  refine ⟨mbxType_header cnt,?_,get16_le16 [] length _,rfl⟩
  rw [coeService,hword]
  decide

theorem request_fields {length : UInt16} {cnt command : UInt8} {rest mbx : List UInt8}
    (h : sdoHeader length cnt command++rest <+: mbx) :
    mbxType mbx=ectMbxtCoe ∧ coeService mbx=ectCoesSdoreq ∧ sdoLength mbx=length ∧
      sdoCommand mbx=command := by
  have hlen : (sdoHeader length cnt command++rest).length=9+rest.length := by
    rw [List.length_append]
    rfl
  obtain ⟨htype,hservice,hlength,hcommand⟩ := sdoHeader_request length cnt command rest
  have h1 : byteAt mbx 5=_ := byteAt_of_front h (by omega)
  have h2 : get16 mbx 6=_ := get16_of_front h (by omega)
  have h3 : get16 mbx 0=_ := get16_of_front h (by omega)
  have h4 : byteAt mbx 8=_ := byteAt_of_front h (by omega)
  exact ⟨by rw [mbxType,h1]; exact htype,by rw [coeService,h2]; exact hservice,
    h3.trans hlength,h4.trans hcommand⟩

theorem downSegment_command (maxdata : Nat) (p : List UInt8) (toggle : Bool) :
    ((downSegment maxdata p).command+toggleBit toggle) &&& 0xf0=toggleBit toggle ∧
      (((downSegment maxdata p).command+toggleBit toggle) &&& 0x01>0 ↔
        (downSegment maxdata p).notLast=false) := by
  simp only [downSegment]
  split_ifs with hmore hshort
  · cases toggle <;> dsimp only <;> decide
  · generalize p.length=n at hshort
    cases toggle <;> interval_cases n <;> decide
  · cases toggle <;> dsimp only <;> decide

theorem downSegment_fits {maxdata : Nat} (p : List UInt8) (hmin : 7 ≤ maxdata)
    (hmax : maxdata ≤ ecMaxMbx) :
    10 ≤ (downSegment maxdata p).length.toNat ∧
      (downSegment maxdata p).length.toNat ≤ 3+maxdata := by
  have hmbx : ecMaxMbx=1486 := rfl
  simp only [downSegment]
  split_ifs with hmore hshort
  · have : (UInt16.ofNat (maxdata+3)).toNat=maxdata+3 :=
      UInt16.toNat_ofNat_of_lt' (by simp only [UInt16.size]; omega)
    simp only
    omega
  · have : (0x0a : UInt16).toNat=10 := rfl
    simp only
    omega
  · have : (UInt16.ofNat (p.length+3)).toNat=p.length+3 :=
      UInt16.toNat_ofNat_of_lt' (by simp only [UInt16.size]; omega)
    simp only
    omega

theorem downSegment_frame {maxdata : Nat} {p mbx : List UInt8} {cnt : UInt8} {toggle : Bool}
    (hmin : 7 ≤ maxdata) (hmax : maxdata ≤ ecMaxMbx)
    (h : sdoHeader (downSegment maxdata p).length cnt ((downSegment maxdata p).command+
      toggleBit toggle)++p.take (downSegment maxdata p).size <+: mbx) :
    isDownSegment mbx toggle ∧ fitsInbox (9+maxdata) mbx ∧
      segmentBytes mbx=p.take (downSegment maxdata p).size ∧
      (isLastSegment mbx ↔ (downSegment maxdata p).notLast=false) := by
  obtain ⟨htype,hservice,hlength,hcommand⟩ := request_fields h
  obtain ⟨htoggle,hlast⟩ := downSegment_command maxdata p toggle
  obtain ⟨hten,hend⟩ := downSegment_fits p hmin hmax
  have hbytes := segmentBytes_front h (downSegment_size toggle hmax).2
  refine ⟨⟨htype,hservice,by rw [hcommand]; exact htoggle⟩,?_,hbytes,?_⟩
  · rw [fitsInbox,hlength]
    omega
  · rw [isLastSegment,hcommand]
    exact hlast

theorem sdoFrame_fields {length : UInt16} {cnt command subindex : UInt8} {index : UInt16}
    {data mbx : List UInt8} (h : sdoFrame length cnt command index subindex data <+: mbx) :
    mbxType mbx=ectMbxtCoe ∧ coeService mbx=ectCoesSdoreq ∧ sdoLength mbx=length ∧
      sdoCommand mbx=command ∧ sdoIndex mbx=index ∧ sdoSubIndex mbx=subindex := by
  have hlen := sdoFrame_length length cnt command index subindex data
  have hhead : sdoHeader length cnt command++(le16 index++[subindex]++data) <+: mbx := by
    simpa [sdoFrame] using h
  obtain ⟨htype,hservice,hlength,hcommand⟩ := request_fields hhead
  have hindex : sdoIndex mbx=_ := get16_of_front h (by omega)
  have hsub : sdoSubIndex mbx=_ := byteAt_of_front h (by omega)
  exact ⟨htype,hservice,hlength,hcommand,hindex.trans (sdoFrame_index _ _ _ _ _ _),
    hsub.trans (sdoFrame_subindex _ _ _ _ _ _)⟩

theorem downExp_bits {n : Nat} (hpos : 0 < n) (hfour : n ≤ 4) :
    (ectSdoDownExp ||| (UInt8.ofNat ((4-n) <<< 2) &&& 0x0c)) &&& 0xf1=
      ectSdoDownInit+toggleBit false := by
  interval_cases n <;> decide

theorem expedited_frame {cnt subindex : UInt8} {index : UInt16} {p mbx : List UInt8} {room : Nat}
    (h : sdoFrame 10 cnt (ectSdoDownExp ||| (UInt8.ofNat ((4-p.length) <<< 2) &&& 0x0c)) index
      subindex p <+: mbx) (hne : p≠[]) (hfour : p.length ≤ 4) (hroom : 16 ≤ room) :
    isDownRequest mbx index subindex false ∧ fitsInbox room mbx ∧ isWhole mbx ∧
      downBytes mbx=p := by
  have hpos := List.length_pos_iff.mpr hne
  obtain ⟨htype,hservice,hlength,hcommand,hindex,hsub⟩ := sdoFrame_fields h
  have hten : (10 : UInt16).toNat=10 := rfl
  refine ⟨⟨htype,hservice,?_,hindex,hsub⟩,?_,?_,(downBytes_expedited h hfour hne).1⟩
  · rw [hcommand]
    exact downExp_bits hpos hfour
  · rw [fitsInbox,hlength]
    omega
  · left
    rw [hcommand]
    exact (downExp_command hpos hfour).1

/-- The request of a longer one, with the first part of the data. -/
theorem sized_frame {cnt subindex : UInt8} {ca : Bool} {index : UInt16} {size n room : Nat}
    {part mbx : List UInt8} (h : sdoFrame (UInt16.ofNat (0x0a+n)) cnt
      (if ca=true then ectSdoDownInitCa else ectSdoDownInit) index subindex
      (le32 (UInt32.ofNat size)++part) <+: mbx) (hn : part.length=n) (hsize : size<2^32)
    (hroom : 16+n ≤ room) (hmax : room ≤ ecMaxMbx) :
    isDownRequest mbx index subindex ca ∧ fitsInbox room mbx ∧ (isWhole mbx ↔ n=size) ∧
      downBytes mbx=part ∧ (sdoLdata mbx).toNat=size := by
  have hmbx : ecMaxMbx=1486 := rfl
  have hlen := sdoFrame_length (UInt16.ofNat (0x0a+n)) cnt
    (if ca=true then ectSdoDownInitCa else ectSdoDownInit) index subindex
    (le32 (UInt32.ofNat size)++part)
  rw [List.length_append,le32_length] at hlen
  obtain ⟨htype,hservice,hlength,hcommand,hindex,hsub⟩ := sdoFrame_fields h
  have hlength' : (UInt16.ofNat (0x0a+n)).toNat=10+n :=
    UInt16.toNat_ofNat_of_lt' (by simp only [UInt16.size]; omega)
  have hkind : (if ca=true then ectSdoDownInitCa else ectSdoDownInit)=ectSdoDownInit ∨
      (if ca=true then ectSdoDownInitCa else ectSdoDownInit)=ectSdoDownInitCa := by
    cases ca
    · exact .inl rfl
    · exact .inr rfl
  have hbytes := downBytes_normal hn (by omega) hkind h
  have hldata : sdoLdata mbx=UInt32.ofNat size := by
    have hread : get32 mbx 12=_ := get32_of_front h (by omega)
    exact hread.trans (get32_le32 (sdoHeader (UInt16.ofNat (0x0a+n)) cnt _++le16 index++[subindex])
      (UInt32.ofNat size) part)
  have hvalue : (sdoLdata mbx).toNat=size := by
    rw [hldata]
    exact UInt32.toNat_ofNat_of_lt' (by simpa [UInt32.size] using hsize)
  have hnormal : ¬sdoCommand mbx &&& 0x02>0 := by
    rw [hcommand]
    cases ca <;> decide
  refine ⟨⟨htype,hservice,?_,hindex,hsub⟩,?_,?_,hbytes,hvalue⟩
  · rw [hcommand]
    cases ca <;> decide
  · rw [fitsInbox,hlength,hlength']
    omega
  · rw [isWhole,hbytes,hvalue,hn]
    simp only [hnormal,false_or]

end Frames

section Run

variable {σ : Type} {port : Port σ} {cfg : SlaveCfg} {writable : UInt16 → UInt8 → Bool → Prop}
  {view : σ → List (List UInt8) × Option Bool}

theorem isSegmentAck_of_front {ack mbx : List UInt8} (h : ack <+: mbx) (hl : 16 ≤ ack.length)
    (hack : isSegmentAck ack) : isSegmentAck mbx := by
  refine ⟨isSdoResponse_of_front h hl hack.1,?_⟩
  rw [sdoCommand,byteAt_of_front h (by omega)]
  exact hack.2

/-- The segment loop carries what is left of the payload, and the slave can put it together. -/
theorem downSegments_run (hs : TakesDownloads port cfg writable view) {need : Nat} (htwo : 2 ≤ need)
    (index : UInt16) (subindex : UInt8) {maxdata : Nat} (hmin : 7 ≤ maxdata)
    (hroom : 9+maxdata=cfg.mbxL.toNat) (fuel : Nat) : ∀ (wkc : Int) {m : Nat} {toggle : Bool} {p : List UInt8}
      {frames : List (List UInt8)} {c : Client (σ × List (List UInt8))},p.length < fuel →
    Talking (recorded view) need [m] ([],some toggle,frames) c →
    ∃ m' w t more c',sdoWriteSegments port.recording cfg index subindex maxdata fuel (some m)
        (toggleBit toggle) p wkc c=.ok ((some m',w),c') ∧ 0 < w ∧
      Talking (recorded view) need [m'] ([],t,frames++more) c' ∧
      decodeSegments cfg.mbxL.toNat toggle more=some p := by
  induction fuel with
  | zero =>
    intro wkc m toggle p frames c hf
    omega
  | succ fuel ih =>
    intro wkc m toggle p frames c hf h
    have hmax : maxdata ≤ ecMaxMbx := by
      have := hs.line.inbox.2.1
      omega
    obtain ⟨out,c1,hget,h1,-⟩ := h.get hs.line.recording htwo
    have h2 := h1.store out (List.replicate ecMaxMbx 0)
    obtain ⟨cnt,c3,hcnt,h3,-⟩ := h2.count cfg
    let seg := downSegment maxdata p
    let request := sdoHeader seg.length cnt (seg.command+toggleBit toggle)++p.take seg.size
    have h4 := h3.store out request
    let frame := ((c3.store out request).buffers out).take cfg.mbxL.toNat
    have hsize : seg.size ≤ maxdata := (downSegment_size toggle hmax).1
    have hfront : request <+: frame := by
      have hlen : request.length ≤ cfg.mbxL.toNat := by
        have hhead : (sdoHeader seg.length cnt (seg.command+toggleBit toggle)).length=9 := rfl
        rw [List.length_append,List.length_take,hhead]
        omega
      simp only [frame,Client.store,Function.update_self]
      exact request_front _ hlen
    obtain ⟨hsegment,hfits,hbytes,hlast⟩ := downSegment_frame hmin hmax hfront
    rw [hroom] at hfits
    obtain ⟨ack,t,hack,hlen,hanswer,hnext⟩ := hs.continues _ toggle frame
      (recorded_eq.mp h4.seen).1 hsegment hfits
    obtain ⟨w,c5,hsend,hw,h5,-⟩ := h4.sendRecorded hs.line hanswer
    obtain ⟨c6,hdrop,h6,-⟩ := h5.drop hs.line.recording
    obtain ⟨r,m',c7,hreceive,hr,hm,hreply,h7,-,-⟩ :=
      h6.receive hs.line.recording (show 0 < need by omega)
    have hrun : sdoWriteSegments port.recording cfg index subindex maxdata (fuel+1) (some m)
        (toggleBit toggle) p wkc c=(if seg.notLast=true then
          sdoWriteSegments port.recording cfg index subindex maxdata fuel r.mbx
            (toggleBit toggle ^^^ 0x10) (p.drop seg.size) r.wkc
        else pure (r.mbx,r.wkc)) c7 := by
      rw [sdoWriteSegments,run_bind hget]
      simp only
      rw [run_bind (show clearMbx out c1=.ok ((),c1.store out (List.replicate ecMaxMbx 0)) from rfl),
        run_bind hcnt,run_bind (show fillMbx out request c3=.ok ((),c3.store out request) from rfl),
        run_bind hsend,if_pos hw,run_bind (show dropMbxIn port.recording (some m) c5=.ok ((),c6) from
          hdrop),run_bind hreceive,if_neg]
      intro hbad
      exact hbad.2 (isSegmentAck_of_front hreply hlen hack)
    rw [hrun,hm]
    by_cases hmore : seg.notLast=true
    · have hnot : ¬isLastSegment frame := by
        intro hbad
        rw [hlast.mp hbad] at hmore
        cases hmore
      rw [hnext hnot] at h7
      have hlong : p.length>maxdata := by
        by_contra hle
        simp only [seg,downSegment,if_neg hle] at hmore
        split_ifs at hmore
      have hdropped : (p.drop seg.size).length < fuel := by
        have hs : seg.size=maxdata := by simp only [seg,downSegment,if_pos hlong]
        rw [List.length_drop,hs]
        omega
      obtain ⟨m'',w',t',more,c'',hgo,hw',h'',hdecode⟩ := ih r.wkc hdropped h7
      refine ⟨m'',w',t',frame::more,c'',?_,hw',?_,?_⟩
      · rw [if_pos hmore,toggleBit_not]
        exact hgo
      · rw [List.append_assoc] at h''
        exact h''
      · rw [decodeSegments,if_pos ⟨hsegment,hfits⟩,if_neg hnot,hdecode,Option.map_some,hbytes,
          List.take_append_drop]
    · have hend : isLastSegment frame := hlast.mpr (by simpa using hmore)
      have hall : p.take seg.size=p := by
        simp only [seg,downSegment] at hmore ⊢
        split_ifs at hmore ⊢
        · exact absurd rfl hmore
        · exact List.take_length
        · exact List.take_length
      refine ⟨m',r.wkc,t,[frame],c7,?_,hr,h7,?_⟩
      · rw [if_neg hmore]
        rfl
      · rw [decodeSegments,if_pos ⟨hsegment,hfits⟩,if_pos hend,if_pos rfl,hbytes,hall]

theorem isDownloadAck_of_front {ack mbx : List UInt8} {target : UInt16 × UInt8} (h : ack <+: mbx)
    (hl : 16 ≤ ack.length) (hack : isDownloadAck ack target) : isDownloadAck mbx target := by
  refine ⟨isSdoResponse_of_front h hl hack.1,?_,?_⟩
  · rw [sdoTarget_of_front h hl]
    exact hack.2.1
  · rw [sdoCommand,byteAt_of_front h (by omega)]
    exact hack.2.2

/-- The request goes out and is acknowledged, and the segments follow if there are any. -/
theorem downRequest_run (hs : TakesDownloads port cfg writable view) (hroom : 17 ≤ cfg.mbxL.toNat)
    (fuel : Nat) {out : Nat} {mbxIn : Option Nat} {index : UInt16} (subindex : UInt8) {sub : UInt8}
    (maxdata : Nat) {ca : Bool} (notLast : Bool) (rest : List UInt8) {need : Nat} (hone : 1 ≤ need)
    {t : Option Bool} {frames : List (List UInt8)} {c : Client (σ × List (List UInt8))}
    (h : Talking (recorded view) need (out::(mbxIn.toList++[])) ([],t,frames) c)
    (hwritable : writable index sub ca)
    (hrequest : isDownRequest ((c.buffers out).take cfg.mbxL.toNat) index sub ca)
    (hfits : fitsInbox cfg.mbxL.toNat ((c.buffers out).take cfg.mbxL.toNat))
    (htarget : sdoTarget (c.buffers out)=(index,sub))
    (hmore : notLast=true → 2 ≤ need ∧ ¬isWhole ((c.buffers out).take cfg.mbxL.toNat) ∧
      16+maxdata=cfg.mbxL.toNat ∧ rest.length < fuel) :
    ∃ w t' more c',sdoWriteRequest port.recording cfg fuel out mbxIn index subindex maxdata notLast
        rest c=.ok (w,c') ∧ 0 < w ∧
      Talking (recorded view) need [] ([],t',frames++(c.buffers out).take cfg.mbxL.toNat::more)
        c' ∧
      (if notLast=true then decodeSegments cfg.mbxL.toNat false more=some rest else more=[]) := by
  let frame := (c.buffers out).take cfg.mbxL.toNat
  obtain ⟨ack,t1,hack,hlen,hanswer,hnext⟩ := hs.begins _ t frame index sub ca
    (recorded_eq.mp h.seen).1 hwritable hrequest hfits
  obtain ⟨w,c1,hsend,hw,h1,hk1⟩ := h.sendRecorded hs.line hanswer
  obtain ⟨c2,hdrop,h2,hk2⟩ := h1.dropIn hs.line.recording
  obtain ⟨r,m,c3,hreceive,hr,hm,hreply,h3,hb3,-⟩ := h2.receive hs.line.recording hone
  obtain ⟨c4,hpeek,h4,-⟩ := h3.peek hs.line.recording out
  have hanswered := isDownloadAck_of_front hreply hlen hack
  -- the mailbox of the request names the object even if the answer was read into it
  have hpeeked : sdoTarget (c3.buffers out)=(index,sub) := by
    rw [hb3,Function.update_apply]
    split_ifs
    · exact hanswered.2.1
    · rw [hk2.buffers,hk1.buffers]
      exact htarget
  have haccepts : sdoWriteAccepts port.recording out r.data c3=.ok (true,c4) := by
    rw [sdoWriteAccepts,run_bind hpeek]
    have hindex : sdoIndex r.data=sdoIndex (c3.buffers out) :=
      congrArg Prod.fst (hanswered.2.1.trans hpeeked.symm)
    have hsub : sdoSubIndex r.data=sdoSubIndex (c3.buffers out) :=
      congrArg Prod.snd (hanswered.2.1.trans hpeeked.symm)
    rw [decide_eq_true ⟨hanswered.1,hindex,hsub⟩]
    rfl
  have hrun : sdoWriteRequest port.recording cfg fuel out mbxIn index subindex maxdata notLast rest
      c=(if notLast=true then do
          let s ← sdoWriteSegments port.recording cfg index subindex (maxdata+7) fuel r.mbx 0 rest
            r.wkc
          dropMbxIn port.recording s.1
          pure s.2
        else do
          dropMbxIn port.recording r.mbx
          pure r.wkc) c4 := by
    rw [sdoWriteRequest,run_bind hsend,if_pos hw,run_bind hdrop,run_bind hreceive,if_pos hr,
      run_bind haccepts,if_pos rfl]
  rw [hrun,hm]
  by_cases hsegments : notLast=true
  · obtain ⟨htwo,hpart,hsize,hfuel⟩ := hmore hsegments
    rw [hnext hpart] at h4
    obtain ⟨m',w',t',more,c5,hgo,hw',h5,hdecode⟩ := downSegments_run hs htwo index subindex
      (show 7 ≤ maxdata+7 by omega) (by omega) fuel r.wkc hfuel h4
    obtain ⟨c6,hlast,h6,-⟩ := h5.drop hs.line.recording
    refine ⟨w',t',more,c6,?_,hw',?_,?_⟩
    · rw [if_pos hsegments,run_bind (show sdoWriteSegments port.recording cfg index subindex
        (maxdata+7) fuel (some m) 0 rest r.wkc c4=.ok ((some m',w'),c5) from hgo),
        run_bind (show dropMbxIn port.recording (some m') c5=.ok ((),c6) from hlast)]
      rfl
    · rw [List.append_assoc] at h6
      exact h6
    · rw [if_pos hsegments]
      exact hdecode
  · obtain ⟨c5,hlast,h5,-⟩ := h4.drop hs.line.recording
    refine ⟨r.wkc,t1,[],c5,?_,hr,h5,?_⟩
    · rw [if_neg hsegments,run_bind (show dropMbxIn port.recording (some m) c4=.ok ((),c5) from
        hlast)]
      rfl
    · rw [if_neg hsegments]

/-- The call succeeds, and a slave finds the payload in the mailboxes it has sent. -/
def DownloadDecoded (port : Port σ) (cfg : SlaveCfg) (fuel : Nat) (index : UInt16)
    (subindex : UInt8) (ca : Bool) (p : List UInt8) (c : Client (σ × List (List UInt8))) : Prop :=
  ∃ (w : Int) (c' : Client (σ × List (List UInt8))) (request : List UInt8)
    (segments : List (List UInt8)),
    sdoWrite port.recording cfg fuel index subindex ca p c=.ok (w,c') ∧ 0 < w ∧
    taken c'=taken c++request::segments ∧
    decodeDownload cfg.mbxL.toNat index (requestedSub ca subindex) ca (request::segments)=some p ∧
    6+(sdoLength request).toNat ≤ cfg.mbxL.toNat ∧ Alternates cfg.mbxL.toNat false segments

/-- Mailboxes enough for a download: two, or one if the request brings all the data. -/
def Supplied (cfg : SlaveCfg) (ca : Bool) (p : List UInt8) (n : Nat) : Prop :=
  2 ≤ n ∨ (n=1 ∧ ((p.length ≤ 4 ∧ ca=false) ∨ p.length+16 ≤ cfg.mbxL.toNat))

instance Supplied.decidable (cfg : SlaveCfg) (ca : Bool) (p : List UInt8) (n : Nat) :
    Decidable (Supplied cfg ca p n) := inferInstanceAs (Decidable (_ ∨ _))

theorem Supplied.one {ca : Bool} {p : List UInt8} {n : Nat} (h : Supplied cfg ca p n) : 1 ≤ n := by
  rcases h with h|h <;> omega

theorem Supplied.long {ca : Bool} {p : List UInt8} {n : Nat} (h : Supplied cfg ca p n)
    (hbig : ¬(p.length ≤ 4 ∧ ca=false)) (hlong : ¬p.length+16 ≤ cfg.mbxL.toNat) : 2 ≤ n := by
  rcases h with h|⟨-,hsmall|hfit⟩
  · exact h
  · exact absurd hsmall hbig
  · exact absurd hfit hlong

/-- The three kinds of request, each with what is left for segments. -/
theorem downStart_run (hs : TakesDownloads port cfg writable view) (hroom : 17 ≤ cfg.mbxL.toNat)
    {fuel out : Nat} {mbxIn : Option Nat} {index : UInt16} {subindex : UInt8} {ca : Bool}
    {p : List UInt8} {need : Nat} {t : Option Bool} {frames : List (List UInt8)}
    {c : Client (σ × List (List UInt8))} (hneed : Supplied cfg ca p need)
    (h : Talking (recorded view) need (out::(mbxIn.toList++[])) ([],t,frames) c)
    (hwritable : writable index (requestedSub ca subindex) ca) (hne : p≠[])
    (hsize : p.length<2^31) (hfuel : p.length < fuel) :
    ∃ (w : Int) (t' : Option Bool) (c' : Client (σ × List (List UInt8))) (request : List UInt8)
      (segments : List (List UInt8)),
      sdoWriteStart port.recording cfg fuel out mbxIn index subindex ca p c=.ok (w,c') ∧ 0 < w ∧
      Talking (recorded view) need [] ([],t',frames++request::segments) c' ∧
      decodeDownload cfg.mbxL.toNat index (requestedSub ca subindex) ca (request::segments)=
        some p ∧
      6+(sdoLength request).toNat ≤ cfg.mbxL.toNat ∧ Alternates cfg.mbxL.toNat false segments := by
  have hmax := hs.line.inbox.2.1
  have hnone : Alternates cfg.mbxL.toNat false [] := by
    intro k frame hk
    cases hk
  have h1 := h.store out (List.replicate ecMaxMbx 0)
  obtain ⟨cnt,c2,hcnt,h2,-⟩ := h1.count cfg
  rw [sdoWriteStart,run_bind (show clearMbx out c=
    .ok ((),c.store out (List.replicate ecMaxMbx 0)) from rfl)]
  dsimp only
  by_cases hsmall : p.length ≤ 4 ∧ ca=false
  · obtain ⟨hfour,rfl⟩ := hsmall
    let request := sdoFrame 10 cnt (ectSdoDownExp ||| (UInt8.ofNat ((4-p.length) <<< 2) &&& 0x0c))
      index subindex p
    have h3 := h2.store out request
    have hstored : (c2.store out request).buffers out=overwrite (c2.buffers out) request :=
      Function.update_self _ _ _
    have hfront : request <+: ((c2.store out request).buffers out).take cfg.mbxL.toNat := by
      rw [hstored]
      apply request_front
      rw [sdoFrame_length]
      omega
    obtain ⟨hrequest,hfits,hwhole,hbytes⟩ := expedited_frame hfront hne hfour
      (show 16 ≤ cfg.mbxL.toNat by omega)
    obtain ⟨-,-,-,-,hindex,hsub⟩ := sdoFrame_fields (hfront.trans (List.take_prefix _ _))
    obtain ⟨w,t',more,c',hrun,hw,h',hrest⟩ := downRequest_run hs hroom fuel subindex 0 false []
      hneed.one h3 hwritable hrequest hfits (Prod.ext hindex hsub) (by simp)
    rw [if_neg (by decide)] at hrest
    rw [hrest] at h'
    refine ⟨w,t',c',_,[],?_,hw,h',?_,hfits.2,hnone⟩
    · rw [if_pos ⟨hfour,rfl⟩,run_bind hcnt,run_bind (show fillMbx out request c2=
        .ok ((),c2.store out request) from rfl)]
      exact hrun
    · rw [decodeDownload,if_pos ⟨hrequest,hfits⟩,if_pos hwhole,if_pos rfl,hbytes]
  · rw [if_neg hsmall,run_bind hcnt]
    let command := if ca=true then ectSdoDownInitCa else ectSdoDownInit
    let sub : UInt8 := if ca=true ∧ subindex>1 then 1 else subindex
    by_cases hlong : (p.length : Int) > (cfg.mbxL.toNat : Int)-0x10
    · have hneg : ¬(cfg.mbxL.toNat : Int)-0x10<0 := by omega
      have hmaxdata : ((cfg.mbxL.toNat : Int)-0x10).toNat=cfg.mbxL.toNat-16 := by omega
      let maxdata := cfg.mbxL.toNat-16
      let request := sdoFrame (UInt16.ofNat (0x0a+maxdata)) cnt command index sub
        (le32 (UInt32.ofNat p.length)++p.take maxdata)
      have hpart : (p.take maxdata).length=maxdata := by
        rw [List.length_take]
        omega
      have h3 := h2.store out request
      have hstored : (c2.store out request).buffers out=overwrite (c2.buffers out) request :=
        Function.update_self _ _ _
      have hfront : request <+: ((c2.store out request).buffers out).take cfg.mbxL.toNat := by
        rw [hstored]
        apply request_front
        rw [sdoFrame_length,List.length_append,le32_length,hpart]
        omega
      obtain ⟨hrequest,hfits,hwhole,hbytes,hvalue⟩ := sized_frame hfront hpart
        (show p.length<2^32 by omega) (show 16+maxdata ≤ cfg.mbxL.toNat by omega) hmax
      obtain ⟨-,-,-,-,hindex,hsub⟩ := sdoFrame_fields (hfront.trans (List.take_prefix _ _))
      have hnot : ¬isWhole (((c2.store out request).buffers out).take cfg.mbxL.toNat) := by
        rw [hwhole]
        omega
      have hleft : (p.drop maxdata).length < fuel := by
        rw [List.length_drop]
        omega
      obtain ⟨w,t',more,c',hrun,hw,h',hrest⟩ := downRequest_run hs hroom fuel subindex maxdata
        true (p.drop maxdata) hneed.one h3 hwritable hrequest hfits (Prod.ext hindex hsub)
        (fun _ => ⟨hneed.long hsmall (by omega),hnot,by omega,hleft⟩)
      rw [if_pos rfl] at hrest
      refine ⟨w,t',c',_,more,?_,hw,h',?_,hfits.2,decodeSegments_alternates _ hrest⟩
      · rw [if_pos hlong,if_neg hneg,hmaxdata,run_bind (show fillMbx out request c2=
          .ok ((),c2.store out request) from rfl)]
        exact hrun
      · rw [decodeDownload,if_pos ⟨hrequest,hfits⟩,if_neg hnot,hrest,Option.map_some,hbytes,
          List.take_append_drop]
        simp [hvalue]
    · let request := sdoFrame (UInt16.ofNat (0x0a+p.length)) cnt command index sub
        (le32 (UInt32.ofNat p.length)++p)
      have h3 := h2.store out request
      have hstored : (c2.store out request).buffers out=overwrite (c2.buffers out) request :=
        Function.update_self _ _ _
      have hfront : request <+: ((c2.store out request).buffers out).take cfg.mbxL.toNat := by
        rw [hstored]
        apply request_front
        rw [sdoFrame_length,List.length_append,le32_length]
        omega
      obtain ⟨hrequest,hfits,hwhole,hbytes,-⟩ := sized_frame hfront rfl
        (show p.length<2^32 by omega) (show 16+p.length ≤ cfg.mbxL.toNat by omega) hmax
      obtain ⟨-,-,-,-,hindex,hsub⟩ := sdoFrame_fields (hfront.trans (List.take_prefix _ _))
      obtain ⟨w,t',more,c',hrun,hw,h',hrest⟩ := downRequest_run hs hroom fuel subindex 0 false
        [] hneed.one h3 hwritable hrequest hfits (Prod.ext hindex hsub) (by simp)
      rw [if_neg (by decide)] at hrest
      rw [hrest] at h'
      refine ⟨w,t',c',_,[],?_,hw,h',?_,hfits.2,hnone⟩
      · rw [if_neg hlong,run_bind (show fillMbx out request c2=
          .ok ((),c2.store out request) from rfl)]
        exact hrun
      · rw [decodeDownload,if_pos ⟨hrequest,hfits⟩,if_pos (hwhole.mpr rfl),if_pos rfl,hbytes]

theorem downloadDecoded_of_supply (hs : TakesDownloads port cfg writable view)
    (hroom : 17 ≤ cfg.mbxL.toNat) {fuel : Nat} {index : UInt16} {subindex : UInt8} {ca : Bool}
    {p : List UInt8} {c : Client (σ × List (List UInt8))} (hwf : c.pool.Wf)
    (hsupply : Supplied cfg ca p c.pool.listcount)
    (hwaiting : (view c.env.1).1.length+1 ≤ c.pool.listcount ∧ (view c.env.1).1.length ≤ 1)
    (hwritable : writable index (requestedSub ca subindex) ca) (hne : 1 ≤ p.length)
    (hsize : p.length<2^31) (hfuel : p.length < fuel) :
    DownloadDecoded port cfg fuel index subindex ca p c := by
  have h : Talking (recorded view) c.pool.listcount [] ((view c.env.1).1,(view c.env.1).2,taken c)
      c := Talking.start (recorded view) hwf le_rfl
  obtain ⟨stale,c1,hstale,h1,hheld⟩ :=
    h.clearFirst hs.line.recording hwaiting.2 (Nat.le_of_succ_le hwaiting.1)
  obtain ⟨out,c2,hget,h2,-⟩ := h1.get hs.line.recording (hheld.trans_lt hwaiting.1)
  obtain ⟨w,t',c',request,segments,hrun,hw,h',hdecode,hfit,halternates⟩ := downStart_run hs hroom
    hsupply h2 hwritable (List.length_pos_iff.mp hne) hsize hfuel
  refine ⟨w,c',request,segments,?_,hw,(recorded_eq.mp h'.seen).2,hdecode,hfit,halternates⟩
  rw [sdoWrite,sdoService,run_bind hstale,run_bind hget]
  exact hrun

/-- A call with one mailbox at most gets no further than its request. -/
theorem sdoWriteAwait_scarce (halone : Alone port.recording) {n fuel : Nat} {index : UInt16}
    {subindex : UInt8} {request : DownRequest} {c c' : Client (σ × List (List UInt8))} {w : Int}
    (h : Stock n [] c) (hn : n < 2) (hmore : request.notLast=true)
    (hr : sdoWriteAwait port.recording cfg fuel index subindex request c=.ok (w,c')) (hw : 0 < w) :
    taken c'=taken c := by
  have hT := countAccount_ledger halone
  obtain ⟨reply,c1,hreceive,hr⟩ := bind_ok.mp hr
  have hone : taken c1=taken c := mbxReceive_none_taken _ _ _ hreceive
  by_cases hreply : reply.wkc>0
  · rw [if_pos hreply] at hr
    obtain ⟨accepted,c2,haccepts,hr⟩ := bind_ok.mp hr
    have htwo : taken c2=taken c1 := by
      obtain ⟨kept,c3,hpeek,haccepts⟩ := bind_ok.mp haccepts
      cases pure_ok.mp haccepts
      cases hpeek
      exact taken_interfere c1
    split_ifs at hr with hacc
    · obtain ⟨s,c3,hsegments,hr⟩ := bind_ok.mp hr
      obtain ⟨_,c4,hdrop,hr⟩ := bind_ok.mp hr
      have hfour : taken c4=taken c3 := dropMbxIn_none_taken _ _ _ _ hdrop
      cases pure_ok.mp hr
      cases fuel with
      | zero => exact absurd hsegments throw_ok
      | succ fuel =>
        obtain ⟨mbxOut,c5,hget,hsegments⟩ := bind_ok.mp hsegments
        have hfive : taken c5=taken c2 := getMbxM_none_taken _ _ _ hget
        cases mbxOut with
        | none =>
          cases pure_ok.mp hsegments
          exact hfour.trans (hfive.trans (htwo.trans hone))
        | some out =>
          -- the reply holds one mailbox, so this would be the second
          have h2 := (h.run (mbxReceive_accounts hT cfg) hreceive).run
            (sdoWriteAccepts_accounts hT request.out reply.data) haccepts
          have hdrawn := h2.drawn halone hget
          cases hm : reply.mbx with
          | none => exact absurd hm (mbxReceive_held hreceive hreply)
          | some m =>
            rw [hm] at hdrawn
            simp only [Option.toList_some,List.cons_append,List.nil_append,List.length_cons,
              List.length_nil] at hdrawn
            omega
    · obtain ⟨_,c3,-,hr⟩ := bind_ok.mp hr
      obtain ⟨_,c4,-,hr⟩ := bind_ok.mp hr
      cases pure_ok.mp hr
      exact absurd hw (Int.lt_irrefl 0)
  · rw [if_neg hreply] at hr
    obtain ⟨_,c2,-,hr⟩ := bind_ok.mp hr
    cases pure_ok.mp hr
    exact absurd hw hreply

/-- A download that is decoded has sent its request, with a mailbox beside the one that was waiting
in the slave. -/
theorem downloadDecoded_sent (hs : TakesDownloads port cfg writable view) {fuel : Nat}
    {index : UInt16} {subindex : UInt8} {ca : Bool} {p : List UInt8}
    {c c' : Client (σ × List (List UInt8))} {w : Int} (hwf : c.pool.Wf)
    (hwaiting : (view c.env.1).1.length ≤ 1)
    (hr : sdoWrite port.recording cfg fuel index subindex ca p c=.ok (w,c'))
    (htaken : taken c'≠taken c) (hw : 0 < w) :
    (view c.env.1).1.length+1 ≤ c.pool.listcount ∧
      ∃ request c1,Begun cfg ca p request ∧ taken c1=taken c++[request.frame] ∧
        Stock c.pool.listcount [] c1 ∧
        sdoWriteAwait port.recording cfg fuel index subindex request c1=.ok (w,c') := by
  have halone := hs.line.recording.alone
  have hT := countAccount_ledger halone
  have hstock := Stock.start hwf
  obtain ⟨stale,c1,hstale,hrest⟩ := bind_ok.mp hr
  obtain ⟨mbxOut,c2,hget,hrest⟩ := bind_ok.mp hrest
  cases mbxOut with
  | none =>
    cases pure_ok.mp hrest
    have hone : taken c1=taken c := mbxReceive_none_taken _ _ _ hstale
    have htwo : taken c'=taken c1 := getMbxM_none_taken _ _ _ hget
    exact absurd (htwo.trans hone) htaken
  | some out =>
    have hdrawn := (hstock.run (mbxReceive_accounts hT cfg) hstale).drawn halone hget
    refine ⟨?_,?_⟩
    · have h : Talking (recorded view) c.pool.listcount [] ((view c.env.1).1,(view c.env.1).2,
          taken c) c := Talking.start (recorded view) hwf le_rfl
      obtain ⟨stale',c1',hstale',-,hheld⟩ := h.clearFirst hs.line.recording hwaiting (by omega)
      cases hstale.symm.trans hstale'
      omega
    · rw [sdoWrite_eq] at hr
      obtain ⟨sent,c3,hsent,hrest⟩ := bind_ok.mp hr
      cases sent with
      | inl wkc =>
        cases pure_ok.mp hrest
        have hfree : RefusedUnread port.recording cfg c := by
          intro stale' c1' c2' hstale' hget'
          cases hstale.symm.trans hstale'
          cases hget.symm.trans hget'
        exact absurd hw ((sdoWriteSent_iff_refused hsent).mp hfree w rfl)
      | inr request =>
        obtain ⟨hbegun,hfirst⟩ := sdoWriteSent_begun hsent
        have hleft := sdoWriteSent_accounts hT hsent hwf.tail hwf.cells
          (fun m hm => absurd hm List.not_mem_nil)
        exact ⟨request,c3,hbegun,hfirst,⟨hleft.1.1,hleft.1.2,hleft.2.1,hleft.2.2.trans hstock.total⟩,
          hrest⟩

/-- What `ecx_SDOwrite` sends to a slave that takes it is the payload, in one of the three
encodings of a download, exactly if the pool has the mailboxes it needs: two, or one if no mailbox
waits in the slave and the request brings all the data. -/
theorem sdo_download_decoded_iff (hs : TakesDownloads port cfg writable view)
    (hroom : 17 ≤ cfg.mbxL.toNat) {fuel : Nat} {index : UInt16} {subindex : UInt8} {ca : Bool}
    {p : List UInt8} {c : Client (σ × List (List UInt8))} (hwf : c.pool.Wf)
    (hwaiting : (view c.env.1).1.length ≤ 1)
    (hwritable : writable index (requestedSub ca subindex) ca) (hne : 1 ≤ p.length)
    (hsize : p.length<2^31) (hfuel : p.length < fuel) :
    DownloadDecoded port cfg fuel index subindex ca p c ↔
      Supplied cfg ca p c.pool.listcount ∧ (view c.env.1).1.length+1 ≤ c.pool.listcount := by
  constructor
  · rintro ⟨w,c',frame,segments,hr,hw,htaken,hdecode,-,-⟩
    have hsome : taken c'≠taken c := by
      rw [htaken]
      intro hnone
      exact List.cons_ne_nil _ _ (List.append_right_eq_self.mp hnone)
    obtain ⟨hcount,request,c1,hbegun,hfirst,hstock,hawait⟩ :=
      downloadDecoded_sent hs hwf hwaiting hr hsome hw
    refine ⟨?_,hcount⟩
    by_cases htwo : 2 ≤ c.pool.listcount
    · exact .inl htwo
    · refine .inr ⟨by omega,?_⟩
      cases hlast : request.notLast with
      | false => exact (hbegun.single hlast).2
      | true =>
        obtain ⟨-,hleft,-,hbytes,-⟩ := hbegun.more hlast
        have hkept := sdoWriteAwait_scarce hs.line.recording.alone hstock (by omega) hlast hawait hw
        rw [hkept,hfirst] at htaken
        obtain ⟨rfl,rfl⟩ := List.cons.inj (List.append_cancel_left htaken)
        -- the first part alone is not the payload
        rw [decodeDownload] at hdecode
        split_ifs at hdecode with hrequest hwhole
        · rw [← Option.some.inj hdecode] at hbytes
          exact absurd (List.append_right_eq_self.mp hbytes) hleft
        · cases hdecode
  · rintro ⟨hsupply,hcount⟩
    exact downloadDecoded_of_supply hs hroom hwf hsupply ⟨hcount,hwaiting⟩ hwritable hne hsize hfuel

end Run

section Slave

/-- The acknowledgements of a slave, for a request and for a segment. -/
inductive DownAck where
  | begun (index : UInt16) (subindex : UInt8)
  | segment (toggle : Bool)

def DownAck.bytes : DownAck → List UInt8
  | .begun index subindex => initiatedFrame 10 0x60 index subindex [0,0,0,0]
  | .segment toggle => answerFrame 10 (0x20+toggleBit toggle) [0,0,0,0,0,0,0]

/-- The acknowledgement that waits to be read, and the toggle expected next. -/
structure DownState where
  ack : Option DownAck
  toggle : Option Bool

def DownState.view (s : DownState) : List (List UInt8) × Option Bool :=
  ((s.ack.map DownAck.bytes).toList,s.toggle)

/-- A slave that takes every download. -/
def takingSlave : Port DownState where
  write := fun s frame =>
    (1,if sdoCommand frame &&& 0xe0=0x20 then
        ⟨some (.begun (sdoIndex frame) (sdoSubIndex frame)),some false⟩
      else ⟨some (.segment (s.toggle.getD false)),s.toggle.map not⟩)
  empty := fun s => (true,s)
  mailbox := fun s =>
    (s.ack.elim (.silent 0) (fun ack => .full ⟨1,ack.bytes,false⟩ []),{ s with ack := none })
  others := fun s => ([],s)

theorem DownAck.response (ack : DownAck) : isSdoResponse ack.bytes ∧ ack.bytes.length=16 := by
  cases ack with
  | begun index subindex =>
    exact ⟨(answerFrame_response _ _ _).1,answerFrame_length _ _ _⟩
  | segment toggle =>
    exact ⟨(answerFrame_response _ _ _).1,answerFrame_length _ _ _⟩

theorem down_command {command : UInt8} {ca : Bool}
    (h : command &&& 0xf1=ectSdoDownInit+toggleBit ca) : command &&& 0xe0=0x20 := by
  obtain ⟨v⟩ := command
  revert v
  cases ca <;> decide +kernel

theorem segment_not_down {command : UInt8} {toggle : Bool}
    (h : command &&& 0xf0=toggleBit toggle) : ¬command &&& 0xe0=0x20 := by
  obtain ⟨v⟩ := command
  revert v
  cases toggle <;> decide +kernel

theorem takingSlave_takes {cfg : SlaveCfg}
    (hin : 0 < cfg.mbxL.toNat ∧ cfg.mbxL.toNat ≤ ecMaxMbx ∧ cfg.preop=true)
    (hout : 16 ≤ cfg.mbxRl.toNat ∧ cfg.mbxRl.toNat ≤ ecMaxMbx) :
    TakesDownloads takingSlave cfg (fun _ _ _ => True) DownState.view where
  line := {
    inbox := hin
    outbox := ⟨by omega,hout.2⟩
    alone := fun _ => rfl
    steady := fun _ => rfl
    takes := fun _ _ => Int.one_pos
    hands := by
      intro s reply q t hview
      obtain ⟨ack,toggle⟩ := s
      cases ack with
      | none => cases hview
      | some ack =>
        cases hview
        obtain ⟨hresponse,hlen⟩ := ack.response
        refine ⟨⟨1,ack.bytes,false⟩,[],rfl,Int.one_pos,List.prefix_refl _,by omega,?_,rfl⟩
        intro mbx hfront
        exact not_handled_of_response (isSdoResponse_of_front hfront (by omega) hresponse) false
    silent := by
      intro s t hview
      obtain ⟨ack,toggle⟩ := s
      cases ack with
      | none => exact ⟨0,rfl,hview⟩
      | some ack => cases hview }
  begins := by
    intro s t frame index subindex ca hview _ hrequest _
    have hdown := down_command hrequest.2.2.1
    refine ⟨initiatedFrame 10 0x60 index subindex [0,0,0,0],some false,?_,?_,?_,fun _ => rfl⟩
    · have hinit : isInitiated (initiatedFrame 10 0x60 index subindex [0,0,0,0]) index subindex 10 :=
        initiatedFrame_isInitiated 0x60 index subindex rfl
      obtain ⟨hresponse,hindex,hsub,-⟩ := hinit
      have hcommand := (answerFrame_response 10 0x60 (le16 index++subindex::[0,0,0,0])).2.2
      refine ⟨hresponse,Prod.ext hindex hsub,?_⟩
      rw [initiatedFrame,hcommand]
      decide
    · exact (DownAck.begun index subindex).response.2.ge
    · simp only [takingSlave,if_pos hdown,hrequest.2.2.2.1,hrequest.2.2.2.2]
      rfl
  continues := by
    intro s toggle frame hview hsegment _
    have hnot := segment_not_down hsegment.2.2
    have htoggle : s.toggle=some toggle := congrArg Prod.snd hview
    refine ⟨answerFrame 10 (0x20+toggleBit toggle) [0,0,0,0,0,0,0],some !toggle,?_,?_,?_,
      fun _ => rfl⟩
    · obtain ⟨hresponse,-,hcommand⟩ :=
        answerFrame_response 10 (0x20+toggleBit toggle) [0,0,0,0,0,0,0]
      refine ⟨hresponse,?_⟩
      rw [hcommand]
      cases toggle <;> decide
    · exact (DownAck.segment toggle).response.2.ge
    · simp only [takingSlave,if_neg hnot,htoggle]
      rfl

end Slave

/-- A mailbox of 32 bytes. -/
def cfgInbox32 : SlaveCfg := ⟨1,32,16,true⟩

theorem forty_bytes_decoded :
    DownloadDecoded takingSlave cfgInbox32 41 0x1008 3 true (List.replicate 40 7)
      (Client.start (⟨none,none⟩,[])) :=
  (sdo_download_decoded_iff (takingSlave_takes (by decide) (by decide)) (by decide) initMbxPool_wf
    (by decide) trivial (by decide) (by decide) (by decide)).mpr (by decide)

/-- With one mailbox in the pool nothing but the request goes out, and the call reports success. -/
theorem request_alone_reported :
    (sdoWrite takingSlave.recording cfgInbox32 41 0x1008 3 true (List.replicate 40 7)
      (Client.scarce (⟨none,none⟩,[]))).toOption.map (fun r =>
        (r.1,decodeDownload 32 0x1008 1 true (taken r.2)))=some (1,none) ∧
    ¬DownloadDecoded takingSlave cfgInbox32 41 0x1008 3 true (List.replicate 40 7)
      (Client.scarce (⟨none,none⟩,[])) := by
  have hrun : (sdoWrite takingSlave.recording cfgInbox32 41 0x1008 3 true (List.replicate 40 7)
      (Client.scarce (⟨none,none⟩,[]))).toOption.map (fun r =>
        (r.1,decodeDownload 32 0x1008 1 true (taken r.2)))=some (1,none) := by
    decide +kernel
  refine ⟨hrun,?_⟩
  rintro ⟨w,c',request,segments,hr,-,htaken,hdecode,-,-⟩
  have hempty : taken (Client.scarce ((⟨none,none⟩,[]) : DownState × List (List UInt8)))=[] := rfl
  rw [hempty,List.nil_append] at htaken
  rw [hr] at hrun
  have hnone := congrArg Prod.snd (Option.some.inj hrun)
  simp only [htaken] at hnone
  cases hnone.symm.trans hdecode

end EtherCATMaster.Mailbox
