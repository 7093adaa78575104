import EtherCATMaster.Mailbox.SdoJournal
import EtherCATMaster.Mailbox.Recording

namespace EtherCATMaster.Mailbox

open EtherCATMaster.Framework

variable {σ : Type} {port : Port σ} {cfg : SlaveCfg}

/-- The number of data bytes in a segment, by its length and command, and the bytes. -/
def segmentSize (length : UInt16) (command : UInt8) : Nat :=
  let size : UInt16 := length-3
  if command &&& 0x01>0 ∧ size=7 then (size-((command &&& 0x0e) >>> 1).toUInt16).toNat
  else size.toNat

def segmentBytes (mbx : List UInt8) : List UInt8 :=
  bytesAt mbx 9 (segmentSize (sdoLength mbx) (sdoCommand mbx))

/-- The data bytes in an initial download request. -/
def downBytes (mbx : List UInt8) : List UInt8 :=
  if sdoCommand mbx &&& 0x02>0 then bytesAt mbx 12 (4-((sdoCommand mbx >>> 2) &&& 0x03).toNat)
  else bytesAt mbx 16 (sdoLength mbx-10).toNat

def downOffset (mbx : List UInt8) : Nat := if sdoCommand mbx &&& 0x02>0 then 12 else 16

def downData (mbx : List UInt8) : List UInt8 :=
  (mbx.drop (downOffset mbx)).take (downBytes mbx).length

def segmentData (mbx : List UInt8) : List UInt8 := (mbx.drop 9).take (segmentBytes mbx).length

def isSegmentAck (mbx : List UInt8) : Prop := isSdoResponse mbx ∧ sdoCommand mbx &&& 0xe0=0x20

def isDownloadAck (mbx : List UInt8) (target : UInt16 × UInt8) : Prop :=
  isSdoResponse mbx ∧ sdoTarget mbx=target ∧ sdoCommand mbx &&& 0xe0=0x60

def sentBytes (rounds : List Round) : List UInt8 :=
  (rounds.map fun round => segmentData round.frame).flatten

theorem bytesAt_length (mbx : List UInt8) (offset n : Nat) : (bytesAt mbx offset n).length=n := by
  rw [bytesAt,List.length_take,List.length_append,List.length_replicate]
  omega

theorem downData_eq {mbx part : List UInt8} (h : downBytes mbx=part)
    (hroom : downOffset mbx+part.length ≤ mbx.length) : downData mbx=part := by
  have hfield : bytesAt mbx (downOffset mbx) part.length=part := by
    rw [← h,downBytes,downOffset]
    split_ifs
    · rw [bytesAt_length]
    · rw [bytesAt_length]
  rw [downData,h,← bytesAt_of_front (List.prefix_refl mbx) hroom]
  exact hfield

theorem segmentData_eq {mbx part : List UInt8} (h : segmentBytes mbx=part)
    (hroom : 9+part.length ≤ mbx.length) : segmentData mbx=part := by
  rw [segmentData,h]
  rw [segmentBytes] at h
  rw [← bytesAt_of_front (List.prefix_refl mbx) hroom,← h,bytesAt_length]

theorem downOffset_bounds (mbx : List UInt8) : 12 ≤ downOffset mbx ∧ downOffset mbx ≤ 16 := by
  rw [downOffset]
  split_ifs <;> omega

theorem downData_length (mbx : List UInt8) : (downData mbx).length ≤ mbx.length-12 := by
  have hoffset := (downOffset_bounds mbx).1
  rw [downData,List.length_take,List.length_drop]
  omega

theorem content_ok {m : Nat} {mbx : List UInt8} {c c' : Client σ}
    (h : content m c=.ok (mbx,c')) : mbx=c.buffers m ∧ c'=c := by
  cases h
  exact ⟨rfl,rfl⟩

theorem filled_content {m : Nat} {bytes mbx : List UInt8} {u : Unit} {c c1 c2 : Client σ}
    (hfill : fillMbx m bytes c=.ok (u,c1)) (h : content m c1=.ok (mbx,c2)) :
    mbx=overwrite (c.buffers m) bytes := by
  cases hfill
  rw [(content_ok h).1]
  exact Function.update_self _ _ _

theorem filled_ready {m : Nat} {bytes : List UInt8} {cnt : UInt8} {u : Unit}
    {c c1 c2 : Client (σ × List (List UInt8))} (hcnt : nextMbxCnt cfg c=.ok (cnt,c1))
    (hfill : fillMbx m bytes c1=.ok (u,c2)) : taken c2=taken c := by
  cases hcnt
  cases hfill
  rfl

theorem noted_ok {α : Type} {round : Round} {x : MbxM σ (α × Journal)} {c c' : Client σ} {a : α}
    {j : Journal} (h : noted round x c=.ok ((a,j),c')) :
    ∃ j',x c=.ok ((a,j'),c') ∧ j=⟨round::j'.rounds,j'.exhausted⟩ := by
  obtain ⟨r,c1,hx,hr⟩ := bind_ok.mp h
  cases pure_ok.mp hr
  exact ⟨r.2,hx,rfl⟩

theorem segmentBytes_front {length : UInt16} {cnt command : UInt8} {part mbx : List UInt8}
    (h : sdoHeader length cnt command++part <+: mbx)
    (hsize : segmentSize length command=part.length) : segmentBytes mbx=part := by
  have hlen : (sdoHeader length cnt command).length=9 := rfl
  have hlength : sdoLength mbx=length :=
    (get16_of_front h (by rw [List.length_append]; omega)).trans (get16_le16 [] length _)
  have hcommand : sdoCommand mbx=command :=
    byteAt_of_front h (by rw [List.length_append]; omega)
  rw [segmentBytes,hlength,hcommand,hsize,
    bytesAt_of_front h (by rw [List.length_append]; omega),← hlen,List.drop_left]
  exact List.take_length

theorem downSegment_size {maxdata : Nat} {p : List UInt8} (toggle : Bool)
    (hmax : maxdata ≤ ecMaxMbx) :
    (downSegment maxdata p).size ≤ maxdata ∧
      segmentSize (downSegment maxdata p).length ((downSegment maxdata p).command+toggleBit toggle)=
        (p.take (downSegment maxdata p).size).length := by
  have hzero : (0x00 : UInt8)+toggleBit toggle=toggleBit toggle := by cases toggle <;> decide
  have hone : (0x01 : UInt8)+toggleBit toggle=toggleBit toggle+0x01 := by cases toggle <;> decide
  simp only [downSegment]
  by_cases hmore : p.length>maxdata
  · rw [if_pos hmore]
    refine ⟨le_refl _,?_⟩
    have htake : (p.take maxdata).length=maxdata := by
      rw [List.length_take]
      omega
    simp only [segmentSize,hzero,(segment_command toggle).2,false_and,if_false,htake]
    rw [Nat.add_comm maxdata 3]
    exact segment_size hmax
  · rw [if_neg hmore]
    have htake : (p.take p.length).length=p.length := by rw [List.take_length]
    by_cases hshort : p.length<7
    · rw [if_pos hshort]
      refine ⟨by simp only; omega,?_⟩
      simp only [htake]
      generalize p.length=n at hshort
      cases toggle <;> interval_cases n <;> decide
    · rw [if_neg hshort]
      refine ⟨by simp only; omega,?_⟩
      obtain ⟨-,hlast,hunused⟩ := last_command toggle
      simp only [segmentSize,hone,hlast,hunused,htake,true_and,UInt16.sub_zero,ite_self]
      rw [Nat.add_comm p.length 3]
      exact segment_size (by omega)

def RoundCarries (cfg : SlaveCfg) (maxdata : Nat) (p : List UInt8) (round : Round)
    (c c1 : Client (σ × List (List UInt8))) : Prop :=
  9+maxdata ≤ cfg.mbxL.toNat → 0 < round.sent →
    segmentData round.frame=p.take (downSegment maxdata p).size ∧ taken c1=taken c++[round.frame]

/-- The loop has no mailbox for its round, ends with it, or goes on behind it. -/
theorem writeRound_cases {index : UInt16} {subindex : UInt8} {maxdata fuel : Nat}
    {mbxIn : Option Nat} {toggle : Bool} {p : List UInt8} {wkc : Int}
    {c c' : Client (σ × List (List UInt8))} {r : Option Nat × Int} {j : Journal}
    (hr : sdoWriteSegmentsJ port.recording cfg index subindex maxdata (fuel+1) mbxIn
      (toggleBit toggle) p wkc c=.ok ((r,j),c')) :
    (r=(mbxIn,wkc) ∧ j=⟨[],true⟩ ∧ taken c'=taken c) ∨
      ∃ round c1,RoundCarries cfg maxdata p round c c1 ∧
        ((j=⟨[round],false⟩ ∧ taken c'=taken c1 ∧
            (0 < r.2 ↔ round.Answered ∧ isSegmentAck round.reply.data) ∧
            (0 < r.2 → (downSegment maxdata p).notLast=false)) ∨
          ((downSegment maxdata p).notLast=true ∧
            (round.Answered → isSegmentAck round.reply.data) ∧
            ∃ mbx wkc' j',(0 < wkc' ↔ round.Answered) ∧
              sdoWriteSegmentsJ port.recording cfg index subindex maxdata fuel mbx
                (toggleBit !toggle) (p.drop (downSegment maxdata p).size) wkc' c1=.ok ((r,j'),c') ∧
              j=⟨round::j'.rounds,j'.exhausted⟩)) := by
  rw [sdoWriteSegmentsJ] at hr
  obtain ⟨mbxOut,c1,hget,hr⟩ := bind_ok.mp hr
  have hdrawn : taken c1=taken c := getMbxM_none_taken _ _ _ hget
  cases mbxOut with
  | none =>
    cases pure_ok.mp hr
    exact .inl ⟨rfl,rfl,hdrawn⟩
  | some out =>
    right
    obtain ⟨_,c2,hclear,hr⟩ := bind_ok.mp hr
    obtain ⟨cnt,c3,hcnt,hr⟩ := bind_ok.mp hr
    obtain ⟨_,c4,hfill,hr⟩ := bind_ok.mp hr
    obtain ⟨mbx,c5,hcontent,hr⟩ := bind_ok.mp hr
    obtain ⟨w,c6,hsend,hr⟩ := bind_ok.mp hr
    have hfilled := filled_content hfill hcontent
    obtain ⟨hmbx,hsame⟩ := content_ok hcontent
    have hbefore : taken c4=taken c := by
      have hcleared : taken c2=taken c1 := by
        cases hclear
        rfl
      exact ((filled_ready hcnt hfill).trans hcleared).trans hdrawn
    have hcarries : ∀ (reply : Received) (c8 : Client (σ × List (List UInt8))),
        (0 < w → taken c8=taken c6) →
        RoundCarries cfg maxdata p ⟨mbx.take cfg.mbxL.toNat,w,reply⟩ c c8 := by
      intro reply c8 hkept hfit hw
      obtain ⟨hmax,htaken⟩ := mbxSend_taken hsend hw
      obtain ⟨hsize,hbytes⟩ := downSegment_size (p := p) toggle (show maxdata ≤ ecMaxMbx by omega)
      have hhead : (sdoHeader (downSegment maxdata p).length cnt
        ((downSegment maxdata p).command+toggleBit toggle)).length=9 := rfl
      have hfront := request_front (c3.buffers out) (show (sdoHeader
          (downSegment maxdata p).length cnt ((downSegment maxdata p).command+toggleBit toggle)++
            p.take (downSegment maxdata p).size).length ≤ cfg.mbxL.toNat by
        rw [List.length_append,List.length_take,hhead]
        omega)
      rw [← hfilled] at hfront
      have hroom := hfront.length_le
      rw [List.length_append,hhead] at hroom
      refine ⟨segmentData_eq (segmentBytes_front hfront hbytes) hroom,?_⟩
      rw [hkept hw,htaken,hsame,← hmbx,hbefore]
    rw [toggleBit_not] at hr
    by_cases hw : w>0
    · rw [if_pos hw] at hr
      obtain ⟨_,c7,hdrop,hr⟩ := bind_ok.mp hr
      obtain ⟨reply,c8,hreceive,hr⟩ := bind_ok.mp hr
      have hkept : taken c8=taken c6 := by
        have hdropped : taken c7=taken c6 := dropMbxIn_none_taken _ _ _ _ hdrop
        have hreceived : taken c8=taken c7 := mbxReceive_none_taken _ _ _ hreceive
        exact hreceived.trans hdropped
      refine ⟨⟨mbx.take cfg.mbxL.toNat,w,reply⟩,c8,hcarries reply c8 (fun _ => hkept),?_⟩
      by_cases hbad : reply.wkc>0 ∧
          ¬(isSdoResponse reply.data ∧ sdoCommand reply.data &&& 0xe0=0x20)
      · rw [if_pos hbad] at hr
        obtain ⟨_,c9,hreport,hr⟩ := bind_ok.mp hr
        have hreported : taken c9=taken c8 := by
          simp only [reportSdoReply] at hreport
          split_ifs at hreport <;> cases hreport <;> rfl
        cases pure_ok.mp hr
        refine .inl ⟨rfl,hreported,?_,fun h => absurd h (Int.lt_irrefl 0)⟩
        exact iff_of_false (Int.lt_irrefl 0) (fun h => hbad.2 h.2)
      · rw [if_neg hbad] at hr
        have hack : 0 < reply.wkc → isSegmentAck reply.data := by
          intro hreply
          by_contra hnot
          exact hbad ⟨hreply,hnot⟩
        by_cases hmore : (downSegment maxdata p).notLast=true
        · rw [if_pos hmore] at hr
          obtain ⟨j',hnext,hj⟩ := noted_ok hr
          refine .inr ⟨hmore,fun h => hack h.2,reply.mbx,reply.wkc,j',?_,hnext,hj⟩
          exact ⟨fun h => ⟨hw,h⟩,fun h => h.2⟩
        · rw [if_neg hmore] at hr
          cases pure_ok.mp hr
          refine .inl ⟨rfl,rfl,?_,fun _ => by simpa using hmore⟩
          exact ⟨fun h => ⟨⟨hw,h⟩,hack h⟩,fun h => h.1.2⟩
    · rw [if_neg hw] at hr
      have hunsent : ¬Round.Answered ⟨mbx.take cfg.mbxL.toNat,w,Received.none 0⟩ := fun h => hw h.1
      refine ⟨_,c6,hcarries (Received.none 0) c6 (fun h => absurd h hw),?_⟩
      by_cases hmore : (downSegment maxdata p).notLast=true
      · rw [if_pos hmore] at hr
        obtain ⟨j',hnext,hj⟩ := noted_ok hr
        exact .inr ⟨hmore,fun h => absurd h hunsent,mbxIn,w,j',iff_of_false hw hunsent,hnext,hj⟩
      · rw [if_neg hmore] at hr
        cases pure_ok.mp hr
        refine .inl ⟨rfl,rfl,?_,fun h => absurd h hw⟩
        exact iff_of_false hw (fun h => hunsent h.1)

theorem sdoWriteSegmentsJ_ends {index : UInt16} {subindex : UInt8} {maxdata : Nat} (fuel : Nat) :
    ∀ {mbxIn : Option Nat} {toggle : Bool} {p : List UInt8} {wkc : Int}
      {c c' : Client (σ × List (List UInt8))} {r : Option Nat × Int} {j : Journal},
    sdoWriteSegmentsJ port.recording cfg index subindex maxdata fuel mbxIn (toggleBit toggle) p wkc
      c=.ok ((r,j),c') →
    (0 < r.2 ↔ (j.rounds=[] → 0 < wkc) ∧ j.EndsWell isSegmentAck) := by
  induction fuel with
  | zero =>
    intro mbxIn toggle p wkc c c' r j hr
    exact absurd hr throw_ok
  | succ fuel ih =>
    intro mbxIn toggle p wkc c c' r j hr
    obtain ⟨rfl,rfl,-⟩|⟨round,c1,-,⟨rfl,-,hends,-⟩|⟨-,hack,mbx,wkc',j',hwkc,hnext,rfl⟩⟩ :=
      writeRound_cases hr
    · exact ⟨fun h => ⟨fun _ => h,Journal.endsWell_nil true _⟩,fun h => h.1 rfl⟩
    · have hlast := @Journal.endsWell_cons round ⟨[],false⟩ isSegmentAck
      rw [hends,hlast]
      refine ⟨fun h => ⟨fun hnil => absurd hnil (List.cons_ne_nil _ _),fun _ => h,
        Journal.endsWell_nil false _⟩,fun h => h.2.1 rfl⟩
    · rw [ih hnext,Journal.endsWell_cons,hwkc]
      constructor
      · rintro ⟨hfirst,hrest⟩
        refine ⟨fun hnil => absurd hnil (List.cons_ne_nil _ _),fun hnil => ?_,hrest⟩
        exact ⟨hfirst hnil,hack (hfirst hnil)⟩
      · rintro ⟨-,hfirst,hrest⟩
        exact ⟨fun hnil => (hfirst hnil).1,hrest⟩

/-- If every round went through, what the slave has taken and what is left make up `p`, and
something is left only if the pool had no mailbox for it. -/
theorem sdoWriteSegmentsJ_carried {index : UInt16} {subindex : UInt8} {maxdata : Nat}
    (hfit : 9+maxdata ≤ cfg.mbxL.toNat) (fuel : Nat) :
    ∀ {mbxIn : Option Nat} {toggle : Bool} {p : List UInt8} {wkc : Int}
      {c c' : Client (σ × List (List UInt8))} {r : Option Nat × Int} {j : Journal},
    sdoWriteSegmentsJ port.recording cfg index subindex maxdata fuel mbxIn (toggleBit toggle) p wkc
      c=.ok ((r,j),c') → p≠[] → 0 < r.2 → (∀ round ∈ j.rounds,round.Answered) →
    ∃ rest,sentBytes j.rounds++rest=p ∧ (rest=[] ↔ j.exhausted=false) ∧
      (∀ round ∈ j.rounds,isSegmentAck round.reply.data) ∧
      taken c'=taken c++j.rounds.map Round.frame := by
  induction fuel with
  | zero =>
    intro mbxIn toggle p wkc c c' r j hr
    exact absurd hr throw_ok
  | succ fuel ih =>
    intro mbxIn toggle p wkc c c' r j hr hne hpos hall
    obtain ⟨-,rfl,hkept⟩|⟨round,c1,hcarries,⟨rfl,hkept,hends,hlast⟩|
      ⟨hmore,hack,mbx,wkc',j',-,hnext,rfl⟩⟩ := writeRound_cases hr
    · refine ⟨p,rfl,iff_of_false hne (by decide),fun round h => absurd h List.not_mem_nil,?_⟩
      rw [hkept]
      exact (List.append_nil _).symm
    · obtain ⟨hanswered,hack⟩ := hends.mp hpos
      obtain ⟨hbytes,htaken⟩ := hcarries hfit hanswered.1
      have hwhole : p.take (downSegment maxdata p).size=p := by
        have hnot := hlast hpos
        simp only [downSegment] at hnot ⊢
        split_ifs at hnot ⊢
        · exact List.take_length
        · exact List.take_length
      refine ⟨[],?_,iff_of_true rfl rfl,?_,?_⟩
      · simp only [sentBytes,List.map_cons,List.map_nil,List.flatten_cons,List.flatten_nil,
          List.append_nil,hbytes,hwhole]
      · intro x hx
        rw [List.mem_singleton.mp hx]
        exact hack
      · rw [hkept,htaken]
        rfl
    · have hround := hall round List.mem_cons_self
      obtain ⟨hbytes,htaken⟩ := hcarries hfit hround.1
      have hleft : p.drop (downSegment maxdata p).size≠[] := by
        have hlong : p.length>maxdata := by
          by_contra hle
          simp only [downSegment,if_neg hle] at hmore
          split_ifs at hmore
        simp only [downSegment,if_pos hlong]
        rw [Ne,List.drop_eq_nil_iff]
        omega
      obtain ⟨rest,hsplit,hrest,hacks,hframes⟩ := ih hnext hleft hpos
        (fun x hx => hall x (List.mem_cons_of_mem round hx))
      refine ⟨rest,?_,hrest,?_,?_⟩
      · rw [← List.take_append_drop (downSegment maxdata p).size p,← hsplit,← hbytes]
        simp only [sentBytes,List.map_cons,List.flatten_cons,List.append_assoc]
      · intro x hx
        rcases List.mem_cons.mp hx with rfl|hx
        · exact hack hround
        · exact hacks x hx
      · rw [hframes,htaken,List.append_assoc]
        rfl

theorem downExp_command {n : Nat} (hpos : 0 < n) (hfour : n ≤ 4) :
    (ectSdoDownExp ||| (UInt8.ofNat ((4-n) <<< 2) &&& 0x0c)) &&& 0x02>0 ∧
      4-(((ectSdoDownExp ||| (UInt8.ofNat ((4-n) <<< 2) &&& 0x0c)) >>> 2) &&& 0x03).toNat=n := by
  interval_cases n <;> decide

theorem downBytes_expedited {cnt subindex : UInt8} {index : UInt16} {p mbx : List UInt8}
    (h : sdoFrame 10 cnt (ectSdoDownExp ||| (UInt8.ofNat ((4-p.length) <<< 2) &&& 0x0c)) index
      subindex p <+: mbx) (hfour : p.length ≤ 4) (hne : p≠[]) :
    downBytes mbx=p ∧ downOffset mbx=12 := by
  have hlen := sdoFrame_length 10 cnt
    (ectSdoDownExp ||| (UInt8.ofNat ((4-p.length) <<< 2) &&& 0x0c)) index subindex p
  have hcommand : sdoCommand mbx=ectSdoDownExp ||| (UInt8.ofNat ((4-p.length) <<< 2) &&& 0x0c) :=
    byteAt_of_front h (by omega)
  obtain ⟨hexp,hn⟩ := downExp_command (List.length_pos_iff.mpr hne) hfour
  refine ⟨?_,by rw [downOffset,hcommand,if_pos hexp]⟩
  rw [downBytes,hcommand,if_pos hexp,hn,bytesAt_of_front h (by omega)]
  exact List.take_length

theorem downBytes_normal {cnt command subindex : UInt8} {index : UInt16} {size : UInt32}
    {part mbx : List UInt8} {n : Nat} (hn : part.length=n) (hmax : n ≤ ecMaxMbx)
    (hcommand : command=ectSdoDownInit ∨ command=ectSdoDownInitCa)
    (h : sdoFrame (UInt16.ofNat (0x0a+n)) cnt command index subindex
      (le32 size++part) <+: mbx) : downBytes mbx=part := by
  have hlen := sdoFrame_length (UInt16.ofNat (0x0a+n)) cnt command index subindex (le32 size++part)
  rw [List.length_append,le32_length] at hlen
  have hfound : sdoCommand mbx=command := byteAt_of_front h (by omega)
  have hlength : sdoLength mbx=UInt16.ofNat (10+n) :=
    (get16_of_front h (by omega)).trans (get16_le16 [] (UInt16.ofNat (10+n)) _)
  have hnot : ¬(command &&& 0x02>0) := by
    rcases hcommand with rfl|rfl <;> decide
  rw [downBytes,hfound,if_neg hnot,hlength,initial_size hmax,bytesAt_of_front h (by omega),← hn]
  exact List.take_length

theorem sendDown_ok {mbxIn : Option Nat} {out : Nat} {request : List UInt8 → DownRequest}
    {r : DownRequest} {c c' : Client (σ × List (List UInt8))}
    (hr : sendDown port.recording cfg mbxIn out request c=.ok (.inr r,c')) :
    r=request ((c.buffers out).take cfg.mbxL.toNat) ∧ cfg.mbxL.toNat ≤ ecMaxMbx ∧
      taken c'=taken c++[(c.buffers out).take cfg.mbxL.toNat] := by
  obtain ⟨mbx,c1,hcontent,hr⟩ := bind_ok.mp hr
  obtain ⟨hmbx,hsame⟩ := content_ok hcontent
  obtain ⟨wkc,c2,hsend,hr⟩ := bind_ok.mp hr
  obtain ⟨_,c3,hdrop,hr⟩ := bind_ok.mp hr
  rw [hsame] at hsend
  have hfinal := congrArg Prod.fst (pure_ok.mp hr)
  have hlast : c'=c3 := congrArg Prod.snd (pure_ok.mp hr)
  by_cases hw : wkc>0
  · obtain ⟨hmax,htaken⟩ := mbxSend_taken hsend hw
    rw [if_pos hw,hmbx] at hfinal
    have hkept : taken c3=taken c2 := dropMbxIn_none_taken _ _ _ _ hdrop
    rw [hlast,hkept]
    exact ⟨Sum.inr.inj hfinal,hmax,htaken⟩
  · rw [if_neg hw] at hfinal
    cases hfinal

/-- The data of an expedited request end in the mailbox of the slave. -/
def ExpeditedFits (cfg : SlaveCfg) (ca : Bool) (p : List UInt8) : Prop :=
  p≠[] → p.length ≤ 4 ∧ ca=false → 12+p.length ≤ cfg.mbxL.toNat

/-- What goes out with the initial request, and what is left for segments. -/
structure Begun (cfg : SlaveCfg) (ca : Bool) (p : List UInt8) (request : DownRequest) : Prop where
  room : request.frame.length ≤ cfg.mbxL.toNat
  bytes : p≠[] → ExpeditedFits cfg ca p → downData request.frame++request.rest=p
  single : request.notLast=false →
    request.rest=[] ∧ ((p.length ≤ 4 ∧ ca=false) ∨ p.length+16 ≤ cfg.mbxL.toNat)
  more : request.notLast=true → p≠[] ∧ request.rest≠[] ∧ ¬(p.length ≤ 4 ∧ ca=false) ∧
    downBytes request.frame++request.rest=p ∧ 9+(request.maxdata+7)=cfg.mbxL.toNat

theorem sdoWriteSent_begun {index : UInt16} {subindex : UInt8} {ca : Bool} {p : List UInt8}
    {request : DownRequest} {c c' : Client (σ × List (List UInt8))}
    (hr : sdoWriteSent port.recording cfg index subindex ca p c=.ok (.inr request,c')) :
    Begun cfg ca p request ∧ taken c'=taken c++[request.frame] := by
  obtain ⟨stale,c1,hstale,hr⟩ := bind_ok.mp hr
  obtain ⟨mbxOut,c2,hget,hr⟩ := bind_ok.mp hr
  have hdrawn : taken c2=taken c := by
    have h1 : taken c1=taken c := mbxReceive_none_taken _ _ _ hstale
    have h2 : taken c2=taken c1 := getMbxM_none_taken _ _ _ hget
    exact h2.trans h1
  cases mbxOut with
  | none => cases pure_ok.mp hr
  | some out =>
    obtain ⟨_,c3,hclear,hr⟩ := bind_ok.mp hr
    have hcleared : taken c3=taken c := by
      cases hclear
      exact hdrawn
    by_cases hsmall : p.length ≤ 4 ∧ ca=false
    · rw [if_pos hsmall] at hr
      obtain ⟨cnt,c4,hcnt,hr⟩ := bind_ok.mp hr
      obtain ⟨_,c5,hfill,hr⟩ := bind_ok.mp hr
      have hready := filled_ready hcnt hfill
      obtain ⟨rfl,hmax,htaken⟩ := sendDown_ok hr
      have hfilled := filled_content hfill rfl
      refine ⟨⟨List.length_take_le _ _,?_,fun _ => ⟨rfl,.inl hsmall⟩,
        fun h => absurd h Bool.false_ne_true⟩,by rw [htaken,hready,hcleared]⟩
      intro hne hfits
      have hfront := request_front (c4.buffers out) (show (sdoFrame 10 cnt (ectSdoDownExp |||
          (UInt8.ofNat ((4-p.length) <<< 2) &&& 0x0c)) index subindex p).length ≤
            cfg.mbxL.toNat by
        rw [sdoFrame_length]
        exact hfits hne hsmall)
      rw [← hfilled] at hfront
      obtain ⟨hbytes,hoffset⟩ := downBytes_expedited hfront hsmall.1 hne
      have hroom := hfront.length_le
      rw [sdoFrame_length] at hroom
      rw [downData_eq hbytes (by rw [hoffset]; exact hroom),List.append_nil]
    · rw [if_neg hsmall] at hr
      obtain ⟨cnt,c4,hcnt,hr⟩ := bind_ok.mp hr
      have hcommand : (if ca=true then ectSdoDownInitCa else ectSdoDownInit)=ectSdoDownInit ∨
          (if ca=true then ectSdoDownInitCa else ectSdoDownInit)=ectSdoDownInitCa := by
        cases ca
        · exact .inl rfl
        · exact .inr rfl
      -- the first `n` bytes behind the header, in a mailbox with room for them
      have hpart : ∀ {n : Nat} {part old : List UInt8} {size : UInt32},part.length=n →
          16+n ≤ cfg.mbxL.toNat → cfg.mbxL.toNat ≤ ecMaxMbx → ∀ frame,
          frame=(overwrite old (sdoFrame (UInt16.ofNat (0x0a+n)) cnt
            (if ca=true then ectSdoDownInitCa else ectSdoDownInit) index (requestedSub ca subindex)
            (le32 size++part))).take cfg.mbxL.toNat →
          downBytes frame=part ∧ downData frame=part := by
        intro n part old size hn hfit hmax frame hframe
        have hlen := sdoFrame_length (UInt16.ofNat (0x0a+n)) cnt
          (if ca=true then ectSdoDownInitCa else ectSdoDownInit) index (requestedSub ca subindex)
          (le32 size++part)
        rw [List.length_append,le32_length] at hlen
        have hfront := request_front old (show (sdoFrame (UInt16.ofNat (0x0a+n)) cnt
          (if ca=true then ectSdoDownInitCa else ectSdoDownInit) index (requestedSub ca subindex)
          (le32 size++part)).length ≤ cfg.mbxL.toNat by omega)
        rw [← hframe] at hfront
        have hroom := hfront.length_le
        have hoffset := (downOffset_bounds frame).2
        have hbytes := downBytes_normal hn (by omega) hcommand hfront
        exact ⟨hbytes,downData_eq hbytes (by omega)⟩
      by_cases hlong : (p.length : Int) > (cfg.mbxL.toNat : Int)-0x10
      · simp only [if_pos hlong] at hr
        by_cases hneg : (cfg.mbxL.toNat : Int)-0x10<0
        · rw [if_pos hneg] at hr
          exact absurd hr throw_ok
        · rw [if_neg hneg] at hr
          obtain ⟨_,c5,hfill,hr⟩ := bind_ok.mp hr
          have hready := filled_ready hcnt hfill
          obtain ⟨rfl,hmax,htaken⟩ := sendDown_ok hr
          have hfilled := filled_content hfill rfl
          have htake : (p.take ((cfg.mbxL.toNat : Int)-0x10).toNat).length=
              ((cfg.mbxL.toNat : Int)-0x10).toNat := by
            rw [List.length_take]
            omega
          obtain ⟨hbytes,hdata⟩ := hpart htake (by omega) hmax _
            (congrArg (List.take cfg.mbxL.toNat) hfilled)
          have hne : p≠[] := by
            rintro rfl
            rw [List.length_nil] at hlong
            omega
          refine ⟨⟨List.length_take_le _ _,fun _ _ => ?_,by simp,fun _ => ⟨hne,?_,hsmall,?_,?_⟩⟩,
            by rw [htaken,hready,hcleared]⟩
          · rw [hdata]
            exact List.take_append_drop _ _
          · rw [Ne,List.drop_eq_nil_iff]
            omega
          · rw [hbytes]
            exact List.take_append_drop _ _
          · simp only
            omega
      · simp only [if_neg hlong] at hr
        obtain ⟨_,c5,hfill,hr⟩ := bind_ok.mp hr
        have hready := filled_ready hcnt hfill
        obtain ⟨rfl,hmax,htaken⟩ := sendDown_ok hr
        have hfilled := filled_content hfill rfl
        obtain ⟨-,hdata⟩ := hpart rfl (by omega) hmax _
          (congrArg (List.take cfg.mbxL.toNat) hfilled)
        refine ⟨⟨List.length_take_le _ _,fun _ _ => ?_,fun _ => ⟨rfl,.inr (by omega)⟩,
          fun h => absurd h Bool.false_ne_true⟩,by rw [htaken,hready,hcleared]⟩
        rw [hdata,List.append_nil]

/-- The initial reply is taken for the answer to the request, and the last exchange, if segments
followed, went well. -/
def DownloadJournal.Reported (j : DownloadJournal) : Prop :=
  0 < j.reply.wkc ∧ isSdoResponse j.reply.data ∧ sdoTarget j.reply.data=sdoTarget j.kept ∧
    j.segments.EndsWell isSegmentAck

/-- All of `p` is in the frames the slave has taken, and each was acknowledged. -/
def DownloadJournal.Complete (j : DownloadJournal) (target : UInt16 × UInt8) (p : List UInt8) :
    Prop :=
  (p≠[] → downData j.frame++sentBytes j.segments.rounds=p) ∧
    0 < j.reply.wkc ∧ isDownloadAck j.reply.data target ∧
    ∀ round ∈ j.segments.rounds,round.Answered ∧ isSegmentAck round.reply.data

/-- No exchange before the last one has failed: the mailbox of the request still named the object
and the reply acknowledged it, the pool had a mailbox for each segment, and each was taken and
answered. -/
def DownloadJournal.Unbroken (j : DownloadJournal) (target : UInt16 × UInt8) : Prop :=
  sdoTarget j.kept=target ∧ sdoCommand j.reply.data &&& 0xe0=0x60 ∧ j.segments.exhausted=false ∧
    ∀ round ∈ j.segments.rounds,round.Answered

/-- The frames of a download, in the order they are sent. -/
def DownloadJournal.frames (j : DownloadJournal) : List (List UInt8) :=
  j.frame::j.segments.rounds.map Round.frame

section Await

variable {fuel : Nat} {index : UInt16} {subindex : UInt8} {request : DownRequest} {r : Int}
  {j : DownloadJournal} {c c' : Client (σ × List (List UInt8))}

theorem sdoWriteAwaitJ_reported
    (hr : sdoWriteAwaitJ port.recording cfg fuel index subindex request c=.ok ((r,j),c')) :
    j.frame=request.frame ∧ (0 < r ↔ j.Reported) := by
  obtain ⟨reply,c1,-,hr⟩ := bind_ok.mp hr
  by_cases hw : reply.wkc>0
  · rw [if_pos hw] at hr
    obtain ⟨kept,c2,-,hr⟩ := bind_ok.mp hr
    by_cases hacc : isSdoResponse reply.data ∧ sdoIndex reply.data=sdoIndex kept ∧
        sdoSubIndex reply.data=sdoSubIndex kept
    · rw [if_pos hacc] at hr
      have htarget : sdoTarget reply.data=sdoTarget kept := Prod.ext hacc.2.1 hacc.2.2
      by_cases hmore : request.notLast=true
      · rw [if_pos hmore] at hr
        obtain ⟨s,c3,hsegments,hr⟩ := bind_ok.mp hr
        obtain ⟨_,c4,-,hr⟩ := bind_ok.mp hr
        cases pure_ok.mp hr
        have hzero : (0 : UInt8)=toggleBit false := rfl
        rw [hzero] at hsegments
        refine ⟨rfl,(sdoWriteSegmentsJ_ends fuel hsegments).trans ?_⟩
        exact ⟨fun h => ⟨hw,hacc.1,htarget,h.2⟩,fun h => ⟨fun _ => hw,h.2.2.2⟩⟩
      · rw [if_neg hmore] at hr
        obtain ⟨_,c3,-,hr⟩ := bind_ok.mp hr
        cases pure_ok.mp hr
        exact ⟨rfl,iff_of_true hw ⟨hw,hacc.1,htarget,Journal.endsWell_nil false _⟩⟩
    · rw [if_neg hacc] at hr
      obtain ⟨_,c3,-,hr⟩ := bind_ok.mp hr
      obtain ⟨_,c4,-,hr⟩ := bind_ok.mp hr
      cases pure_ok.mp hr
      refine ⟨rfl,iff_of_false (Int.lt_irrefl 0) (fun h => hacc ?_)⟩
      exact ⟨h.2.1,congrArg Prod.fst h.2.2.1,congrArg Prod.snd h.2.2.1⟩
  · rw [if_neg hw] at hr
    obtain ⟨_,c2,-,hr⟩ := bind_ok.mp hr
    cases pure_ok.mp hr
    exact ⟨rfl,iff_of_false hw (fun h => hw h.1)⟩

/-- What becomes of the bytes behind the initial request, if every round went through. -/
theorem sdoWriteAwaitJ_carried {ca : Bool} {p : List UInt8} (hbegun : Begun cfg ca p request)
    (hr : sdoWriteAwaitJ port.recording cfg fuel index subindex request c=.ok ((r,j),c'))
    (hpos : 0 < r) (hall : ∀ round ∈ j.segments.rounds,round.Answered) :
    ∃ rest,sentBytes j.segments.rounds++rest=request.rest ∧
      (rest=[] ↔ j.segments.exhausted=false) ∧
      (∀ round ∈ j.segments.rounds,isSegmentAck round.reply.data) ∧
      taken c'=taken c++j.segments.rounds.map Round.frame := by
  obtain ⟨reply,c1,hreceive,hr⟩ := bind_ok.mp hr
  have hone : taken c1=taken c := mbxReceive_none_taken _ _ _ hreceive
  by_cases hw : reply.wkc>0
  · rw [if_pos hw] at hr
    obtain ⟨kept,c2,hpeek,hr⟩ := bind_ok.mp hr
    have htwo : taken c2=taken c := by
      cases hpeek
      exact (taken_interfere c1).trans hone
    split_ifs at hr with hacc hmore
    · obtain ⟨s,c3,hsegments,hr⟩ := bind_ok.mp hr
      obtain ⟨_,c4,hdrop,hr⟩ := bind_ok.mp hr
      have hfour : taken c4=taken c3 := dropMbxIn_none_taken _ _ _ _ hdrop
      cases pure_ok.mp hr
      have hzero : (0 : UInt8)=toggleBit false := rfl
      rw [hzero] at hsegments
      obtain ⟨-,hleft,-,-,hroom⟩ := hbegun.more hmore
      obtain ⟨rest,hsplit,hrest,hacks,hframes⟩ :=
        sdoWriteSegmentsJ_carried hroom.le fuel hsegments hleft hpos hall
      exact ⟨rest,hsplit,hrest,hacks,by rw [hfour,hframes,htwo]⟩
    · obtain ⟨_,c3,hdrop,hr⟩ := bind_ok.mp hr
      have hthree : taken c3=taken c2 := dropMbxIn_none_taken _ _ _ _ hdrop
      cases pure_ok.mp hr
      refine ⟨[],?_,iff_of_true rfl rfl,fun round h => absurd h List.not_mem_nil,?_⟩
      · rw [(hbegun.single (by simpa using hmore)).1]
        rfl
      · rw [hthree,htwo]
        exact (List.append_nil _).symm
    · obtain ⟨_,c3,-,hr⟩ := bind_ok.mp hr
      obtain ⟨_,c4,-,hr⟩ := bind_ok.mp hr
      cases pure_ok.mp hr
      exact absurd hpos (Int.lt_irrefl 0)
  · rw [if_neg hw] at hr
    obtain ⟨_,c2,-,hr⟩ := bind_ok.mp hr
    cases pure_ok.mp hr
    exact absurd hpos hw

/-- A download whose success is reported is complete exactly if it went on unbroken and the slave's
mailbox takes the data of an expedited request. -/
theorem sdoWriteAwaitJ_complete {ca : Bool} {p : List UInt8} (target : UInt16 × UInt8)
    (hbegun : Begun cfg ca p request)
    (hr : sdoWriteAwaitJ port.recording cfg fuel index subindex request c=.ok ((r,j),c'))
    (hpos : 0 < r) :
    (j.Complete target p ∧ taken c'=taken c++j.segments.rounds.map Round.frame) ↔
      j.Unbroken target ∧ ExpeditedFits cfg ca p := by
  obtain ⟨hframe,hreported⟩ := sdoWriteAwaitJ_reported hr
  obtain ⟨hw,hresponse,hsame,-⟩ := hreported.mp hpos
  constructor
  · rintro ⟨⟨hbytes,-,hack,hall⟩,-⟩
    have hanswered : ∀ round ∈ j.segments.rounds,round.Answered := fun x hx => (hall x hx).1
    obtain ⟨rest,hsplit,hrest,-,-⟩ := sdoWriteAwaitJ_carried hbegun hr hpos hanswered
    refine ⟨⟨hsame.symm.trans hack.2.1,hack.2.2,?_,hanswered⟩,?_⟩
    · -- what the pool had no mailbox for is missing
      apply hrest.mp
      cases hlast : request.notLast with
      | false =>
        rw [(hbegun.single hlast).1] at hsplit
        exact (List.append_eq_nil_iff.mp hsplit).2
      | true =>
        obtain ⟨hne,-,hbig,-,-⟩ := hbegun.more hlast
        have hbegan := hbegun.bytes hne (fun _ hsmall => absurd hsmall hbig)
        have hsent := hbytes hne
        rw [hframe,← hbegan,← hsplit] at hsent
        exact List.self_eq_append_right.mp (List.append_cancel_left hsent)
    · intro hne hsmall
      have hone : request.rest=[] := by
        cases hlast : request.notLast with
        | false => exact (hbegun.single hlast).1
        | true => exact absurd hsmall (hbegun.more hlast).2.2.1
      rw [hone] at hsplit
      have hsent := hbytes hne
      rw [(List.append_eq_nil_iff.mp hsplit).1,List.append_nil,hframe] at hsent
      have hlength := downData_length request.frame
      have hroom := hbegun.room
      have hpositive := List.length_pos_iff.mpr hne
      rw [hsent] at hlength
      omega
  · rintro ⟨⟨hkept,hcommand,hfree,hanswered⟩,hfits⟩
    obtain ⟨rest,hsplit,hrest,hacks,htaken⟩ := sdoWriteAwaitJ_carried hbegun hr hpos hanswered
    refine ⟨⟨fun hne => ?_,hw,⟨hresponse,hsame.trans hkept,hcommand⟩,
      fun x hx => ⟨hanswered x hx,hacks x hx⟩⟩,htaken⟩
    rw [hrest.mpr hfree,List.append_nil] at hsplit
    rw [hframe,hsplit]
    exact hbegun.bytes hne hfits

end Await

end EtherCATMaster.Mailbox
