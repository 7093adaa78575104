import EtherCATMaster.Mailbox.SdoDownload
import EtherCATMaster.Mailbox.SdoUpload

namespace EtherCATMaster.Mailbox

open EtherCATMaster.Framework

variable {σ : Type} {port : Port σ} {cfg : SlaveCfg}

section Sent

variable {α β : Type} (wkc : α → Int) (refused : Int → α)
  {request : Nat → Option Nat → MbxM σ (α ⊕ β)}

/-- Where the pool has no mailbox left for the request, the read before has not succeeded. -/
def RefusedUnread (port : Port σ) (cfg : SlaveCfg) (c : Client σ) : Prop :=
  ∀ stale c1 c2,mbxReceive port cfg c=.ok (stale,c1) → getMbxM port c1=.ok (none,c2) →
    stale.wkc ≤ 0

/-- A call that ends before its request is sent reports success if it found no mailbox for it
although a read has succeeded, and else never. -/
theorem sent_iff_refused (hwkc : ∀ w,wkc (refused w)=w) {c c' : Client σ} {s : α ⊕ β}
    (hreq : ∀ out mbxIn c c' a,request out mbxIn c=.ok (.inl a,c') → ¬0 < wkc a)
    (hr : sdoService port cfg (fun w => .inl (refused w)) request c=.ok (s,c')) :
    RefusedUnread port cfg c ↔ ∀ a,s=.inl a → ¬0 < wkc a := by
  obtain ⟨stale,c1,hstale,hr⟩ := bind_ok.mp hr
  obtain ⟨mbxOut,c2,hget,hr⟩ := bind_ok.mp hr
  cases mbxOut with
  | none =>
    cases pure_ok.mp hr
    constructor
    · intro hfree a ha
      cases ha
      rw [hwkc]
      exact Int.not_lt.mpr (hfree stale c1 c' hstale hget)
    · intro hnot stale' c1' c2' hstale' _
      cases hstale.symm.trans hstale'
      have hresult := hnot _ rfl
      rw [hwkc] at hresult
      exact Int.not_lt.mp hresult
  | some out =>
    constructor
    · rintro - a rfl
      exact hreq out stale.mbx c2 c' a hr
    · intro _ stale' c1' c2' hstale' hget'
      cases hstale.symm.trans hstale'
      cases hget.symm.trans hget'

theorem sendDown_inl {mbxIn : Option Nat} {out : Nat} {request : List UInt8 → DownRequest}
    {wkc : Int} {c c' : Client σ} (hr : sendDown port cfg mbxIn out request c=.ok (.inl wkc,c')) :
    ¬0 < wkc := by
  obtain ⟨mbx,c1,_,hr⟩ := bind_ok.mp hr
  obtain ⟨w,c2,_,hr⟩ := bind_ok.mp hr
  obtain ⟨_,c3,_,hr⟩ := bind_ok.mp hr
  have hfinal := congrArg Prod.fst (pure_ok.mp hr)
  by_cases hw : w>0
  · rw [if_pos hw] at hfinal
    cases hfinal
  · rw [if_neg hw] at hfinal
    cases hfinal
    exact hw

theorem sdoWriteSent_iff_refused {index : UInt16} {subindex : UInt8} {ca : Bool} {p : List UInt8}
    {s : Int ⊕ DownRequest} {c c' : Client σ}
    (hr : sdoWriteSent port cfg index subindex ca p c=.ok (s,c')) :
    RefusedUnread port cfg c ↔ ∀ wkc,s=.inl wkc → ¬0 < wkc := by
  refine sent_iff_refused id id (fun _ => rfl) ?_ hr
  intro out mbxIn c c' a hr
  obtain ⟨_,c1,_,hr⟩ := bind_ok.mp hr
  by_cases hsmall : p.length ≤ 4 ∧ ca=false
  · rw [if_pos hsmall] at hr
    obtain ⟨cnt,c2,_,hr⟩ := bind_ok.mp hr
    obtain ⟨_,c3,_,hr⟩ := bind_ok.mp hr
    exact sendDown_inl hr
  · rw [if_neg hsmall] at hr
    obtain ⟨cnt,c2,_,hr⟩ := bind_ok.mp hr
    by_cases hlong : (p.length : Int) > (cfg.mbxL.toNat : Int)-0x10
    · simp only [if_pos hlong] at hr
      by_cases hneg : (cfg.mbxL.toNat : Int)-0x10<0
      · rw [if_pos hneg] at hr
        exact absurd hr throw_ok
      · rw [if_neg hneg] at hr
        obtain ⟨_,c3,_,hr⟩ := bind_ok.mp hr
        exact sendDown_inl hr
    · simp only [if_neg hlong] at hr
      obtain ⟨_,c3,_,hr⟩ := bind_ok.mp hr
      exact sendDown_inl hr

theorem sdoReadSent_iff_refused {index : UInt16} {subindex : UInt8} {ca : Bool} {psize : Int}
    {s : SdoRead ⊕ Nat} {c c' : Client σ}
    (hr : sdoReadSent port cfg index subindex ca psize c=.ok (s,c')) :
    RefusedUnread port cfg c ↔ ∀ r,s=.inl r → ¬0 < r.wkc := by
  refine sent_iff_refused SdoRead.wkc (fun w => ⟨w,psize,[]⟩) (fun _ => rfl) ?_ hr
  intro out mbxIn c c' a hr
  obtain ⟨_,c1,_,hr⟩ := bind_ok.mp hr
  obtain ⟨cnt,c2,_,hr⟩ := bind_ok.mp hr
  obtain ⟨_,c3,_,hr⟩ := bind_ok.mp hr
  obtain ⟨w,c4,_,hr⟩ := bind_ok.mp hr
  obtain ⟨_,c5,_,hr⟩ := bind_ok.mp hr
  have hfinal := congrArg Prod.fst (pure_ok.mp hr)
  by_cases hw : w>0
  · rw [if_pos hw] at hfinal
    cases hfinal
  · rw [if_neg hw] at hfinal
    cases hfinal
    exact hw

end Sent

def isUpSegment (mbx : List UInt8) : Prop := isSdoResponse mbx ∧ sdoCommand mbx &&& 0xe0=0

instance isUpSegment.decidable (mbx : List UInt8) : Decidable (isUpSegment mbx) :=
  inferInstanceAs (Decidable (_ ∧ _))

/-- The bytes that a round brings, and how many they are by the header of its reply. -/
def received (round : Round) : List UInt8 :=
  if 0 < round.reply.wkc then segmentBytes round.reply.data else []

def announced (round : Round) : Nat :=
  if 0 < round.reply.wkc then segmentSize (sdoLength round.reply.data) (sdoCommand round.reply.data)
  else 0

def gathered (rounds : List Round) : List UInt8 := (rounds.map received).flatten

theorem gathered_length (rounds : List Round) :
    (gathered rounds).length=(rounds.map announced).sum := by
  have hround : ∀ round,(received round).length=announced round := by
    intro round
    rw [received,announced]
    split_ifs
    · exact bytesAt_length _ _ _
    · rfl
  rw [gathered,List.length_flatten,List.map_map]
  exact congrArg List.sum (List.map_congr_left (fun round _ => hround round))

/-- The size of the object by the initial reply, and the bytes the slave has handed over. -/
def upSize (mbx : List UInt8) : Nat :=
  if sdoCommand mbx &&& 0x02>0 then 4-((sdoCommand mbx >>> 2) &&& 0x03).toNat
  else (sdoLdata mbx).toNat

def upBytes (mbx : List UInt8) (rounds : List Round) : List UInt8 :=
  if sdoCommand mbx &&& 0x02>0 then bytesAt mbx 12 (upSize mbx)
  else bytesAt mbx 16 (min (sdoLength mbx-10).toNat (upSize mbx))++gathered rounds

def isSegmented (mbx : List UInt8) : Prop :=
  ¬(sdoCommand mbx &&& 0x02>0) ∧ (sdoLength mbx-10).toNat < upSize mbx

def fitsBuffer (psize : Int) (mbx : List UInt8) : Prop :=
  if sdoCommand mbx &&& 0x02>0 then (upSize mbx : Int) ≤ psize else asInt32 (sdoLdata mbx) ≤ psize

/-- The initial reply is taken for the answer to the request and announces no more than the buffer
holds, and the last exchange, if segments followed, went well. -/
def UploadJournal.Reported (j : UploadJournal) (psize : Int) : Prop :=
  0 < j.reply.wkc ∧ isSdoResponse j.reply.data ∧ sdoIndex j.reply.data=sdoIndex j.kept ∧
    fitsBuffer psize j.reply.data ∧ j.segments.EndsWell isUpSegment

/-- The mailbox of the request still named the object, and the segments that came have together with
the initial reply as many bytes as it announced. -/
def UploadJournal.Unbroken (j : UploadJournal) (index : UInt16) : Prop :=
  sdoIndex j.kept=index ∧
    (isSegmented j.reply.data →
      (sdoLength j.reply.data-10).toNat+(j.segments.rounds.map announced).sum=upSize j.reply.data)

/-- The whole object is in the buffer, and its size is the one returned. -/
def UploadJournal.Complete (j : UploadJournal) (index : UInt16) (r : SdoRead) : Prop :=
  isSdoResponse j.reply.data ∧ sdoIndex j.reply.data=index ∧ r.psize=upSize j.reply.data ∧
    r.data=upBytes j.reply.data j.segments.rounds ∧ r.data.length=upSize j.reply.data

theorem segmentSize_last {length : UInt16} {command : UInt8} (h : command &&& 0x01>0) :
    segmentSize length command=(if length-(3 : UInt16)=(7 : UInt16) then
      length-(3 : UInt16)-((command &&& 0x0e) >>> 1).toUInt16 else length-(3 : UInt16) :
        UInt16).toNat := by
  simp only [segmentSize,h,true_and]
  split_ifs <;> rfl

theorem segmentSize_more {length : UInt16} {command : UInt8} (h : ¬(command &&& 0x01>0)) :
    segmentSize length command=(length-3).toNat := by
  simp only [segmentSize,h,false_and,if_false]

def Gains (sdo : SdoRead) (round : Round) (sdo' : SdoRead) : Prop :=
  sdo'.data=sdo.data++received round ∧ sdo'.psize=sdo.psize+(received round).length

theorem gains_segment {sdo : SdoRead} {frame : List UInt8} {sent : Int} {reply : Received} {n : Nat}
    (hw : 0 < reply.wkc) (hn : segmentSize (sdoLength reply.data) (sdoCommand reply.data)=n) :
    Gains sdo ⟨frame,sent,reply⟩ ⟨reply.wkc,sdo.psize+n,sdo.data++bytesAt reply.data 9 n⟩ := by
  rw [Gains,received,if_pos hw,segmentBytes,hn,bytesAt_length]
  exact ⟨rfl,rfl⟩

theorem gains_failed {sdo : SdoRead} {round : Round} (hw : ¬0 < round.reply.wkc) (wkc : Int) :
    Gains sdo round { sdo with wkc := wkc } := by
  rw [Gains,received,if_neg hw,List.append_nil,List.length_nil]
  exact ⟨rfl,(Int.add_zero _).symm⟩

/-- The loop has no mailbox for its round, ends with it, or goes on behind it. -/
theorem readRound_cases {index : UInt16} {subindex : UInt8} {fuel : Nat} {mbxIn : Option Nat}
    {toggle : UInt8} {sdo : SdoRead} {c c' : Client σ} {r : Option Nat × SdoRead} {j : Journal}
    (hr : sdoReadSegmentsJ port cfg index subindex (fuel+1) mbxIn toggle sdo c=.ok ((r,j),c')) :
    (r=(mbxIn,sdo) ∧ j=⟨[],true⟩) ∨
      ∃ round c1,
        (j=⟨[round],false⟩ ∧ (0 < r.2.wkc ↔ round.Answered ∧ isUpSegment round.reply.data) ∧
          (0 < r.2.wkc → Gains sdo round r.2)) ∨
        ((round.Answered → isUpSegment round.reply.data) ∧
          ∃ mbx sdo' j',(0 < sdo'.wkc ↔ round.Answered) ∧ Gains sdo round sdo' ∧
            sdoReadSegmentsJ port cfg index subindex fuel mbx (toggle ^^^ 0x10) sdo' c1=
              .ok ((r,j'),c') ∧
            j=⟨round::j'.rounds,j'.exhausted⟩) := by
  rw [sdoReadSegmentsJ] at hr
  obtain ⟨mbxOut,c1,-,hr⟩ := bind_ok.mp hr
  cases mbxOut with
  | none =>
    cases pure_ok.mp hr
    exact .inl ⟨rfl,rfl⟩
  | some out =>
    right
    obtain ⟨cnt,c2,-,hr⟩ := bind_ok.mp hr
    obtain ⟨_,c3,-,hr⟩ := bind_ok.mp hr
    obtain ⟨mbx,c4,-,hr⟩ := bind_ok.mp hr
    obtain ⟨w,c5,-,hr⟩ := bind_ok.mp hr
    by_cases hw : w>0
    · rw [if_pos hw] at hr
      obtain ⟨_,c6,-,hr⟩ := bind_ok.mp hr
      obtain ⟨reply,c7,-,hr⟩ := bind_ok.mp hr
      refine ⟨⟨mbx.take cfg.mbxL.toNat,w,reply⟩,c7,?_⟩
      by_cases hreply : reply.wkc>0
      · rw [if_pos hreply] at hr
        by_cases hsegment : isSdoResponse reply.data ∧ sdoCommand reply.data &&& 0xe0=0
        · rw [if_pos hsegment] at hr
          by_cases hlast : sdoCommand reply.data &&& 0x01>0
          · simp only [if_pos hlast] at hr
            cases pure_ok.mp hr
            refine .inl ⟨rfl,iff_of_true hreply ⟨⟨hw,hreply⟩,hsegment⟩,fun _ => ?_⟩
            exact gains_segment hreply (segmentSize_last hlast)
          · simp only [if_neg hlast] at hr
            obtain ⟨j',hnext,hj⟩ := noted_ok hr
            refine .inr ⟨fun _ => hsegment,_,_,j',?_,?_,hnext,hj⟩
            · exact iff_of_true hreply ⟨hw,hreply⟩
            · exact gains_segment hreply (segmentSize_more hlast)
        · rw [if_neg hsegment] at hr
          obtain ⟨_,c8,-,hr⟩ := bind_ok.mp hr
          cases pure_ok.mp hr
          refine .inl ⟨rfl,iff_of_false (Int.lt_irrefl 0) (fun h => hsegment h.2),fun h => ?_⟩
          exact absurd h (Int.lt_irrefl 0)
      · rw [if_neg hreply] at hr
        obtain ⟨j',hnext,hj⟩ := noted_ok hr
        refine .inr ⟨fun h => absurd h.2 hreply,_,_,j',?_,gains_failed hreply _,hnext,hj⟩
        exact iff_of_false hreply (fun h => hreply h.2)
    · rw [if_neg hw] at hr
      obtain ⟨j',hnext,hj⟩ := noted_ok hr
      refine ⟨_,c5,.inr ⟨fun h => absurd h.1 hw,_,_,j',?_,?_,hnext,hj⟩⟩
      · exact iff_of_false hw (fun h => hw h.1)
      · exact gains_failed (Int.lt_irrefl 0) w

/-- The loop reports success exactly if its last exchange went well, and it has then put the
segments together that came. -/
theorem sdoReadSegmentsJ_ends {index : UInt16} {subindex : UInt8} (fuel : Nat) :
    ∀ {mbxIn : Option Nat} {toggle : UInt8} {sdo : SdoRead} {c c' : Client σ}
      {r : Option Nat × SdoRead} {j : Journal},
    sdoReadSegmentsJ port cfg index subindex fuel mbxIn toggle sdo c=.ok ((r,j),c') →
    (0 < r.2.wkc ↔ (j.rounds=[] → 0 < sdo.wkc) ∧ j.EndsWell isUpSegment) ∧
      (0 < r.2.wkc → r.2.data=sdo.data++gathered j.rounds ∧
        r.2.psize=sdo.psize+(gathered j.rounds).length) := by
  induction fuel with
  | zero =>
    intro mbxIn toggle sdo c c' r j hr
    exact absurd hr throw_ok
  | succ fuel ih =>
    intro mbxIn toggle sdo c c' r j hr
    obtain ⟨rfl,rfl⟩|⟨round,c1,⟨rfl,hends,hgains⟩|
      ⟨hsegment,mbx,sdo',j',hwkc,⟨hdata,hsize⟩,hnext,rfl⟩⟩ := readRound_cases hr
    · refine ⟨⟨fun h => ⟨fun _ => h,Journal.endsWell_nil true _⟩,fun h => h.1 rfl⟩,fun _ => ?_⟩
      exact ⟨(List.append_nil _).symm,(Int.add_zero _).symm⟩
    · have hlast := @Journal.endsWell_cons round ⟨[],false⟩ isUpSegment
      refine ⟨?_,fun hpos => ?_⟩
      · rw [hends,hlast]
        exact ⟨fun h => ⟨fun hnil => absurd hnil (List.cons_ne_nil _ _),fun _ => h,
          Journal.endsWell_nil false _⟩,fun h => h.2.1 rfl⟩
      · have hone : gathered [round]=received round := List.append_nil _
        rw [hone]
        exact hgains hpos
    · obtain ⟨hends,hrest⟩ := ih hnext
      refine ⟨?_,fun hpos => ?_⟩
      · rw [hends,Journal.endsWell_cons,hwkc]
        constructor
        · rintro ⟨hfirst,hlater⟩
          refine ⟨fun hnil => absurd hnil (List.cons_ne_nil _ _),fun hnil => ?_,hlater⟩
          exact ⟨hfirst hnil,hsegment (hfirst hnil)⟩
        · rintro ⟨-,hfirst,hlater⟩
          exact ⟨fun hnil => (hfirst hnil).1,hlater⟩
      · obtain ⟨hdata',hsize'⟩ := hrest hpos
        have hcons : gathered (round::j'.rounds)=received round++gathered j'.rounds := rfl
        rw [hcons,List.length_append]
        refine ⟨?_,?_⟩
        · rw [hdata',hdata,List.append_assoc]
        · rw [hsize',hsize]
          push_cast
          omega

theorem asInt32_nonneg {x : UInt32} (h : 0 ≤ asInt32 x) : asInt32 x=x.toNat := by
  have hlt := x.toNat_lt
  simp only [asInt32] at h ⊢
  split_ifs at h ⊢
  · rfl
  · omega

section Upload

variable {fuel : Nat} {index : UInt16} {subindex : UInt8} {psize : Int} {reply : Received}
  {r : Option Nat × SdoRead} {c c' : Client σ}

/-- What comes of the initial reply once it is accepted. -/
theorem sdoReadAcceptedJ_reported {j : Journal} (hw : 0 < reply.wkc)
    (hr : sdoReadAcceptedJ port cfg fuel index subindex psize reply c=.ok ((r,j),c')) :
    (0 < r.2.wkc ↔ fitsBuffer psize reply.data ∧ j.EndsWell isUpSegment) ∧
      (0 < r.2.wkc → r.2.data=upBytes reply.data j.rounds ∧
        (r.2.psize=upSize reply.data ∧ r.2.data.length=upSize reply.data ↔
          (isSegmented reply.data → (sdoLength reply.data-10).toNat+(j.rounds.map announced).sum=
            upSize reply.data))) := by
  simp only [sdoReadAcceptedJ] at hr
  by_cases hexp : sdoCommand reply.data &&& 0x02>0
  · rw [if_pos (.inl hexp)] at hr
    obtain ⟨s,c1,hs,hr⟩ := bind_ok.mp hr
    cases pure_ok.mp hr
    rw [sdoReadAccepted,if_pos hexp] at hs
    have hsize : upSize reply.data=4-((sdoCommand reply.data >>> 2) &&& 0x03).toNat := by
      rw [upSize,if_pos hexp]
    rw [← hsize] at hs
    rw [fitsBuffer,if_pos hexp]
    by_cases hfit : psize ≥ (upSize reply.data : Int)
    · simp only [if_pos hfit] at hs
      cases pure_ok.mp hs
      refine ⟨iff_of_true hw ⟨hfit,Journal.endsWell_nil false _⟩,fun _ => ⟨?_,?_⟩⟩
      · rw [upBytes,if_pos hexp]
      · exact iff_of_true ⟨rfl,bytesAt_length _ _ _⟩ (fun h => absurd hexp h.1)
    · simp only [if_neg hfit] at hs
      obtain ⟨_,c2,-,hs⟩ := bind_ok.mp hs
      cases pure_ok.mp hs
      exact ⟨iff_of_false (Int.lt_irrefl 0) (fun h => hfit h.1),fun h => absurd h (Int.lt_irrefl 0)⟩
  · have hsize : upSize reply.data=(sdoLdata reply.data).toNat := by
      rw [upSize,if_neg hexp]
    rw [fitsBuffer,if_neg hexp,upBytes,if_neg hexp]
    by_cases hfit : asInt32 (sdoLdata reply.data) ≤ psize
    · by_cases hpart : ((sdoLength reply.data-10).toNat : Int) < asInt32 (sdoLdata reply.data)
      · have hplain : ¬(sdoCommand reply.data &&& 0x02>0 ∨
            ¬asInt32 (sdoLdata reply.data) ≤ psize ∨
            ¬((sdoLength reply.data-10).toNat : Int) < asInt32 (sdoLdata reply.data)) := by
          simp only [not_or,not_not]
          exact ⟨hexp,hfit,hpart⟩
        rw [if_neg hplain] at hr
        have hlen := asInt32_nonneg (show 0 ≤ asInt32 (sdoLdata reply.data) by omega)
        have hseg : isSegmented reply.data := ⟨hexp,by omega⟩
        obtain ⟨hends,hgathered⟩ := sdoReadSegmentsJ_ends fuel hr
        refine ⟨hends.trans ⟨fun h => ⟨hfit,h.2⟩,fun h => ⟨fun _ => hw,h.2⟩⟩,fun hpos => ?_⟩
        obtain ⟨hdata,hcount⟩ := hgathered hpos
        have htotal := gathered_length j.rounds
        refine ⟨?_,?_⟩
        · rw [hdata,Nat.min_eq_left (by have := hseg.2; omega)]
        · rw [hdata,hcount,List.length_append,bytesAt_length,htotal]
          constructor
          · rintro ⟨-,hlength⟩ -
            exact hlength
          · intro hsum
            have hall := hsum hseg
            exact ⟨by rw [← hall]; push_cast; rfl,hall⟩
      · rw [if_pos (.inr (.inr hpart))] at hr
        obtain ⟨s,c1,hs,hr⟩ := bind_ok.mp hr
        cases pure_ok.mp hr
        rw [sdoReadAccepted,if_neg hexp] at hs
        simp only [if_pos hfit,if_neg hpart] at hs
        by_cases hneg : asInt32 (sdoLdata reply.data)<0
        · rw [if_pos hneg] at hs
          exact absurd hs throw_ok
        · rw [if_neg hneg] at hs
          cases pure_ok.mp hs
          have hlen := asInt32_nonneg (show 0 ≤ asInt32 (sdoLdata reply.data) by omega)
          have hsingle : ¬isSegmented reply.data := by
            intro hseg
            have := hseg.2
            omega
          refine ⟨iff_of_true hw ⟨hfit,Journal.endsWell_nil false _⟩,fun _ => ⟨?_,?_⟩⟩
          · have hnone : gathered []=[] := rfl
            rw [Nat.min_eq_right (by omega),hnone,List.append_nil,hlen,hsize,Int.toNat_natCast]
          · refine iff_of_true ⟨hlen.trans (by rw [hsize]),?_⟩ (fun h => absurd h hsingle)
            rw [bytesAt_length,hlen,hsize,Int.toNat_natCast]
    · rw [if_pos (.inr (.inl hfit))] at hr
      obtain ⟨s,c1,hs,hr⟩ := bind_ok.mp hr
      cases pure_ok.mp hr
      rw [sdoReadAccepted,if_neg hexp] at hs
      simp only [if_neg hfit] at hs
      obtain ⟨_,c2,-,hs⟩ := bind_ok.mp hs
      cases pure_ok.mp hs
      exact ⟨iff_of_false (Int.lt_irrefl 0) (fun h => hfit h.1),fun h => absurd h (Int.lt_irrefl 0)⟩

theorem receiveReply_mbx (fuel : Nat) : ∀ {reply : Received} {c c' : Client σ},
    receiveReply port cfg fuel c=.ok (reply,c') → 0 < reply.wkc → reply.mbx≠none := by
  induction fuel with
  | zero =>
    intro reply c c' hr
    exact absurd hr throw_ok
  | succ fuel ih =>
    intro reply c c' hr hpos hnone
    obtain ⟨r,c1,-,hr⟩ := bind_ok.mp hr
    by_cases hagain : r.wkc>0 ∧ r.mbx=none
    · rw [if_pos hagain] at hr
      exact ih hr hpos hnone
    · rw [if_neg hagain] at hr
      cases pure_ok.mp hr
      exact hagain ⟨hpos,hnone⟩

theorem sdoReadReplyJ_complete {out : Nat} {j : UploadJournal}
    (hmbx : 0 < reply.wkc → reply.mbx≠none)
    (hr : sdoReadReplyJ port cfg fuel out index subindex psize reply c=.ok ((r,j),c')) :
    (0 < r.2.wkc ↔ j.Reported psize) ∧
      ∀ target,0 < r.2.wkc → (j.Complete target r.2 ↔ j.Unbroken target) := by
  simp only [sdoReadReplyJ] at hr
  by_cases hw : reply.wkc>0 ∧ reply.mbx≠none
  · rw [if_pos hw] at hr
    obtain ⟨kept,c1,-,hr⟩ := bind_ok.mp hr
    by_cases hacc : isSdoResponse reply.data ∧ sdoIndex reply.data=sdoIndex kept
    · rw [if_pos hacc] at hr
      obtain ⟨s,c2,hs,hr⟩ := bind_ok.mp hr
      cases pure_ok.mp hr
      obtain ⟨hreported,hwhole⟩ := sdoReadAcceptedJ_reported hw.1 hs
      refine ⟨hreported.trans ⟨fun h => ⟨hw.1,hacc.1,hacc.2,h⟩,fun h => h.2.2.2⟩,?_⟩
      intro target hpos
      obtain ⟨hdata,hsizes⟩ := hwhole hpos
      constructor
      · rintro ⟨-,hindex,hsize,-,hlength⟩
        exact ⟨hacc.2.symm.trans hindex,hsizes.mp ⟨hsize,hlength⟩⟩
      · rintro ⟨hkept,hsum⟩
        obtain ⟨hsize,hlength⟩ := hsizes.mpr hsum
        exact ⟨hacc.1,hacc.2.trans hkept,hsize,hdata,hlength⟩
    · rw [if_neg hacc] at hr
      obtain ⟨_,c2,-,hr⟩ := bind_ok.mp hr
      cases pure_ok.mp hr
      refine ⟨iff_of_false (Int.lt_irrefl 0) (fun h => hacc ⟨h.2.1,h.2.2.1⟩),?_⟩
      exact fun target h => absurd h (Int.lt_irrefl 0)
  · rw [if_neg hw] at hr
    cases pure_ok.mp hr
    have hfailed : ¬0 < reply.wkc := fun h => hw ⟨h,hmbx h⟩
    exact ⟨iff_of_false hfailed (fun h => hfailed h.1),fun target h => absurd h hfailed⟩

end Upload

/-- A download that reports success is complete: the slave has taken its frames, with all of `p` in
them, and acknowledged each. -/
def DownloadKept (target : UInt16 × UInt8) (p : List UInt8) (c : Client (σ × List (List UInt8)))
    (r : Int) (j : Option DownloadJournal) (c' : Client (σ × List (List UInt8))) : Prop :=
  0 < r → ∃ d,j=some d ∧ d.Complete target p ∧ taken c'=taken c++d.frames

/-- An upload that reports success is complete. -/
def UploadKept (index : UInt16) (r : SdoRead) (j : Option UploadJournal) : Prop :=
  0 < r.wkc → ∃ u,j=some u ∧ u.Complete index r

instance Round.Answered.decidable (round : Round) : Decidable round.Answered :=
  inferInstanceAs (Decidable (_ ∧ _))

instance DownloadJournal.Unbroken.decidable (j : DownloadJournal) (target : UInt16 × UInt8) :
    Decidable (j.Unbroken target) := inferInstanceAs (Decidable (_ ∧ _))

instance ExpeditedFits.decidable (cfg : SlaveCfg) (ca : Bool) (p : List UInt8) :
    Decidable (ExpeditedFits cfg ca p) := inferInstanceAs (Decidable (_ → _))

/-- A slave that takes a download and acknowledges each part. The state is the reply that waits. -/
def downloadSlave : Port (Option (List UInt8)) where
  write := fun _ frame =>
    (1,some (if sdoCommand frame &&& 0xe0=0x20 then
        initiatedFrame 10 0x60 (sdoIndex frame) (sdoSubIndex frame) [0,0,0,0]
      else answerFrame 10 (0x20+(sdoCommand frame &&& 0x10)) [0,0,0,0,0,0,0]))
  empty := fun waiting => (true,waiting)
  mailbox := fun waiting =>
    (waiting.elim (.silent 0) (fun reply => .full ⟨1,reply,false⟩ []),none)
  others := fun waiting => ([],waiting)

/-- The bytes 0 to 39, and a download of them in mailboxes of 32 bytes. -/
def fortyBytes : List UInt8 := (List.range 40).map UInt8.ofNat

def downloadForty : MbxM (Option (List UInt8) × List (List UInt8)) Int :=
  sdoWrite downloadSlave.recording cfg32 3 0x1008 0 false fortyBytes

def downloadFortyJ :
    MbxM (Option (List UInt8) × List (List UInt8)) (Int × Option DownloadJournal) :=
  sdoWriteJ downloadSlave.recording cfg32 3 0x1008 0 false fortyBytes

theorem refusedUnread_of {m : Nat} {c : Client σ}
    (h : (mbxReceive port cfg c).toOption.map (fun r => (getMbx (r.2.interfere port).pool).1)=
      some (some m)) : RefusedUnread port cfg c := by
  intro stale c1 c2 hreceive hget
  rw [hreceive] at h
  simp only [Except.toOption,Option.map_some,Option.some.injEq] at h
  have hnone := congrArg (fun r => r.toOption.map Prod.fst) hget
  simp only [getMbxM,Except.toOption,Option.map_some,h] at hnone
  cases hnone

/-- A pool with one free mailbox. -/
def Client.scarce (env : σ) : Client σ :=
  { Client.start env with pool := lastFree.pool, held := lastFree.held }

end EtherCATMaster.Mailbox
