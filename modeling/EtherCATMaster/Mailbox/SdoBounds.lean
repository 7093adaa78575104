import EtherCATMaster.Mailbox.SegmentLoop

namespace EtherCATMaster.Mailbox

open EtherCATMaster.Framework

/-- What `ecx_SDOread` does with a mailbox that it has received: it looks at fields of its header, of
which the last one ends at `upTo`, and copies data from `offset` on into the parameter buffer at
`dest`. `exact` is the length before it is put into the type it has in the code. -/
inductive Access where
  | fields (upTo : Nat)
  | copy (dest offset : Nat) (exact : Int) (bytes : List UInt8)

/-- An access stays in the parameter buffer and in the mailbox, and its length has not wrapped. -/
def Access.Within (psize : Int) (mbxRl : Nat) : Access → Prop
  | .fields upTo => upTo ≤ mbxRl
  | .copy dest offset exact bytes =>
      0 ≤ exact ∧ ((dest+bytes.length : Nat) : Int) ≤ psize ∧ offset+bytes.length ≤ mbxRl

def Access.copied : Access → List UInt8
  | .fields _ => []
  | .copy _ _ _ bytes => bytes

/-- The end of `ldata` for an abort, otherwise that of a field in front of it. -/
def headerEnd (before : Nat) (mbx : List UInt8) : Nat := if sdoCommand mbx=ectSdoAbort then 16 else before

/-- `Framedatasize` of a segment, without its type. -/
def segmentExact (mbx : List UInt8) : Int :=
  let size : Int := (sdoLength mbx).toNat-3
  if sdoCommand mbx &&& 0x01>0 ∧ size=7 then
    size-((sdoCommand mbx &&& 0x0e) >>> 1).toNat
  else size

def segmentAccesses (dest : Nat) (mbx : List UInt8) : List Access :=
  if isUpSegment mbx then [.fields 9,.copy dest 9 (segmentExact mbx) (segmentBytes mbx)]
  else [.fields (headerEnd 9 mbx)]

/-- A length that is handed to `memcpy`, as it is there. -/
def sizeT (n : Int) : Nat := (n%2^64).toNat

/-- What is done with the initial reply. -/
def initialAccesses (psize : Int) (accepted : Bool) (mbx : List UInt8) : List Access :=
  if accepted=true then
    if sdoCommand mbx &&& 0x02>0 then
      let bytesize := 4-((sdoCommand mbx >>> 2) &&& 0x03).toNat
      if psize ≥ bytesize then [.fields 11,.copy 0 12 bytesize (bytesAt mbx 12 bytesize)]
      else [.fields 11]
    else
      let sdolen := asInt32 (sdoLdata mbx)
      if sdolen ≤ psize then
        let size := sdoLength mbx-10
        if (size.toNat : Int) < sdolen then
          [.fields 16,.copy 0 16 ((sdoLength mbx).toNat-10) (bytesAt mbx 16 size.toNat)]
        else [.fields 16,.copy 0 16 sdolen (bytesAt mbx 16 (sizeT sdolen))]
      else [.fields 16]
  else [.fields (headerEnd (if isSdoResponse mbx then 11 else 9) mbx)]

/-- The replies of an upload: the initial one and whether it is for the request, and those in the
segment loop. -/
structure Replies where
  accepted : Bool
  initial : List UInt8
  segments : List (List UInt8)

variable {σ : Type} (port : Port σ) (cfg : SlaveCfg)

/-- The segment loop as far as it comes in some rounds: what it does with the replies, and the
replies. -/
def segmentsAccessed (index : UInt16) (subindex : UInt8) :
    Nat → Option Nat → UInt8 → Nat → MbxM σ (List Access × List (List UInt8))
  | 0,_,_,_ => pure ([],[])
  | fuel+1,mbxIn,toggle,dest => do
      let e ← segmentExchange port cfg index subindex mbxIn toggle
      match e.1 with
      | .exhausted => pure ([],[])
      | .failed _ => segmentsAccessed index subindex fuel e.2 (toggle ^^^ 0x10) dest
      | .answered reply =>
          if moreSegments reply.data then do
            let later ← segmentsAccessed index subindex fuel e.2 (toggle ^^^ 0x10)
              (dest+(segmentBytes reply.data).length)
            pure (segmentAccesses dest reply.data++later.1,reply.data::later.2)
          else pure (segmentAccesses dest reply.data,[reply.data])

/-- `ecx_SDOread` as far as it comes in some rounds: what it does with what it receives. -/
def sdoReadAccessed (fuel : Nat) (index : UInt16) (subindex : UInt8) (ca : Bool) (psize : Int) :
    MbxM σ (List Access × Option Replies) := do
  let sent ← sdoReadSent port cfg index subindex ca psize
  match sent with
  | .inl _ => pure ([],none)
  | .inr out => do
      let reply ← mbxReceive port cfg
      if reply.wkc>0 ∧ reply.mbx≠none then do
        let request ← peek port out
        let accepted := decide (isSdoResponse reply.data ∧ sdoIndex reply.data=sdoIndex request)
        let first := initialAccesses psize accepted reply.data
        if accepted=true ∧ beginsSegments psize reply.data then do
          let later ← segmentsAccessed port cfg index (requestedSub ca subindex) fuel reply.mbx 0
            (sdoLength reply.data-10).toNat
          pure (first++later.1,some ⟨accepted,reply.data,later.2⟩)
        else pure (first,some ⟨accepted,reply.data,[]⟩)
      else pure ([],none)

/-- The lengths of segments fit: none is shorter than its header, the mailbox has its data, and there
is room for them behind those of the segments before. -/
def SegmentsFit (psize : Int) (mbxRl : Nat) : Nat → List (List UInt8) → Prop
  | _,[] => True
  | dest,mbx::rest =>
      if isUpSegment mbx then
        let size := segmentSize (sdoLength mbx) (sdoCommand mbx)
        3 ≤ (sdoLength mbx).toNat ∧ ((dest+size : Nat) : Int) ≤ psize ∧ 9+size ≤ mbxRl ∧
          SegmentsFit psize mbxRl (dest+size) rest
      else headerEnd 9 mbx ≤ mbxRl

instance SegmentsFit.decidable (psize : Int) (mbxRl : Nat) : (dest : Nat) →
    (mbxs : List (List UInt8)) → Decidable (SegmentsFit psize mbxRl dest mbxs)
  | _,[] => isTrue trivial
  | dest,mbx::rest =>
      have := SegmentsFit.decidable psize mbxRl
        (dest+segmentSize (sdoLength mbx) (sdoCommand mbx)) rest
      inferInstanceAs (Decidable (if isUpSegment mbx then
        3 ≤ (sdoLength mbx).toNat ∧
          ((dest+segmentSize (sdoLength mbx) (sdoCommand mbx) : Nat) : Int) ≤ psize ∧
          9+segmentSize (sdoLength mbx) (sdoCommand mbx) ≤ mbxRl ∧
          SegmentsFit psize mbxRl (dest+segmentSize (sdoLength mbx) (sdoCommand mbx)) rest
        else headerEnd 9 mbx ≤ mbxRl))

/-- The lengths in the replies fit. -/
def RepliesFit (psize : Int) (mbxRl : Nat) (r : Replies) : Prop :=
  if r.accepted=true then
    if sdoCommand r.initial &&& 0x02>0 then
      let bytesize := 4-((sdoCommand r.initial >>> 2) &&& 0x03).toNat
      11 ≤ mbxRl ∧ (psize ≥ bytesize → 12+bytesize ≤ mbxRl)
    else
      let sdolen := asInt32 (sdoLdata r.initial)
      16 ≤ mbxRl ∧ (sdolen ≤ psize → 0 ≤ sdolen ∧
        if ((sdoLength r.initial-10).toNat : Int) < sdolen then
          10 ≤ (sdoLength r.initial).toNat ∧ (sdoLength r.initial).toNat+6 ≤ mbxRl ∧
            SegmentsFit psize mbxRl (sdoLength r.initial-10).toNat r.segments
        else 16+sdolen ≤ mbxRl)
  else headerEnd (if isSdoResponse r.initial then 11 else 9) r.initial ≤ mbxRl

instance RepliesFit.decidable (psize : Int) (mbxRl : Nat) (r : Replies) :
    Decidable (RepliesFit psize mbxRl r) := by
  delta RepliesFit
  infer_instance

variable {port cfg} {psize : Int} {mbxRl : Nat}

theorem segmentExact_nonneg (mbx : List UInt8) :
    0 ≤ segmentExact mbx ↔ 3 ≤ (sdoLength mbx).toNat := by
  have hunused : ((sdoCommand mbx &&& 0x0e) >>> 1).toNat ≤ 7 := by
    have hall : ∀ n < 256,((UInt8.ofNat n &&& 0x0e) >>> 1).toNat ≤ 7 := by decide +kernel
    have hcommand := hall (sdoCommand mbx).toNat (sdoCommand mbx).toNat_lt
    rw [UInt8.ofNat_toNat] at hcommand
    exact hcommand
  rw [segmentExact]
  split_ifs <;> omega

theorem segmentBytes_length (mbx : List UInt8) :
    (segmentBytes mbx).length=segmentSize (sdoLength mbx) (sdoCommand mbx) := by
  rw [segmentBytes,bytesAt_length]

theorem segmentAccesses_within (dest : Nat) (mbx : List UInt8) :
    (∀ a ∈ segmentAccesses dest mbx,a.Within psize mbxRl) ↔
      SegmentsFit psize mbxRl dest [mbx] := by
  rw [segmentAccesses,SegmentsFit]
  split_ifs with hsegment
  · simp only [List.mem_cons,List.not_mem_nil,or_false,forall_eq_or_imp,forall_eq,Access.Within,
      segmentExact_nonneg,segmentBytes_length,SegmentsFit,and_true]
    constructor
    · rintro ⟨-,hlength,hroom,hmbx⟩
      exact ⟨hlength,hroom,hmbx⟩
    · rintro ⟨hlength,hroom,hmbx⟩
      exact ⟨by omega,hlength,hroom,hmbx⟩
  · simp only [List.mem_cons,List.not_mem_nil,or_false,forall_eq,Access.Within]

theorem segmentsFit_cons {dest : Nat} {mbx : List UInt8} (h : isUpSegment mbx)
    (rest : List (List UInt8)) :
    SegmentsFit psize mbxRl dest (mbx::rest) ↔ SegmentsFit psize mbxRl dest [mbx] ∧
      SegmentsFit psize mbxRl (dest+(segmentBytes mbx).length) rest := by
  simp only [SegmentsFit,if_pos h,segmentBytes_length,and_true]
  tauto

theorem segmentsAccessed_within {index : UInt16} {subindex : UInt8} (fuel : Nat) :
    ∀ {mbxIn : Option Nat} {toggle : UInt8} {dest : Nat} {c c' : Client σ} {as : List Access}
      {rs : List (List UInt8)},
    segmentsAccessed port cfg index subindex fuel mbxIn toggle dest c=.ok ((as,rs),c') →
    ((∀ a ∈ as,a.Within psize mbxRl) ↔ SegmentsFit psize mbxRl dest rs) := by
  induction fuel with
  | zero =>
    intro mbxIn toggle dest c c' as rs hr
    cases pure_ok.mp hr
    exact iff_of_true (fun a ha => nomatch ha) trivial
  | succ fuel ih =>
    intro mbxIn toggle dest c c' as rs hr
    rw [segmentsAccessed] at hr
    obtain ⟨e,c1,-,hr⟩ := bind_ok.mp hr
    cases he : e.1 with
    | exhausted =>
      rw [he] at hr
      cases pure_ok.mp hr
      exact iff_of_true (fun a ha => nomatch ha) trivial
    | failed wkc =>
      rw [he] at hr
      exact ih hr
    | answered reply =>
      simp only [he] at hr
      by_cases hmore : moreSegments reply.data
      · rw [if_pos hmore] at hr
        obtain ⟨later,c2,hlater,hr⟩ := bind_ok.mp hr
        cases pure_ok.mp hr
        rw [segmentsFit_cons hmore.1,← ih hlater,← segmentAccesses_within]
        exact List.forall_mem_append
      · rw [if_neg hmore] at hr
        cases pure_ok.mp hr
        exact segmentAccesses_within dest reply.data

theorem sizeT_of_nonneg {n : Int} (h : 0 ≤ n) (hlt : n < 2^64) : sizeT n=n.toNat := by
  rw [sizeT,Int.emod_eq_of_lt h hlt]

theorem asInt32_lt (x : UInt32) : asInt32 x < 2^31 := by
  have := x.toNat_lt
  rw [asInt32]
  split_ifs <;> omega

theorem word_sub_toNat {x : UInt16} (n : UInt16) (h : n.toNat ≤ x.toNat) :
    (x-n).toNat=x.toNat-n.toNat := by
  have := x.toNat_lt
  rw [UInt16.toNat_sub]
  omega

theorem initialAccesses_within (accepted : Bool) (mbx : List UInt8)
    (hplain : ¬(accepted=true ∧ beginsSegments psize mbx)) :
    (∀ a ∈ initialAccesses psize accepted mbx,a.Within psize mbxRl) ↔
      RepliesFit psize mbxRl ⟨accepted,mbx,[]⟩ := by
  rw [initialAccesses,RepliesFit]
  by_cases hacc : accepted=true
  · simp only [if_pos hacc]
    by_cases hexp : sdoCommand mbx &&& 0x02>0
    · simp only [if_pos hexp]
      split_ifs with hroom
      · simp only [List.mem_cons,List.not_mem_nil,or_false,forall_eq_or_imp,forall_eq,Access.Within,
          bytesAt_length,Nat.zero_add]
        constructor
        · rintro ⟨hfields,-,-,hmbx⟩
          exact ⟨hfields,fun _ => hmbx⟩
        · rintro ⟨hfields,hmbx⟩
          exact ⟨hfields,Int.natCast_nonneg _,hroom,hmbx hroom⟩
      · simp only [List.mem_cons,List.not_mem_nil,or_false,forall_eq,Access.Within]
        exact ⟨fun h => ⟨h,fun hc => absurd hc hroom⟩,fun h => h.1⟩
    · simp only [if_neg hexp]
      by_cases hfits : asInt32 (sdoLdata mbx) ≤ psize
      · have hwhole : ¬((sdoLength mbx-10).toNat : Int) < asInt32 (sdoLdata mbx) :=
          fun hc => hplain ⟨hacc,hexp,hfits,hc⟩
        simp only [if_pos hfits,if_neg hwhole,List.mem_cons,List.not_mem_nil,or_false,
          forall_eq_or_imp,forall_eq,Access.Within,bytesAt_length,Nat.zero_add,
          forall_prop_of_true hfits]
        have hlt := asInt32_lt (sdoLdata mbx)
        constructor
        · rintro ⟨hfields,hpos,-,hmbx⟩
          rw [sizeT_of_nonneg hpos (by omega)] at hmbx
          exact ⟨hfields,hpos,by omega⟩
        · rintro ⟨hfields,hpos,hmbx⟩
          rw [sizeT_of_nonneg hpos (by omega)]
          exact ⟨hfields,hpos,by omega,by omega⟩
      · simp only [if_neg hfits,List.mem_cons,List.not_mem_nil,or_false,forall_eq,Access.Within]
        exact ⟨fun h => ⟨h,fun hc => absurd hc hfits⟩,fun h => h.1⟩
  · simp only [if_neg hacc,List.mem_cons,List.not_mem_nil,or_false,forall_eq,Access.Within]

theorem segmentedAccesses_within {mbx : List UInt8} (hbegins : beginsSegments psize mbx)
    {later : List Access} {rs : List (List UInt8)}
    (hlater : (∀ a ∈ later,a.Within psize mbxRl) ↔
      SegmentsFit psize mbxRl (sdoLength mbx-10).toNat rs) :
    (∀ a ∈ initialAccesses psize true mbx++later,a.Within psize mbxRl) ↔
      RepliesFit psize mbxRl ⟨true,mbx,rs⟩ := by
  obtain ⟨hnormal,hfits,hsegmented⟩ := hbegins
  have hten : (10 : UInt16).toNat=10 := rfl
  have hlt := asInt32_lt (sdoLdata mbx)
  rw [List.forall_mem_append,hlater,initialAccesses,RepliesFit]
  simp only [if_true,if_neg hnormal,if_pos hfits,if_pos hsegmented,List.mem_cons,List.not_mem_nil,
    or_false,forall_eq_or_imp,forall_eq,Access.Within,bytesAt_length,Nat.zero_add,
    forall_prop_of_true hfits]
  constructor
  · rintro ⟨⟨hfields,hpos,-,hmbx⟩,hsegments⟩
    have hlong : 10 ≤ (sdoLength mbx).toNat := by omega
    rw [word_sub_toNat 10 hlong] at hmbx
    exact ⟨hfields,by omega,hlong,by omega,hsegments⟩
  · rintro ⟨hfields,hpos,hlong,hmbx,hsegments⟩
    have hsub := word_sub_toNat 10 hlong
    exact ⟨⟨hfields,by omega,by omega,by omega⟩,hsegments⟩

/-- An upload stays within its buffers exactly if the lengths in the replies fit. -/
theorem upload_within_iff {fuel : Nat} {index : UInt16} {subindex : UInt8} {ca : Bool}
    {c c' : Client σ} {as : List Access} {r : Option Replies}
    (h : sdoReadAccessed port cfg fuel index subindex ca psize c=.ok ((as,r),c')) :
    (∀ a ∈ as,a.Within psize cfg.mbxRl.toNat) ↔
      ∀ replies,r=some replies → RepliesFit psize cfg.mbxRl.toNat replies := by
  obtain ⟨sent,c1,-,h⟩ := bind_ok.mp h
  have hnothing : (∀ a ∈ ([] : List Access),a.Within psize cfg.mbxRl.toNat) ↔
      ∀ replies,(none : Option Replies)=some replies → RepliesFit psize cfg.mbxRl.toNat replies :=
    iff_of_true (fun a ha => nomatch ha) (fun _ hc => nomatch hc)
  have hsome : ∀ {p : Prop} {x : Replies},(p ↔ RepliesFit psize cfg.mbxRl.toNat x) →
      (p ↔ ∀ replies,some x=some replies → RepliesFit psize cfg.mbxRl.toNat replies) := by
    intro p x hp
    rw [hp]
    exact ⟨fun hx _ he => Option.some.inj he ▸ hx,fun hx => hx x rfl⟩
  cases sent with
  | inl a =>
    cases pure_ok.mp h
    exact hnothing
  | inr out =>
    obtain ⟨reply,c2,-,h⟩ := bind_ok.mp h
    by_cases hreply : reply.wkc>0 ∧ reply.mbx≠none
    · rw [if_pos hreply] at h
      obtain ⟨request,c3,-,h⟩ := bind_ok.mp h
      by_cases hbegins : decide (isSdoResponse reply.data ∧
          sdoIndex reply.data=sdoIndex request)=true ∧ beginsSegments psize reply.data
      · simp only [if_pos hbegins] at h
        obtain ⟨later,c4,hlater,h⟩ := bind_ok.mp h
        cases pure_ok.mp h
        apply hsome
        rw [hbegins.1]
        exact segmentedAccesses_within hbegins.2 (segmentsAccessed_within fuel hlater)
      · simp only [if_neg hbegins] at h
        cases pure_ok.mp h
        exact hsome (initialAccesses_within _ reply.data hbegins)
    · rw [if_neg hreply] at h
      cases pure_ok.mp h
      exact hnothing

/-- An upload of twenty bytes to a buffer of sixty-four. -/
theorem repeated_frame_within : ∃ as r c',
    sdoReadAccessed (answering threeOfTwenty) cfg128 1 0x1000 0 false 64 (Client.start false)=
      .ok ((as,some r),c') ∧ ∀ a ∈ as,a.Within 64 128 := by
  have hrun : ((sdoReadAccessed (answering threeOfTwenty) cfg128 1 0x1000 0 false 64
      (Client.start false)).toOption.map fun r =>
        r.1.2.map fun replies => decide (RepliesFit 64 128 replies))=some (some true) := by
    decide +kernel
  obtain ⟨⟨as,r⟩,c',hr,hfit⟩ := returned_of_map hrun
  obtain ⟨replies,rfl,hreplies⟩ := Option.map_eq_some_iff.mp hfit
  refine ⟨as,replies,c',hr,(upload_within_iff hr).mpr fun x hx => ?_⟩
  cases hx
  exact of_decide_eq_true hreplies

/-- The first three of four bytes, in a frame that is also a last segment of ten bytes. -/
def threeOfFour : List UInt8 :=
  answerFrame 13 0x01 (le16 0x1000++[(0 : UInt8)]++le32 4++[1,2,3])

/-- A parameter of four bytes by its size field: thirteen are written to the buffer of four. -/
theorem four_bytes_overrun : ∃ as r c',
    sdoReadAccessed (answering threeOfFour) cfg128 1 0x1000 0 false 4 (Client.start false)=
      .ok ((as,r),c') ∧ (as.map Access.copied).flatten.length=13 ∧ ¬∀ a ∈ as,a.Within 4 128 := by
  have hrun : ((sdoReadAccessed (answering threeOfFour) cfg128 1 0x1000 0 false 4
      (Client.start false)).toOption.map fun r => ((r.1.1.map Access.copied).flatten.length,
        r.1.2.map fun replies => decide (RepliesFit 4 128 replies)))=some (13,some false) := by
    decide +kernel
  obtain ⟨⟨as,r⟩,c',hr,hfacts⟩ := returned_of_map hrun
  obtain ⟨hlength,hunfit⟩ := Prod.mk.inj hfacts
  obtain ⟨replies,rfl,hreplies⟩ := Option.map_eq_some_iff.mp hunfit
  refine ⟨as,some replies,c',hr,hlength,fun hwithin => ?_⟩
  exact of_decide_eq_false hreplies ((upload_within_iff hr).mp hwithin replies rfl)

theorem receiveReply_once {fuel : Nat} {c c' : Client σ} {reply : Received}
    (hr : receiveReply port cfg fuel c=.ok (reply,c')) : mbxReceive port cfg c=.ok (reply,c') := by
  cases fuel with
  | zero => exact absurd hr throw_ok
  | succ fuel =>
    obtain ⟨r,c1,hreceive,hr⟩ := bind_ok.mp hr
    rw [if_neg (fun hc => mbxReceive_held hreceive hc.1 hc.2)] at hr
    cases pure_ok.mp hr
    exact hreceive

theorem segmentAccesses_copied {mbx : List UInt8} (h : isUpSegment mbx) (dest : Nat) :
    ((segmentAccesses dest mbx).map Access.copied).flatten=segmentBytes mbx := by
  rw [segmentAccesses,if_pos h]
  simp [Access.copied]

/-- The copies of the loop are what it adds to the buffer. -/
theorem segmentsAccessed_copied {index : UInt16} {subindex : UInt8} (fuel : Nat) :
    ∀ {mbxIn : Option Nat} {toggle : UInt8} {sdo : SdoRead} {c c' : Client σ}
      {r : Option Nat × SdoRead} (dest : Nat),
    sdoReadSegments port cfg index subindex fuel mbxIn toggle sdo c=.ok (r,c') →
    ∃ as rs c'',segmentsAccessed port cfg index subindex fuel mbxIn toggle dest c=
        .ok ((as,rs),c'') ∧ r.2.data=sdo.data++(as.map Access.copied).flatten := by
  induction fuel with
  | zero =>
    intro mbxIn toggle sdo c c' r dest hr
    exact absurd hr throw_ok
  | succ fuel ih =>
    intro mbxIn toggle sdo c c' r dest hr
    rw [sdoReadSegments_succ] at hr
    obtain ⟨e,c1,he,hr⟩ := bind_ok.mp hr
    rw [segmentsAccessed,run_bind he]
    cases hcase : e.1 with
    | exhausted =>
      have hcloses : Exchange.exhausted.Closes := trivial
      rw [hcase,if_pos hcloses] at hr
      cases pure_ok.mp hr
      exact ⟨[],[],_,rfl,(List.append_nil _).symm⟩
    | failed wkc =>
      have hgoes : ¬(Exchange.failed wkc).Closes := id
      rw [hcase,if_neg hgoes] at hr
      obtain ⟨as,rs,c2,hlater,hdata⟩ := ih dest hr
      exact ⟨as,rs,c2,hlater,hdata⟩
    | answered reply =>
      simp only [hcase] at hr
      by_cases hmore : moreSegments reply.data
      · have hgoes : ¬(Exchange.answered reply).Closes := fun hc => hc hmore
        rw [if_neg hgoes] at hr
        obtain ⟨as,rs,c2,hlater,hdata⟩ := ih (dest+(segmentBytes reply.data).length) hr
        refine ⟨segmentAccesses dest reply.data++as,reply.data::rs,c2,?_,?_⟩
        · simp only [if_pos hmore]
          rw [run_bind hlater]
          rfl
        · rw [hdata,List.map_append,List.flatten_append,segmentAccesses_copied hmore.1,
            ← List.append_assoc,segmentBytes,segmentSize_more hmore.2]
          rfl
      · have hcloses : (Exchange.answered reply).Closes := hmore
        rw [if_pos hcloses] at hr
        refine ⟨segmentAccesses dest reply.data,[reply.data],c1,by simp only [if_neg hmore]; rfl,?_⟩
        rw [endSegments] at hr
        by_cases hsegment : isSdoResponse reply.data ∧ sdoCommand reply.data &&& 0xe0=0
        · have hlast : sdoCommand reply.data &&& 0x01>0 := by
            by_contra hlast
            exact hmore ⟨hsegment,hlast⟩
          rw [if_pos hsegment] at hr
          cases pure_ok.mp hr
          rw [segmentAccesses_copied hsegment,segmentBytes,segmentSize_last hlast]
        · rw [if_neg hsegment] at hr
          obtain ⟨_,c2,-,hr⟩ := bind_ok.mp hr
          cases pure_ok.mp hr
          have hother : ¬isUpSegment reply.data := hsegment
          rw [segmentAccesses,if_neg hother]
          simp [Access.copied]

theorem initialAccesses_refused (accepted : Bool) (mbx : List UInt8) (h : ¬accepted=true) :
    ((initialAccesses psize accepted mbx).map Access.copied).flatten=[] := by
  rw [initialAccesses,if_neg h]
  rfl

theorem initialAccesses_segmented {mbx : List UInt8} (h : beginsSegments psize mbx) :
    ((initialAccesses psize true mbx).map Access.copied).flatten=
      bytesAt mbx 16 (sdoLength mbx-10).toNat := by
  obtain ⟨hnormal,hfits,hsegmented⟩ := h
  simp only [initialAccesses,if_true,if_neg hnormal,if_pos hfits,if_pos hsegmented,List.map_cons,
    List.map_nil,Access.copied,List.flatten_cons,List.flatten_nil,List.nil_append,List.append_nil]

theorem initialAccesses_plain {fuel : Nat} {index : UInt16} {subindex : UInt8} {reply : Received}
    {c c' : Client σ} {r : Option Nat × SdoRead} (h : ¬beginsSegments psize reply.data)
    (hr : sdoReadAccepted port cfg fuel index subindex psize reply c=.ok (r,c')) :
    r.2.data=((initialAccesses psize true reply.data).map Access.copied).flatten := by
  simp only [sdoReadAccepted] at hr
  rw [initialAccesses,if_pos rfl]
  by_cases hexp : sdoCommand reply.data &&& 0x02>0
  · simp only [if_pos hexp] at hr ⊢
    split_ifs at hr ⊢ with hroom
    · cases pure_ok.mp hr
      simp [Access.copied]
    · obtain ⟨_,c1,-,hr⟩ := bind_ok.mp hr
      cases pure_ok.mp hr
      rfl
  · simp only [if_neg hexp] at hr ⊢
    by_cases hfits : asInt32 (sdoLdata reply.data) ≤ psize
    · have hwhole : ¬((sdoLength reply.data-10).toNat : Int) < asInt32 (sdoLdata reply.data) :=
        fun hc => h ⟨hexp,hfits,hc⟩
      simp only [if_pos hfits,if_neg hwhole] at hr ⊢
      split_ifs at hr with hneg
      · exact absurd hr throw_ok
      · cases pure_ok.mp hr
        have hlt := asInt32_lt (sdoLdata reply.data)
        rw [sizeT_of_nonneg (by omega) (by omega)]
        simp [Access.copied]
    · rw [if_neg hfits] at hr ⊢
      obtain ⟨_,c1,-,hr⟩ := bind_ok.mp hr
      cases pure_ok.mp hr
      rfl

theorem sdoReadSent_nothing {index : UInt16} {subindex : UInt8} {ca : Bool} {c c' : Client σ}
    {r : SdoRead} (hr : sdoReadSent port cfg index subindex ca psize c=.ok (.inl r,c')) :
    r.data=[] := by
  obtain ⟨stale,c1,-,hr⟩ := bind_ok.mp hr
  obtain ⟨mbxOut,c2,-,hr⟩ := bind_ok.mp hr
  cases mbxOut with
  | none =>
    cases pure_ok.mp hr
    rfl
  | some out =>
    obtain ⟨_,c3,-,hr⟩ := bind_ok.mp hr
    obtain ⟨cnt,c4,-,hr⟩ := bind_ok.mp hr
    obtain ⟨_,c5,-,hr⟩ := bind_ok.mp hr
    obtain ⟨wkc,c6,-,hr⟩ := bind_ok.mp hr
    obtain ⟨_,c7,-,hr⟩ := bind_ok.mp hr
    have hfinal := congrArg Prod.fst (pure_ok.mp hr)
    by_cases hw : wkc>0
    · rw [if_pos hw] at hfinal
      cases hfinal
    · rw [if_neg hw] at hfinal
      cases hfinal
      rfl

/-- A call that returns has made these accesses, and its buffer has what they copy. -/
theorem sdoRead_copied {fuel : Nat} {index : UInt16} {subindex : UInt8} {ca : Bool}
    {c c' : Client σ} {r : SdoRead}
    (hr : sdoRead port cfg fuel index subindex ca psize c=.ok (r,c')) :
    ∃ as rs c'',sdoReadAccessed port cfg fuel index subindex ca psize c=.ok ((as,rs),c'') ∧
      r.data=(as.map Access.copied).flatten := by
  rw [sdoRead_eq] at hr
  obtain ⟨sent,c1,hsent,hr⟩ := bind_ok.mp hr
  rw [sdoReadAccessed,run_bind hsent]
  cases sent with
  | inl a =>
    cases pure_ok.mp hr
    exact ⟨[],none,_,rfl,sdoReadSent_nothing hsent⟩
  | inr out =>
    obtain ⟨reply,c2,hreply,hr⟩ := bind_ok.mp hr
    obtain ⟨held,c3,hread,hr⟩ := bind_ok.mp hr
    obtain ⟨_,c4,-,hr⟩ := bind_ok.mp hr
    cases pure_ok.mp hr
    simp only [run_bind (receiveReply_once hreply)]
    rw [sdoReadReply] at hread
    by_cases hpos : reply.wkc>0 ∧ reply.mbx≠none
    · rw [if_pos hpos] at hread ⊢
      obtain ⟨request,c5,hpeek,hread⟩ := bind_ok.mp hread
      rw [run_bind hpeek]
      by_cases hacc : isSdoResponse reply.data ∧ sdoIndex reply.data=sdoIndex request
      · rw [if_pos hacc] at hread
        simp only [decide_eq_true hacc,true_and]
        by_cases hbegins : beginsSegments psize reply.data
        · rw [if_pos hbegins]
          have hloop := hread
          rw [sdoReadAccepted,if_neg hbegins.1] at hloop
          simp only [if_pos hbegins.2.1,if_pos hbegins.2.2] at hloop
          obtain ⟨as,rs,c6,hlater,hdata⟩ :=
            segmentsAccessed_copied fuel (sdoLength reply.data-10).toNat hloop
          rw [run_bind hlater]
          refine ⟨_,_,c6,rfl,?_⟩
          rw [hdata,List.map_append,List.flatten_append,initialAccesses_segmented hbegins]
        · rw [if_neg hbegins]
          exact ⟨_,_,c5,rfl,initialAccesses_plain hbegins hread⟩
      · rw [if_neg hacc] at hread
        obtain ⟨_,c6,-,hread⟩ := bind_ok.mp hread
        cases pure_ok.mp hread
        simp only [decide_eq_false hacc,Bool.false_eq_true,false_and,if_false]
        exact ⟨_,_,c5,rfl,(initialAccesses_refused false reply.data Bool.false_ne_true).symm⟩
    · rw [if_neg hpos] at hread ⊢
      cases pure_ok.mp hread
      exact ⟨[],none,_,rfl,rfl⟩

end EtherCATMaster.Mailbox
