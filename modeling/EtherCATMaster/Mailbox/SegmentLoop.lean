import EtherCATMaster.Mailbox.SdoComplete

namespace EtherCATMaster.Mailbox

open EtherCATMaster.Framework

/-- What comes of one exchange of the segment loop: there was no mailbox for the request, it was not
sent or not answered, or there is a reply. -/
inductive Exchange where
  | exhausted
  | failed (wkc : Int)
  | answered (reply : Received)

def moreSegments (mbx : List UInt8) : Prop :=
  (isSdoResponse mbx ∧ sdoCommand mbx &&& 0xe0=0) ∧ ¬sdoCommand mbx &&& 0x01>0

instance moreSegments.decidable (mbx : List UInt8) : Decidable (moreSegments mbx) :=
  inferInstanceAs (Decidable (_ ∧ _))

/-- The loop clears `NotLast`: for want of a mailbox, or with a reply that is the last segment or
none at all. -/
def Exchange.Closes : Exchange → Prop
  | .exhausted => True
  | .failed _ => False
  | .answered reply => ¬moreSegments reply.data

variable {σ : Type} (port : Port σ) (cfg : SlaveCfg) (index : UInt16) (subindex : UInt8)

/-- A request for a segment and the reply to it, with the mailbox that is held afterwards. -/
def segmentExchange (mbxIn : Option Nat) (toggle : UInt8) : MbxM σ (Exchange × Option Nat) := do
  let mbxOut ← getMbxM port
  match mbxOut with
  | none => pure (.exhausted,mbxIn)
  | some out => do
      let cnt ← nextMbxCnt cfg
      fillMbx out (sdoFrame 10 cnt (ectSdoSegUpReq+toggle) index subindex [0,0,0,0])
      let wkc ← mbxSend port cfg out
      if wkc>0 then do
        dropMbxIn port mbxIn
        let reply ← mbxReceive port cfg
        if reply.wkc>0 then pure (.answered reply,reply.mbx)
        else pure (.failed reply.wkc,reply.mbx)
      else pure (.failed wkc,mbxIn)

/-- What the loop makes of an exchange that does not end it. -/
def SdoRead.after (sdo : SdoRead) : Exchange → SdoRead
  | .exhausted => sdo
  | .failed wkc => { sdo with wkc := wkc }
  | .answered reply => ⟨reply.wkc,sdo.psize+(sdoLength reply.data-3).toNat,
      sdo.data++bytesAt reply.data 9 (sdoLength reply.data-3).toNat⟩

/-- How the loop ends with an exchange. -/
def endSegments (held : Option Nat) (sdo : SdoRead) : Exchange → MbxM σ (Option Nat × SdoRead)
  | .exhausted => pure (held,sdo)
  | .failed wkc => pure (held,{ sdo with wkc := wkc })
  | .answered reply =>
      if isSdoResponse reply.data ∧ sdoCommand reply.data &&& 0xe0=0 then
        let size := sdoLength reply.data-3
        let size := if size=7 then
            size-((sdoCommand reply.data &&& 0x0e) >>> 1).toUInt16
          else size
        pure (held,⟨reply.wkc,sdo.psize+size.toNat,
          sdo.data++bytesAt reply.data 9 size.toNat⟩)
      else do
        reportSdoReply index subindex reply.data
        pure (held,{ sdo with wkc := 0 })

instance Exchange.Closes.decidable : (e : Exchange) → Decidable e.Closes
  | .exhausted => isTrue trivial
  | .failed _ => isFalse id
  | .answered reply => inferInstanceAs (Decidable (¬moreSegments reply.data))

/-- The exchange number `k` of the loop, if it has not ended before. -/
def exchangeAt : Nat → Option Nat → UInt8 → MbxM σ Exchange
  | 0,mbxIn,toggle => do
      let e ← segmentExchange port cfg index subindex mbxIn toggle
      pure e.1
  | k+1,mbxIn,toggle => do
      let e ← segmentExchange port cfg index subindex mbxIn toggle
      exchangeAt k e.2 (toggle ^^^ 0x10)

variable {port cfg index subindex}

theorem sdoReadSegments_succ (fuel : Nat) (mbxIn : Option Nat) (toggle : UInt8) (sdo : SdoRead) :
    sdoReadSegments port cfg index subindex (fuel+1) mbxIn toggle sdo=(do
      let e ← segmentExchange port cfg index subindex mbxIn toggle
      if e.1.Closes then endSegments index subindex e.2 sdo e.1
      else sdoReadSegments port cfg index subindex fuel e.2 (toggle ^^^ 0x10) (sdo.after e.1)) := by
  rw [sdoReadSegments,segmentExchange]
  simp only [bind_assoc]
  refine bind_congr (fun mbxOut => ?_)
  cases mbxOut with
  | none => rfl
  | some out =>
    simp only [bind_assoc]
    refine bind_congr (fun cnt => bind_congr (fun _ => bind_congr (fun wkc => ?_)))
    split_ifs with hsent
    · simp only [bind_assoc]
      refine bind_congr (fun _ => bind_congr (fun reply => ?_))
      by_cases hreply : reply.wkc>0
      · simp only [if_pos hreply,pure_bind]
        by_cases hsegment : isSdoResponse reply.data ∧ sdoCommand reply.data &&& 0xe0=0
        · by_cases hlast : sdoCommand reply.data &&& 0x01>0
          · have hcloses : (Exchange.answered reply).Closes := fun hmore => hmore.2 hlast
            rw [if_pos hsegment,if_pos hlast,if_pos hcloses,endSegments,if_pos hsegment]
          · have hgoes : ¬(Exchange.answered reply).Closes := fun hc => hc ⟨hsegment,hlast⟩
            rw [if_pos hsegment,if_neg hlast,if_neg hgoes]
            rfl
        · have hcloses : (Exchange.answered reply).Closes := fun hmore => hsegment hmore.1
          rw [if_neg hsegment,if_pos hcloses,endSegments,if_neg hsegment]
      · simp only [if_neg hreply,pure_bind]
        rfl
    · rfl

theorem endSegments_returns (index : UInt16) (subindex : UInt8) (held : Option Nat) (sdo : SdoRead) (e : Exchange) (c : Client σ) :
    ∃ r c',endSegments index subindex held sdo e c=.ok (r,c') := by
  cases e with
  | exhausted => exact ⟨_,_,rfl⟩
  | failed wkc => exact ⟨_,_,rfl⟩
  | answered reply =>
    rw [endSegments]
    split_ifs
    · exact ⟨_,_,rfl⟩
    · obtain ⟨c1,hreport⟩ : ∃ c1,reportSdoReply index subindex reply.data c=.ok ((),c1) := by
        rw [reportSdoReply]
        split_ifs
        · exact ⟨_,rfl⟩
        · exact ⟨_,rfl⟩
      exact ⟨_,c1,run_bind hreport⟩

/-- The loop returns if and only if one of its exchanges closes it. -/
theorem segments_return_iff (mbxIn : Option Nat) (toggle : UInt8) (sdo : SdoRead) (c : Client σ) :
    (∃ fuel r c',sdoReadSegments port cfg index subindex fuel mbxIn toggle sdo c=.ok (r,c')) ↔
      ∃ k e c',exchangeAt port cfg index subindex k mbxIn toggle c=.ok (e,c') ∧ e.Closes := by
  constructor
  · rintro ⟨fuel,r,c',hr⟩
    induction fuel generalizing mbxIn toggle sdo c with
    | zero => exact absurd hr throw_ok
    | succ fuel ih =>
      rw [sdoReadSegments_succ] at hr
      obtain ⟨e,c1,he,hr⟩ := bind_ok.mp hr
      by_cases hcloses : e.1.Closes
      · exact ⟨0,e.1,c1,bind_ok.mpr ⟨e,c1,he,rfl⟩,hcloses⟩
      · rw [if_neg hcloses] at hr
        obtain ⟨k,e',c2,he',hcloses'⟩ := ih _ _ _ _ hr
        exact ⟨k+1,e',c2,bind_ok.mpr ⟨e,c1,he,he'⟩,hcloses'⟩
  · rintro ⟨k,e,c',he,hcloses⟩
    induction k generalizing mbxIn toggle sdo c with
    | zero =>
      obtain ⟨r,c1,hr,hpure⟩ := bind_ok.mp he
      cases pure_ok.mp hpure
      obtain ⟨a,c2,hend⟩ := endSegments_returns index subindex r.2 sdo r.1 c'
      refine ⟨1,a,c2,?_⟩
      rw [sdoReadSegments_succ,run_bind hr,if_pos hcloses]
      exact hend
    | succ k ih =>
      obtain ⟨r,c1,hr,hlater⟩ := bind_ok.mp he
      by_cases hfirst : r.1.Closes
      · obtain ⟨a,c2,hend⟩ := endSegments_returns index subindex r.2 sdo r.1 c1
        refine ⟨1,a,c2,?_⟩
        rw [sdoReadSegments_succ,run_bind hr,if_pos hfirst]
        exact hend
      · obtain ⟨fuel,a,c2,hloop⟩ := ih r.2 (toggle ^^^ 0x10) (sdo.after r.1) c1 hlater
        refine ⟨fuel+1,a,c2,?_⟩
        rw [sdoReadSegments_succ,run_bind hr,if_neg hfirst]
        exact hloop

/-- The reply to a normal upload that does not have all the data, and whose data fit in the
buffer. -/
def beginsSegments (psize : Int) (mbx : List UInt8) : Prop :=
  ¬sdoCommand mbx &&& 0x02>0 ∧ asInt32 (sdoLdata mbx) ≤ psize ∧
    ((sdoLength mbx-10).toNat : Int) < asInt32 (sdoLdata mbx)

instance beginsSegments.decidable (psize : Int) (mbx : List UInt8) :
    Decidable (beginsSegments psize mbx) := inferInstanceAs (Decidable (_ ∧ _))

/-- `ecx_SDOread` up to its segment loop, with the reply that leads there. -/
def segmentStart (port : Port σ) (cfg : SlaveCfg) (index : UInt16) (subindex : UInt8) (ca : Bool)
    (psize : Int) : MbxM σ (Option Received) := do
  let sent ← sdoReadSent port cfg index subindex ca psize
  match sent with
  | .inl _ => pure none
  | .inr out => do
      let reply ← mbxReceive port cfg
      if reply.wkc>0 ∧ reply.mbx≠none then do
        let request ← peek port out
        pure (if (isSdoResponse reply.data ∧ sdoIndex reply.data=sdoIndex request) ∧
          beginsSegments psize reply.data then some reply else none)
      else pure none

/-- What `ecx_SDOread` has before its segment loop. -/
def initialData (reply : Received) : SdoRead :=
  ⟨reply.wkc,(sdoLength reply.data-10).toNat,bytesAt reply.data 16 (sdoLength reply.data-10).toNat⟩

section Call

variable {ca : Bool} {psize : Int} {c c1 : Client σ} {reply : Received}

theorem sdoReadJ_start (h : segmentStart port cfg index subindex ca psize c=.ok (some reply,c1)) :
    ∃ kept,∀ fuel,sdoReadJ port cfg (fuel+1) index subindex ca psize c=(do
      let r ← sdoReadSegmentsJ port cfg index (requestedSub ca subindex) (fuel+1) reply.mbx 0
        (initialData reply)
      dropMbxIn port r.1.1
      pure (r.1.2,some (⟨reply,kept,r.2⟩ : UploadJournal))) c1 := by
  obtain ⟨sent,c2,hsent,h⟩ := bind_ok.mp h
  cases sent with
  | inl r => cases pure_ok.mp h
  | inr out =>
    obtain ⟨r,c3,hreceive,h⟩ := bind_ok.mp h
    by_cases hreply : r.wkc>0 ∧ r.mbx≠none
    · rw [if_pos hreply] at h
      obtain ⟨request,c4,hpeek,h⟩ := bind_ok.mp h
      by_cases hbegins : (isSdoResponse r.data ∧ sdoIndex r.data=sdoIndex request) ∧
          beginsSegments psize r.data
      · rw [if_pos hbegins] at h
        cases pure_ok.mp h
        obtain ⟨haccepted,hnormal,hfits,hsegmented⟩ := hbegins
        have hplain : ¬(sdoCommand reply.data &&& 0x02>0 ∨
            ¬asInt32 (sdoLdata reply.data) ≤ psize ∨
            ¬((sdoLength reply.data-10).toNat : Int) < asInt32 (sdoLdata reply.data)) := by
          simp only [not_or,not_not]
          exact ⟨hnormal,hfits,hsegmented⟩
        refine ⟨request,fun fuel => ?_⟩
        have honce : receiveReply port cfg (fuel+1) c2=.ok (reply,c3) := by
          rw [receiveReply,run_bind hreceive,if_neg (fun hc => hreply.2 hc.2)]
          rfl
        have hloop : sdoReadReplyJ port cfg (fuel+1) out index (requestedSub ca subindex) psize
            reply c3=(do
              let r ← sdoReadSegmentsJ port cfg index (requestedSub ca subindex) (fuel+1) reply.mbx
                0 (initialData reply)
              pure (r.1,(⟨reply,request,r.2⟩ : UploadJournal))) c1 := by
          rw [sdoReadReplyJ,if_pos hreply,run_bind hpeek,if_pos haccepted,sdoReadAcceptedJ,
            if_neg hplain]
          rfl
        rw [sdoReadJ,run_bind hsent]
        simp only [run_bind honce]
        refine (run_bind_congr hloop).trans ?_
        simp only [bind_assoc,pure_bind]
      · rw [if_neg hbegins] at h
        cases pure_ok.mp h
    · rw [if_neg hreply] at h
      cases pure_ok.mp h

theorem sdoReadJ_zero (h : segmentStart port cfg index subindex ca psize c=.ok (some reply,c1))
    {r : SdoRead × Option UploadJournal} {c' : Client σ} :
    ¬sdoReadJ port cfg 0 index subindex ca psize c=.ok (r,c') := by
  intro hr
  obtain ⟨sent,c2,hsent,h⟩ := bind_ok.mp h
  rw [sdoReadJ,run_bind hsent] at hr
  cases sent with
  | inl r => cases pure_ok.mp h
  | inr out =>
    obtain ⟨a,c3,ha,-⟩ := bind_ok.mp hr
    exact throw_ok ha

theorem dropMbxIn_returns (port : Port σ) (mbx : Option Nat) (c : Client σ) :
    ∃ c',dropMbxIn port mbx c=.ok ((),c') := by
  cases mbx with
  | none => exact ⟨c,rfl⟩
  | some m => exact ⟨_,rfl⟩

theorem sdoRead_start (h : segmentStart port cfg index subindex ca psize c=.ok (some reply,c1))
    (fuel : Nat) : sdoRead port cfg (fuel+1) index subindex ca psize c=(do
      let r ← sdoReadSegments port cfg index (requestedSub ca subindex) (fuel+1) reply.mbx 0
        (initialData reply)
      dropMbxIn port r.1
      pure r.2) c1 := by
  obtain ⟨kept,hstart⟩ := sdoReadJ_start h
  have herased : erased (sdoReadJ port cfg (fuel+1) index subindex ca psize) c=
      erased (do
        let r ← sdoReadSegmentsJ port cfg index (requestedSub ca subindex) (fuel+1) reply.mbx 0
          (initialData reply)
        dropMbxIn port r.1.1
        pure (r.1.2,some (⟨reply,kept,r.2⟩ : UploadJournal))) c1 :=
    run_bind_congr (hstart fuel)
  rw [← sdoReadJ_erased,herased,← sdoReadSegmentsJ_erased]
  simp only [erased,bind_assoc,pure_bind]

/-- A call ends, and its result is no working counter if the last exchange has failed. -/
structure UploadEnds (port : Port σ) (cfg : SlaveCfg) (index : UInt16) (subindex : UInt8)
    (ca : Bool) (psize : Int) (c : Client σ) : Prop where
  returns : ∃ fuel r c',sdoRead port cfg fuel index subindex ca psize c=.ok (r,c')
  failed : ∀ fuel r j c',sdoReadJ port cfg fuel index subindex ca psize c=.ok ((r,some j),c') →
    ∀ last ∈ j.segments.rounds.getLast?,last.reply.wkc ≤ 0 → r.wkc ≤ 0

/-- A segmented upload ends exactly if one of its exchanges has no mailbox, or brings the last
segment or a frame that is none. Otherwise the loop goes on for ever, also with a slave that does
not answer. -/
theorem upload_ends_iff (h : segmentStart port cfg index subindex ca psize c=.ok (some reply,c1)) :
    UploadEnds port cfg index subindex ca psize c ↔
      ∃ k e c',exchangeAt port cfg index (requestedSub ca subindex) k reply.mbx 0 c1=.ok (e,c') ∧
        e.Closes := by
  rw [← segments_return_iff reply.mbx 0 (initialData reply) c1]
  have hrounds : ∀ {fuel : Nat} {r : SdoRead × Option UploadJournal} {c' : Client σ},
      sdoReadJ port cfg fuel index subindex ca psize c=.ok (r,c') → ∃ n,fuel=n+1 := by
    intro fuel r c' hr
    cases fuel with
    | zero => exact absurd hr (sdoReadJ_zero h)
    | succ n => exact ⟨n,rfl⟩
  constructor
  · rintro ⟨⟨fuel,r,c',hr⟩,-⟩
    obtain ⟨j,hj⟩ := journal_of_run (sdoReadJ_erased fuel index subindex ca psize) hr
    obtain ⟨n,rfl⟩ := hrounds hj
    rw [sdoRead_start h] at hr
    obtain ⟨a,c2,ha,-⟩ := bind_ok.mp hr
    exact ⟨n+1,a,c2,ha⟩
  · rintro ⟨fuel,a,c2,ha⟩
    refine ⟨?_,fun fuel r j c' hr last hlast hfailed => ?_⟩
    · cases fuel with
      | zero => exact absurd ha throw_ok
      | succ n =>
        obtain ⟨c3,hdrop⟩ := dropMbxIn_returns port a.1 c2
        refine ⟨n+1,a.2,c3,?_⟩
        rw [sdoRead_start h,run_bind ha,run_bind hdrop]
        rfl
    · obtain ⟨n,rfl⟩ := hrounds hr
      obtain ⟨kept,hstart⟩ := sdoReadJ_start h
      rw [hstart] at hr
      obtain ⟨a,c3,ha,hr⟩ := bind_ok.mp hr
      obtain ⟨_,c4,-,hr⟩ := bind_ok.mp hr
      cases pure_ok.mp hr
      by_contra hpos
      obtain ⟨-,hwell⟩ := (sdoReadSegmentsJ_ends (n+1) ha).1.mp (Int.not_le.mp hpos)
      exact absurd hfailed (Int.not_le.mpr (hwell last hlast).1.2)

end Call

/-- The first three of twenty bytes, in a frame that is also a last segment. -/
def threeOfTwenty : List UInt8 :=
  answerFrame 13 0x01 (le16 0x1000++[(0 : UInt8)]++le32 20++[1,2,3])

def uploadTwenty : MbxM Bool Exchange := do
  let r ← segmentStart (answering threeOfTwenty) cfg128 0x1000 0 false 64
  match r with
  | some reply => exchangeAt (answering threeOfTwenty) cfg128 0x1000 0 0 reply.mbx 0
  | none => throw .unfinished

theorem repeated_frame_ends :
    UploadEnds (answering threeOfTwenty) cfg128 0x1000 0 false 64 (Client.start false) := by
  have hrun : ((uploadTwenty (Client.start false)).toOption.map fun r => decide r.1.Closes)=
      some true := by decide +kernel
  obtain ⟨e,c2,hupload,hcloses⟩ := returned_of_map hrun
  obtain ⟨r,c1,hstart,hexchange⟩ := bind_ok.mp hupload
  cases r with
  | none => exact absurd hexchange throw_ok
  | some reply =>
    exact (upload_ends_iff hstart).mpr ⟨0,e,c2,hexchange,of_decide_eq_true hcloses⟩

/-- A slave that answers one write and no other. The state says whether the answer is still to come,
waits or has been read. -/
def muteAfter (answer : List UInt8) : Port Nat where
  write := fun e _ => (1,if e=0 then 1 else e)
  empty := fun e => (true,e)
  mailbox := fun e => if e=1 then (.full ⟨1,answer,false⟩ [],2) else (.silent 0,e)
  others := fun e => ([],e)

/-- There is a mailbox in the pool, and all are in their places. -/
structure Usable (pool : MbxPool) : Prop where
  count : 0 < pool.listcount
  tail : pool.listtail < mbxPoolSize
  cells : ∀ i < mbxPoolSize,pool.mbxemptylist i < mbxPoolSize

theorem Usable.drop {pool : MbxPool} (h : Usable pool) (m : Nat) : Usable (dropMbx pool m) := by
  rw [dropMbx]
  split_ifs with hm
  · refine ⟨Nat.succ_pos _,h.tail,fun i hi => ?_⟩
    simp only [Function.update_apply]
    split_ifs
    · exact hm
    · exact h.cells i hi
  · exact h

theorem Usable.turn {pool : MbxPool} (h : Usable pool) :
    ∃ m,(getMbx pool).1=some m ∧ Usable (dropMbx (getMbx pool).2 m) := by
  have hm := h.cells pool.listtail h.tail
  refine ⟨pool.mbxemptylist pool.listtail,?_,?_⟩
  · rw [getMbx,if_pos h.count]
  · rw [getMbx,if_pos h.count,dropMbx,if_pos hm]
    refine ⟨Nat.succ_pos _,ringNext_lt h.tail,fun i hi => ?_⟩
    simp only [Function.update_apply]
    split_ifs
    · exact hm
    · exact h.cells i hi

/-- The slave has fallen silent. -/
structure Mute (c : Client Nat) : Prop where
  env : c.env=2
  pool : Usable c.pool

theorem Mute.exchange {c : Client Nat} (h : Mute c) (answer : List UInt8) (index : UInt16)
    (subindex : UInt8) (mbxIn : Option Nat) (toggle : UInt8) :
    ∃ c',segmentExchange (muteAfter answer) cfg128 index subindex mbxIn toggle c=
        .ok ((.failed 0,none),c') ∧ Mute c' := by
  obtain ⟨henv,hpool⟩ := h
  obtain ⟨m,hm,hturned⟩ := hpool.turn
  obtain ⟨pool,buffers,held,mbxCnt,txframeno,errors,env⟩ := c
  cases henv
  have hget : getMbxM (muteAfter answer) ⟨pool,buffers,held,mbxCnt,txframeno,errors,2⟩=
      .ok (some m,⟨(getMbx pool).2,buffers,held,mbxCnt,txframeno,errors,2⟩) := by
    rw [← hm]
    rfl
  rw [segmentExchange,run_bind hget]
  cases mbxIn with
  | none => exact ⟨_,rfl,rfl,hturned⟩
  | some old => exact ⟨_,rfl,rfl,hturned.drop old⟩

theorem Mute.exchangeAt {c : Client Nat} (h : Mute c) (answer : List UInt8) (index : UInt16)
    (subindex : UInt8) (k : Nat) (mbxIn : Option Nat) (toggle : UInt8) :
    ∃ c',exchangeAt (muteAfter answer) cfg128 index subindex k mbxIn toggle c=
      .ok (.failed 0,c') := by
  induction k generalizing mbxIn toggle c with
  | zero =>
    obtain ⟨c',he,-⟩ := h.exchange answer index subindex mbxIn toggle
    exact ⟨c',by rw [Mailbox.exchangeAt,run_bind he]; rfl⟩
  | succ k ih =>
    obtain ⟨c1,he,hmute⟩ := h.exchange answer index subindex mbxIn toggle
    obtain ⟨c',hlater⟩ := ih hmute none (toggle ^^^ 0x10)
    exact ⟨c',by rw [Mailbox.exchangeAt,run_bind he]; exact hlater⟩

/-- A slave that falls silent after its first reply keeps the call for ever. -/
theorem silent_slave_never_ends :
    (∀ fuel r c',¬sdoRead (muteAfter threeOfTwenty) cfg128 fuel 0x1000 0 false 64 (Client.start 0)=
      .ok (r,c')) ∧
    ¬UploadEnds (muteAfter threeOfTwenty) cfg128 0x1000 0 false 64 (Client.start 0) := by
  have hnever : ∀ fuel r c',¬sdoRead (muteAfter threeOfTwenty) cfg128 fuel 0x1000 0 false 64
      (Client.start 0)=.ok (r,c') := by
    intro fuel r c' hr
    have hbegun : ((segmentStart (muteAfter threeOfTwenty) cfg128 0x1000 0 false 64
        (Client.start 0)).toOption.map fun r =>
          (r.1.isSome,decide (r.2.env=2 ∧ 0 < r.2.pool.listcount ∧ r.2.pool.listtail < mbxPoolSize ∧
            ∀ i < mbxPoolSize,r.2.pool.mbxemptylist i < mbxPoolSize)))=some (true,true) := by
      decide +kernel
    obtain ⟨r0,c1,hc1,hfacts⟩ := returned_of_map hbegun
    obtain ⟨hsome,hmute⟩ := Prod.mk.inj hfacts
    obtain ⟨reply,rfl⟩ := Option.isSome_iff_exists.mp hsome
    obtain ⟨henv,hcount,htail,hcells⟩ := of_decide_eq_true hmute
    have hmute : Mute c1 := ⟨henv,hcount,htail,hcells⟩
    have hloop : ∃ fuel a c2,sdoReadSegments (muteAfter threeOfTwenty) cfg128 0x1000 0 fuel
        reply.mbx 0 (initialData reply) c1=.ok (a,c2) := by
      cases fuel with
      | zero =>
        obtain ⟨j,hj⟩ := journal_of_run (sdoReadJ_erased 0 0x1000 0 false 64) hr
        exact absurd hj (sdoReadJ_zero hc1)
      | succ n =>
        rw [sdoRead_start hc1] at hr
        obtain ⟨a,c2,ha,-⟩ := bind_ok.mp hr
        exact ⟨n+1,a,c2,ha⟩
    obtain ⟨k,e,c2,he,hcloses⟩ := (segments_return_iff _ _ _ _).mp hloop
    obtain ⟨c3,hfailed⟩ := hmute.exchangeAt threeOfTwenty 0x1000 0 k reply.mbx 0
    rw [hfailed] at he
    cases he
    exact hcloses
  exact ⟨hnever,fun h => (by
    obtain ⟨fuel,r,c',hr⟩ := h.returns
    exact hnever fuel r c' hr)⟩

end EtherCATMaster.Mailbox
