import EtherCATMaster.Mailbox.SdoMatching

namespace EtherCATMaster.Mailbox

open EtherCATMaster.Framework

/-- One round of a segmented transfer: the frame as it went to the slave, the result of sending it,
and what was received. -/
structure Round where
  frame : List UInt8
  sent : Int
  reply : Received

/-- What happened in the segment loop; `exhausted` if it ended for want of a mailbox. -/
structure Journal where
  rounds : List Round
  exhausted : Bool

def Round.Answered (round : Round) : Prop := 0 < round.sent ∧ 0 < round.reply.wkc

/-- The last round, if there was one, was answered in a way that lets the loop end. -/
def Journal.EndsWell (j : Journal) (good : List UInt8 → Prop) : Prop :=
  ∀ round ∈ j.rounds.getLast?,round.Answered ∧ good round.reply.data

theorem Journal.endsWell_nil (exhausted : Bool) (good : List UInt8 → Prop) :
    Journal.EndsWell ⟨[],exhausted⟩ good :=
  fun round h => absurd h (Option.not_mem_none round)

theorem Journal.endsWell_cons {round : Round} {j : Journal} {good : List UInt8 → Prop} :
    Journal.EndsWell ⟨round::j.rounds,j.exhausted⟩ good ↔
      (j.rounds=[] → round.Answered ∧ good round.reply.data) ∧ j.EndsWell good := by
  obtain ⟨rounds,exhausted⟩ := j
  cases rounds with
  | nil => simp [Journal.EndsWell]
  | cons next rounds => simp [Journal.EndsWell,List.getLast?_cons_cons]

variable {σ α : Type} (port : Port σ) (cfg : SlaveCfg)

def ended (round : Round) (a : α) : MbxM σ (α × Journal) := pure (a,⟨[round],false⟩)

def noted (round : Round) (x : MbxM σ (α × Journal)) : MbxM σ (α × Journal) := do
  let r ← x
  pure (r.1,⟨round::r.2.rounds,r.2.exhausted⟩)

def erased {β : Type} (x : MbxM σ (α × β)) : MbxM σ α := do
  let r ← x
  pure r.1

/-- `sdoReadSegments` with a journal. -/
def sdoReadSegmentsJ (index : UInt16) (subindex : UInt8) :
    Nat → Option Nat → UInt8 → SdoRead → MbxM σ ((Option Nat × SdoRead) × Journal)
  | 0,_,_,_ => throw .unfinished
  | fuel+1,mbxIn,toggle,sdo => do
      let mbxOut ← getMbxM port
      match mbxOut with
      | none => pure ((mbxIn,sdo),⟨[],true⟩)
      | some out => do
          let cnt ← nextMbxCnt cfg
          fillMbx out (sdoFrame 10 cnt (ectSdoSegUpReq+toggle) index subindex [0,0,0,0])
          let mbx ← content out
          let wkc ← mbxSend port cfg out
          if wkc>0 then do
            dropMbxIn port mbxIn
            let reply ← mbxReceive port cfg
            if reply.wkc>0 then
              if isSdoResponse reply.data ∧ sdoCommand reply.data &&& 0xe0=0 then
                let size := sdoLength reply.data-3
                if sdoCommand reply.data &&& 0x01>0 then
                  let size := if size=7 then
                      size-((sdoCommand reply.data &&& 0x0e) >>> 1).toUInt16
                    else size
                  ended ⟨mbx.take cfg.mbxL.toNat,wkc,reply⟩
                    (reply.mbx,⟨reply.wkc,sdo.psize+size.toNat,
                      sdo.data++bytesAt reply.data 9 size.toNat⟩)
                else
                  noted ⟨mbx.take cfg.mbxL.toNat,wkc,reply⟩
                    (sdoReadSegmentsJ index subindex fuel reply.mbx (toggle ^^^ 0x10)
                      ⟨reply.wkc,sdo.psize+size.toNat,sdo.data++bytesAt reply.data 9 size.toNat⟩)
              else do
                reportSdoReply index subindex reply.data
                ended ⟨mbx.take cfg.mbxL.toNat,wkc,reply⟩ (reply.mbx,{ sdo with wkc := 0 })
            else
              noted ⟨mbx.take cfg.mbxL.toNat,wkc,reply⟩
                (sdoReadSegmentsJ index subindex fuel reply.mbx (toggle ^^^ 0x10)
                  { sdo with wkc := reply.wkc })
          else
            noted ⟨mbx.take cfg.mbxL.toNat,wkc,Received.none 0⟩
              (sdoReadSegmentsJ index subindex fuel mbxIn (toggle ^^^ 0x10) { sdo with wkc := wkc })

/-- `sdoWriteSegments` with a journal. -/
def sdoWriteSegmentsJ (index : UInt16) (subindex : UInt8) (maxdata : Nat) :
    Nat → Option Nat → UInt8 → List UInt8 → Int → MbxM σ ((Option Nat × Int) × Journal)
  | 0,_,_,_,_ => throw .unfinished
  | fuel+1,mbxIn,toggle,p,wkc => do
      let mbxOut ← getMbxM port
      match mbxOut with
      | none => pure ((mbxIn,wkc),⟨[],true⟩)
      | some out => do
          clearMbx out
          let seg := downSegment maxdata p
          let cnt ← nextMbxCnt cfg
          fillMbx out (sdoHeader seg.length cnt (seg.command+toggle)++p.take seg.size)
          let mbx ← content out
          let wkc ← mbxSend port cfg out
          if wkc>0 then do
            dropMbxIn port mbxIn
            let reply ← mbxReceive port cfg
            if reply.wkc>0 ∧
                ¬(isSdoResponse reply.data ∧ sdoCommand reply.data &&& 0xe0=0x20) then do
              reportSdoReply index subindex reply.data
              ended ⟨mbx.take cfg.mbxL.toNat,wkc,reply⟩ (reply.mbx,0)
            else if seg.notLast=true then
              noted ⟨mbx.take cfg.mbxL.toNat,wkc,reply⟩
                (sdoWriteSegmentsJ index subindex maxdata fuel reply.mbx (toggle ^^^ 0x10)
                  (p.drop seg.size) reply.wkc)
            else ended ⟨mbx.take cfg.mbxL.toNat,wkc,reply⟩ (reply.mbx,reply.wkc)
          else if seg.notLast=true then
            noted ⟨mbx.take cfg.mbxL.toNat,wkc,Received.none 0⟩
              (sdoWriteSegmentsJ index subindex maxdata fuel mbxIn (toggle ^^^ 0x10)
                (p.drop seg.size) wkc)
          else ended ⟨mbx.take cfg.mbxL.toNat,wkc,Received.none 0⟩ (mbxIn,wkc)

/-- What an upload saw after its request was sent: the reply, what the mailbox of the request held
when the two were compared, and the segments. -/
structure UploadJournal where
  reply : Received
  kept : List UInt8
  segments : Journal

def sdoReadAcceptedJ (fuel : Nat) (index : UInt16) (subindex : UInt8) (psize : Int)
    (reply : Received) : MbxM σ ((Option Nat × SdoRead) × Journal) :=
  if sdoCommand reply.data &&& 0x02>0 ∨ ¬asInt32 (sdoLdata reply.data) ≤ psize ∨
      ¬((sdoLength reply.data-10).toNat : Int) < asInt32 (sdoLdata reply.data) then do
    let r ← sdoReadAccepted port cfg fuel index subindex psize reply
    pure (r,⟨[],false⟩)
  else
    sdoReadSegmentsJ port cfg index subindex fuel reply.mbx 0
      ⟨reply.wkc,(sdoLength reply.data-10).toNat,
        bytesAt reply.data 16 (sdoLength reply.data-10).toNat⟩

def sdoReadReplyJ (fuel out : Nat) (index : UInt16) (subindex : UInt8) (psize : Int)
    (reply : Received) : MbxM σ ((Option Nat × SdoRead) × UploadJournal) :=
  if reply.wkc>0 ∧ reply.mbx≠none then do
    let request ← peek port out
    if isSdoResponse reply.data ∧ sdoIndex reply.data=sdoIndex request then do
      let r ← sdoReadAcceptedJ port cfg fuel index subindex psize reply
      pure (r.1,⟨reply,request,r.2⟩)
    else do
      reportSdoReply index subindex reply.data
      pure ((reply.mbx,⟨0,psize,[]⟩),⟨reply,request,⟨[],false⟩⟩)
  else pure ((reply.mbx,⟨reply.wkc,psize,[]⟩),⟨reply,[],⟨[],false⟩⟩)

/-- `ecx_SDOread` with a journal, once its request has been sent. -/
def sdoReadJ (fuel : Nat) (index : UInt16) (subindex : UInt8) (ca : Bool) (psize : Int) :
    MbxM σ (SdoRead × Option UploadJournal) := do
  let sent ← sdoReadSent port cfg index subindex ca psize
  match sent with
  | .inl r => pure (r,none)
  | .inr out => do
      let reply ← receiveReply port cfg fuel
      let r ← sdoReadReplyJ port cfg fuel out index (requestedSub ca subindex) psize reply
      dropMbxIn port r.1.1
      pure (r.1.2,some r.2)

/-- What a download saw: the frame of its request, the reply to it, what the mailbox of the request
held when the two were compared, and the segments. -/
structure DownloadJournal where
  frame : List UInt8
  reply : Received
  kept : List UInt8
  segments : Journal

def sdoWriteAwaitJ (fuel : Nat) (index : UInt16) (subindex : UInt8) (request : DownRequest) :
    MbxM σ (Int × DownloadJournal) := do
  let reply ← mbxReceive port cfg
  if reply.wkc>0 then do
    let kept ← peek port request.out
    if isSdoResponse reply.data ∧ sdoIndex reply.data=sdoIndex kept ∧
        sdoSubIndex reply.data=sdoSubIndex kept then
      if request.notLast=true then do
        let r ← sdoWriteSegmentsJ port cfg index subindex (request.maxdata+7) fuel reply.mbx 0
          request.rest reply.wkc
        dropMbxIn port r.1.1
        pure (r.1.2,⟨request.frame,reply,kept,r.2⟩)
      else do
        dropMbxIn port reply.mbx
        pure (reply.wkc,⟨request.frame,reply,kept,⟨[],false⟩⟩)
    else do
      reportSdoReply index subindex reply.data
      dropMbxIn port reply.mbx
      pure (0,⟨request.frame,reply,kept,⟨[],false⟩⟩)
  else do
    dropMbxIn port reply.mbx
    pure (reply.wkc,⟨request.frame,reply,[],⟨[],false⟩⟩)

/-- `ecx_SDOwrite` with a journal, once its request has been sent. -/
def sdoWriteJ (fuel : Nat) (index : UInt16) (subindex : UInt8) (ca : Bool) (p : List UInt8) :
    MbxM σ (Int × Option DownloadJournal) := do
  let sent ← sdoWriteSent port cfg index subindex ca p
  match sent with
  | .inl wkc => pure (wkc,none)
  | .inr request => do
      let r ← sdoWriteAwaitJ port cfg fuel index subindex request
      pure (r.1,some r.2)

section Erasure

variable {port cfg} {β : Type}

theorem erased_bind {γ : Type} (x : MbxM σ γ) (f : γ → MbxM σ (α × β)) :
    erased (x >>= f)=x >>= fun a => erased (f a) := by
  simp only [erased,bind_assoc]

@[simp] theorem erased_pure (a : α) (b : β) : erased (pure (a,b) : MbxM σ (α × β))=pure a := by
  simp only [erased,pure_bind]

@[simp] theorem erased_ended (round : Round) (a : α) : erased (ended round a : MbxM σ _)=pure a :=
  erased_pure _ _

@[simp] theorem erased_noted (round : Round) (x : MbxM σ (α × Journal)) :
    erased (noted round x)=erased x := by
  simp only [erased,noted,bind_assoc,pure_bind]

theorem erased_ite {c : Prop} [Decidable c] (x y : MbxM σ (α × β)) :
    erased (if c then x else y)=if c then erased x else erased y := by
  split_ifs <;> rfl

theorem sdoReadSegmentsJ_erased (index : UInt16) (subindex : UInt8) (fuel : Nat) :
    ∀ (mbxIn : Option Nat) (toggle : UInt8) (sdo : SdoRead),
    erased (sdoReadSegmentsJ port cfg index subindex fuel mbxIn toggle sdo)=
      sdoReadSegments port cfg index subindex fuel mbxIn toggle sdo := by
  induction fuel with
  | zero =>
    intro mbxIn toggle sdo
    rfl
  | succ fuel ih =>
    intro mbxIn toggle sdo
    rw [sdoReadSegmentsJ,sdoReadSegments,erased_bind]
    refine bind_congr (fun mbxOut => ?_)
    cases mbxOut with
    | none => exact erased_pure _ _
    | some out =>
      simp only [erased_bind,erased_ite,erased_ended,erased_noted,ih]
      refine bind_congr (fun cnt => bind_congr (fun _ => ?_))
      exact content_seq out _

theorem sdoWriteSegmentsJ_erased (index : UInt16) (subindex : UInt8) (maxdata fuel : Nat) :
    ∀ (mbxIn : Option Nat) (toggle : UInt8) (p : List UInt8) (wkc : Int),
    erased (sdoWriteSegmentsJ port cfg index subindex maxdata fuel mbxIn toggle p wkc)=
      sdoWriteSegments port cfg index subindex maxdata fuel mbxIn toggle p wkc := by
  induction fuel with
  | zero =>
    intro mbxIn toggle p wkc
    rfl
  | succ fuel ih =>
    intro mbxIn toggle p wkc
    rw [sdoWriteSegmentsJ,sdoWriteSegments,erased_bind]
    refine bind_congr (fun mbxOut => ?_)
    cases mbxOut with
    | none => exact erased_pure _ _
    | some out =>
      simp only [erased_bind,erased_ite,erased_ended,erased_noted,ih]
      refine bind_congr (fun _ => bind_congr (fun cnt => bind_congr (fun _ => ?_)))
      exact content_seq out _

theorem sdoReadAcceptedJ_erased (fuel : Nat) (index : UInt16) (subindex : UInt8) (psize : Int)
    (reply : Received) :
    erased (sdoReadAcceptedJ port cfg fuel index subindex psize reply)=
      sdoReadAccepted port cfg fuel index subindex psize reply := by
  rw [sdoReadAcceptedJ,erased_ite]
  by_cases hplain : sdoCommand reply.data &&& 0x02>0 ∨ ¬asInt32 (sdoLdata reply.data) ≤ psize ∨
      ¬((sdoLength reply.data-10).toNat : Int) < asInt32 (sdoLdata reply.data)
  · rw [if_pos hplain,erased_bind]
    simp only [erased_pure,bind_pure]
  · rw [if_neg hplain,sdoReadSegmentsJ_erased]
    simp only [not_or,not_not] at hplain
    obtain ⟨hnormal,hfits,hsegmented⟩ := hplain
    simp only [sdoReadAccepted,if_neg hnormal,if_pos hfits,if_pos hsegmented]

theorem sdoReadJ_erased (fuel : Nat) (index : UInt16) (subindex : UInt8) (ca : Bool)
    (psize : Int) : erased (sdoReadJ port cfg fuel index subindex ca psize)=
      sdoRead port cfg fuel index subindex ca psize := by
  rw [sdoRead_eq,sdoReadJ,erased_bind]
  refine bind_congr (fun sent => ?_)
  cases sent with
  | inl r => exact erased_pure _ _
  | inr out =>
    simp only [erased_bind]
    refine bind_congr (fun reply => ?_)
    have hreply : erased (sdoReadReplyJ port cfg fuel out index (requestedSub ca subindex) psize
        reply)=sdoReadReply port cfg fuel out index (requestedSub ca subindex) psize reply := by
      simp only [sdoReadReplyJ,sdoReadReply,erased_ite,erased_bind,erased_pure]
      simp only [← sdoReadAcceptedJ_erased,erased]
    rw [← hreply]
    simp only [erased,bind_assoc,pure_bind]

theorem sdoWriteAwaitJ_erased (fuel : Nat) (index : UInt16) (subindex : UInt8)
    (request : DownRequest) : erased (sdoWriteAwaitJ port cfg fuel index subindex request)=
      sdoWriteAwait port cfg fuel index subindex request := by
  simp only [sdoWriteAwaitJ,sdoWriteAwait,sdoWriteAccepts,erased_bind,erased_ite,erased_pure,
    bind_assoc,pure_bind,decide_eq_true_eq]
  simp only [← sdoWriteSegmentsJ_erased,erased,bind_assoc,pure_bind]

theorem sdoWriteJ_erased (fuel : Nat) (index : UInt16) (subindex : UInt8) (ca : Bool)
    (p : List UInt8) : erased (sdoWriteJ port cfg fuel index subindex ca p)=
      sdoWrite port cfg fuel index subindex ca p := by
  rw [sdoWrite_eq,sdoWriteJ,erased_bind]
  refine bind_congr (fun sent => ?_)
  cases sent with
  | inl wkc => exact erased_pure _ _
  | inr request =>
    simp only [← sdoWriteAwaitJ_erased,erased,bind_assoc,pure_bind]

theorem journal_of_run {x : MbxM σ (α × β)} {y : MbxM σ α} (h : erased x=y) {c c' : Client σ}
    {a : α} (hy : y c=.ok (a,c')) : ∃ b,x c=.ok ((a,b),c') := by
  rw [← h] at hy
  obtain ⟨r,c1,hx,hr⟩ := bind_ok.mp hy
  cases pure_ok.mp hr
  exact ⟨r.2,hx⟩

end Erasure

end EtherCATMaster.Mailbox
