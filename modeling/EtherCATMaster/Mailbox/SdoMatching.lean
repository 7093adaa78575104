import EtherCATMaster.Mailbox.Sharing
import EtherCATMaster.Mailbox.ServiceAccounts
import EtherCATMaster.Mailbox.UploadSlave

namespace EtherCATMaster.Mailbox

open EtherCATMaster.Framework

variable {σ : Type} {port : Port σ} {cfg : SlaveCfg}

/-- `mbxReceive` for a given behaviour of the slave. -/
def receiveWith (port : Port σ) (cfg : SlaveCfg) : Reading → MbxM σ Received
  | .silent wkc => pure (Received.none (if wkc>0 then ecTimeout else wkc))
  | .full first rest => do
      let mbxin ← getMbxM port
      readLoop port cfg mbxin (first::rest)

/-- The context once the slave has been asked. -/
def Client.asked (port : Port σ) (c : Client σ) : Client σ :=
  { c with env := (port.mailbox c.env).2 }

theorem Shared.asked {own : List Nat} {c : Client σ} (h : Shared own c) (port : Port σ) :
    Shared own (c.asked port) :=
  ⟨h.wf,h.nodup,h.items⟩

/-- What reaches the caller was read into the mailbox at hand, which holds it. -/
theorem readLoop_delivered {m : Nat} : ∀ (as : List Attempt) {c c' : Client σ} {r : Received},
    readLoop port cfg (some m) as c=.ok (r,c') → r.mbx≠none →
      r.mbx=some m ∧ ∃ bytes,r.data=overwrite (c.buffers m) bytes ∧ c'=c.store m bytes := by
  intro as
  induction as with
  | nil =>
    intro c c' r hr hm
    cases pure_ok.mp hr
    exact absurd rfl hm
  | cons a rest ih =>
    intro c c' r hr hm
    rw [readLoop] at hr
    obtain ⟨s,c1,ha,hr⟩ := bind_ok.mp hr
    rcases readAttempt_cases ha with ⟨hw,hs,hc⟩|⟨hw,hs,hh⟩|⟨hw,hs,hc,hh⟩
    · rw [hs,hc] at hr
      by_cases hgo : (Received.none a.wkc).wkc ≤ 0 ∧ rest≠[]
      · rw [if_pos hgo] at hr
        exact ih hr hm
      · rw [if_neg hgo] at hr
        obtain ⟨_,_,_,hr⟩ := bind_ok.mp hr
        cases pure_ok.mp hr
        exact absurd rfl hm
    · rw [hs] at hr
      by_cases hgo : (Received.none 0).wkc ≤ 0 ∧ rest≠[]
      · rw [if_pos hgo] at hr
        exact absurd (readLoop_null rest hr).1 hm
      · rw [if_neg hgo] at hr
        obtain ⟨_,_,_,hr⟩ := bind_ok.mp hr
        cases pure_ok.mp hr
        exact absurd rfl hm
    · have hstop : ¬(s.2.wkc ≤ 0 ∧ rest≠[]) := by
        intro hgo
        have hle := hgo.1
        simp only [hs] at hle
        omega
      rw [if_neg hstop,hs] at hr
      obtain ⟨_,c2,hd,hr⟩ := bind_ok.mp hr
      cases pure_ok.mp hd
      cases pure_ok.mp hr
      exact ⟨rfl,_,rfl,hc⟩

theorem receiveWith_delivered {reading : Reading} {c c' : Client σ} {r : Received}
    (hr : receiveWith port cfg reading c=.ok (r,c')) (hm : r.mbx≠none) :
    ∃ m c1 bytes,getMbxM port c=.ok (some m,c1) ∧ r.mbx=some m ∧
      r.data=overwrite (c1.buffers m) bytes ∧ c'=c1.store m bytes := by
  cases reading with
  | silent wkc =>
    cases pure_ok.mp hr
    exact absurd rfl hm
  | full first rest =>
    obtain ⟨mbxin,c1,hget,hr⟩ := bind_ok.mp hr
    cases mbxin with
    | none => exact absurd (readLoop_null _ hr).1 hm
    | some m =>
      obtain ⟨hmbx,bytes,hdata,hc⟩ := readLoop_delivered _ hr hm
      exact ⟨m,c1,bytes,hget,hmbx,hdata,hc⟩

theorem receiveWith_response {frame : List UInt8} {m : Nat} {c c1 : Client σ}
    (hget : getMbxM port c=.ok (some m,c1)) (hframe : isSdoResponse frame)
    (hmin : 16 ≤ frame.length) (hmax : frame.length ≤ cfg.mbxRl.toNat) :
    receiveWith port cfg (.full ⟨1,frame,false⟩ []) c=
      .ok (⟨1,some m,overwrite (c1.buffers m) frame⟩,c1.store m frame) := by
  have htake : frame.take cfg.mbxRl.toNat=frame := List.take_of_length_le hmax
  have hresponse : isSdoResponse (overwrite (c1.buffers m) frame) :=
    isSdoResponse_of_front (List.prefix_append _ _) hmin hframe
  have hmbx : content m (c1.store m frame)=
      .ok (overwrite (c1.buffers m) frame,c1.store m frame) := by
    simp only [content,Client.store,Function.update_self]
  have hattempt : readAttempt port cfg (some m) ⟨1,frame,false⟩ c1=
      .ok ((none,⟨1,some m,overwrite (c1.buffers m) frame⟩),c1.store m frame) := by
    rw [readAttempt,if_neg (show ¬(1 : Int) ≤ 0 by decide)]
    simp only [htake]
    rw [run_bind (show fillMbx m frame c1=.ok ((),c1.store m frame) from rfl),run_bind hmbx,
      if_neg (by rw [not_handled_of_response hresponse]; decide)]
    rfl
  rw [receiveWith,run_bind hget,readLoop,run_bind hattempt,if_neg (by simp)]
  rfl

def AgreeOff (m : Nat) (c c' : Client σ) : Prop :=
  c'.pool=c.pool ∧ c'.held=c.held ∧ c'.env=c.env ∧ ∀ x,x≠m → c'.buffers x=c.buffers x

theorem agreeOff_store (m : Nat) (bytes : List UInt8) (c : Client σ) :
    AgreeOff m c (c.store m bytes) :=
  ⟨rfl,rfl,rfl,fun _ hx => Function.update_of_ne hx _ _⟩

theorem AgreeOff.move {m : Nat} {c c' : Client σ} (h : AgreeOff m c c') (mv : Move) :
    AgreeOff m (c.move mv) (c'.move mv) := by
  obtain ⟨hpool,hheld,henv,hbuffers⟩ := h
  cases mv with
  | draw =>
    simp only [Client.move,hpool]
    cases getMbx c.pool with
    | mk got pool =>
      cases got with
      | none => exact ⟨hpool,hheld,henv,hbuffers⟩
      | some n =>
        simp only [hheld]
        exact ⟨rfl,rfl,henv,hbuffers⟩
  | fill k bytes =>
    simp only [Client.move,hheld]
    cases c.held[k]? with
    | none => exact ⟨hpool,hheld,henv,hbuffers⟩
    | some n =>
      refine ⟨hpool,hheld,henv,?_⟩
      intro x hx
      simp only [Client.store,Function.update_apply]
      split_ifs with hn
      · rw [← hn,hbuffers x hx]
      · exact hbuffers x hx
  | release k =>
    simp only [Client.move,hheld]
    cases c.held[k]? with
    | none => exact ⟨hpool,hheld,henv,hbuffers⟩
    | some n =>
      simp only [hpool]
      exact ⟨rfl,rfl,henv,hbuffers⟩

theorem AgreeOff.moves {m : Nat} (mvs : List Move) : ∀ {c c' : Client σ},AgreeOff m c c' →
    AgreeOff m (mvs.foldl Client.move c) (mvs.foldl Client.move c') := by
  induction mvs with
  | nil =>
    intro c c' h
    exact h
  | cons mv mvs ih =>
    intro c c' h
    exact ih (h.move mv)

theorem AgreeOff.interfere (port : Port σ) {m : Nat} {c c' : Client σ} (h : AgreeOff m c c') :
    AgreeOff m (c.interfere port) (c'.interfere port) := by
  simp only [Client.interfere,h.2.2.1]
  exact AgreeOff.moves _ ⟨h.1,h.2.1,rfl,h.2.2.2⟩

section Reply

variable {K : Type} {key : List UInt8 → K} {wanted : K} {out : Nat} {c : Client σ}

/-- Whatever the slave replies to the request in the mailbox `out`, a reply is accepted only if it
is for what was wanted. The call compares it with what is in the mailbox of the request. -/
def Matches (port : Port σ) (cfg : SlaveCfg) (key : List UInt8 → K) (wanted : K) (out : Nat)
    (c : Client σ) : Prop :=
  ∀ reading r c1 request c2,receiveWith port cfg reading c=.ok (r,c1) → r.mbx≠none →
    peek port out c1=.ok (request,c2) → isSdoResponse r.data → key r.data=key request →
      key r.data=wanted

/-- The mailbox of the request is not the one the reply is read into, and after all that others do
it still shows what was wanted. -/
def Kept (port : Port σ) (key : List UInt8 → K) (wanted : K) (out : Nat) (c : Client σ) : Prop :=
  ∀ m c1,getMbxM port c=.ok (some m,c1) →
    m≠out ∧ key ((c1.interfere port).buffers out)=wanted

theorem matches_of_kept (h : Kept port key wanted out c) : Matches port cfg key wanted out c := by
  intro reading r c1 request c2 hr hm hpeek _ hkey
  obtain ⟨m,c0,bytes,hget,-,-,hc⟩ := receiveWith_delivered hr hm
  obtain ⟨hne,hwanted⟩ := h m c0 hget
  cases hpeek
  have hsame := ((agreeOff_store m bytes c0).interfere port).2.2.2 out (Ne.symm hne)
  rw [hkey,hc,hsame]
  exact hwanted

theorem kept_of_matches (hshared : Shared [] c) (hl : 16 ≤ cfg.mbxRl.toNat)
    (hfront : ∀ xs ys : List UInt8,xs <+: ys → 16 ≤ xs.length → key ys=key xs)
    (hframe : ∀ k,∃ frame,isSdoResponse frame ∧ frame.length=16 ∧ key frame=k)
    (hother : ∃ k,k≠wanted) (h : Matches port cfg key wanted out c) :
    Kept port key wanted out c := by
  intro m c0 hget
  -- the slave may answer with any key, and does so wrongly if it is found in the request
  have hanswer : ∀ k,∃ frame,key (overwrite (c0.buffers m) frame)=k ∧
      (key (((c0.store m frame).interfere port).buffers out)=k → k=wanted) := by
    intro k
    obtain ⟨frame,hresponse,hlen,hkey⟩ := hframe k
    have hdata : key (overwrite (c0.buffers m) frame)=k :=
      (hfront frame _ (List.prefix_append _ _) (by omega)).trans hkey
    refine ⟨frame,hdata,?_⟩
    intro hfound
    have hr := receiveWith_response hget hresponse (by omega) (show frame.length ≤ cfg.mbxRl.toNat by
      omega)
    have hwanted := h _ _ _ _ _ hr (by simp) rfl
      (isSdoResponse_of_front (List.prefix_append _ _) (by omega) hresponse)
      (hdata.trans hfound.symm)
    exact hdata.symm.trans hwanted
  have hne : m≠out := by
    intro heq
    obtain ⟨k,hk⟩ := hother
    obtain ⟨frame,hdata,hbad⟩ := hanswer k
    have hheld : Shared [m] c0 :=
      (getMbxM_accounts sharedAccount_ledger c (some m) c0 hget hshared).shared
    have hstored : Shared [m] (c0.store m frame) := ⟨hheld.wf,hheld.nodup,hheld.items⟩
    have hsame := (hstored.interfere port).2 m List.mem_cons_self
    apply hk
    apply hbad
    rw [← heq,hsame]
    simp only [Client.store,Function.update_self]
    exact hdata
  refine ⟨hne,?_⟩
  obtain ⟨frame,-,hwanted⟩ := hanswer (key ((c0.interfere port).buffers out))
  apply hwanted
  rw [((agreeOff_store m frame c0).interfere port).2.2.2 out (Ne.symm hne)]

end Reply

/-- `ecx_SDOread` up to the point where it waits for the initial reply: with the mailbox its request
was in, or with its result if it ends before. -/
def sdoReadSent (port : Port σ) (cfg : SlaveCfg) (index : UInt16) (subindex : UInt8) (ca : Bool)
    (psize : Int) : MbxM σ (SdoRead ⊕ Nat) :=
  sdoService port cfg (fun wkc => .inl ⟨wkc,psize,[]⟩) fun out mbxIn => do
    clearMbx out
    let cnt ← nextMbxCnt cfg
    fillMbx out (sdoFrame 10 cnt (if ca=true then ectSdoUpReqCa else ectSdoUpReq) index
      (requestedSub ca subindex) [0,0,0,0])
    let wkc ← mbxSend port cfg out
    dropMbxIn port mbxIn
    pure (if wkc>0 then .inr out else .inl ⟨wkc,psize,[]⟩)

theorem sdoRead_eq (fuel : Nat) (index : UInt16) (subindex : UInt8) (ca : Bool) (psize : Int) :
    sdoRead port cfg fuel index subindex ca psize=(do
      let sent ← sdoReadSent port cfg index subindex ca psize
      match sent with
      | .inl r => pure r
      | .inr out => do
          let reply ← receiveReply port cfg fuel
          let r ← sdoReadReply port cfg fuel out index (requestedSub ca subindex) psize reply
          dropMbxIn port r.1
          pure r.2) := by
  simp only [sdoRead,sdoReadSent,sdoService,bind_assoc]
  refine bind_congr (fun stale => bind_congr (fun mbxOut => ?_))
  cases mbxOut with
  | none => rfl
  | some out =>
    simp only [sdoReadRequest,bind_assoc,pure_bind]
    refine bind_congr (fun _ => bind_congr (fun cnt => bind_congr (fun _ => ?_)))
    refine bind_congr (fun wkc => ?_)
    by_cases hwkc : wkc>0
    · simp only [if_pos hwkc]
      rfl
    · simp only [if_neg hwkc]

/-- What `ecx_SDOwrite` has sent when it waits for the initial reply: the mailbox the request was
in, the frame as it went to the slave, and what is left for segments. -/
structure DownRequest where
  out : Nat
  frame : List UInt8
  maxdata : Nat
  notLast : Bool
  rest : List UInt8

def sendDown (port : Port σ) (cfg : SlaveCfg) (mbxIn : Option Nat) (out : Nat)
    (request : List UInt8 → DownRequest) : MbxM σ (Int ⊕ DownRequest) := do
  let mbx ← content out
  let wkc ← mbxSend port cfg out
  dropMbxIn port mbxIn
  pure (if wkc>0 then .inr (request (mbx.take cfg.mbxL.toNat)) else .inl wkc)

/-- `ecx_SDOwrite` up to the same point. -/
def sdoWriteSent (port : Port σ) (cfg : SlaveCfg) (index : UInt16) (subindex : UInt8) (ca : Bool)
    (p : List UInt8) : MbxM σ (Int ⊕ DownRequest) :=
  sdoService port cfg .inl fun out mbxIn => do
    clearMbx out
    let maxdata : Int := (cfg.mbxL.toNat : Int)-0x10
    if p.length ≤ 4 ∧ ca=false then do
      let cnt ← nextMbxCnt cfg
      fillMbx out (sdoFrame 10 cnt (ectSdoDownExp ||| (UInt8.ofNat ((4-p.length) <<< 2) &&& 0x0c))
        index subindex p)
      sendDown port cfg mbxIn out fun frame => ⟨out,frame,0,false,[]⟩
    else do
      let cnt ← nextMbxCnt cfg
      let command := if ca=true then ectSdoDownInitCa else ectSdoDownInit
      let sub := requestedSub ca subindex
      if (p.length : Int)>maxdata then
        if maxdata<0 then throw .badLength
        else do
          fillMbx out (sdoFrame (UInt16.ofNat (0x0a+maxdata.toNat)) cnt command index sub
            (le32 (UInt32.ofNat p.length)++p.take maxdata.toNat))
          sendDown port cfg mbxIn out fun frame =>
            ⟨out,frame,maxdata.toNat,true,p.drop maxdata.toNat⟩
      else do
        fillMbx out (sdoFrame (UInt16.ofNat (0x0a+p.length)) cnt command index sub
          (le32 (UInt32.ofNat p.length)++p))
        sendDown port cfg mbxIn out fun frame => ⟨out,frame,0,false,[]⟩

/-- `ecx_SDOwrite` from there on. -/
def sdoWriteAwait (port : Port σ) (cfg : SlaveCfg) (fuel : Nat) (index : UInt16) (subindex : UInt8)
    (request : DownRequest) : MbxM σ Int := do
  let reply ← mbxReceive port cfg
  if reply.wkc>0 then do
    let accepted ← sdoWriteAccepts port request.out reply.data
    if accepted=true then
      if request.notLast=true then do
        let r ← sdoWriteSegments port cfg index subindex (request.maxdata+7) fuel reply.mbx 0
          request.rest reply.wkc
        dropMbxIn port r.1
        pure r.2
      else do
        dropMbxIn port reply.mbx
        pure reply.wkc
    else do
      reportSdoReply index subindex reply.data
      dropMbxIn port reply.mbx
      pure 0
  else do
    dropMbxIn port reply.mbx
    pure reply.wkc

theorem content_seq {α : Type} (m : Nat) (x : MbxM σ α) : (do let _ ← content m; x)=x := rfl

theorem sdoWriteRequest_eq (fuel out : Nat) (mbxIn : Option Nat) (index : UInt16)
    (subindex : UInt8) (maxdata : Nat) (notLast : Bool) (rest : List UInt8) :
    sdoWriteRequest port cfg fuel out mbxIn index subindex maxdata notLast rest=(do
      let sent ← sendDown port cfg mbxIn out fun frame => ⟨out,frame,maxdata,notLast,rest⟩
      match sent with
      | .inl wkc => pure wkc
      | .inr request => sdoWriteAwait port cfg fuel index subindex request) := by
  simp only [sdoWriteRequest,sendDown,bind_assoc,pure_bind]
  refine (content_seq out _).symm.trans ?_
  refine bind_congr (fun mbx => bind_congr (fun wkc => ?_))
  by_cases hwkc : wkc>0
  · simp only [if_pos hwkc]
    rfl
  · simp only [if_neg hwkc]

theorem sdoWrite_eq (fuel : Nat) (index : UInt16) (subindex : UInt8) (ca : Bool) (p : List UInt8) :
    sdoWrite port cfg fuel index subindex ca p=(do
      let sent ← sdoWriteSent port cfg index subindex ca p
      match sent with
      | .inl wkc => pure wkc
      | .inr request => sdoWriteAwait port cfg fuel index subindex request) := by
  simp only [sdoWrite,sdoWriteSent,sdoService,bind_assoc]
  refine bind_congr (fun stale => bind_congr (fun mbxOut => ?_))
  cases mbxOut with
  | none => rfl
  | some out =>
    simp only [sdoWriteStart,bind_assoc]
    refine bind_congr (fun _ => ?_)
    by_cases hsmall : p.length ≤ 4 ∧ ca=false
    · simp only [if_pos hsmall,bind_assoc]
      refine bind_congr (fun cnt => bind_congr (fun _ => ?_))
      exact sdoWriteRequest_eq fuel out stale.mbx index subindex 0 false []
    · simp only [if_neg hsmall,bind_assoc]
      refine bind_congr (fun cnt => ?_)
      by_cases hlong : (p.length : Int) > (cfg.mbxL.toNat : Int)-0x10
      · simp only [if_pos hlong]
        by_cases hneg : (cfg.mbxL.toNat : Int)-0x10<0
        · simp only [if_pos hneg]
          rfl
        · simp only [if_neg hneg,bind_assoc]
          refine bind_congr (fun _ => ?_)
          exact sdoWriteRequest_eq fuel out stale.mbx index subindex _ true _
      · simp only [if_neg hlong,bind_assoc]
        refine bind_congr (fun _ => ?_)
        exact sdoWriteRequest_eq fuel out stale.mbx index subindex 0 false []

section Sharing

variable {α : Type} {refused : Int → α} {request : Nat → Option Nat → MbxM σ α} {c c' : Client σ}
  {a : α}

theorem sdoService_accounts {T : List Nat → Client σ → List Nat → Client σ → Prop}
    (hT : MbxLedger port T) (hreq : ∀ out mbxIn,
      Accounts T (out::(mbxIn.toList++[])) (request out mbxIn) (fun _ => []))
    (hr : sdoService port cfg refused request c=.ok (a,c')) (ha : ∀ wkc,refused wkc≠a) :
    T [] c [] c' := by
  obtain ⟨stale,c1,hs,hr⟩ := bind_ok.mp hr
  obtain ⟨mbxOut,c2,hg,hr⟩ := bind_ok.mp hr
  cases mbxOut with
  | none =>
    cases pure_ok.mp hr
    exact absurd rfl (ha stale.wkc)
  | some out =>
    have h1 : T [] c (stale.mbx.toList++[]) c1 := mbxReceive_accounts hT cfg c stale c1 hs
    have h2 : T (stale.mbx.toList++[]) c1 (out::(stale.mbx.toList++[])) c2 :=
      getMbxM_accounts hT c1 _ c2 hg
    exact hT.trans _ _ _ _ _ _ (hT.trans _ _ _ _ _ _ h1 h2) (hreq out stale.mbx c2 a c' hr)

theorem sendDown_accounts {T : List Nat → Client σ → List Nat → Client σ → Prop} {own : List Nat}
    (hT : MbxLedger port T) (mbxIn : Option Nat) (out : Nat)
    (request : List UInt8 → DownRequest) :
    Accounts T (out::(mbxIn.toList++own)) (sendDown port cfg mbxIn out request)
      (fun _ => own) := by
  refine hT.bind ((quiet_content out).accounts hT) ?_
  intro mbx
  refine hT.bind (mbxSend_accounts hT cfg out) ?_
  intro wkc
  exact dropAndReturn_accounts hT mbxIn _

theorem sdoReadSent_accounts {T : List Nat → Client σ → List Nat → Client σ → Prop}
    (hT : MbxLedger port T) {index : UInt16} {subindex : UInt8} {ca : Bool} {psize : Int} {out : Nat}
    (hr : sdoReadSent port cfg index subindex ca psize c=.ok (.inr out,c')) : T [] c [] c' := by
  refine sdoService_accounts hT ?_ hr (by simp)
  intro out mbxIn
  refine hT.bind ((quiet_clearMbx out).accounts hT) ?_
  intro _
  refine hT.bind ((quiet_nextMbxCnt cfg).accounts hT) ?_
  intro cnt
  refine hT.bind ((quiet_fillMbx out _).accounts hT) ?_
  intro _
  refine hT.bind (mbxSend_accounts hT cfg out) ?_
  intro wkc
  exact dropAndReturn_accounts hT mbxIn _

theorem sdoWriteSent_accounts {T : List Nat → Client σ → List Nat → Client σ → Prop}
    (hT : MbxLedger port T) {index : UInt16} {subindex : UInt8} {ca : Bool} {p : List UInt8}
    {request : DownRequest}
    (hr : sdoWriteSent port cfg index subindex ca p c=.ok (.inr request,c')) : T [] c [] c' := by
  refine sdoService_accounts hT ?_ hr (by simp)
  intro out mbxIn
  refine hT.bind ((quiet_clearMbx out).accounts hT) ?_
  intro _
  refine Accounts.ite (fun _ => ?_) (fun _ => ?_)
  · refine hT.bind ((quiet_nextMbxCnt cfg).accounts hT) ?_
    intro cnt
    refine hT.bind ((quiet_fillMbx out _).accounts hT) ?_
    intro _
    exact sendDown_accounts hT mbxIn out _
  · refine hT.bind ((quiet_nextMbxCnt cfg).accounts hT) ?_
    intro cnt
    refine Accounts.ite (fun _ => Accounts.ite (fun _ => Ledger.throw _) (fun _ => ?_)) (fun _ => ?_)
    · refine hT.bind ((quiet_fillMbx out _).accounts hT) ?_
      intro _
      exact sendDown_accounts hT mbxIn out _
    · refine hT.bind ((quiet_fillMbx out _).accounts hT) ?_
      intro _
      exact sendDown_accounts hT mbxIn out _

end Sharing

/-- What the reply to a download is compared in. -/
def sdoTarget (mbx : List UInt8) : UInt16 × UInt8 := (sdoIndex mbx,sdoSubIndex mbx)

theorem sdoTarget_of_front {xs ys : List UInt8} (h : xs <+: ys) (hl : 16 ≤ xs.length) :
    sdoTarget ys=sdoTarget xs := by
  simp only [sdoTarget,sdoIndex,sdoSubIndex]
  rw [get16_of_front h (by omega),byteAt_of_front h (by omega)]

theorem response_for (target : UInt16 × UInt8) :
    ∃ frame,isSdoResponse frame ∧ frame.length=16 ∧ sdoTarget frame=target := by
  have h := initiatedFrame_isInitiated 0x60 target.1 target.2
    (show 10=6+(List.replicate 4 (0 : UInt8)).length by rfl)
  refine ⟨_,h.1,h.2.2.2.2,?_⟩
  rw [sdoTarget,h.2.1,h.2.2.1]

theorem exists_other_index (index : UInt16) : ∃ k,k≠index := ⟨index+1,by simp⟩

theorem index_kept_of_matches {index : UInt16} {out : Nat} {c : Client σ} (hshared : Shared [] c)
    (hl : 16 ≤ cfg.mbxRl.toNat) (h : Matches port cfg sdoIndex index out c) :
    Kept port sdoIndex index out c := by
  refine kept_of_matches hshared hl ?_ ?_ (exists_other_index index) h
  · intro xs ys hfront hlen
    exact get16_of_front hfront (by omega)
  · intro k
    obtain ⟨frame,hresponse,hlen,htarget⟩ := response_for (k,0)
    exact ⟨frame,hresponse,hlen,congrArg Prod.fst htarget⟩

/-- The initial reply is matched to the request of the call, whatever the slave replies, exactly if
the mailbox of the request is left alone until the comparison. -/
theorem reply_matched_iff_request_kept (port : Port σ) (cfg : SlaveCfg) (c : Client σ) :
    (∀ index subindex ca psize out c1,
      sdoReadSent port cfg index subindex ca psize c=.ok (.inr out,c1) →
      (Kept port sdoIndex index out (c1.asked port) →
        Matches port cfg sdoIndex index out (c1.asked port)) ∧
      (Shared [] c → 16 ≤ cfg.mbxRl.toNat →
        Matches port cfg sdoIndex index out (c1.asked port) →
          Kept port sdoIndex index out (c1.asked port))) ∧
    (∀ index subindex ca p request c1,
      sdoWriteSent port cfg index subindex ca p c=.ok (.inr request,c1) →
      (Kept port sdoTarget (index,requestedSub ca subindex) request.out (c1.asked port) →
        Matches port cfg sdoTarget (index,requestedSub ca subindex) request.out (c1.asked port)) ∧
      (Shared [] c → 16 ≤ cfg.mbxRl.toNat →
        Matches port cfg sdoTarget (index,requestedSub ca subindex) request.out (c1.asked port) →
          Kept port sdoTarget (index,requestedSub ca subindex) request.out (c1.asked port))) := by
  constructor
  · intro index subindex ca psize out c1 hsent
    refine ⟨matches_of_kept,?_⟩
    intro hc hl hmatches
    have hshared := (sdoReadSent_accounts sharedAccount_ledger hsent hc).shared
    exact index_kept_of_matches (hshared.asked _) hl hmatches
  · intro index subindex ca p request c1 hsent
    refine ⟨matches_of_kept,?_⟩
    intro hc hl hmatches
    have hshared := (sdoWriteSent_accounts sharedAccount_ledger hsent hc).shared
    refine kept_of_matches (hshared.asked _) hl ?_ response_for ?_ hmatches
    · intro xs ys hfront hlen
      exact sdoTarget_of_front hfront hlen
    · obtain ⟨k,hk⟩ := exists_other_index index
      exact ⟨(k,0),fun h => hk (congrArg Prod.fst h)⟩

theorem kept_of_alone (h : Alone port) {K : Type} {key : List UInt8 → K} {wanted : K} {out : Nat}
    {c : Client σ} (hnext : (getMbx c.pool).1≠some out) (hkey : key (c.buffers out)=wanted) :
    Kept port key wanted out c := by
  intro m c1 hget
  simp only [getMbxM,interfere_alone h] at hget
  have hm : (getMbx c.pool).1=some m ∧ c1.buffers=c.buffers := by
    cases hg : getMbx c.pool with
    | mk got pool =>
      rw [hg] at hget
      cases hget
      exact ⟨rfl,rfl⟩
  refine ⟨?_,?_⟩
  · intro heq
    rw [heq] at hm
    exact hnext hm.1
  · rw [interfere_alone h]
    simp only [hm.2]
    exact hkey

/-- An SDO response with four bytes of an object. -/
def expeditedAnswer (index : UInt16) : List UInt8 :=
  initiatedFrame 10 0x43 index 0 [1,2,3,4]

/-- Where the call for the object 0x1018 stands when its request has been sent: the mailbox of the
request, the one that comes next and what the request shows. -/
def sentRequest (port : Port Bool) (c : Client Bool) : Option (Option Nat × Option Nat × UInt16) :=
  (sdoReadSent port cfg128 0x1018 0 false 8 c).toOption.map fun r =>
    (r.1.getRight?,(getMbx r.2.pool).1,sdoIndex (r.2.buffers 0))

theorem sentRequest_some {port : Port Bool} {c : Client Bool} {out : Nat} {next : Option Nat}
    {shown : UInt16} (h : sentRequest port c=some (some out,next,shown)) :
    ∃ c1,sdoReadSent port cfg128 0x1018 0 false 8 c=.ok (.inr out,c1) ∧
      (getMbx c1.pool).1=next ∧ sdoIndex (c1.buffers 0)=shown := by
  obtain ⟨sent,c1,hrun,hfacts⟩ := returned_of_map h
  simp only [Prod.mk.injEq] at hfacts
  obtain ⟨hout,hnext,hshown⟩ := hfacts
  cases sent with
  | inl _ => cases hout
  | inr o =>
    cases hout
    exact ⟨c1,hrun,hnext,hshown⟩

theorem full_pool_reply_matched : ∃ c1,
    sdoReadSent (answering (expeditedAnswer 0x1018)) cfg128 0x1018 0 false 8 (Client.start false)=
      .ok (.inr 0,c1) ∧
    Matches (answering (expeditedAnswer 0x1018)) cfg128 sdoIndex 0x1018 0
      (c1.asked (answering (expeditedAnswer 0x1018))) := by
  obtain ⟨c1,hsent,hnext,hshown⟩ := sentRequest_some (show sentRequest
    (answering (expeditedAnswer 0x1018)) (Client.start false)=some (some 0,some 1,0x1018) by
      decide +kernel)
  refine ⟨c1,hsent,?_⟩
  apply ((reply_matched_iff_request_kept _ _ _).1 _ _ _ _ _ _ hsent).1
  refine kept_of_alone (fun _ => rfl) ?_ hshown
  change (getMbx c1.pool).1≠some 0
  rw [hnext]
  decide

/-- All mailboxes but one are drawn by other users. -/
def lastFree : Client Bool :=
  { Client.start false with
    pool := ⟨1,0,1,fun item => item⟩
    held := (List.range 31).map fun k => k+1 }

theorem lastFree_shared : Shared [] lastFree := by
  refine ⟨⟨by decide,by decide,by decide,fun _ hi => hi⟩,by decide,?_⟩
  intro m hm
  simp only [lastFree,List.nil_append,List.mem_map,List.mem_range] at hm
  obtain ⟨k,hk,rfl⟩ := hm
  simp only [mbxPoolSize]
  omega

/-- The reply is read into the mailbox of the request, so that one for another object is taken for
the object asked for. -/
theorem reply_for_other_object_accepted :
    (∃ c1,sdoReadSent (answering (expeditedAnswer 0x1000)) cfg128 0x1018 0 false 8 lastFree=
        .ok (.inr 0,c1) ∧
      ¬Matches (answering (expeditedAnswer 0x1000)) cfg128 sdoIndex 0x1018 0
        (c1.asked (answering (expeditedAnswer 0x1000)))) ∧
    (sdoRead (answering (expeditedAnswer 0x1000)) cfg128 1 0x1018 0 false 8 lastFree).toOption.map
      (fun r => (r.1.wkc,r.1.psize,r.1.data))=some (1,4,[1,2,3,4]) := by
  refine ⟨?_,by decide +kernel⟩
  obtain ⟨c1,hsent,hnext,-⟩ := sentRequest_some (show sentRequest
    (answering (expeditedAnswer 0x1000)) lastFree=some (some 0,some 0,0x1018) by decide +kernel)
  refine ⟨c1,hsent,?_⟩
  intro hmatches
  have hshared := (sdoReadSent_accounts sharedAccount_ledger hsent lastFree_shared).shared
  have halone : Alone (answering (expeditedAnswer 0x1000)) := fun _ => rfl
  have hkept := index_kept_of_matches (hshared.asked _)
    (show 16 ≤ cfg128.mbxRl.toNat by decide) hmatches
  obtain ⟨hne,-⟩ := hkept 0 _ (by
    simp only [getMbxM,interfere_alone halone,Client.asked,hnext]
    rfl)
  exact hne rfl

end EtherCATMaster.Mailbox
