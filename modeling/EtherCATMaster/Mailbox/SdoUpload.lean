import EtherCATMaster.Mailbox.Dialogue
import Mathlib.Tactic.IntervalCases

namespace EtherCATMaster.Mailbox

open EtherCATMaster.Framework

variable {σ : Type} {port : Port σ} {cfg : SlaveCfg}
  {object : UInt16 → UInt8 → Bool → Option (List UInt8)} {view : σ → SlaveView}

def SlaveView.seen (v : SlaveView) : List (List UInt8) × Option Upload :=
  (v.waiting.toList,v.upload)

/-- During an upload two mailboxes are free or in the hands of the call, and the slave is as it was
left. -/
abbrev Serving (view : σ → SlaveView) (own : List Nat) (v : SlaveView) (c : Client σ) : Prop :=
  Talking (fun e => (view e).seen) 2 own v.seen c

theorem SlaveView.seen_inj {v w : SlaveView} (h : v.seen=w.seen) : v=w := by
  obtain ⟨waiting,upload⟩ := v
  obtain ⟨waiting',upload'⟩ := w
  obtain ⟨hwaiting,hupload⟩ := Prod.mk.inj h
  have hhead := congrArg List.head? hwaiting
  rw [Option.head?_toList,Option.head?_toList] at hhead
  exact SlaveView.mk.injEq .. ▸ ⟨hhead,hupload⟩

theorem SlaveView.seen_waiting {v : SlaveView} {reply : List UInt8} {q : List (List UInt8)}
    {upload : Option Upload} (h : v.seen=(reply::q,upload)) :
    q=[] ∧ v=⟨some reply,upload⟩ := by
  obtain ⟨waiting,upload'⟩ := v
  obtain ⟨hwaiting,hupload⟩ := Prod.mk.inj h
  cases waiting with
  | none => cases hwaiting
  | some reply' =>
    obtain ⟨rfl,rfl⟩ := List.cons.inj hwaiting
    obtain rfl : upload'=upload := hupload
    exact ⟨rfl,rfl⟩

theorem Conforms.line (hs : Conforms port cfg object view) :
    Line port cfg fun e => (view e).seen where
  inbox := ⟨by have := hs.inbox.1; omega,hs.inbox.2⟩
  outbox := ⟨by have := hs.outbox.1; omega,hs.outbox.2⟩
  alone := hs.alone
  steady e := congrArg SlaveView.seen (hs.steady e)
  takes := hs.takes
  hands := by
    intro e reply q upload h
    obtain ⟨rfl,hview⟩ := SlaveView.seen_waiting h
    obtain ⟨a,rest,hfull,hwkc,hbytes,hsdo,hmin,hmax,hafter⟩ := hs.hands e reply upload hview
    refine ⟨a,rest,hfull,hwkc,hbytes,hmax,?_,congrArg SlaveView.seen hafter⟩
    exact fun mbx hfront => not_handled_of_response (isSdoResponse_of_front hfront hmin hsdo) _
  silent := by
    intro e upload h
    have hview : view e=⟨none,upload⟩ := SlaveView.seen_inj h
    obtain ⟨wkc,hsilent,hafter⟩ := hs.silent e upload hview
    exact ⟨wkc,hsilent,congrArg SlaveView.seen hafter⟩

theorem Serving.receive {own : List Nat} {c : Client σ} {reply : List UInt8}
    {upload : Option Upload} (hs : Conforms port cfg object view)
    (h : Serving view own ⟨some reply,upload⟩ c) (hl : own.length<2) :
    ∃ r m c',mbxReceive port cfg c=.ok (r,c') ∧ 0 < r.wkc ∧ r.mbx=some m ∧ reply <+: r.data ∧
      isSdoResponse r.data ∧ 16 ≤ reply.length ∧ Serving view (m::own) ⟨none,upload⟩ c' ∧
      c'.buffers=Function.update c.buffers m r.data ∧ c'.errors=c.errors := by
  obtain ⟨-,-,-,-,-,hsdo,hmin,-⟩ := hs.hands c.env reply upload (SlaveView.seen_inj h.seen)
  obtain ⟨r,m,c',hreceive,hwkc,hm,hfront,h',hbuffers,⟨-,herrors⟩,-⟩ :=
    Talking.receive hs.line h hl
  exact ⟨r,m,c',hreceive,hwkc,hm,hfront,isSdoResponse_of_front hfront hmin hsdo,hmin,h',hbuffers,
    herrors⟩

theorem Continues.accepted {room : Nat} {toggle : Bool} {reply rest : List UInt8}
    {upload : Option Upload} (h : Continues room toggle reply rest upload) :
    sdoCommand reply &&& 0xe0=0 := by
  cases h with
  | segment chunk rest _ _ _ _ hcommand _ =>
    rw [hcommand]
    exact (segment_command toggle).1
  | last _ _ _ _ _ hcommand _ =>
    rw [hcommand]
    exact (last_command toggle).1
  | short _ _ hlen _ _ hcommand _ =>
    rw [hcommand]
    exact (short_command toggle hlen).1

theorem sdoCommand_of_front {xs ys : List UInt8} (h : xs <+: ys) (hl : 16 ≤ xs.length) :
    sdoCommand ys=sdoCommand xs :=
  byteAt_of_front h (by omega)

theorem sdoLength_of_front {xs ys : List UInt8} (h : xs <+: ys) (hl : 16 ≤ xs.length) :
    sdoLength ys=sdoLength xs :=
  get16_of_front h (by omega)

theorem segment_round (hs : Conforms port cfg object view) (index : UInt16) (subindex : UInt8)
    (fuel : Nat) (sdo : SdoRead) {m : Nat} {toggle : Bool} {rest : List UInt8} {c : Client σ}
    (h : Serving view [m] ⟨none,some ⟨rest,toggle⟩⟩ c) :
    ∃ (r : Received) (m' : Nat) (c' : Client σ) (reply : List UInt8) (upload : Option Upload),
      0 < r.wkc ∧ r.mbx=some m' ∧ reply <+: r.data ∧ 16 ≤ reply.length ∧
      Continues cfg.mbxRl.toNat toggle reply rest upload ∧
      Serving view [m'] ⟨none,upload⟩ c' ∧ c'.errors=c.errors ∧
      sdoReadSegments port cfg index subindex (fuel+1) (some m) (toggleBit toggle) sdo c=
        (let size := sdoLength r.data-3
        if sdoCommand r.data &&& 0x01>0 then
          let size := if size=7 then
              size-((sdoCommand r.data &&& 0x0e) >>> 1).toUInt16
            else size
          pure (r.mbx,⟨r.wkc,sdo.psize+size.toNat,sdo.data++bytesAt r.data 9 size.toNat⟩)
        else
          sdoReadSegments port cfg index subindex fuel r.mbx (toggleBit toggle ^^^ 0x10)
            ⟨r.wkc,sdo.psize+size.toNat,sdo.data++bytesAt r.data 9 size.toNat⟩) c' := by
  have hin := hs.inbox
  obtain ⟨out,c1,hget,h1,hk1⟩ := h.get hs.line (by simp)
  obtain ⟨cnt,c2,hcnt,h2,hk2⟩ := h1.count cfg
  let frame := sdoFrame 10 cnt (ectSdoSegUpReq+toggleBit toggle) index subindex [0,0,0,0]
  have hlen : frame.length=16 := sdoFrame_length _ _ _ _ _ _
  have h3 := h2.store out frame
  obtain ⟨wkc,c4,hsend,hwkc,h4,hk4⟩ := h3.send hs.line
  have hrequest : isSegmentRequest (((c2.store out frame).buffers out).take cfg.mbxL.toNat)
      toggle := by
    simp only [Client.store,Function.update_self]
    exact isSdoRequest_of_front (request_front _ (by omega)) (by omega)
      (sdoFrame_isSdoRequest _ _ _ _ _)
  obtain ⟨reply,upload,hview,hanswer⟩ :=
    hs.continues _ _ rest toggle (SlaveView.seen_inj h3.seen) hrequest
  rw [hview] at h4
  obtain ⟨c5,hdrop,h5,hk5⟩ := h4.drop hs.line
  obtain ⟨r,m',c',hreceive,hr,hm,hfront,hresponse,hmin,h6,-,he6⟩ :=
    Serving.receive hs h5 (by simp)
  refine ⟨r,m',c',reply,upload,hr,hm,hfront,hmin,hanswer,h6,?_,?_⟩
  · rw [he6,hk5.errors,hk4.errors]
    exact hk2.errors.trans hk1.errors
  · rw [sdoReadSegments,run_bind hget]
    simp only
    rw [run_bind hcnt,run_bind (show fillMbx out frame c2=.ok ((),c2.store out frame) from rfl),
      run_bind hsend,if_pos hwkc,run_bind (show dropMbxIn port (some m) c4=.ok ((),c5) from hdrop),
      run_bind hreceive,if_pos hr,if_pos]
    exact ⟨hresponse,by rw [sdoCommand_of_front hfront hmin]; exact hanswer.accepted⟩

/-- The loop takes in what is left of the object, segment by segment. -/
theorem segments_run (hs : Conforms port cfg object view) {index : UInt16} {subindex : UInt8}
    (fuel : Nat) : ∀ (sdo : SdoRead) {m : Nat} {toggle : Bool} {rest : List UInt8} {c : Client σ},
    rest.length < fuel → Serving view [m] ⟨none,some ⟨rest,toggle⟩⟩ c →
    ∃ m' wkc upload c',sdoReadSegments port cfg index subindex fuel (some m) (toggleBit toggle) sdo c=
        .ok ((some m',⟨wkc,sdo.psize+rest.length,sdo.data++rest⟩),c') ∧ 0 < wkc ∧
      Serving view [m'] ⟨none,upload⟩ c' ∧ c'.errors=c.errors := by
  induction fuel with
  | zero =>
    intro sdo m toggle rest c hf
    omega
  | succ fuel ih =>
    intro sdo m toggle rest c hf h
    have hroom := hs.outbox.2
    obtain ⟨r,m',c',reply,upload,hr,hm,hfront,hmin,hanswer,h',he,hrun⟩ :=
      segment_round hs index subindex fuel sdo h
    have hcommand := sdoCommand_of_front hfront hmin
    have hlength := sdoLength_of_front hfront hmin
    rw [hrun,hcommand,hlength,hm]
    dsimp only
    cases hanswer with
    | segment chunk rest _ hseven hfit hsize hcmd hdata =>
      rw [hsize,hcmd,segment_size (by omega),if_neg (segment_command toggle).2,toggleBit_not]
      have hbytes : bytesAt r.data 9 chunk.length=chunk := by
        have hdrop := congrArg List.length hdata
        rw [List.length_drop] at hdrop
        rw [bytesAt_of_front hfront (by omega),hdata,List.take_length]
      rw [hbytes]
      rw [List.length_append] at hf
      obtain ⟨m'',wkc,upload,c'',hnext,hw,h'',he''⟩ :=
        ih ⟨r.wkc,sdo.psize+chunk.length,sdo.data++chunk⟩ (by omega) h'
      refine ⟨m'',wkc,upload,c'',?_,hw,h'',he''.trans he⟩
      rw [hnext,List.length_append,List.append_assoc]
      push_cast
      rw [Int.add_assoc]
    | last chunk _ hseven hfit hsize hcmd hdata =>
      rw [hsize,hcmd,if_pos (last_command toggle).2.1,(last_command toggle).2.2]
      have hbytes : bytesAt r.data 9 rest.length=rest := by
        have hdrop := congrArg List.length hdata
        rw [List.length_drop] at hdrop
        rw [bytesAt_of_front hfront (by omega),hdata,List.take_length]
      refine ⟨m',r.wkc,none,c',?_,hr,h',he⟩
      simp only [UInt16.sub_zero,ite_self,segment_size (show rest.length ≤ ecMaxMbx by omega),
        hbytes]
      rfl
    | short chunk _ hshort hlen hsize hcmd hdata =>
      rw [hsize,hcmd,if_pos (short_command toggle hshort).2.1]
      have hbytes : bytesAt r.data 9 rest.length=rest := by
        rw [bytesAt_of_front hfront (by omega),hdata]
      refine ⟨m',r.wkc,none,c',?_,hr,h',he⟩
      have hseven : (10 : UInt16)-3=7 := by decide
      simp only [hseven,if_true,(short_command toggle hshort).2.2,hbytes]
      rfl

theorem Serving.clear {v : SlaveView} {c : Client σ} (hs : Conforms port cfg object view)
    (h : Serving view [] v c) : ∃ r c',mbxReceive port cfg c=.ok (r,c') ∧
      Serving view (r.mbx.toList++[]) ⟨none,v.upload⟩ c' ∧ c'.errors=c.errors := by
  obtain ⟨waiting,upload⟩ := v
  cases waiting with
  | none =>
    obtain ⟨r,c',hr,-,hm,h',hk⟩ := h.receiveNothing hs.line
    refine ⟨r,c',hr,?_,hk.errors⟩
    rw [hm]
    exact h'
  | some stale =>
    obtain ⟨r,m,c',hr,-,hm,-,-,-,h',-,he⟩ := Serving.receive hs h (by simp)
    refine ⟨r,c',hr,?_,he⟩
    rw [hm]
    exact h'

theorem Initiates.response {room : Nat} {index : UInt16} {subindex : UInt8}
    {data reply : List UInt8} {upload : Option Upload}
    (h : Initiates room index subindex data reply upload) : sdoIndex reply=index := by
  cases h with
  | expedited h => exact h.2.1
  | normal h => exact h.2.1
  | segmented _ _ _ _ h => exact h.2.1

/-- The call up to the initial reply. -/
theorem initiated_run (hs : Conforms port cfg object view) (fuel : Nat) (index : UInt16)
    (subindex : UInt8) (ca : Bool) (psize : Int) {v : SlaveView} {c : Client σ}
    {data : List UInt8} (h : Serving view [] v c)
    (hobject : object index (requestedSub ca subindex) ca=some data) :
    ∃ (r : Received) (m : Nat) (c' : Client σ) (reply : List UInt8) (upload : Option Upload),
      0 < r.wkc ∧ r.mbx=some m ∧ reply <+: r.data ∧ 16 ≤ reply.length ∧
      Initiates cfg.mbxRl.toNat index (requestedSub ca subindex) data reply upload ∧
      Serving view [m] ⟨none,upload⟩ c' ∧ c'.errors=c.errors ∧
      sdoRead port cfg (fuel+1) index subindex ca psize c=(do
        let s ← sdoReadAccepted port cfg (fuel+1) index (requestedSub ca subindex) psize r
        dropMbxIn port s.1
        pure s.2) c' := by
  have hin := hs.inbox
  let sub := requestedSub ca subindex
  let command := if ca=true then ectSdoUpReqCa else ectSdoUpReq
  obtain ⟨stale,c0,hstale,h0,he0⟩ := Serving.clear hs h
  obtain ⟨out,c1,hget,h1,hk1⟩ := h0.get hs.line (by cases stale.mbx <;> simp)
  have h2 := h1.store out (List.replicate ecMaxMbx 0)
  obtain ⟨cnt,c3,hcnt,h3,hk3⟩ := h2.count cfg
  let frame := sdoFrame 10 cnt command index sub [0,0,0,0]
  have hlen : frame.length=16 := sdoFrame_length _ _ _ _ _ _
  have h4 := h3.store out frame
  obtain ⟨wkc,c5,hsend,hwkc,h5,hk5⟩ := h4.send hs.line
  have hrequest : isUploadRequest (((c3.store out frame).buffers out).take cfg.mbxL.toNat)
      index sub ca := by
    simp only [Client.store,Function.update_self]
    have hfront : frame <+: (overwrite (c3.buffers out) frame).take cfg.mbxL.toNat :=
      request_front _ (by omega)
    refine ⟨isSdoRequest_of_front hfront (by omega) (sdoFrame_isSdoRequest _ _ _ _ _),?_,?_⟩
    · exact (get16_of_front hfront (by omega)).trans (sdoFrame_index _ _ _ _ _ _)
    · exact (byteAt_of_front hfront (by omega)).trans (sdoFrame_subindex _ _ _ _ _ _)
  have hwaiting : (view (c3.store out frame).env).waiting=none := by
    rw [SlaveView.seen_inj h4.seen]
  obtain ⟨reply,upload,hview,hanswer⟩ := hs.initiates _ _ index sub ca data hwaiting hrequest hobject
  rw [hview] at h5
  obtain ⟨c6,hdrop,h6,hk6⟩ := h5.dropIn hs.line
  obtain ⟨r,m,c7,hreceive,hr,hm,hfront,hresponse,hmin,h7,hb7,he7⟩ :=
    Serving.receive hs h6 (by simp)
  have hindex : sdoIndex r.data=index :=
    (get16_of_front hfront (by omega)).trans hanswer.response
  -- the mailbox of the request has the index even if the reply was read into it
  have hpeeked : sdoIndex (c7.buffers out)=index := by
    rw [hb7,Function.update_apply]
    split_ifs
    · exact hindex
    · rw [hk6.buffers,hk5.buffers]
      simp only [Client.store,Function.update_self]
      exact (get16_of_front (List.prefix_append frame _) (by omega)).trans
        (sdoFrame_index _ _ _ _ _ _)
  obtain ⟨c8,hpeek,h8,hk8⟩ := h7.peek hs.line out
  refine ⟨r,m,c8,reply,upload,hr,hm,hfront,hmin,hanswer,h8,?_,?_⟩
  · calc c8.errors=c6.errors := hk8.errors.trans he7
      _=c3.errors := hk6.errors.trans hk5.errors
      _=c.errors := hk3.errors.trans (hk1.errors.trans he0)
  · have hreply : receiveReply port cfg (fuel+1) c6=.ok (r,c7) := by
      rw [receiveReply,run_bind hreceive,if_neg (by simp [hm])]
      rfl
    rw [sdoRead,sdoService,run_bind hstale,run_bind hget]
    simp only [sdoReadRequest]
    have hfill : fillMbx out (sdoFrame 10 cnt (if ca=true then ectSdoUpReqCa else ectSdoUpReq) index
        (if ca=true ∧ subindex>1 then 1 else subindex) [0,0,0,0]) c3=
        .ok ((),c3.store out frame) := rfl
    rw [run_bind (show clearMbx out c1=.ok ((),c1.store out (List.replicate ecMaxMbx 0)) from rfl),
      run_bind hcnt,run_bind hfill,run_bind hsend,if_pos hwkc,run_bind hdrop,run_bind hreply]
    apply run_bind_congr
    rw [sdoReadReply,if_pos ⟨hr,by simp [hm]⟩,run_bind hpeek,
      if_pos ⟨hresponse,hindex.trans hpeeked.symm⟩]
    rfl

theorem expedited_command {command : UInt8} {n : Nat} (hpos : 0 < n) (hfour : n ≤ 4)
    (h : command &&& 0xef=0x43+UInt8.ofNat ((4-n)*4)) :
    command &&& 0x02>0 ∧ 4-((command >>> 2) &&& 0x03).toNat=n := by
  obtain ⟨v⟩ := command
  interval_cases n <;> revert v <;> decide +kernel

theorem normal_command {command : UInt8} (h : command &&& 0xef=0x41) :
    ¬(command &&& 0x02>0) := by
  obtain ⟨v⟩ := command
  revert v
  decide +kernel

theorem asInt32_size {n : Nat} (hn : n<2^32) :
    asInt32 (UInt32.ofNat n)=if n<2^31 then (n : Int) else n-2^32 := by
  rw [asInt32,UInt32.toNat_ofNat_of_lt' (show n<UInt32.size by simpa [UInt32.size] using hn)]

/-- How an accepted reply has to end: with the object, or with the error for want of room. -/
def Concludes (data : List UInt8) (index : UInt16) (subindex : UInt8) (psize : Int)
    (c : Client σ) (s : SdoRead) (c' : Client σ) : Prop :=
  if (data.length : Int) ≤ psize then 0 < s.wkc ∧ s.psize=data.length ∧ s.data=data
  else s.wkc=0 ∧ c'.errors=.packet index subindex 3::c.errors

/-- The call hands over the object, or refuses it for want of room. -/
def Uploads (port : Port σ) (cfg : SlaveCfg) (data : List UInt8) (fuel : Nat) (index : UInt16)
    (subindex : UInt8) (ca : Bool) (psize : Int) (c : Client σ) : Prop :=
  ∃ r c',sdoRead port cfg fuel index subindex ca psize c=.ok (r,c') ∧
    Concludes data index (requestedSub ca subindex) psize c r c'

section Accepted

variable {fuel m : Nat} {index : UInt16} {subindex : UInt8} {psize : Int} {data reply : List UInt8}
  {r : Received} {upload : Option Upload} {c : Client σ}

theorem refused_run (hm : r.mbx=some m) (h : Serving view [m] ⟨none,upload⟩ c)
    (hfit : ¬(data.length : Int) ≤ psize) : ∃ m' s upload' c',
      (do pushError (.packet index subindex 3); pure (r.mbx,⟨0,psize,[]⟩) :
        MbxM σ (Option Nat × SdoRead)) c=.ok ((some m',s),c') ∧
      Serving view [m'] ⟨none,upload'⟩ c' ∧ Concludes data index subindex psize c s c' := by
  let c' : Client σ := { c with errors := .packet index subindex 3::c.errors }
  refine ⟨m,⟨0,psize,[]⟩,upload,c',?_,⟨h.tail,h.cells,h.items,h.supply,h.seen⟩,?_⟩
  · rw [hm,run_bind (show pushError (.packet index subindex 3) c=.ok ((),c') from rfl)]
    rfl
  · rw [Concludes,if_neg hfit]
    exact ⟨rfl,rfl⟩

theorem accepted_run (psize : Int) (hs : Conforms port cfg object view) (hr : 0 < r.wkc)
    (hm : r.mbx=some m) (hfront : reply <+: r.data) (hmin : 16 ≤ reply.length)
    (hanswer : Initiates cfg.mbxRl.toNat index subindex data reply upload)
    (h : Serving view [m] ⟨none,upload⟩ c) (hsize : data.length<2^31) (hfuel : data.length < fuel) :
    ∃ m' s upload' c',sdoReadAccepted port cfg fuel index subindex psize r c=
        .ok ((some m',s),c') ∧
      Serving view [m'] ⟨none,upload'⟩ c' ∧ Concludes data index subindex psize c s c' := by
  have hroom := hs.outbox.2
  have hcommand := sdoCommand_of_front hfront hmin
  have hlength := sdoLength_of_front hfront hmin
  have hldata : sdoLdata r.data=sdoLdata reply := get32_of_front hfront (by omega)
  have hlen := asInt32_size (show data.length<2^32 by omega)
  rw [if_pos hsize] at hlen
  rw [sdoReadAccepted,hcommand,hlength,hldata]
  cases hanswer with
  | expedited hinit hpos hfour hcmd hdata =>
    obtain ⟨hexpedited,hbytesize⟩ := expedited_command hpos hfour hcmd
    rw [if_pos hexpedited,hbytesize]
    by_cases hfit : (data.length : Int) ≤ psize
    · simp only [ge_iff_le,if_pos hfit]
      refine ⟨m,⟨r.wkc,data.length,bytesAt r.data 12 data.length⟩,none,c,by rw [hm]; rfl,h,?_⟩
      rw [Concludes,if_pos hfit,bytesAt_of_front hfront (by omega),hdata]
      exact ⟨hr,rfl,rfl⟩
    · simp only [ge_iff_le,if_neg hfit]
      exact refused_run hm h hfit
  | normal hinit hfits hcmd hannounced hdata =>
    rw [if_neg (normal_command hcmd),hannounced,hlen]
    by_cases hfit : (data.length : Int) ≤ psize
    · have hsegments : ¬(data.length : Int)<data.length := by omega
      have hneg : ¬(data.length : Int)<0 := by omega
      simp only [hinit.2.2.2.1,initial_size (show data.length ≤ ecMaxMbx by omega),if_pos hfit,
        if_neg hsegments,if_neg hneg]
      refine ⟨m,⟨r.wkc,data.length,bytesAt r.data 16 data.length⟩,none,c,by rw [hm]; rfl,h,?_⟩
      have hwhole := hinit.2.2.2.2
      rw [Concludes,if_pos hfit,bytesAt_of_front hfront (by omega),hdata,List.take_length]
      exact ⟨hr,rfl,rfl⟩
    · simp only [if_neg hfit]
      exact refused_run hm h hfit
  | segmented first rest hsplit hmore hinit hfits hcmd hannounced hdata =>
    rw [if_neg (normal_command hcmd),hannounced,hlen]
    have hlens : data.length=first.length+rest.length := by
      rw [hsplit,List.length_append]
    have hrest : 0 < rest.length := List.length_pos_iff.mpr hmore
    by_cases hfit : (data.length : Int) ≤ psize
    · have hsegments : (first.length : Int)<data.length := by omega
      simp only [hinit.2.2.2.1,initial_size (show first.length ≤ ecMaxMbx by omega),if_pos hfit,
        if_pos hsegments,hm]
      have hwhole := hinit.2.2.2.2
      rw [bytesAt_of_front hfront (by omega),hdata,List.take_length]
      obtain ⟨m',wkc,upload',c',hrun,hwkc,h',-⟩ :=
        segments_run hs fuel ⟨r.wkc,first.length,first⟩ (by omega) h
      refine ⟨m',_,upload',c',hrun,h',?_⟩
      rw [Concludes,if_pos hfit]
      refine ⟨hwkc,?_,hsplit.symm⟩
      simp only
      omega
    · simp only [if_neg hfit]
      exact refused_run hm h hfit

theorem accepted_halts (hs : Conforms port cfg object view) (hfront : reply <+: r.data)
    (hmin : 16 ≤ reply.length)
    (hanswer : Initiates cfg.mbxRl.toNat index subindex data reply upload)
    (hsize : 2^31 ≤ data.length) (hmax : data.length<2^32) (hp : 0 ≤ psize) :
    sdoReadAccepted port cfg fuel index subindex psize r c=.error .badLength := by
  have hroom := hs.outbox.2
  have hmbx : ecMaxMbx=1486 := rfl
  have hcommand := sdoCommand_of_front hfront hmin
  have hlength := sdoLength_of_front hfront hmin
  have hldata : sdoLdata r.data=sdoLdata reply := get32_of_front hfront (by omega)
  have hlen := asInt32_size hmax
  rw [if_neg (by omega)] at hlen
  cases hanswer with
  | expedited hinit hpos hfour hcmd hdata => omega
  | normal hinit hfits hcmd hannounced hdata => omega
  | segmented first rest hsplit hmore hinit hfits hcmd hannounced hdata =>
    rw [sdoReadAccepted,hcommand,hlength,hldata,if_neg (normal_command hcmd),hannounced,hlen]
    have hfit : (data.length : Int)-2^32 ≤ psize := by omega
    have hsegments : ¬(first.length : Int) < (data.length : Int)-2^32 := by omega
    have hneg : (data.length : Int)-2^32<0 := by omega
    simp only [hinit.2.2.2.1,initial_size (show first.length ≤ ecMaxMbx by omega),if_pos hfit,
      if_neg hsegments,if_pos hneg]
    rfl

end Accepted

theorem long_upload_halts (hs : Conforms port cfg object view) (rounds : Nat) {index : UInt16}
    {subindex : UInt8} {ca : Bool} {psize : Int} {data : List UInt8} {v : SlaveView}
    {c : Client σ} (h : Serving view [] v c)
    (hobject : object index (requestedSub ca subindex) ca=some data) (hp : 0 ≤ psize)
    (hsize : 2^31 ≤ data.length) : ¬Uploads port cfg data (rounds+1) index subindex ca psize c := by
  obtain ⟨r,m,c1,reply,upload,hr,hm,hfront,hmin,hanswer,h1,he,hrun⟩ :=
    initiated_run hs rounds index subindex ca psize h hobject
  have hhalt : sdoReadAccepted port cfg (rounds+1) index (requestedSub ca subindex) psize r c1=
      .error .badLength :=
    accepted_halts hs hfront hmin hanswer hsize (hs.size _ _ _ _ hobject) hp
  intro hup
  obtain ⟨s,c',hread,-⟩ := hup
  rw [hrun] at hread
  obtain ⟨_,_,hok,_⟩ := bind_ok.mp hread
  rw [hhalt] at hok
  cases hok

/-- A shorter one is taken in by each of the three ways, or refused if it does not fit. The slave
serves the next call as well. -/
theorem short_upload_serving (hs : Conforms port cfg object view) (rounds : Nat) {index : UInt16}
    {subindex : UInt8} {ca : Bool} (psize : Int) {data : List UInt8} {v : SlaveView}
    {c : Client σ} (h : Serving view [] v c)
    (hobject : object index (requestedSub ca subindex) ca=some data) (hsize : data.length<2^31)
    (hfuel : data.length < rounds+1) :
    ∃ s v' c',sdoRead port cfg (rounds+1) index subindex ca psize c=.ok (s,c') ∧
      Serving view [] v' c' ∧ Concludes data index (requestedSub ca subindex) psize c s c' := by
  obtain ⟨r,m,c1,reply,upload,hr,hm,hfront,hmin,hanswer,h1,he,hrun⟩ :=
    initiated_run hs rounds index subindex ca psize h hobject
  obtain ⟨m',s,upload',c2,haccepted,h2,hend⟩ :=
    accepted_run psize hs hr hm hfront hmin hanswer h1 hsize hfuel
  obtain ⟨c3,hdrop,h3,hk3⟩ := h2.drop hs.line
  refine ⟨s,_,c3,?_,h3,?_⟩
  · rw [hrun,run_bind haccepted,run_bind (show dropMbxIn port (some m') c2=.ok ((),c3) from hdrop)]
    rfl
  · simp only [Concludes,hk3.errors,← he] at hend ⊢
    exact hend

theorem short_upload_run (hs : Conforms port cfg object view) (rounds : Nat) {index : UInt16}
    {subindex : UInt8} {ca : Bool} (psize : Int) {data : List UInt8} {v : SlaveView}
    {c : Client σ} (h : Serving view [] v c)
    (hobject : object index (requestedSub ca subindex) ca=some data) (hsize : data.length<2^31)
    (hfuel : data.length < rounds+1) : Uploads port cfg data (rounds+1) index subindex ca psize c := by
  obtain ⟨s,-,c',hrun,-,hend⟩ := short_upload_serving hs rounds psize h hobject hsize hfuel
  exact ⟨s,c',hrun,hend⟩

/-- From a conforming slave `ecx_SDOread` gets the object, or finds that it does not fit, exactly if
it is shorter than 2 GiB. -/
theorem sdo_upload_iff_below_two_gib (hs : Conforms port cfg object view) {fuel : Nat}
    {index : UInt16} {subindex : UInt8} {ca : Bool} {psize : Int} {data : List UInt8}
    {c : Client σ} (hwf : c.pool.Wf) (htwo : 2 ≤ c.pool.listcount)
    (hobject : object index (requestedSub ca subindex) ca=some data) (hp : 0 ≤ psize)
    (hfuel : data.length < fuel) :
    Uploads port cfg data fuel index subindex ca psize c ↔ data.length<2^31 := by
  have h : Serving view [] (view c.env) c :=
    ⟨hwf.tail,hwf.cells,by simp,by simpa using htwo,rfl⟩
  obtain ⟨rounds,rfl⟩ : ∃ rounds,fuel=rounds+1 := ⟨fuel-1,by omega⟩
  constructor
  · intro hup
    by_contra hlong
    exact long_upload_halts hs rounds h hobject hp (by omega) hup
  · intro hsize
    exact short_upload_run hs rounds psize h hobject hsize hfuel

/-- A dictionary with one object. -/
def oneObject (data : List UInt8) (index : UInt16) (_ : UInt8) (_ : Bool) : Option (List UInt8) :=
  if index=0x1008 then some data else none

theorem oneObject_size {data : List UInt8} (h : data.length<2^32) (index : UInt16)
    (subindex : UInt8) (ca : Bool) (data' : List UInt8)
    (hobject : oneObject data index subindex ca=some data') : data'.length<2^32 := by
  simp only [oneObject] at hobject
  split_ifs at hobject
  cases hobject
  exact h

/-- A slave with mailboxes of 32 bytes, in the state after start-up. -/
def cfg32 : SlaveCfg := ⟨1,32,32,true⟩

def UploadState.start (room : Nat) : UploadState room := ⟨⟨none,none⟩,fits_of_empty room none⟩

theorem forty_bytes_arrive :
    Uploads (uploadSlave (oneObject (List.replicate 40 7)) (show 16 ≤ cfg32.mbxRl.toNat by decide))
      cfg32 (List.replicate 40 7) 41 0x1008 0 false 64 (Client.start (UploadState.start 32)) := by
  have hs : Conforms (uploadSlave (oneObject (List.replicate 40 7))
      (show 16 ≤ cfg32.mbxRl.toNat by decide)) cfg32 (oneObject (List.replicate 40 7))
      UploadState.view :=
    uploadSlave_conforms _ (oneObject_size (by decide)) (by decide) _ (by decide)
  exact (sdo_upload_iff_below_two_gib hs initMbxPool_wf (by decide) rfl (by decide)
    (by decide)).mpr (by decide)

/-- An object of 2 GiB is not refused. -/
theorem two_gib_halt :
    ¬Uploads (uploadSlave (oneObject (List.replicate (2^31) 0))
        (show 16 ≤ cfg32.mbxRl.toNat by decide))
      cfg32 (List.replicate (2^31) 0) (2^31+1) 0x1008 0 false 64
      (Client.start (UploadState.start 32)) := by
  have hlen : (List.replicate (2^31) (0 : UInt8)).length=2^31 := List.length_replicate
  have hs : Conforms (uploadSlave (oneObject (List.replicate (2^31) 0))
      (show 16 ≤ cfg32.mbxRl.toNat by decide)) cfg32 (oneObject (List.replicate (2^31) 0))
      UploadState.view :=
    uploadSlave_conforms _ (oneObject_size (by rw [hlen]; decide)) (by decide) _ (by decide)
  have h : Serving UploadState.view [] ⟨none,none⟩ (Client.start (UploadState.start 32)) :=
    ⟨by decide,initMbxPool_wf.cells,by simp,by decide,rfl⟩
  exact long_upload_halts hs (2^31) h (if_pos rfl) (by decide) (by rw [hlen])

end EtherCATMaster.Mailbox
