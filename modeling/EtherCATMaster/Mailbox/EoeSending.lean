import EtherCATMaster.Mailbox.EoeRoundTrip
import EtherCATMaster.Mailbox.SoeReading

namespace EtherCATMaster.Mailbox

open EtherCATMaster.Framework

variable {σ : Type} {port : Port σ} {cfg : SlaveCfg} {p : List UInt8}

def eoePayload (mbx : List UInt8) : List UInt8 := bytesAt mbx 10 (sdoLength mbx-4).toNat

/-- To a slave with such a mailbox the call returns whatever becomes of its sends, and has sent all
bytes if they succeed. -/
def SendsFrame (mbxL : UInt16) (p : List UInt8) : Prop :=
  ∀ (σ : Type) (port : Port σ) (cfg : SlaveCfg) (eoePort : UInt8)
    (c : Client (σ × List (List UInt8))),
    cfg.mbxL=mbxL → Alone port → c.pool.Wf → 1 ≤ c.pool.listcount →
    ∃ fuel wkc c',eoeSend port.recording cfg fuel eoePort p c=.ok (wkc,c') ∧
      (0 < wkc → ∃ frames,taken c'=taken c++frames ∧ (frames.map eoePayload).flatten=p)

section Pool

/-- A mailbox is left in the pool. -/
structure MbxPool.Supplied (pool : MbxPool) : Prop where
  tail : pool.listtail < mbxPoolSize
  cells : ∀ i < mbxPoolSize,pool.mbxemptylist i < mbxPoolSize
  count : 0 < pool.listcount

theorem MbxPool.Supplied.turn {pool : MbxPool} (h : pool.Supplied) :
    ∃ m,getMbx pool=(some m,(getMbx pool).2) ∧ (dropMbx (getMbx pool).2 m).Supplied := by
  have hm := h.cells _ h.tail
  refine ⟨pool.mbxemptylist pool.listtail,?_,?_⟩
  · rw [getMbx,if_pos h.count]
  · rw [getMbx,if_pos h.count,dropMbx,if_pos hm]
    refine ⟨ringNext_lt h.tail,?_,Nat.succ_pos _⟩
    intro i hi
    simp only [Function.update_apply]
    split_ifs
    · exact hm
    · exact h.cells i hi

theorem Alone.recording (ha : Alone port) : Alone port.recording := fun e => ha e.1

theorem mbxSend_returns (port : Port σ) (cfg : SlaveCfg) (m : Nat) (c : Client σ) :
    ∃ w c',mbxSend port cfg m c=.ok (w,c') := by
  have hwrite : ∃ w c',writeMailbox port cfg m c=.ok (w,c') := by
    rw [writeMailbox]
    by_cases hl : 0 < cfg.mbxL.toNat ∧ cfg.mbxL.toNat ≤ ecMaxMbx ∧ cfg.preop=true
    · rw [if_pos hl,run_bind (show content m c=.ok (c.buffers m,c) from rfl)]
      obtain ⟨w,c1,hw⟩ : ∃ w c1,writeSlave port ((c.buffers m).take cfg.mbxL.toNat) c=.ok (w,c1) :=
        ⟨_,_,rfl⟩
      rw [run_bind hw]
      by_cases hfail : w ≤ 0
      · obtain ⟨empty,c2,hempty⟩ : ∃ empty c2,mbxEmpty port c1=.ok (empty,c2) := ⟨_,_,rfl⟩
        rw [if_pos hfail,run_bind hempty]
        by_cases he : empty=true
        · rw [if_pos he]
          exact ⟨_,_,rfl⟩
        · rw [if_neg he]
          exact ⟨_,_,rfl⟩
      · rw [if_neg hfail]
        exact ⟨_,_,rfl⟩
    · rw [if_neg hl]
      exact ⟨_,_,rfl⟩
  obtain ⟨w,c1,hw⟩ := hwrite
  obtain ⟨c2,hdrop⟩ : ∃ c2,dropMbxM port m c1=.ok ((),c2) := ⟨_,rfl⟩
  refine ⟨w,c2,?_⟩
  rw [mbxSend,run_bind hw,run_bind hdrop]
  rfl

theorem mbxSend_takes (htakes : ∀ e frame,0 < (port.write e frame).1)
    (hin : 0 < cfg.mbxL.toNat ∧ cfg.mbxL.toNat ≤ ecMaxMbx ∧ cfg.preop=true) {m : Nat}
    {c c' : Client σ} {w : Int} (hr : mbxSend port cfg m c=.ok (w,c')) : 0 < w := by
  have hwkc := htakes c.env ((c.buffers m).take cfg.mbxL.toNat)
  obtain ⟨w',c1,hwrite,hr⟩ := bind_ok.mp hr
  obtain ⟨_,c2,-,hr⟩ := bind_ok.mp hr
  cases pure_ok.mp hr
  rw [writeMailbox,if_pos hin,run_bind (show content m c=.ok (c.buffers m,c) from rfl)] at hwrite
  obtain ⟨w1,c3,hslave,hwrite⟩ := bind_ok.mp hwrite
  cases hslave
  rw [if_neg (Int.not_le.mpr hwkc)] at hwrite
  cases pure_ok.mp hwrite
  exact hwkc

end Pool

section Rounds

theorem fragmentSize_le (maxdata : Nat) (p : List UInt8) (offset : Nat) :
    fragmentSize maxdata p offset ≤ maxdata ∧ fragmentSize maxdata p offset ≤ p.length-offset := by
  simp only [fragmentSize,Nat.shiftRight_eq_div_pow,Nat.shiftLeft_eq]
  split_ifs <;> omega

theorem eoePayload_front {cnt : UInt8} {info1 info2 : UInt16} {data mbx : List UInt8}
    (h : eoeFrame (UInt16.ofNat (4+data.length)) cnt info1 info2 data <+: mbx)
    (hdata : data.length ≤ ecMaxMbx) : eoePayload mbx=data := by
  have hmax : data.length ≤ 1486 := hdata
  have hlen := eoeFrame_length (UInt16.ofNat (4+data.length)) cnt info1 info2 data
  have hread : get16 mbx 0=_ := get16_of_front h (by omega)
  have hlength : sdoLength mbx=UInt16.ofNat (4+data.length) := hread.trans (get16_le16 [] _ _)
  obtain ⟨-,hsize⟩ := dataSize (by omega) hlength
  rw [eoePayload,hsize,bytesAt_of_front h (by omega)]
  exact List.take_length

/-- One round of the loop: a fragment goes out, and the next one follows it if there is more and
the slave has taken it. -/
theorem eoeSendLoop_round (ha : Alone port) (eoePort : UInt8) (p : List UInt8) {maxdata : Nat}
    (hmax : 10+maxdata=cfg.mbxL.toNat) (fuel offset : Nat) (fragment : UInt8)
    {c : Client (σ × List (List UInt8))} (h : c.pool.Supplied) :
    ∃ w c',c'.pool.Supplied ∧
      ((∀ e frame,0 < (port.write e frame).1) → cfg.mbxL.toNat ≤ ecMaxMbx → cfg.preop=true →
        0 < w) ∧
      (0 < w → ∃ mbx,taken c'=taken c++[mbx] ∧
        eoePayload mbx=(p.drop offset).take (fragmentSize maxdata p offset)) ∧
      eoeSendLoop port.recording cfg eoePort maxdata p (fuel+1) offset fragment c=
        (if fragmentSize maxdata p offset≠p.length-offset ∧ w>0 then
          eoeSendLoop port.recording cfg eoePort maxdata p fuel
            (offset+fragmentSize maxdata p offset) (fragment+1)
        else pure w) c' := by
  obtain ⟨m,hget,hsupplied⟩ := h.turn
  obtain ⟨mbx,c1,hrun⟩ : ∃ mbx c1,getMbxM port.recording c=.ok (mbx,c1) := ⟨_,_,rfl⟩
  obtain ⟨hmbx,hpool⟩ := getMbxM_pool ha.recording hrun
  have hm : mbx=some m := hmbx.trans (congrArg Prod.fst hget)
  subst hm
  have htaken : taken c1=taken c := getMbxM_none_taken _ _ _ hrun
  obtain ⟨no,c3,hno⟩ : ∃ no c3,nextTxFrameNo fragment
      (c1.store m (List.replicate ecMaxMbx 0))=.ok (no,c3) := ⟨_,_,rfl⟩
  obtain ⟨cnt,c4,hcnt⟩ : ∃ cnt c4,nextMbxCnt cfg c3=.ok (cnt,c4) := ⟨_,_,rfl⟩
  let data := (p.drop offset).take (fragmentSize maxdata p offset)
  let info1 := (if decide (fragmentSize maxdata p offset=p.length-offset)=true then (0x100 : UInt16)
    else 0) ||| ((eoePort.toUInt16 &&& 0xf) <<< 4)
  let place := if fragment>0 then offset >>> 5 else (p.length+31) >>> 5
  let info2 := (fragment.toUInt16 &&& (0x3f : UInt16)) |||
    ((UInt16.ofNat place &&& (0x3f : UInt16)) <<< 6) ||| ((no.toUInt16 &&& (0xf : UInt16)) <<< 12)
  let frame := eoeFrame (UInt16.ofNat (4+fragmentSize maxdata p offset)) cnt info1 info2 data
  let c5 := c4.store m frame
  obtain ⟨w,c6,hsend⟩ := mbxSend_returns port.recording cfg m c5
  have hready : c5.pool=(getMbx c.pool).2 ∧ taken c5=taken c := by
    cases hno
    cases hcnt
    exact ⟨hpool,htaken⟩
  have hafter : c6.pool=dropMbx (getMbx c.pool).2 m := by
    rw [mbxSend_pool ha.recording hsend,hready.1]
  obtain ⟨hle,hle'⟩ := fragmentSize_le maxdata p offset
  have hdata : data.length=fragmentSize maxdata p offset := by
    simp only [data,List.length_take,List.length_drop]
    omega
  refine ⟨w,c6,hafter ▸ hsupplied,fun htakes hroom hpreop => ?_,fun hw => ?_,?_⟩
  · exact mbxSend_takes (fun e => htakes e.1) ⟨by omega,hroom,hpreop⟩ hsend
  · obtain ⟨hroom,hsent⟩ := mbxSend_taken hsend hw
    refine ⟨(c5.buffers m).take cfg.mbxL.toNat,by rw [hsent,hready.2],?_⟩
    have hfront : frame <+: (c5.buffers m).take cfg.mbxL.toNat := by
      have hbuffer : c5.buffers m=overwrite (c4.buffers m) frame := by
        simp only [c5,Client.store,Function.update_self]
      rw [hbuffer]
      apply request_front
      simp only [frame,eoeFrame_length]
      omega
    simp only [frame,← hdata] at hfront
    refine eoePayload_front hfront ?_
    rw [hdata]
    omega
  · rw [eoeSendLoop,run_bind hrun]
    dsimp only
    rw [run_bind (show clearMbx m c1=.ok ((),c1.store m (List.replicate ecMaxMbx 0)) from rfl),
      run_bind hno,run_bind hcnt]
    apply (run_bind (show fillMbx m frame c4=.ok ((),c5) from rfl)).trans
    rw [run_bind hsend]
    change (if decide (fragmentSize maxdata p offset=p.length-offset)=false ∧ w>0 then
        eoeSendLoop port.recording cfg eoePort maxdata p fuel
          (offset+fragmentSize maxdata p offset) (fragment+1)
      else pure w) c6=_
    have hsame : (decide (fragmentSize maxdata p offset=p.length-offset)=false ∧ w>0) ↔
        (fragmentSize maxdata p offset≠p.length-offset ∧ w>0) := by
      rw [decide_eq_false_iff_not]
    by_cases hgo : fragmentSize maxdata p offset≠p.length-offset ∧ w>0
    · rw [if_pos hgo,if_pos (hsame.mpr hgo)]
    · rw [if_neg hgo,if_neg (mt hsame.mp hgo)]

theorem fragmentSize_more {maxdata offset : Nat} (hlarge : 32 ≤ maxdata ∨ p.length ≤ maxdata)
    (hmore : fragmentSize maxdata p offset≠p.length-offset) :
    0 < fragmentSize maxdata p offset ∧ offset+fragmentSize maxdata p offset<p.length := by
  simp only [fragmentSize,Nat.shiftRight_eq_div_pow,Nat.shiftLeft_eq] at hmore ⊢
  split_ifs at hmore ⊢ <;> omega

/-- The loop comes to its end if there is room for a block, or for the frame. -/
theorem eoeSendLoop_ends (ha : Alone port) (eoePort : UInt8) {maxdata : Nat}
    (hmax : 10+maxdata=cfg.mbxL.toNat)
    (hlarge : 32 ≤ maxdata ∨ p.length ≤ maxdata) (fuel : Nat) :
    ∀ (offset : Nat) (fragment : UInt8) (c : Client (σ × List (List UInt8))),
    p.length-offset<fuel → c.pool.Supplied →
    ∃ wkc c',eoeSendLoop port.recording cfg eoePort maxdata p fuel offset fragment c=.ok (wkc,c') ∧
      (0 < wkc → ∃ frames,taken c'=taken c++frames ∧
        (frames.map eoePayload).flatten=p.drop offset) := by
  induction fuel with
  | zero =>
    intro offset fragment c hf
    omega
  | succ fuel ih =>
    intro offset fragment c hf h
    obtain ⟨w,c1,h1,-,hsent,hrun⟩ := eoeSendLoop_round ha eoePort p hmax fuel offset fragment h
    rw [hrun]
    by_cases hmore : fragmentSize maxdata p offset≠p.length-offset
    · obtain ⟨hpos,hless⟩ := fragmentSize_more hlarge hmore
      by_cases hw : w>0
      · rw [if_pos ⟨hmore,hw⟩]
        obtain ⟨wkc,c',hrest,hall⟩ := ih (offset+fragmentSize maxdata p offset) (fragment+1) c1
          (by omega) h1
        refine ⟨wkc,c',hrest,fun hwkc => ?_⟩
        obtain ⟨mbx,htaken,hpayload⟩ := hsent hw
        obtain ⟨frames,htaken',hframes⟩ := hall hwkc
        refine ⟨mbx::frames,?_,?_⟩
        · rw [htaken',htaken,List.append_assoc]
          rfl
        · rw [List.map_cons,List.flatten_cons,hpayload,hframes,← List.drop_drop,
            List.take_append_drop]
      · rw [if_neg fun hgo => hw hgo.2]
        exact ⟨w,c1,rfl,fun hwkc => absurd hwkc hw⟩
    · rw [if_neg fun hgo => hmore hgo.1]
      refine ⟨w,c1,rfl,fun hwkc => ?_⟩
      obtain ⟨mbx,htaken,hpayload⟩ := hsent hwkc
      refine ⟨[mbx],htaken,?_⟩
      rw [List.map_singleton,List.flatten_singleton,hpayload,not_not.mp hmore,← List.length_drop,
        List.take_length]

end Rounds

section Endless

theorem eoeSendLoop_endless (cfg : SlaveCfg) (eoePort : UInt8) {maxdata : Nat}
    (hsmall : maxdata<32) (hmore : maxdata<p.length)
    (hmax : 10+maxdata=cfg.mbxL.toNat) (hpreop : cfg.preop=true) (fuel : Nat) :
    ∀ (fragment : UInt8) (c : Client (Unit × List (List UInt8))),c.pool.Supplied →
    eoeSendLoop silentSlave.recording cfg eoePort maxdata p fuel 0 fragment c=
      .error .unfinished := by
  have hroom : ecMaxMbx=1486 := rfl
  have hzero : fragmentSize maxdata p 0=0 := by
    simp only [fragmentSize,Nat.shiftRight_eq_div_pow,Nat.shiftLeft_eq]
    rw [if_pos (by omega)]
    omega
  have ha : Alone silentSlave := fun _ => rfl
  induction fuel with
  | zero => exact fun _ _ _ => rfl
  | succ fuel ih =>
    intro fragment c h
    obtain ⟨w,c1,h1,htakes,-,hrun⟩ := eoeSendLoop_round ha eoePort p hmax fuel 0 fragment h
    have hw := htakes (fun _ _ => Int.one_pos) (by omega) hpreop
    rw [hrun,hzero,if_pos ⟨by omega,hw⟩]
    exact ih (fragment+1) c1 h1

end Endless

/-- For a mailbox that `ecx_EOEsend` does not refuse, it returns and sends the frame exactly if the
frame fits into one fragment, or a fragment has room for 32 bytes. -/
theorem eoe_send_ends_iff {mbxL : UInt16} (p : List UInt8) (hin : 10 ≤ mbxL.toNat) :
    SendsFrame mbxL p ↔ 42 ≤ mbxL.toNat ∨ p.length+10 ≤ mbxL.toNat := by
  have hbig : ¬mbxL.toNat<0x0a := by omega
  constructor
  · intro h
    by_contra hnot
    obtain ⟨fuel,wkc,c',hrun,-⟩ := h Unit silentSlave ⟨1,mbxL,mbxL,true⟩ 0 (Client.start ((),[]))
      rfl (fun _ => rfl) initMbxPool_wf (by decide)
    have hendless := eoeSendLoop_endless ⟨1,mbxL,mbxL,true⟩ 0 (p := p)
      (show mbxL.toNat-0x0a<32 by omega) (show mbxL.toNat-0x0a<p.length by omega)
      (show 10+(mbxL.toNat-0x0a)=mbxL.toNat by omega) rfl fuel 0 (Client.start ((),[]))
      ⟨by decide,initMbxPool_wf.cells,by decide⟩
    rw [eoeSend,if_neg hbig] at hrun
    exact absurd (hrun.symm.trans hendless) (by simp)
  · intro hlarge σ port cfg eoePort c hmbx ha hwf hone
    subst hmbx
    obtain ⟨wkc,c',hrun,hall⟩ := eoeSendLoop_ends ha eoePort
      (show 10+(cfg.mbxL.toNat-0x0a)=cfg.mbxL.toNat by omega)
      (show 32 ≤ cfg.mbxL.toNat-0x0a ∨ p.length ≤ cfg.mbxL.toNat-0x0a by omega) (p.length+1) 0 0 c
      (by omega) ⟨hwf.tail,hwf.cells,hone⟩
    refine ⟨p.length+1,wkc,c',?_,hall⟩
    rw [eoeSend,if_neg hbig]
    exact hrun

theorem forty_bytes_sent : SendsFrame 42 (List.replicate 40 7) :=
  (eoe_send_ends_iff (List.replicate 40 7) (by decide)).mpr (.inl (by decide))

/-- Into a mailbox of 41 bytes a frame of 32 bytes never goes. -/
theorem small_mailbox_endless :
    (∀ fuel,eoeSend silentSlave.recording ⟨1,41,41,true⟩ fuel 0 (List.replicate 32 7)
      (Client.start ((),[]))=.error .unfinished) ∧
    ¬∀ (mbxL : UInt16) (p : List UInt8),10 ≤ mbxL.toNat → SendsFrame mbxL p := by
  have hrun : ∀ fuel,eoeSend silentSlave.recording ⟨1,41,41,true⟩ fuel 0 (List.replicate 32 7)
      (Client.start ((),[]))=.error .unfinished := by
    intro fuel
    rw [eoeSend,if_neg (by decide)]
    exact eoeSendLoop_endless _ 0 (by decide) (by decide) (by decide) rfl fuel 0 _
      ⟨by decide,initMbxPool_wf.cells,by decide⟩
  refine ⟨hrun,fun hall => ?_⟩
  obtain ⟨fuel,wkc,c',h,-⟩ := hall 41 (List.replicate 32 7) (by decide) Unit silentSlave
    ⟨1,41,41,true⟩ 0 (Client.start ((),[])) rfl (fun _ => rfl) initMbxPool_wf (by decide)
  rw [hrun] at h
  cases h

end EtherCATMaster.Mailbox
