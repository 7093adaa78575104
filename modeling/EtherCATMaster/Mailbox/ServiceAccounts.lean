import EtherCATMaster.Mailbox.Account
import EtherCATMaster.Mailbox.Eoe
import EtherCATMaster.Mailbox.Foe
import EtherCATMaster.Mailbox.Soe

namespace EtherCATMaster.Mailbox

open EtherCATMaster.Framework

variable {σ : Type} {port : Port σ} {T : List Nat → Client σ → List Nat → Client σ → Prop}
  {own : List Nat} (hT : MbxLedger port T) (cfg : SlaveCfg)

theorem quiet_reportSdoReply (index : UInt16) (subindex : UInt8) (mbx : List UInt8) :
    Quiet (reportSdoReply index subindex mbx : MbxM σ Unit) := by
  simp only [reportSdoReply]
  split_ifs
  · exact quiet_pushError _
  · exact quiet_pushError _

include hT in
theorem dropAndReturn_accounts {α : Type} (mbx : Option Nat) (a : α) :
    Accounts T (mbx.toList++own) (do dropMbxIn port mbx; pure a) (fun _ => own) := by
  refine hT.bind (dropMbxIn_accounts hT mbx) ?_
  intro _
  exact hT.pure _ rfl

include hT in
theorem fillRequest_accounts {α : Type} {own' : α → List Nat} (out : Nat)
    (frame : UInt8 → List UInt8) {rest : MbxM σ α} (hrest : Accounts T own rest own') :
    Accounts T own (do
      clearMbx out
      let cnt ← nextMbxCnt cfg
      fillMbx out (frame cnt)
      rest) own' := by
  refine hT.bind ((quiet_clearMbx out).accounts hT) ?_
  intro _
  refine hT.bind ((quiet_nextMbxCnt cfg).accounts hT) ?_
  intro cnt
  refine hT.bind ((quiet_fillMbx out _).accounts hT) ?_
  intro _
  exact hrest

include hT in
theorem receiveReply_accounts (fuel : Nat) :
    Accounts T own (receiveReply port cfg fuel) (fun r => r.mbx.toList++own) := by
  induction fuel with
  | zero => exact Ledger.throw _
  | succ fuel ih =>
    rw [receiveReply]
    refine hT.bind (mbxReceive_accounts hT cfg) ?_
    intro r
    split_ifs with hagain
    · rw [hagain.2]
      exact ih
    · exact hT.pure r rfl

include hT in
theorem sdoReadSegments_accounts (index : UInt16) (subindex : UInt8) (fuel : Nat) :
    ∀ (mbxIn : Option Nat) (toggle : UInt8) (sdo : SdoRead),
    Accounts T (mbxIn.toList++own) (sdoReadSegments port cfg index subindex fuel mbxIn toggle sdo)
      (fun r => r.1.toList++own) := by
  induction fuel with
  | zero =>
    intro mbxIn toggle sdo
    exact Ledger.throw _
  | succ fuel ih =>
    intro mbxIn toggle sdo
    rw [sdoReadSegments]
    refine hT.bind (getMbxM_accounts hT) ?_
    intro mbxOut
    cases mbxOut with
    | none => exact hT.pure _ rfl
    | some out =>
      refine hT.bind ((quiet_nextMbxCnt cfg).accounts hT) ?_
      intro cnt
      refine hT.bind ((quiet_fillMbx out _).accounts hT) ?_
      intro _
      refine hT.bind (mbxSend_accounts hT cfg out) ?_
      intro wkc
      split_ifs
      · refine hT.bind (dropMbxIn_accounts hT mbxIn) ?_
        intro _
        refine hT.bind (mbxReceive_accounts hT cfg) ?_
        intro reply
        split_ifs
        · exact hT.pure _ rfl
        · exact ih _ _ _
        · refine hT.bind ((quiet_reportSdoReply index subindex _).accounts hT) ?_
          intro _
          exact hT.pure _ rfl
        · exact ih _ _ _
      · exact ih _ _ _

include hT in
theorem sdoReadReply_accounts (fuel out : Nat) (index : UInt16) (subindex : UInt8) (psize : Int)
    (reply : Received) :
    Accounts T (reply.mbx.toList++own) (sdoReadReply port cfg fuel out index subindex psize reply)
      (fun r => r.1.toList++own) := by
  simp only [sdoReadReply]
  split_ifs
  · refine hT.bind (peek_accounts hT out) ?_
    intro request
    split_ifs
    · simp only [sdoReadAccepted]
      split_ifs
      · exact hT.pure _ rfl
      · refine hT.bind ((quiet_pushError _).accounts hT) ?_
        intro _
        exact hT.pure _ rfl
      · exact sdoReadSegments_accounts hT cfg index subindex fuel _ _ _
      · exact Ledger.throw _
      · exact hT.pure _ rfl
      · refine hT.bind ((quiet_pushError _).accounts hT) ?_
        intro _
        exact hT.pure _ rfl
    · refine hT.bind ((quiet_reportSdoReply index subindex _).accounts hT) ?_
      intro _
      exact hT.pure _ rfl
  · exact hT.pure _ rfl

include hT in
/-- From its request on, `ecx_SDOread` gives back what it has. -/
theorem sdoReadRequest_accounts (fuel out : Nat) (mbxIn : Option Nat) (index : UInt16)
    (subindex : UInt8) (ca : Bool) (psize : Int) :
    Accounts T (out::(mbxIn.toList++own))
      (sdoReadRequest port cfg fuel out mbxIn index subindex ca psize) (fun _ => own) := by
  simp only [sdoReadRequest]
  refine fillRequest_accounts hT cfg out _ ?_
  refine hT.bind (mbxSend_accounts hT cfg out) ?_
  intro wkc
  by_cases hw : wkc>0
  · rw [if_pos hw]
    refine hT.bind (dropMbxIn_accounts hT mbxIn) ?_
    intro _
    refine hT.bind (receiveReply_accounts hT cfg fuel) ?_
    intro reply
    refine hT.bind (sdoReadReply_accounts hT cfg fuel out index _ psize reply) ?_
    intro r
    exact dropAndReturn_accounts hT r.1 _
  · rw [if_neg hw]
    exact dropAndReturn_accounts hT mbxIn _

include hT in
theorem sdoWriteSegments_accounts (index : UInt16) (subindex : UInt8) (maxdata fuel : Nat) :
    ∀ (mbxIn : Option Nat) (toggle : UInt8) (p : List UInt8) (wkc : Int),
    Accounts T (mbxIn.toList++own)
      (sdoWriteSegments port cfg index subindex maxdata fuel mbxIn toggle p wkc)
      (fun r => r.1.toList++own) := by
  induction fuel with
  | zero =>
    intro mbxIn toggle p wkc
    exact Ledger.throw _
  | succ fuel ih =>
    intro mbxIn toggle p wkc
    rw [sdoWriteSegments]
    refine hT.bind (getMbxM_accounts hT) ?_
    intro mbxOut
    cases mbxOut with
    | none => exact hT.pure _ rfl
    | some out =>
      refine fillRequest_accounts hT cfg out _ ?_
      refine hT.bind (mbxSend_accounts hT cfg out) ?_
      intro wkc
      refine Accounts.ite (fun _ => ?_) (fun _ => ?_)
      · refine hT.bind (dropMbxIn_accounts hT mbxIn) ?_
        intro _
        refine hT.bind (mbxReceive_accounts hT cfg) ?_
        intro reply
        refine Accounts.ite (fun _ => ?_) (fun _ => ?_)
        · refine hT.bind ((quiet_reportSdoReply index subindex _).accounts hT) ?_
          intro _
          exact hT.pure _ rfl
        · exact Accounts.ite (fun _ => ih _ _ _ _) (fun _ => hT.pure _ rfl)
      · exact Accounts.ite (fun _ => ih _ _ _ _) (fun _ => hT.pure _ rfl)

include hT in
theorem sdoWriteAccepts_accounts (out : Nat) (reply : List UInt8) :
    Accounts T own (sdoWriteAccepts port out reply) (fun _ => own) :=
  hT.bind (peek_accounts hT out) (fun _ => hT.pure _ rfl)

include hT in
theorem sdoWriteRequest_accounts (fuel out : Nat) (mbxIn : Option Nat) (index : UInt16)
    (subindex : UInt8) (maxdata : Nat) (notLast : Bool) (p : List UInt8) :
    Accounts T (out::(mbxIn.toList++own))
      (sdoWriteRequest port cfg fuel out mbxIn index subindex maxdata notLast p)
      (fun _ => own) := by
  simp only [sdoWriteRequest]
  refine hT.bind (mbxSend_accounts hT cfg out) ?_
  intro wkc
  refine Accounts.ite (fun _ => ?_) (fun _ => ?_)
  · refine hT.bind (dropMbxIn_accounts hT mbxIn) ?_
    intro _
    refine hT.bind (mbxReceive_accounts hT cfg) ?_
    intro reply
    refine Accounts.ite (fun _ => ?_) (fun _ => ?_)
    · refine hT.bind (sdoWriteAccepts_accounts hT out reply.data) ?_
      intro accepted
      refine Accounts.ite (fun _ => Accounts.ite (fun _ => ?_) (fun _ => ?_)) (fun _ => ?_)
      · refine hT.bind (sdoWriteSegments_accounts hT cfg index subindex _ fuel _ _ _ _) ?_
        intro r
        exact dropAndReturn_accounts hT r.1 _
      · exact dropAndReturn_accounts hT reply.mbx _
      · refine hT.bind ((quiet_reportSdoReply index subindex _).accounts hT) ?_
        intro _
        exact dropAndReturn_accounts hT reply.mbx _
    · exact dropAndReturn_accounts hT reply.mbx _
  · exact dropAndReturn_accounts hT mbxIn _

include hT in
/-- `ecx_SDOwrite` from the point where it has a mailbox for its request. -/
theorem sdoWriteStart_accounts (fuel out : Nat) (mbxIn : Option Nat) (index : UInt16)
    (subindex : UInt8) (ca : Bool) (p : List UInt8) :
    Accounts T (out::(mbxIn.toList++own))
      (sdoWriteStart port cfg fuel out mbxIn index subindex ca p) (fun _ => own) := by
  simp only [sdoWriteStart]
  refine hT.bind ((quiet_clearMbx out).accounts hT) ?_
  intro _
  by_cases hsmall : p.length ≤ 4 ∧ ca=false
  · rw [if_pos hsmall]
    refine hT.bind ((quiet_nextMbxCnt cfg).accounts hT) ?_
    intro cnt
    refine hT.bind ((quiet_fillMbx out _).accounts hT) ?_
    intro _
    exact sdoWriteRequest_accounts hT cfg fuel out mbxIn index subindex _ _ _
  · rw [if_neg hsmall]
    refine hT.bind ((quiet_nextMbxCnt cfg).accounts hT) ?_
    intro cnt
    by_cases hbig : (p.length : Int)>(cfg.mbxL.toNat : Int)-0x10
    · rw [if_pos hbig]
      by_cases hneg : (cfg.mbxL.toNat : Int)-0x10<0
      · rw [if_pos hneg]
        exact Ledger.throw _
      · rw [if_neg hneg]
        refine hT.bind ((quiet_fillMbx out _).accounts hT) ?_
        intro _
        exact sdoWriteRequest_accounts hT cfg fuel out mbxIn index subindex _ _ _
    · rw [if_neg hbig]
      refine hT.bind ((quiet_fillMbx out _).accounts hT) ?_
      intro _
      exact sdoWriteRequest_accounts hT cfg fuel out mbxIn index subindex _ _ _

include hT in
theorem rxPdo_accounts (number : UInt16) (p : List UInt8) :
    Accounts T own (rxPdo port cfg number p) (fun _ => own) := by
  simp only [rxPdo]
  refine hT.bind (mbxReceive_accounts hT cfg) ?_
  intro stale
  refine hT.bind (dropMbxIn_accounts hT stale.mbx) ?_
  intro _
  refine hT.bind (getMbxM_accounts hT) ?_
  intro mbxOut
  cases mbxOut with
  | none => exact hT.pure _ rfl
  | some out =>
    refine hT.bind ((quiet_clearMbx out).accounts hT) ?_
    intro _
    refine hT.bind ((quiet_nextMbxCnt cfg).accounts hT) ?_
    intro cnt
    generalize (if (p.length : Int)>(cfg.mbxL.toNat : Int)-0x08 then (cfg.mbxL.toNat : Int)-0x08
      else (p.length : Int))=size
    split_ifs
    · exact Ledger.throw _
    · refine hT.bind ((quiet_fillMbx out _).accounts hT) ?_
      intro _
      exact mbxSend_accounts hT cfg out

include hT in
theorem infoExchange_accounts {α : Type} (out : Nat) (mbxIn : Option Nat) (failed : Int → α)
    (onReply : Received → MbxM σ α) (hreply : ∀ r,Quiet (onReply r)) :
    Accounts T (out::(mbxIn.toList++own)) (infoExchange port cfg out mbxIn failed onReply)
      (fun _ => own) := by
  simp only [infoExchange]
  refine hT.bind (mbxSend_accounts hT cfg out) ?_
  intro wkc
  split_ifs
  · refine hT.bind (dropMbxIn_accounts hT mbxIn) ?_
    intro _
    refine hT.bind (mbxReceive_accounts hT cfg) ?_
    intro reply
    refine hT.bind ((hreply reply).accounts hT) ?_
    intro r
    exact dropAndReturn_accounts hT reply.mbx _
  · exact dropAndReturn_accounts hT mbxIn _

theorem quiet_txPdoReply (psize : Int) (reply : Received) :
    Quiet (txPdoReply psize reply : MbxM σ SdoRead) := by
  simp only [txPdoReply]
  split_ifs
  · exact quiet_pure _
  · exact (quiet_pushError _).bind (fun _ => quiet_pure _)
  · exact (quiet_reportSdoReply _ _ _).bind (fun _ => quiet_pure _)
  · exact quiet_pure _

theorem quiet_reportInfoReply (index : UInt16) (subindex : UInt8) (mbx : List UInt8) :
    Quiet (reportInfoReply index subindex mbx : MbxM σ Unit) := by
  simp only [reportInfoReply]
  split_ifs
  · exact quiet_pushError _
  · exact quiet_pushError _

theorem quiet_odDescriptionReply (index : UInt16) (reply : Received) :
    Quiet (odDescriptionReply index reply : MbxM σ OdDescription) := by
  simp only [odDescriptionReply]
  by_cases hw : reply.wkc>0
  · rw [if_pos hw]
    by_cases hr : mbxType reply.data=ectMbxtCoe ∧ infoOpcode reply.data=ectGetOdRes
    · rw [if_pos hr]
      exact quiet_pure _
    · rw [if_neg hr]
      exact (quiet_reportInfoReply _ _ _).bind (fun _ => quiet_pure _)
  · rw [if_neg hw]
    exact quiet_pure _

theorem quiet_oeSingleReply (index : UInt16) (subi : UInt8) (reply : Received) :
    Quiet (oeSingleReply index subi reply : MbxM σ (Int × Option OeEntry)) := by
  simp only [oeSingleReply]
  split_ifs
  · exact quiet_pure _
  · exact (quiet_reportInfoReply _ _ _).bind (fun _ => quiet_pure _)
  · exact quiet_pure _

include hT in
theorem txPdoRequest_accounts (number : UInt16) (psize : Int) (out : Nat) (mbxIn : Option Nat) :
    Accounts T (out::(mbxIn.toList++own)) (txPdoRequest port cfg number psize out mbxIn)
      (fun _ => own) := by
  simp only [txPdoRequest]
  refine fillRequest_accounts hT cfg out _ ?_
  exact infoExchange_accounts hT cfg out mbxIn _ _ (quiet_txPdoReply psize)

include hT in
theorem readOdDescriptionRequest_accounts (index : UInt16) (out : Nat) (mbxIn : Option Nat) :
    Accounts T (out::(mbxIn.toList++own)) (readOdDescriptionRequest port cfg index out mbxIn)
      (fun _ => own) := by
  simp only [readOdDescriptionRequest]
  refine fillRequest_accounts hT cfg out _ ?_
  exact infoExchange_accounts hT cfg out mbxIn _ _ (quiet_odDescriptionReply index)

include hT in
theorem readOeSingleRequest_accounts (index : UInt16) (subi : UInt8) (out : Nat)
    (mbxIn : Option Nat) :
    Accounts T (out::(mbxIn.toList++own)) (readOeSingleRequest port cfg index subi out mbxIn)
      (fun _ => own) := by
  simp only [readOeSingleRequest]
  refine fillRequest_accounts hT cfg out _ ?_
  exact infoExchange_accounts hT cfg out mbxIn _ _ (quiet_oeSingleReply index subi)

theorem quiet_reportOdOverflow (first : Bool) (mbx : List UInt8) (entries : Nat) :
    Quiet (reportOdOverflow first mbx entries : MbxM σ Unit) := by
  simp only [reportOdOverflow]
  split_ifs
  · exact quiet_pushError _
  · exact quiet_pure _

include hT in
theorem odListLoop_accounts (rounds : Nat) : ∀ (first : Bool) (mbxIn : Option Nat) (od : OdList),
    Accounts T (mbxIn.toList++own) (odListLoop port cfg rounds first mbxIn od)
      (fun r => r.1.toList++own) := by
  induction rounds with
  | zero =>
    intro first mbxIn od
    exact hT.pure _ rfl
  | succ rounds ih =>
    intro first mbxIn od
    rw [odListLoop]
    refine hT.bind (dropMbxIn_accounts hT mbxIn) ?_
    intro _
    refine hT.bind (mbxReceive_accounts hT cfg) ?_
    intro reply
    refine Accounts.ite (fun _ => Accounts.ite (fun _ => ?_) (fun _ => ?_)) (fun _ => ?_)
    · refine hT.bind ((quiet_reportOdOverflow first _ _).accounts hT) ?_
      intro _
      exact Accounts.ite (fun _ => ih _ _ _) (fun _ => hT.pure _ rfl)
    · refine hT.bind ((quiet_reportInfoReply 0 0 _).accounts hT) ?_
      intro _
      exact hT.pure _ rfl
    · exact hT.pure _ rfl

include hT in
theorem readOdListRequest_accounts (out : Nat) (mbxIn : Option Nat) :
    Accounts T (out::(mbxIn.toList++own)) (readOdListRequest port cfg out mbxIn)
      (fun _ => own) := by
  simp only [readOdListRequest]
  refine fillRequest_accounts hT cfg out _ ?_
  refine hT.bind (mbxSend_accounts hT cfg out) ?_
  intro wkc
  refine Accounts.ite (fun _ => ?_) (fun _ => dropAndReturn_accounts hT mbxIn _)
  refine hT.bind (odListLoop_accounts hT cfg 129 true mbxIn _) ?_
  intro r
  exact dropAndReturn_accounts hT r.1 _

theorem quiet_reportSoeReply (idn : UInt16) (mbx : List UInt8) :
    Quiet (reportSoeReply idn mbx : MbxM σ Unit) := by
  simp only [reportSoeReply]
  split_ifs
  · exact quiet_pushError _
  · exact quiet_pushError _

theorem quiet_throw {α : Type} (e : Halt) : Quiet (throw e : MbxM σ α) := by
  intro c a c' hc
  exact absurd hc throw_ok

include hT in
theorem soeCopy_accounts (stale : Option Nat) (total size psize : Int) :
    Accounts T own (soeCopy port stale total size psize) (fun _ => own) := by
  have hcopy : ∀ n,Accounts T own (copyFromStale port stale n) (fun _ => own) := by
    intro n
    simp only [copyFromStale]
    split_ifs
    · exact Ledger.throw _
    · exact hT.pure _ rfl
    · cases stale with
      | none => exact Ledger.throw _
      | some m => exact hT.bind (peek_accounts hT m) (fun _ => hT.pure _ rfl)
  simp only [soeCopy]
  split_ifs
  · exact hcopy _
  · exact hcopy _
  · exact hT.pure _ rfl

include hT in
theorem soeReadLoop_accounts (stale : Option Nat) (driveNo elementflags : UInt8) (idn : UInt16)
    (psize : Int) (fuel : Nat) : ∀ (mbxIn : Option Nat) (total : Int) (data : List UInt8),
    Accounts T (mbxIn.toList++own)
      (soeReadLoop port cfg stale driveNo elementflags idn psize fuel mbxIn total data)
      (fun r => r.1.toList++own) := by
  induction fuel with
  | zero =>
    intro mbxIn total data
    exact Ledger.throw _
  | succ fuel ih =>
    intro mbxIn total data
    rw [soeReadLoop]
    refine hT.bind (dropMbxIn_accounts hT mbxIn) ?_
    intro _
    refine hT.bind (mbxReceive_accounts hT cfg) ?_
    intro reply
    refine Accounts.ite (fun _ => Accounts.ite (fun _ => ?_) (fun _ => ?_)) (fun _ => ?_)
    · refine hT.bind (soeCopy_accounts hT stale _ _ _) ?_
      intro bytes
      exact Accounts.ite (fun _ => hT.pure _ rfl) (fun _ => ih _ _ _)
    · refine hT.bind ((quiet_reportSoeReply idn _).accounts hT) ?_
      intro _
      exact hT.pure _ rfl
    · refine hT.bind ((quiet_pushError _).accounts hT) ?_
      intro _
      exact hT.pure _ rfl

include hT in
theorem soeRead_accounts (fuel : Nat) (driveNo elementflags : UInt8) (idn : UInt16) (psize : Int) :
    Accounts T own (soeRead port cfg fuel driveNo elementflags idn psize) (fun _ => own) := by
  simp only [soeRead]
  refine hT.bind (mbxReceive_accounts hT cfg) ?_
  intro stale
  refine hT.bind (getMbxM_accounts hT) ?_
  intro mbxOut
  cases mbxOut with
  | none => exact Ledger.throw _
  | some out =>
    refine fillRequest_accounts hT cfg out _ ?_
    refine hT.bind (mbxSend_accounts hT cfg out) ?_
    intro wkc
    refine Accounts.ite (fun _ => ?_) (fun _ => dropAndReturn_accounts hT stale.mbx _)
    refine hT.bind (soeReadLoop_accounts hT cfg stale.mbx driveNo elementflags idn psize fuel
      stale.mbx 0 []) ?_
    intro r
    exact dropAndReturn_accounts hT r.1 _

theorem quiet_soeWriteReply (driveNo elementflags : UInt8) (idn : UInt16) (reply : Received) :
    Quiet (soeWriteReply driveNo elementflags idn reply : MbxM σ Int) := by
  simp only [soeWriteReply]
  split_ifs
  · exact quiet_pure _
  · exact (quiet_reportSoeReply idn _).bind (fun _ => quiet_pure _)
  · exact (quiet_pushError _).bind (fun _ => quiet_pure _)

theorem quiet_soeReads (notLast : Bool) : Quiet (soeReads port notLast) := by
  simp only [soeReads]
  split_ifs
  · exact quiet_mbxEmpty.bind (fun _ => quiet_pure _)
  · exact quiet_pure _

include hT in
theorem soeWriteLoop_accounts (driveNo elementflags : UInt8) (idn : UInt16) (maxdata : Int)
    (fuel : Nat) : ∀ (mbxIn : Option Nat) (p : List UInt8),
    Accounts T (mbxIn.toList++own)
      (soeWriteLoop port cfg driveNo elementflags idn maxdata fuel mbxIn p)
      (fun r => r.1.toList++own) := by
  induction fuel with
  | zero =>
    intro mbxIn p
    exact Ledger.throw _
  | succ fuel ih =>
    intro mbxIn p
    rw [soeWriteLoop]
    refine hT.bind (getMbxM_accounts hT) ?_
    intro mbxOut
    cases mbxOut with
    | none => exact Ledger.throw _
    | some out =>
      refine hT.bind ((quiet_clearMbx out).accounts hT) ?_
      intro _
      refine Accounts.ite (fun _ => Ledger.throw _) (fun _ => ?_)
      refine Accounts.ite (fun _ => Ledger.throw _) (fun _ => ?_)
      refine hT.bind ((quiet_nextMbxCnt cfg).accounts hT) ?_
      intro cnt
      refine hT.bind ((quiet_fillMbx out _).accounts hT) ?_
      intro _
      refine hT.bind (mbxSend_accounts hT cfg out) ?_
      intro wkc
      refine Accounts.ite (fun _ => ?_)
        (fun _ => Accounts.ite (fun _ => ih _ _) (fun _ => hT.pure _ rfl))
      refine hT.bind ((quiet_soeReads _).accounts hT) ?_
      intro reads
      refine Accounts.ite (fun _ => ?_) (fun _ => ih _ _)
      refine hT.bind (dropMbxIn_accounts hT mbxIn) ?_
      intro _
      refine hT.bind (mbxReceive_accounts hT cfg) ?_
      intro reply
      refine hT.bind ((quiet_soeWriteReply driveNo elementflags idn reply).accounts hT) ?_
      intro wkc'
      exact Accounts.ite (fun _ => hT.pure _ rfl) (fun _ => ih _ _)

include hT in
theorem soeWrite_accounts (fuel : Nat) (driveNo elementflags : UInt8) (idn : UInt16)
    (p : List UInt8) :
    Accounts T own (soeWrite port cfg fuel driveNo elementflags idn p) (fun _ => own) := by
  simp only [soeWrite]
  refine hT.bind (mbxReceive_accounts hT cfg) ?_
  intro stale
  refine hT.bind (soeWriteLoop_accounts hT cfg driveNo elementflags idn _ fuel stale.mbx p) ?_
  intro r
  exact dropAndReturn_accounts hT r.1 _

include hT in
theorem foeOpen_accounts (opcode : UInt8) (filename : List UInt8) (password : UInt32) :
    Accounts T own (foeOpen port cfg opcode filename password) (fun _ => own) := by
  simp only [foeOpen]
  refine hT.bind (getMbxM_accounts hT) ?_
  intro mbxOut
  cases mbxOut with
  | none => exact Ledger.throw _
  | some out =>
    refine fillRequest_accounts hT cfg out _ ?_
    exact mbxSend_accounts hT cfg out

include hT in
theorem foeSend_accounts (opcode : UInt8) (packet : UInt32) (data : List UInt8) :
    Accounts T own (foeSend port cfg opcode packet data) (fun _ => own) := by
  simp only [foeSend]
  refine hT.bind (getMbxM_accounts hT) ?_
  intro mbxOut
  cases mbxOut with
  | none => exact Ledger.throw _
  | some out =>
    refine fillRequest_accounts hT cfg out _ ?_
    exact mbxSend_accounts hT cfg out

include hT in
theorem foeReadLoop_accounts (buffersize : Int) (fuel : Nat) :
    ∀ (mbxIn : Option Nat) (prevpacket : UInt32) (foe : SdoRead),
    Accounts T (mbxIn.toList++own) (foeReadLoop port cfg buffersize fuel mbxIn prevpacket foe)
      (fun r => r.1.toList++own) := by
  induction fuel with
  | zero =>
    intro mbxIn prevpacket foe
    exact Ledger.throw _
  | succ fuel ih =>
    intro mbxIn prevpacket foe
    rw [foeReadLoop]
    refine hT.bind (dropMbxIn_accounts hT mbxIn) ?_
    intro _
    refine hT.bind (mbxReceive_accounts hT cfg) ?_
    intro reply
    refine Accounts.ite (fun _ => ?_) (fun _ => hT.pure _ rfl)
    refine Accounts.ite (fun _ => ?_) (fun _ => hT.pure _ rfl)
    refine Accounts.ite (fun _ => ?_)
      (fun _ => Accounts.ite (fun _ => hT.pure _ rfl) (fun _ => hT.pure _ rfl))
    refine Accounts.ite (fun _ => ?_) (fun _ => hT.pure _ rfl)
    refine hT.bind (foeSend_accounts hT cfg ectFoeAck _ []) ?_
    intro wkc
    exact Accounts.ite (fun _ => ih _ _ _) (fun _ => hT.pure _ rfl)

include hT in
theorem foeRead_accounts (fuel : Nat) (filename : List UInt8) (password : UInt32) (psize : Int) :
    Accounts T own (foeRead port cfg fuel filename password psize) (fun _ => own) := by
  simp only [foeRead]
  refine hT.bind (mbxReceive_accounts hT cfg) ?_
  intro stale
  refine hT.bind (foeOpen_accounts hT cfg ectFoeRead filename password) ?_
  intro wkc
  refine Accounts.ite (fun _ => ?_) (fun _ => dropAndReturn_accounts hT stale.mbx _)
  refine hT.bind (foeReadLoop_accounts hT cfg psize fuel stale.mbx 0 _) ?_
  intro r
  exact dropAndReturn_accounts hT r.1 _

include hT in
theorem foeWriteTurn_accounts (file : List UInt8) (s : FoeWrite) (reply : Received) :
    Accounts T own (foeWriteTurn port cfg file s reply) (fun _ => own) := by
  have hnext : ∀ s',Accounts T own (foeWriteNext port cfg file s') (fun _ => own) := by
    intro s'
    simp only [foeWriteNext]
    refine Accounts.ite (fun _ => ?_) (fun _ => hT.pure _ rfl)
    refine hT.bind (foeSend_accounts hT cfg ectFoeData _ _) ?_
    intro wkc
    exact hT.pure _ rfl
  simp only [foeWriteTurn]
  refine Accounts.ite (fun _ => ?_) (fun _ => hT.pure _ rfl)
  refine Accounts.ite (fun _ => Accounts.ite (fun _ => ?_) (fun _ => hT.pure _ rfl))
    (fun _ => ?_)
  · refine hT.bind (hnext s) ?_
    intro r
    exact hT.pure _ rfl
  · refine Accounts.ite (fun _ => Accounts.ite (fun _ => ?_) (fun _ => hT.pure _ rfl))
      (fun _ => Accounts.ite (fun _ => hT.pure _ rfl) (fun _ => hT.pure _ rfl))
    refine hT.bind (hnext _) ?_
    intro r
    exact hT.pure _ rfl

include hT in
theorem foeWriteLoop_accounts (file : List UInt8) (fuel : Nat) :
    ∀ (mbxIn : Option Nat) (s : FoeWrite),
    Accounts T (mbxIn.toList++own) (foeWriteLoop port cfg file fuel mbxIn s)
      (fun r => r.1.toList++own) := by
  induction fuel with
  | zero =>
    intro mbxIn s
    exact Ledger.throw _
  | succ fuel ih =>
    intro mbxIn s
    rw [foeWriteLoop]
    refine hT.bind (dropMbxIn_accounts hT mbxIn) ?_
    intro _
    refine hT.bind (mbxReceive_accounts hT cfg) ?_
    intro reply
    refine Accounts.ite (fun _ => ?_) (fun _ => hT.pure _ rfl)
    refine hT.bind (foeWriteTurn_accounts hT cfg file s reply) ?_
    intro turn
    exact Accounts.ite (fun _ => ih _ _) (fun _ => hT.pure _ rfl)

include hT in
theorem foeWrite_accounts (fuel : Nat) (filename : List UInt8) (password : UInt32)
    (file : List UInt8) :
    Accounts T own (foeWrite port cfg fuel filename password file) (fun _ => own) := by
  simp only [foeWrite]
  refine hT.bind (mbxReceive_accounts hT cfg) ?_
  intro stale
  refine hT.bind (foeOpen_accounts hT cfg ectFoeWrite filename password) ?_
  intro wkc
  refine Accounts.ite (fun _ => ?_) (fun _ => dropAndReturn_accounts hT stale.mbx _)
  refine hT.bind (foeWriteLoop_accounts hT cfg file fuel stale.mbx _) ?_
  intro r
  exact dropAndReturn_accounts hT r.1 _

theorem quiet_eoeSetIpReply (reply : Received) : Quiet (eoeSetIpReply reply : MbxM σ Int) := by
  simp only [eoeSetIpReply]
  split_ifs <;> exact quiet_pure _

theorem quiet_eoeGetIpReply (reply : Received) :
    Quiet (eoeGetIpReply reply : MbxM σ (Int × Option EoeParam)) := by
  simp only [eoeGetIpReply]
  split_ifs <;> exact quiet_pure _

include hT in
theorem eoeSetIp_accounts (eoePort : UInt8) (ipparam : EoeParam) :
    Accounts T own (eoeSetIp port cfg eoePort ipparam) (fun _ => own) := by
  simp only [eoeSetIp]
  refine hT.bind (mbxReceive_accounts hT cfg) ?_
  intro stale
  refine hT.bind (getMbxM_accounts hT) ?_
  intro mbxOut
  cases mbxOut with
  | none => exact Ledger.throw _
  | some out =>
    refine fillRequest_accounts hT cfg out _ ?_
    exact infoExchange_accounts hT cfg out stale.mbx _ _ quiet_eoeSetIpReply

include hT in
theorem eoeGetIp_accounts (eoePort : UInt8) :
    Accounts T own (eoeGetIp port cfg eoePort) (fun _ => own) := by
  simp only [eoeGetIp]
  refine hT.bind (mbxReceive_accounts hT cfg) ?_
  intro stale
  refine hT.bind (getMbxM_accounts hT) ?_
  intro mbxOut
  cases mbxOut with
  | none => exact Ledger.throw _
  | some out =>
    refine fillRequest_accounts hT cfg out _ ?_
    exact infoExchange_accounts hT cfg out stale.mbx _ _ quiet_eoeGetIpReply

theorem quiet_nextTxFrameNo (fragment : UInt8) :
    Quiet (nextTxFrameNo fragment : MbxM σ UInt8) := by
  intro c a c' hc
  cases hc
  exact ⟨rfl,rfl⟩

include hT in
theorem eoeSendLoop_accounts (eoePort : UInt8) (maxdata : Nat) (p : List UInt8) (fuel : Nat) :
    ∀ (offset : Nat) (fragment : UInt8),
    Accounts T own (eoeSendLoop port cfg eoePort maxdata p fuel offset fragment)
      (fun _ => own) := by
  induction fuel with
  | zero =>
    intro offset fragment
    exact Ledger.throw _
  | succ fuel ih =>
    intro offset fragment
    rw [eoeSendLoop]
    refine hT.bind (getMbxM_accounts hT) ?_
    intro mbxOut
    cases mbxOut with
    | none => exact Ledger.throw _
    | some out =>
      refine hT.bind ((quiet_clearMbx out).accounts hT) ?_
      intro _
      refine hT.bind ((quiet_nextTxFrameNo fragment).accounts hT) ?_
      intro no
      refine hT.bind ((quiet_nextMbxCnt cfg).accounts hT) ?_
      intro cnt
      refine hT.bind ((quiet_fillMbx out _).accounts hT) ?_
      intro _
      refine hT.bind (mbxSend_accounts hT cfg out) ?_
      intro wkc
      exact Accounts.ite (fun _ => ih _ _) (fun _ => hT.pure _ rfl)

include hT in
theorem eoeSend_accounts (fuel : Nat) (eoePort : UInt8) (p : List UInt8) :
    Accounts T own (eoeSend port cfg fuel eoePort p) (fun _ => own) :=
  Accounts.ite (fun _ => hT.pure _ rfl)
    (fun _ => eoeSendLoop_accounts hT cfg eoePort _ p fuel 0 0)

theorem quiet_eoeRecvStore (buffersize : Int) (s : EoeRecv) (mbx : List UInt8) :
    Quiet (eoeRecvStore buffersize s mbx : MbxM σ EoeRecv) := by
  simp only [eoeRecvStore]
  split_ifs
  all_goals first
    | exact quiet_throw _
    | exact quiet_pure _

include hT in
theorem eoeRecvLoop_accounts (eoePort : UInt8) (buffersize : Int) (fuel : Nat) :
    ∀ (reply : Received) (s : EoeRecv),
    Accounts T (reply.mbx.toList++own) (eoeRecvLoop port cfg eoePort buffersize fuel reply s)
      (fun r => r.1.toList++own) := by
  induction fuel with
  | zero =>
    intro reply s
    exact Ledger.throw _
  | succ fuel ih =>
    intro reply s
    rw [eoeRecvLoop]
    refine Accounts.ite (fun _ => ?_) (fun _ => hT.pure _ rfl)
    refine Accounts.ite (fun _ => ?_) (fun _ => hT.pure _ rfl)
    refine Accounts.ite (fun _ => ?_) (fun _ => hT.pure _ rfl)
    refine hT.bind ((quiet_eoeRecvStore buffersize s reply.data).accounts hT) ?_
    intro s'
    refine Accounts.ite (fun _ => hT.pure _ rfl) (fun _ => ?_)
    refine hT.bind (dropMbxIn_accounts hT reply.mbx) ?_
    intro _
    refine hT.bind (mbxReceive_accounts hT cfg) ?_
    intro next
    exact ih next s'

include hT in
theorem eoeRecv_accounts (fuel : Nat) (eoePort : UInt8) (psize : Int) :
    Accounts T own (eoeRecv port cfg fuel eoePort psize) (fun _ => own) := by
  simp only [eoeRecv]
  refine hT.bind (mbxReceive_accounts hT cfg) ?_
  intro first
  refine hT.bind (eoeRecvLoop_accounts hT cfg eoePort psize fuel first _) ?_
  intro r
  exact dropAndReturn_accounts hT r.1 _

end EtherCATMaster.Mailbox
