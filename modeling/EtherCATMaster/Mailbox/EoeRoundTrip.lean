import EtherCATMaster.Mailbox.EoeFragments

namespace EtherCATMaster.Mailbox

open EtherCATMaster.Framework

variable {σ : Type} {port : Port σ} {cfg : SlaveCfg} {eoePort no : UInt8} {block : Nat}
  {p : List UInt8}

section FrameNumber

/-- An account of the number of the last EoE frame, which only `ecx_EOEsend` changes. -/
def SameFrameNo (_ : Unit) (c : Client σ) (_ : Unit) (c' : Client σ) : Prop :=
  c'.txframeno=c.txframeno

theorem sameFrameNo_ledger : Ledger (SameFrameNo (σ := σ)) :=
  ⟨fun _ _ => rfl,fun _ _ _ _ _ _ h1 h2 => h2.trans h1⟩

theorem frameNo_moves (mvs : List Move) : ∀ c : Client σ,
    (mvs.foldl Client.move c).txframeno=c.txframeno := by
  induction mvs with
  | nil =>
    intro c
    rfl
  | cons mv mvs ih =>
    intro c
    have hmove : (c.move mv).txframeno=c.txframeno := by
      cases mv <;> simp only [Client.move] <;> split <;> rfl
    exact (ih _).trans hmove

theorem getMbxM_frameNo : Accounts SameFrameNo () (getMbxM port) (fun _ => ()) := by
  intro c a c' hr
  cases hr
  exact frameNo_moves _ _

theorem mbxSend_frameNo (m : Nat) : Accounts SameFrameNo () (mbxSend port cfg m) (fun _ => ()) := by
  have hcontent : Accounts (SameFrameNo (σ := σ)) () (content m) (fun _ => ()) := by
    intro c a c' hr
    cases hr
    rfl
  have hslave (bytes : List UInt8) : Accounts SameFrameNo () (writeSlave port bytes)
      (fun _ => ()) := by
    intro c a c' hr
    cases hr
    rfl
  have hempty : Accounts SameFrameNo () (mbxEmpty port) (fun _ => ()) := by
    intro c a c' hr
    cases hr
    rfl
  have hdrop : Accounts SameFrameNo () (dropMbxM port m) (fun _ => ()) := by
    intro c a c' hr
    cases hr
    exact frameNo_moves _ _
  have hreturn (w : Int) : Accounts (SameFrameNo (σ := σ)) () (pure w : MbxM σ Int)
      (fun _ => ()) := sameFrameNo_ledger.pure w rfl
  have hwrite : Accounts SameFrameNo () (writeMailbox port cfg m) (fun _ => ()) := by
    apply Accounts.ite
    · intro _
      apply sameFrameNo_ledger.bind hcontent
      intro mbx
      apply sameFrameNo_ledger.bind (hslave _)
      intro w
      apply Accounts.ite
      · intro _
        apply sameFrameNo_ledger.bind hempty
        intro empty
        apply Accounts.ite
        · intro _
          exact sameFrameNo_ledger.bind (hslave _) (fun _ => hreturn _)
        · intro _
          exact hreturn _
      · intro _
        exact hreturn _
    · intro _
      exact hreturn 0
  apply sameFrameNo_ledger.bind hwrite
  intro w
  exact sameFrameNo_ledger.bind hdrop (fun _ => hreturn w)

end FrameNumber

/-- The number the fragments of a frame get, as the context stands before fragment `k`. -/
def frameNoAt (c : Client σ) (k : Nat) : UInt8 := if k=0 then c.txframeno+1 else c.txframeno

theorem nextTxFrameNo_eq {k : Nat} (hk : k<64) (c : Client σ) :
    nextTxFrameNo (UInt8.ofNat k) c=.ok (frameNoAt c k,{ c with txframeno := frameNoAt c k }) := by
  have hzero : UInt8.ofNat k=0 ↔ k=0 := by
    interval_cases k <;> decide
  simp only [nextTxFrameNo,frameNoAt,hzero]

theorem fragment_pos {k : Nat} (hk : k<64) : UInt8.ofNat k>0 ↔ 0 < k := by
  interval_cases k <;> decide

def fragmentSize (maxdata : Nat) (p : List UInt8) (offset : Nat) : Nat :=
  if p.length-offset>maxdata then (maxdata >>> 5) <<< 5 else p.length-offset

def sentFragment (eoePort cnt no : UInt8) (maxdata : Nat) (p : List UInt8) (k offset : Nat) :
    List UInt8 :=
  eoeFrame (UInt16.ofNat (4+fragmentSize maxdata p offset)) cnt
    (fragmentInfo1 eoePort (decide (fragmentSize maxdata p offset=p.length-offset)))
    (fragmentInfo2 (UInt8.ofNat k) (fragmentPlace p offset k) no)
    ((p.drop offset).take (fragmentSize maxdata p offset))

theorem fragmentSize_block {maxdata k : Nat} (hblock : block=(maxdata >>> 5) <<< 5) :
    (p.length-k*block>maxdata ∧ fragmentSize maxdata p (k*block)=block ∧
      fragmentSize maxdata p (k*block)≠p.length-k*block ∧ (k+1)*block<p.length) ∨
    (p.length-k*block ≤ maxdata ∧ fragmentSize maxdata p (k*block)=p.length-k*block) := by
  have hsucc : (k+1)*block=k*block+block := Nat.succ_mul k block
  have hle : block ≤ maxdata := by
    rw [hblock,Nat.shiftRight_eq_div_pow,Nat.shiftLeft_eq]
    omega
  rw [fragmentSize,← hblock]
  split_ifs with hmore
  · exact .inl ⟨hmore,rfl,by omega,by omega⟩
  · exact .inr ⟨by omega,rfl⟩

theorem sentFragment_front (no : UInt8) {cnt : UInt8} {maxdata k out : Nat} {u : Unit}
    {c c' : Client σ}
    (hk : k<64) (hmax : 10+maxdata=cfg.mbxL.toNat)
    (hr : fillMbx out (eoeFrame (UInt16.ofNat (4+fragmentSize maxdata p (k*block))) cnt
      (fragmentInfo1 eoePort (decide (fragmentSize maxdata p (k*block)=p.length-k*block)))
      (fragmentInfo2 (UInt8.ofNat k) (if UInt8.ofNat k>0 then (k*block) >>> 5
        else (p.length+31) >>> 5) no)
      ((p.drop (k*block)).take (fragmentSize maxdata p (k*block)))) c=.ok (u,c')) :
    sentFragment eoePort cnt no maxdata p k (k*block) <+: (c'.buffers out).take cfg.mbxL.toNat := by
  have hle : fragmentSize maxdata p (k*block) ≤ maxdata := by
    simp only [fragmentSize,Nat.shiftRight_eq_div_pow,Nat.shiftLeft_eq]
    split_ifs <;> omega
  cases hr
  simp only [Client.store,Function.update_self,fragment_pos hk]
  apply request_front
  rw [sentFragment,eoeFrame_length,List.length_take]
  omega

/-- A frame that was sent as a whole has gone out in fragments. -/
theorem eoeSendLoop_fragmented {maxdata : Nat} (hp : Fragmentable block p)
    (hblock : block=(maxdata >>> 5) <<< 5) (hmax : 10+maxdata=cfg.mbxL.toNat) (fuel : Nat) :
    ∀ {k : Nat} {wkc : Int} {c c' : Client (σ × List (List UInt8))},k*block<p.length →
    eoeSendLoop port.recording cfg eoePort maxdata p fuel (k*block) (UInt8.ofNat k) c=
      .ok (wkc,c') → 0 < wkc →
    ∃ frames,taken c'=taken c++frames ∧ Fragmented eoePort (frameNoAt c k) block p k frames ∧
      ∀ frame ∈ frames,frame.length ≤ cfg.mbxL.toNat := by
  induction fuel with
  | zero =>
    intro k wkc c c' hk hr
    exact absurd hr throw_ok
  | succ fuel ih =>
    intro k wkc c c' hk hr hpos
    have hcount := hp.count hk
    rw [eoeSendLoop] at hr
    obtain ⟨mbxOut,c1,hget,hr⟩ := bind_ok.mp hr
    cases mbxOut with
    | none => exact absurd hr throw_ok
    | some out =>
      obtain ⟨_,c2,hclear,hr⟩ := bind_ok.mp hr
      obtain ⟨no,c3,hno,hr⟩ := bind_ok.mp hr
      obtain ⟨cnt,c4,hcnt,hr⟩ := bind_ok.mp hr
      obtain ⟨_,c5,hfill,hr⟩ := bind_ok.mp hr
      obtain ⟨w,c6,hsend,hr⟩ := bind_ok.mp hr
      have hfront := sentFragment_front no hcount hmax hfill
      have hready : taken c5=taken c ∧ c5.txframeno=no ∧ no=frameNoAt c k := by
        have h1 : taken c1=taken c := getMbxM_none_taken _ _ _ hget
        have h1' : c1.txframeno=c.txframeno := getMbxM_frameNo _ _ _ hget
        cases hclear
        rw [nextTxFrameNo_eq hcount] at hno
        cases hno
        cases hcnt
        cases hfill
        refine ⟨h1,rfl,?_⟩
        simp only [frameNoAt,Client.store,h1']
      obtain ⟨htaken,hframeno,hsame⟩ := hready
      let mbx := (c5.buffers out).take cfg.mbxL.toNat
      have hmbx : mbx.length ≤ cfg.mbxL.toNat := by
        rw [List.length_take]
        omega
      have hafter : c6.txframeno=no := (mbxSend_frameNo out _ _ _ hsend).trans hframeno
      change (if decide (fragmentSize maxdata p (k*block)=p.length-k*block)=false ∧ w>0 then
          eoeSendLoop port.recording cfg eoePort maxdata p fuel
            (k*block+fragmentSize maxdata p (k*block)) (UInt8.ofNat k+1)
        else pure w) c6=_ at hr
      rcases fragmentSize_block (p := p) (k := k) hblock with ⟨-,hsize,hnot,hnext⟩|⟨-,hsize⟩
      · have hpart : carriesFragment eoePort (frameNoAt c k) k (fragmentPlace p (k*block) k)
            ((p.drop (k*block)).take block) false mbx := by
          have hlen : ((p.drop (k*block)).take block).length=block := by
            have : (k+1)*block=k*block+block := Nat.succ_mul k block
            rw [List.length_take,List.length_drop]
            omega
          refine ⟨cnt,?_⟩
          rw [sentFragment,decide_eq_false hnot,hsize] at hfront
          rw [hlen,← hsame]
          exact hfront
        by_cases hw : w>0
        · rw [if_pos ⟨decide_eq_false hnot,hw⟩,hsize,fragment_succ,← Nat.succ_mul] at hr
          obtain ⟨-,hsent⟩ := mbxSend_taken hsend hw
          obtain ⟨rest,hrest,hfragments,hlens⟩ := ih hnext hr hpos
          have hnumber : frameNoAt c6 (k+1)=frameNoAt c k := by
            rw [frameNoAt,if_neg (Nat.succ_ne_zero k),hafter,hsame]
          rw [hnumber] at hfragments
          refine ⟨mbx::rest,?_,.more k mbx rest hnext hpart hfragments,?_⟩
          · rw [hrest,hsent,htaken,List.append_assoc]
            rfl
          · intro frame hframe
            rcases List.mem_cons.mp hframe with rfl|hframe
            · exact hmbx
            · exact hlens frame hframe
        · rw [if_neg (fun h => hw h.2)] at hr
          cases pure_ok.mp hr
          exact absurd hpos hw
      · have hlast : carriesFragment eoePort (frameNoAt c k) k (fragmentPlace p (k*block) k)
            (p.drop (k*block)) true mbx := by
          refine ⟨cnt,?_⟩
          rw [sentFragment,decide_eq_true hsize,hsize,← List.length_drop,List.take_length] at hfront
          rw [← hsame]
          exact hfront
        have hstop : ¬(decide (fragmentSize maxdata p (k*block)=p.length-k*block)=false ∧ w>0) := by
          rw [decide_eq_true hsize]
          simp
        rw [if_neg hstop] at hr
        cases pure_ok.mp hr
        obtain ⟨-,hsent⟩ := mbxSend_taken hsend hpos
        refine ⟨[mbx],?_,.last k mbx hk hlast,?_⟩
        · rw [hsent,htaken]
        · intro frame hframe
          rw [List.mem_singleton.mp hframe]
          exact hmbx

/-- Nothing is lost, and there is a mailbox for each fragment: the frame is sent as a whole. -/
theorem eoeSendLoop_returns {τ : Type} {view : σ → List (List UInt8) × τ} {maxdata : Nat}
    (hs : Line port cfg view) (hlarge : 32 ≤ block) (hblock : block=(maxdata >>> 5) <<< 5)
    (fuel : Nat) : ∀ {k : Nat} {v : List (List UInt8) × τ} {c : Client σ},
    p.length-k*block<fuel → Talking view 1 [] v c →
    ∃ w c',eoeSendLoop port cfg eoePort maxdata p fuel (k*block) (UInt8.ofNat k) c=.ok (w,c') ∧
      0 < w := by
  induction fuel with
  | zero =>
    intro k v c hf
    omega
  | succ fuel ih =>
    intro k v c hf h
    obtain ⟨out,c1,hget,h1,-⟩ := h.get hs (by simp)
    have h2 := h1.store out (List.replicate ecMaxMbx 0)
    let c3 : Client σ := { c1.store out (List.replicate ecMaxMbx 0) with
      txframeno := if UInt8.ofNat k=0 then c1.txframeno+1 else c1.txframeno }
    have h3 : Talking view 1 [out] v c3 := ⟨h2.tail,h2.cells,h2.items,h2.supply,h2.seen⟩
    obtain ⟨cnt,c4,hcnt,h4,-⟩ := h3.count cfg
    let frame := eoeFrame (UInt16.ofNat (4+fragmentSize maxdata p (k*block))) cnt
      (fragmentInfo1 eoePort (decide (fragmentSize maxdata p (k*block)=p.length-k*block)))
      (fragmentInfo2 (UInt8.ofNat k) (if UInt8.ofNat k>0 then (k*block) >>> 5
        else (p.length+31) >>> 5) c3.txframeno)
      ((p.drop (k*block)).take (fragmentSize maxdata p (k*block)))
    have h5 := h4.store out frame
    obtain ⟨w,c6,hsend,hw,h6,-⟩ := h5.send hs
    have hrun : eoeSendLoop port cfg eoePort maxdata p (fuel+1) (k*block) (UInt8.ofNat k) c=
        (if decide (fragmentSize maxdata p (k*block)=p.length-k*block)=false ∧ w>0 then
          eoeSendLoop port cfg eoePort maxdata p fuel (k*block+fragmentSize maxdata p (k*block))
            (UInt8.ofNat k+1)
        else pure w) c6 := by
      rw [eoeSendLoop,run_bind hget]
      dsimp only
      rw [run_bind (show clearMbx out c1=.ok ((),c1.store out (List.replicate ecMaxMbx 0)) from rfl),
        run_bind (show nextTxFrameNo (UInt8.ofNat k) (c1.store out (List.replicate ecMaxMbx 0))=
          .ok (c3.txframeno,c3) from rfl),run_bind hcnt]
      apply (run_bind (show fillMbx out frame c4=.ok ((),c4.store out frame) from rfl)).trans
      rw [run_bind hsend]
      rfl
    rw [hrun]
    rcases fragmentSize_block (p := p) (k := k) hblock with ⟨-,hsize,hnot,hnext⟩|⟨-,hsize⟩
    · rw [if_pos ⟨decide_eq_false hnot,hw⟩,hsize,fragment_succ,← Nat.succ_mul]
      have hless : p.length-(k+1)*block<fuel := by
        have : (k+1)*block=k*block+block := Nat.succ_mul k block
        omega
      exact ih hless h6
    · rw [if_neg (by rw [decide_eq_true hsize]; simp)]
      exact ⟨w,c6,rfl,hw⟩

/-- The mailboxes, read one after the other by a caller who has room for the frame, report it with
the last one and not before. -/
def ReadBack (p : List UInt8) (frames : List (List UInt8)) : Prop :=
  ∀ s : EoeFragment,s.rxfragmentno=0 → (p.length : Int) ≤ s.psize →
    ∃ s',eoeReadFragments s frames=(List.replicate (frames.length-1) 0++[1],s') ∧
      s'.psize=p.length ∧ s'.buffer=p++s.buffer.drop p.length

/-- A call of `ecx_EOErecv` on this port, with room for the frame rounded up, gets it from a slave
in which mailboxes with these contents wait. -/
def ReceivedBack (eoePort : UInt8) (p : List UInt8) (frames : List (List UInt8)) : Prop :=
  ∀ (σ τ : Type) (port : Port σ) (cfg : SlaveCfg) (view : σ → List (List UInt8) × τ)
    (waiting : List (List UInt8)) (psize : Int) (fuel : Nat) (c : Client σ),
    Line port cfg view → c.pool.Wf → 1 ≤ c.pool.listcount → (view c.env).1=waiting →
    List.Forall₂ bringsContent frames waiting → ((p.length+31)/32*32 : Nat) ≤ psize →
    frames.length ≤ fuel →
    ∃ r c',eoeRecv port cfg fuel eoePort psize c=.ok (r,c') ∧ 0 < r.wkc ∧ r.psize=p.length ∧
      r.data=p

theorem Fragmented.brought (hp : Fragmentable block p) {k : Nat} {frames : List (List UInt8)}
    (h : Fragmented eoePort no block p k frames) :
    ∀ {waiting : List (List UInt8)},List.Forall₂ bringsContent frames waiting →
      Fragmented eoePort no block p k waiting := by
  have hsmall := hp.small
  induction h with
  | last k mbx hk hmbx =>
    intro waiting hw
    cases hw with
    | cons hx hrest =>
      cases hrest
      exact .last k _ hk (hmbx.brought (by rw [List.length_drop]; omega) hx)
  | more k mbx rest hmore hmbx _ ih =>
    intro waiting hw
    cases hw with
    | cons hx hrest =>
      apply Fragmented.more k _ _ hmore _ (ih hrest)
      exact hmbx.brought (by rw [List.length_take,List.length_drop]; omega) hx

theorem Fragmented.readBack (hp : Fragmentable block p) (hport : eoePort.toNat<16)
    {frames : List (List UInt8)} (h : Fragmented eoePort no block p 0 frames) :
    ReadBack p frames := by
  intro s hzero hroom
  obtain ⟨s',hrun,-,hsize,hbuffer⟩ :=
    eoeReadFragments_run hp hport h s (fun _ => ⟨hzero,hroom,rfl⟩) (by simp)
  exact ⟨s',hrun,hsize,hbuffer⟩

theorem Fragmented.receivedBack (hp : Fragmentable block p) (hport : eoePort.toNat<16)
    {frames : List (List UInt8)} (h : Fragmented eoePort no block p 0 frames) :
    ReceivedBack eoePort p frames := by
  intro σ τ port cfg view waiting psize fuel c hs hwf hone hseen hw hbuffer hfuel
  have hwaiting := h.brought hp hw
  have hlen := hw.length_eq
  have hstart : Talking view 1 [] (waiting,(view c.env).2) c := by
    rw [← hseen]
    exact Talking.start view hwf hone
  obtain ⟨x,q,hx⟩ : ∃ x q,waiting=x::q := by
    cases hwaiting <;> exact ⟨_,_,rfl⟩
  rw [hx] at hstart
  obtain ⟨r,m,c1,hreceive,hr,hm,hfront,h1,-⟩ := hstart.receive hs (by simp)
  obtain ⟨m',w,c2,hloop,hw',h2⟩ := eoeRecvLoop_run hs hp hport hbuffer hwaiting fuel ⟨0,0xff,[]⟩ r
    m (view c.env).2 c1 (by omega) ⟨rfl,by simp,by simp⟩ hr hm (by rw [hx]; exact hfront)
    (by rw [hx]; exact h1)
  obtain ⟨c3,hdrop,-⟩ := h2.drop hs
  refine ⟨⟨w,p.length,p⟩,c3,?_,hw',rfl,rfl⟩
  rw [eoeRecv,run_bind hreceive,run_bind hloop,
    run_bind (show dropMbxIn port (some m') c2=.ok ((),c3) from hdrop)]
  rfl

def isEoeMailbox (room : Nat) (mbx : List UInt8) : Prop :=
  6 ≤ mbx.length ∧ mbx.length ≤ room ∧ mbxType mbx=ectMbxtEoe

theorem Fragmented.isEoe (hp : Fragmentable block p) (hport : eoePort.toNat<16) {k : Nat}
    {frames : List (List UInt8)} (h : Fragmented eoePort no block p k frames) :
    ∀ frame ∈ frames,6 ≤ frame.length ∧ mbxType frame=ectMbxtEoe := by
  have heoe {fragment place : Nat} {data mbx : List UInt8} {last : Bool}
      (hmbx : carriesFragment eoePort no fragment place data last mbx) : 6 ≤ mbx.length := by
    obtain ⟨cnt,hfront⟩ := hmbx
    have := hfront.length_le
    rw [eoeFrame_length] at this
    omega
  induction h with
  | last k mbx hk hmbx =>
    intro frame hframe
    rw [List.mem_singleton.mp hframe]
    exact ⟨heoe hmbx,(hmbx.fields hport (hp.count hk) (hp.place hk)).type⟩
  | more k mbx rest hmore hmbx _ ih =>
    intro frame hframe
    have hk : k*block<p.length := by
      have : (k+1)*block=k*block+block := Nat.succ_mul k block
      omega
    rcases List.mem_cons.mp hframe with rfl|hframe
    · exact ⟨heoe hmbx,(hmbx.fields hport (hp.count hk) (hp.place hk)).type⟩
    · exact ih frame hframe

/-- What `ecx_EOEsend` has sent when it succeeds. -/
def RoundTrips (eoePort : UInt8) (p : List UInt8) (room : Nat)
    (frames : List (List UInt8)) : Prop :=
  ReadBack p frames ∧ ReceivedBack eoePort p frames ∧ ∀ frame ∈ frames,isEoeMailbox room frame

/-- A frame that `ecx_EOEsend` has sent is found again by both receivers, and it is sent if the
slave takes each mailbox, whose size the master supports. -/
theorem eoe_round_trip (port : Port σ) (cfg : SlaveCfg) (hport : eoePort.toNat<16)
    (hne : 1 ≤ p.length) (hsmall : p.length ≤ 2016) (hin : 42 ≤ cfg.mbxL.toNat) :
    (∀ fuel c wkc c',eoeSend port.recording cfg fuel eoePort p c=.ok (wkc,c') → 0 < wkc →
      ∃ frames,taken c'=taken c++frames ∧ RoundTrips eoePort p cfg.mbxL.toNat frames) ∧
    (∀ (τ : Type) (view : σ → List (List UInt8) × τ) fuel (c : Client (σ × List (List UInt8))),
      Line port cfg view → c.pool.Wf → 1 ≤ c.pool.listcount → p.length < fuel →
      ∃ wkc c',eoeSend port.recording cfg fuel eoePort p c=.ok (wkc,c') ∧ 0 < wkc) := by
  let block := ((cfg.mbxL.toNat-0x0a) >>> 5) <<< 5
  have hp : Fragmentable block p := by
    refine ⟨hsmall,?_,?_⟩
    · simp only [block,Nat.shiftRight_eq_div_pow,Nat.shiftLeft_eq]
      omega
    · simp only [block,Nat.shiftLeft_eq]
      exact Nat.mul_mod_left _ _
  have hbig : ¬cfg.mbxL.toNat<0x0a := by omega
  have hzero : (0 : Nat)=0*block := (Nat.zero_mul block).symm
  constructor
  · intro fuel c wkc c' hr hpos
    rw [eoeSend,if_neg hbig,hzero] at hr
    obtain ⟨frames,htaken,hfragments,hlens⟩ :=
      eoeSendLoop_fragmented hp rfl (by omega) fuel (by omega) hr hpos
    refine ⟨frames,htaken,hfragments.readBack hp hport,hfragments.receivedBack hp hport,?_⟩
    intro frame hframe
    obtain ⟨hsix,htype⟩ := hfragments.isEoe hp hport frame hframe
    exact ⟨hsix,hlens frame hframe,htype⟩
  · intro τ view fuel c hs hwf hone hfuel
    rw [eoeSend,if_neg hbig,hzero]
    exact eoeSendLoop_returns hs.recording hp.large rfl fuel (by omega)
      (Talking.start (recorded view) hwf hone)

/-- A slave that takes every mailbox and has none to give. -/
def silentSlave : Port Unit where
  write := fun _ _ => (1,())
  empty := fun _ => (true,())
  mailbox := fun _ => (.silent 0,())
  others := fun _ => ([],())

theorem silentSlave_line {cfg : SlaveCfg}
    (hin : 0 < cfg.mbxL.toNat ∧ cfg.mbxL.toNat ≤ ecMaxMbx ∧ cfg.preop=true)
    (hout : 0 < cfg.mbxRl.toNat ∧ cfg.mbxRl.toNat ≤ ecMaxMbx) :
    Line silentSlave cfg (fun _ => ([],())) where
  inbox := hin
  outbox := hout
  alone := fun _ => rfl
  steady := fun _ => rfl
  takes := fun _ _ => Int.one_pos
  hands := by
    intro e reply q t h
    cases h
  silent := fun _ _ _ => ⟨0,rfl,rfl⟩

/-- A slave that hands over the EoE frames it has got, in order. -/
def replayingSlave (room : Nat) :
    Port { q : List (List UInt8) // ∀ mbx ∈ q,isEoeMailbox room mbx } where
  write := fun q _ => (1,q)
  empty := fun q => (true,q)
  mailbox := fun q => (q.val.head?.elim (.silent 0) (fun mbx => .full ⟨1,mbx,false⟩ []),
    ⟨q.val.tail,fun mbx hmbx => q.property mbx (List.mem_of_mem_tail hmbx)⟩)
  others := fun q => ([],q)

theorem replayingSlave_line {cfg : SlaveCfg} {room : Nat}
    (hin : 0 < cfg.mbxL.toNat ∧ cfg.mbxL.toNat ≤ ecMaxMbx ∧ cfg.preop=true)
    (hout : 0 < cfg.mbxRl.toNat ∧ cfg.mbxRl.toNat ≤ ecMaxMbx) (hroom : room ≤ cfg.mbxRl.toNat) :
    Line (replayingSlave room) cfg (fun q => (q.val,())) where
  inbox := hin
  outbox := hout
  alone := fun _ => rfl
  steady := fun _ => rfl
  takes := fun _ _ => Int.one_pos
  hands := by
    intro e reply q t h
    obtain ⟨waiting,hgood⟩ := e
    cases h
    obtain ⟨hsix,hfits,htype⟩ := hgood reply List.mem_cons_self
    refine ⟨⟨1,reply,false⟩,[],rfl,Int.one_pos,List.prefix_refl _,hfits.trans hroom,?_,rfl⟩
    intro mbx hfront
    have hsame : mbxType mbx=ectMbxtEoe := by
      rw [mbxType,byteAt_of_front hfront (by omega)]
      exact htype
    have herr : ectMbxtEoe≠ectMbxtErr := by decide
    have hcoe : ectMbxtEoe≠ectMbxtCoe := by decide
    simp [handledInReceive,hsame,herr,hcoe]
  silent := by
    intro e t h
    obtain ⟨waiting,hgood⟩ := e
    cases h
    exact ⟨0,rfl,rfl⟩

/-- Mailboxes of 42 bytes, which have room for fragments of 32 bytes. -/
def cfg42 : SlaveCfg := ⟨1,42,42,true⟩

theorem forty_byte_frame_arrives : ∃ wkc c' frames,
    eoeSend silentSlave.recording cfg42 41 3 (List.replicate 40 7) (Client.start ((),[]))=
      .ok (wkc,c') ∧ taken c'=frames ∧ RoundTrips 3 (List.replicate 40 7) 42 frames ∧
    ∃ q r c'',q.val=frames ∧ eoeRecv (replayingSlave 42) cfg42 frames.length 3 64
      (Client.start q)=.ok (r,c'') ∧ r.data=List.replicate 40 7 := by
  obtain ⟨hsent,hreturns⟩ := eoe_round_trip silentSlave cfg42 (show (3 : UInt8).toNat<16 by decide)
    (show 1 ≤ (List.replicate 40 (7 : UInt8)).length by decide) (by decide) (by decide)
  have hline : Line silentSlave cfg42 (fun _ => ([],())) := silentSlave_line (by decide) (by decide)
  obtain ⟨wkc,c',hrun,hpos⟩ := hreturns Unit (fun _ => ([],())) 41 (Client.start ((),[])) hline
    initMbxPool_wf (by decide) (by decide)
  obtain ⟨frames,htaken,htrips⟩ := hsent _ _ _ _ hrun hpos
  have hbrings : List.Forall₂ bringsContent frames frames :=
    List.forall₂_same.mpr (fun mbx _ => List.take_prefix _ mbx)
  have hreplay : Line (replayingSlave 42) cfg42 (fun q => (q.val,())) :=
    replayingSlave_line (by decide) (by decide) (by decide)
  obtain ⟨r,c'',hrecv,-,-,hdata⟩ := htrips.2.1 _ _ _ _ _ frames 64 frames.length
    (Client.start ⟨frames,htrips.2.2⟩) hreplay initMbxPool_wf (show 1 ≤ mbxPoolSize by decide) rfl
    hbrings (by decide) (le_refl _)
  exact ⟨wkc,c',frames,hrun,htaken,htrips,⟨frames,htrips.2.2⟩,r,c'',rfl,hrecv,hdata⟩

/-- A mailbox that is larger than the master supports is not sent at all. -/
theorem large_mailbox_not_sent :
    (eoeSend silentSlave.recording ⟨1,1487,1487,true⟩ 64 0 [0] (Client.start ((),[]))).toOption.map
      (fun r => (r.1,taken r.2))=some (0,[]) ∧
    ¬∃ wkc c' frames,eoeSend silentSlave.recording ⟨1,1487,1487,true⟩ 64 0 [0]
      (Client.start ((),[]))=.ok (wkc,c') ∧ taken c'=frames ∧ RoundTrips 0 [0] 1487 frames := by
  have hrun : (eoeSend silentSlave.recording ⟨1,1487,1487,true⟩ 64 0 [0]
      (Client.start ((),[]))).toOption.map (fun r => (r.1,taken r.2))=some (0,[]) := by
    decide +kernel
  refine ⟨hrun,?_⟩
  intro hclaim
  obtain ⟨wkc,c',frames,hr,htaken,hread,-,-⟩ := hclaim
  rw [hr] at hrun
  have hnone : taken c'=[] := congrArg Prod.snd (Option.some.inj hrun)
  rw [← htaken,hnone] at hread
  obtain ⟨s',hs',-⟩ := hread ⟨0,0,0,0,1,[]⟩ rfl (by decide)
  have hlen := congrArg (fun r => r.1.length) hs'
  simp [eoeReadFragments] at hlen

end EtherCATMaster.Mailbox
