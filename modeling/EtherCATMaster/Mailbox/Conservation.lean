import EtherCATMaster.Mailbox.ServiceAccounts
import EtherCATMaster.Framework.Run

namespace EtherCATMaster.Mailbox

open EtherCATMaster.Framework

variable {σ : Type}

/-- The first read of the slave's mailbox that gets through brings a mailbox for the caller: no
error, no emergency, nothing for the EoE hook. -/
def Reading.passes (cfg : SlaveCfg) (old : List UInt8) : Reading → Bool
  | .silent _ => false
  | .full first rest =>
      match (first::rest).find? fun a => decide (0 < a.wkc) with
      | some a => !handledInReceive (overwrite old (a.bytes.take cfg.mbxRl.toNat)) a.hooked
      | none => false

/-- A mailbox for the caller waits in the slave. It is read into the next mailbox of the pool. -/
def StaleMailbox (port : Port σ) (cfg : SlaveCfg) (c : Client σ) : Prop :=
  (0 < cfg.mbxRl.toNat ∧ cfg.mbxRl.toNat ≤ ecMaxMbx) ∧
    (port.mailbox c.env).1.passes cfg (c.buffers (c.pool.mbxemptylist c.pool.listtail))=true

instance StaleMailbox.decidable (port : Port σ) (cfg : SlaveCfg) (c : Client σ) :
    Decidable (StaleMailbox port cfg c) :=
  inferInstanceAs (Decidable (_ ∧ _))

/-- The mailbox services. -/
inductive Service where
  | sdoRead (fuel : Nat) (index : UInt16) (subindex : UInt8) (ca : Bool) (psize : Int)
  | sdoWrite (fuel : Nat) (index : UInt16) (subindex : UInt8) (ca : Bool) (p : List UInt8)
  | rxPdo (number : UInt16) (p : List UInt8)
  | txPdo (number : UInt16) (psize : Int)
  | readOdList
  | readOdDescription (index : UInt16)
  | readOeSingle (index : UInt16) (subi : UInt8)
  | soeRead (fuel : Nat) (driveNo elementflags : UInt8) (idn : UInt16) (psize : Int)
  | soeWrite (fuel : Nat) (driveNo elementflags : UInt8) (idn : UInt16) (p : List UInt8)
  | foeRead (fuel : Nat) (filename : List UInt8) (password : UInt32) (psize : Int)
  | foeWrite (fuel : Nat) (filename : List UInt8) (password : UInt32) (file : List UInt8)
  | eoeSend (fuel : Nat) (eoePort : UInt8) (p : List UInt8)
  | eoeRecv (fuel : Nat) (eoePort : UInt8) (psize : Int)
  | eoeSetIp (eoePort : UInt8) (ipparam : EoeParam)
  | eoeGetIp (eoePort : UInt8)

/-- A call of a service, reduced to its result. -/
def Service.run (port : Port σ) (cfg : SlaveCfg) : Service → MbxM σ Int
  | .sdoRead fuel index subindex ca psize => do
      let r ← Mailbox.sdoRead port cfg fuel index subindex ca psize
      pure r.wkc
  | .sdoWrite fuel index subindex ca p => Mailbox.sdoWrite port cfg fuel index subindex ca p
  | .rxPdo number p => Mailbox.rxPdo port cfg number p
  | .txPdo number psize => do
      let r ← Mailbox.txPdo port cfg number psize
      pure r.wkc
  | .readOdList => do
      let r ← Mailbox.readOdList port cfg
      pure r.wkc
  | .readOdDescription index => do
      let r ← Mailbox.readOdDescription port cfg index
      pure r.wkc
  | .readOeSingle index subi => do
      let r ← Mailbox.readOeSingle port cfg index subi
      pure r.1
  | .soeRead fuel driveNo elementflags idn psize => do
      let r ← Mailbox.soeRead port cfg fuel driveNo elementflags idn psize
      pure r.wkc
  | .soeWrite fuel driveNo elementflags idn p =>
      Mailbox.soeWrite port cfg fuel driveNo elementflags idn p
  | .foeRead fuel filename password psize => do
      let r ← Mailbox.foeRead port cfg fuel filename password psize
      pure r.wkc
  | .foeWrite fuel filename password file => Mailbox.foeWrite port cfg fuel filename password file
  | .eoeSend fuel eoePort p => Mailbox.eoeSend port cfg fuel eoePort p
  | .eoeRecv fuel eoePort psize => do
      let r ← Mailbox.eoeRecv port cfg fuel eoePort psize
      pure r.wkc
  | .eoeSetIp eoePort ipparam => Mailbox.eoeSetIp port cfg eoePort ipparam
  | .eoeGetIp eoePort => do
      let r ← Mailbox.eoeGetIp port cfg eoePort
      pure r.1

structure Call where
  cfg : SlaveCfg
  service : Service

/-- The context after a call that returns. -/
def callStep (port : Port σ) (c : Client σ) (call : Call) : Client σ :=
  match call.service.run port call.cfg c with
  | .ok r => r.2
  | .error _ => c

def Completes (port : Port σ) (c : Client σ) (call : Call) : Prop :=
  ∃ r,call.service.run port call.cfg c=.ok r

/-- The call returns with exactly the mailboxes in the free list that were free before it. -/
def Conserves (port : Port σ) (c : Client σ) (call : Call) : Prop :=
  (callStep port c call).pool.free.Perm c.pool.free

/-- Where the services keep the pool together. The SDO services lose a mailbox that waits in the
slave if it takes the last one of the pool; the other CoE services that wait for an answer give it
back twice. -/
def GivesBack (port : Port σ) (c : Client σ) (call : Call) : Prop :=
  match call.service with
  | .sdoRead _ _ _ _ _ => ¬(StaleMailbox port call.cfg c ∧ c.pool.listcount=1)
  | .sdoWrite _ _ _ _ _ => ¬(StaleMailbox port call.cfg c ∧ c.pool.listcount=1)
  | .txPdo _ _ => ¬StaleMailbox port call.cfg c
  | .readOdList => ¬StaleMailbox port call.cfg c
  | .readOdDescription _ => ¬StaleMailbox port call.cfg c
  | .readOeSingle _ _ => ¬StaleMailbox port call.cfg c
  | _ => True

instance Completes.decidable (port : Port σ) (c : Client σ) (call : Call) :
    Decidable (Completes port c call) :=
  match h : call.service.run port call.cfg c with
  | .ok r => isTrue ⟨r,h⟩
  | .error e => isFalse fun hr => by
      obtain ⟨r,hr⟩ := hr
      rw [h] at hr
      cases hr

variable {port : Port σ}

theorem passes_cons {cfg : SlaveCfg} {old : List UInt8} {a b : Attempt} {rest : List Attempt}
    (hw : a.wkc ≤ 0) :
    (Reading.full a (b::rest)).passes cfg old=(Reading.full b rest).passes cfg old := by
  have hnot : decide (0 < a.wkc)=false := by simpa using hw
  simp only [Reading.passes,List.find?_cons,hnot]

theorem passes_of_read {cfg : SlaveCfg} {old : List UInt8} {a : Attempt} {rest : List Attempt}
    (hw : 0 < a.wkc) : (Reading.full a rest).passes cfg old=
      !handledInReceive (overwrite old (a.bytes.take cfg.mbxRl.toNat)) a.hooked := by
  have hyes : decide (0 < a.wkc)=true := by simpa using hw
  simp only [Reading.passes,List.find?_cons,hyes]

theorem readLoop_mbx {cfg : SlaveCfg} {m : Nat} (rest : List Attempt) : ∀ (a : Attempt)
    {c c' : Client σ} {r : Received},readLoop port cfg (some m) (a::rest) c=.ok (r,c') →
      (r.mbx≠none ↔ (Reading.full a rest).passes cfg (c.buffers m)=true) := by
  induction rest with
  | nil =>
    intro a c c' r hr
    rw [readLoop] at hr
    obtain ⟨s,c1,ha,hr⟩ := bind_ok.mp hr
    simp only [ne_eq,not_true,and_false,if_false] at hr
    obtain ⟨_,_,_,hr⟩ := bind_ok.mp hr
    cases pure_ok.mp hr
    rcases readAttempt_cases ha with ⟨hw,hs,-⟩|⟨hw,hs,hh⟩|⟨hw,hs,-,hh⟩
    · have hnot : decide (0 < a.wkc)=false := by simpa using hw
      simp [Reading.passes,hnot,hs,Received.none]
    · rw [passes_of_read hw,hh,hs]
      simp [Received.none]
    · rw [passes_of_read hw,hh,hs]
      simp
  | cons b rest ih =>
    intro a c c' r hr
    rw [readLoop] at hr
    obtain ⟨s,c1,ha,hr⟩ := bind_ok.mp hr
    rcases readAttempt_cases ha with ⟨hw,hs,hc⟩|⟨hw,hs,hh⟩|⟨hw,hs,-,hh⟩
    · -- nothing came: the next read goes into the same mailbox
      rw [hs,hc,if_pos ⟨hw,by simp⟩] at hr
      rw [passes_cons hw]
      exact ih b hr
    · -- dealt with here: the further reads have no mailbox
      have hgo : (s.2.wkc ≤ 0 ∧ b::rest≠[]) := by
        rw [hs]
        exact ⟨le_refl _,by simp⟩
      rw [if_pos hgo,hs] at hr
      rw [passes_of_read hw,hh,(readLoop_null (b::rest) hr).1]
      simp
    · have hstop : ¬(s.2.wkc ≤ 0 ∧ b::rest≠[]) := by
        intro hgo
        have hle := hgo.1
        simp only [hs] at hle
        omega
      rw [if_neg hstop] at hr
      obtain ⟨_,_,_,hr⟩ := bind_ok.mp hr
      cases pure_ok.mp hr
      rw [passes_of_read hw,hh,hs]
      simp

theorem getMbx_head {pool : MbxPool} {m : Nat} (hm : (getMbx pool).1=some m) :
    m=pool.mbxemptylist pool.listtail := by
  simp only [getMbx] at hm
  split_ifs at hm
  exact (Option.some.inj hm).symm

/-- A call that returns has been handed a mailbox exactly if one for it was waiting. -/
theorem mbxReceive_stale (h : Alone port) {cfg : SlaveCfg} {c c' : Client σ} {r : Received}
    (hr : mbxReceive port cfg c=.ok (r,c')) : r.mbx≠none ↔ StaleMailbox port cfg c := by
  simp only [mbxReceive] at hr
  by_cases hl : 0 < cfg.mbxRl.toNat ∧ cfg.mbxRl.toNat ≤ ecMaxMbx
  · rw [if_pos hl] at hr
    obtain ⟨reading,c1,hask,hr⟩ := bind_ok.mp hr
    obtain ⟨hreading,hbuf1⟩ : (port.mailbox c.env).1=reading ∧ c1.buffers=c.buffers := by
      cases hask
      exact ⟨rfl,rfl⟩
    simp only [StaleMailbox,hl,hreading,and_self,true_and]
    cases reading with
    | silent wkc =>
      cases pure_ok.mp hr
      simp [Received.none,Reading.passes]
    | full first rest =>
      obtain ⟨mbxin,c2,hget,hr⟩ := bind_ok.mp hr
      have hpool : c1.pool=c.pool := (quiet_askMailbox c _ c1 hask).1
      have hbuf : c2.buffers=c.buffers := by
        rw [← hbuf1]
        cases hget
        simp only [Client.interfere,h c1.env,List.foldl_nil]
      have hmbx : (getMbx c.pool).1=mbxin := by
        rw [← hpool]
        exact (getMbxM_pool h hget).1.symm
      cases mbxin with
      | none =>
        obtain ⟨hnone,hfind⟩ := readLoop_null _ hr
        simp only [hnone,Reading.passes,hfind]
        simp
      | some m =>
        rw [readLoop_mbx rest first hr,hbuf,getMbx_head hmbx]
  · rw [if_neg hl] at hr
    cases pure_ok.mp hr
    simp only [StaleMailbox,hl,false_and,iff_false]
    simp [Received.none]

theorem getMbxM_none (h : Alone port) {c c' : Client σ} (hr : getMbxM port c=.ok (none,c')) :
    c.pool.free=[] ∧ c'.pool=c.pool := by
  obtain ⟨hnone,hpool⟩ := getMbxM_pool h hr
  obtain ⟨hfree,hsame⟩ := getMbx_none hnone.symm
  exact ⟨hfree,hpool.trans hsame⟩

section Services

variable {α : Type} {cfg : SlaveCfg} {refused : Int → α} {request : Nat → Option Nat → MbxM σ α}
  {c c' : Client σ} {a : α}

/-- A part of a call that gives back the two mailboxes it is entered with, by any account. -/
def Settles (port : Port σ) (request : Nat → Option Nat → MbxM σ α) : Prop :=
  ∀ T,MbxLedger port T → ∀ out mbxIn,
    Accounts T (out::(mbxIn.toList++[])) (request out mbxIn) (fun _ => [])

/-- The pool after a call `c'` is the pool before it, up to the order of its free list. -/
def SamePool (c c' : Client σ) : Prop := c'.pool.Wf ∧ c'.pool.free.Perm c.pool.free

theorem sdoService_pool (h : Alone port) (hreq : Settles port request) (hwf : c.pool.Wf)
    (hnd : c.pool.free.Nodup) (hr : sdoService port cfg refused request c=.ok (a,c')) :
    (StaleMailbox port cfg c ∧ c.pool.listcount=1 → ¬c'.pool.free.Perm c.pool.free) ∧
      (¬(StaleMailbox port cfg c ∧ c.pool.listcount=1) → SamePool c c') := by
  have hT : MbxLedger port PoolAccount := poolAccount_ledger h
  obtain ⟨stale,c1,hs,hr⟩ := bind_ok.mp hr
  obtain ⟨mbxOut,c2,hg,hr⟩ := bind_ok.mp hr
  rw [← mbxReceive_stale h hs]
  have hstale : PoolAccount [] c (stale.mbx.toList++[]) c1 :=
    mbxReceive_accounts hT cfg c stale c1 hs
  have haccount := hT.trans _ _ _ _ _ _ hstale (getMbxM_accounts hT c1 mbxOut c2 hg)
  have hpool := haccount hwf hnd (by simp)
  have hlen := hpool.2.length_eq
  simp only [List.length_append,List.nil_append,MbxPool.free_length,List.append_nil] at hlen
  cases mbxOut with
  | none =>
    cases pure_ok.mp hr
    have hempty : c'.pool.free=[] := by
      obtain ⟨hfree,hsame⟩ := getMbxM_none h hg
      rw [hsame]
      exact hfree
    constructor
    · -- the mailbox read at the start stays with the call
      intro hbad hperm
      have := hperm.length_eq
      rw [hempty,MbxPool.free_length,hbad.2] at this
      cases this
    · intro hok
      cases hm : stale.mbx with
      | none =>
        simp only [hm] at hpool
        exact hpool
      | some m =>
        have hzero := MbxPool.free_length c'.pool
        rw [hempty,List.length_nil] at hzero
        rw [hm] at hlen
        simp only [Option.toList_none,Option.toList_some,List.length_nil,List.length_cons] at hlen
        exact absurd ⟨by simp [hm],by omega⟩ hok
  | some out =>
    constructor
    · intro hbad
      cases hm : stale.mbx with
      | none => exact absurd hm hbad.1
      | some m =>
        rw [hm,hbad.2] at hlen
        simp only [Option.toList_some,List.length_nil,List.length_cons] at hlen
        omega
    · intro _
      have hall := hT.trans _ _ _ _ _ _ haccount (hreq _ hT out stale.mbx c2 a c' hr)
      exact hall hwf hnd (by simp)

theorem infoService_pool (h : Alone port) (hreq : Settles port request) (hwf : c.pool.Wf)
    (hnd : c.pool.free.Nodup) (hr : infoService port cfg refused request c=.ok (a,c')) :
    (StaleMailbox port cfg c → ¬c'.pool.free.Perm c.pool.free) ∧
      (¬StaleMailbox port cfg c → SamePool c c') := by
  have hT : MbxLedger port PoolAccount := poolAccount_ledger h
  have hC : MbxLedger port CountAccount := countAccount_ledger h
  obtain ⟨stale,c1,hs,hr⟩ := bind_ok.mp hr
  obtain ⟨_,c2,hd,hr⟩ := bind_ok.mp hr
  obtain ⟨mbxOut,c3,hg,hr⟩ := bind_ok.mp hr
  rw [← mbxReceive_stale h hs]
  cases hm : stale.mbx with
  | none =>
    refine ⟨fun hbad => absurd rfl hbad,fun _ => ?_⟩
    have h1 : PoolAccount [] c (stale.mbx.toList++[]) c1 :=
      mbxReceive_accounts hT cfg c stale c1 hs
    have h2 : PoolAccount (stale.mbx.toList++[]) c1 [] c2 :=
      dropMbxIn_accounts hT stale.mbx c1 () c2 hd
    have h3 : PoolAccount [] c2 (mbxOut.toList++[]) c3 := getMbxM_accounts hT c2 mbxOut c3 hg
    have h123 := hT.trans _ _ _ _ _ _ (hT.trans _ _ _ _ _ _ h1 h2) h3
    cases mbxOut with
    | none =>
      cases pure_ok.mp hr
      exact h123 hwf hnd (by simp)
    | some out =>
      rw [hm] at hr
      exact hT.trans _ _ _ _ _ _ h123 (hreq _ hT out none c3 a c' hr) hwf hnd (by simp)
  | some m =>
    refine ⟨fun _ => ?_,fun hbad => absurd (by simp) hbad⟩
    -- given back here, and once more by the request
    have h1 : CountAccount [] c (stale.mbx.toList++[]) c1 :=
      mbxReceive_accounts hC cfg c stale c1 hs
    have h2 : CountAccount (stale.mbx.toList++[]) c1 [] c2 :=
      dropMbxIn_accounts hC stale.mbx c1 () c2 hd
    have h3 : CountAccount [] c2 (mbxOut.toList++[]) c3 := getMbxM_accounts hC c2 mbxOut c3 hg
    obtain ⟨⟨ht1,hc1⟩,ho1,hn1⟩ := h1 hwf.tail hwf.cells (by simp)
    obtain ⟨⟨ht2,hc2⟩,-,hn2⟩ := h2 ht1 hc1 ho1
    obtain ⟨⟨ht3,hc3⟩,ho3,hn3⟩ := h3 ht2 hc2 (by simp)
    simp only [hm] at hn1 hn2 ho1 hr
    simp only [Option.toList_some,List.append_nil,List.length_cons,List.length_nil] at hn1 hn2 hn3
    cases mbxOut with
    | none =>
      have hz := congrArg List.length (getMbxM_none h hg).1
      rw [MbxPool.free_length,List.length_nil] at hz
      omega
    | some out =>
      have hown : ∀ x ∈ out::((some m).toList++[]),x < mbxPoolSize := by
        intro x hx
        rcases List.mem_cons.mp hx with hx|hx
        · exact ho3 x (by simp [hx])
        · exact ho1 x hx
      obtain ⟨-,-,hn⟩ := hreq _ hC out (some m) c3 a c' hr ht3 hc3 hown
      simp only [Option.toList_some,List.append_nil,List.length_cons,List.length_nil] at hn hn3
      intro hbad
      have hlen := hbad.length_eq
      rw [MbxPool.free_length,MbxPool.free_length] at hlen
      omega

theorem balanced_pool (h : Alone port) {x : MbxM σ α}
    (hx : ∀ T,MbxLedger port T → Accounts T [] x (fun _ => []))
    (hwf : c.pool.Wf) (hnd : c.pool.free.Nodup) (hr : x c=.ok (a,c')) : SamePool c c' :=
  hx _ (poolAccount_ledger h) c a c' hr hwf hnd (by simp)

end Services

theorem map_wkc_ok {α : Type} {x : MbxM σ α} {f : α → Int} {c : Client σ} {r : Int × Client σ}
    (hr : (do let a ← x; pure (f a)) c=.ok r) : ∃ a,x c=.ok (a,r.2) := by
  obtain ⟨a,c1,hx,hr⟩ := bind_ok.mp hr
  cases pure_ok.mp hr
  exact ⟨a,hx⟩

/-- What a call that returns has done with the pool. -/
theorem call_pool (h : Alone port) {c : Client σ} {call : Call} (hwf : c.pool.Wf)
    (hnd : c.pool.free.Nodup) (hr : Completes port c call) :
    (¬GivesBack port c call → ¬Conserves port c call) ∧
      (GivesBack port c call → SamePool c (callStep port c call)) := by
  obtain ⟨r,hr⟩ := hr
  have hstep : callStep port c call=r.2 := by
    simp only [callStep,hr]
  simp only [Conserves,hstep]
  obtain ⟨cfg,service⟩ := call
  cases service with
  | sdoRead fuel index subindex ca psize =>
    obtain ⟨a,ha⟩ := map_wkc_ok hr
    have := sdoService_pool h (fun T hT out mbxIn =>
      sdoReadRequest_accounts hT cfg fuel out mbxIn index subindex ca psize) hwf hnd ha
    exact ⟨fun hbad => this.1 (not_not.mp hbad),this.2⟩
  | sdoWrite fuel index subindex ca p =>
    have := sdoService_pool h (fun T hT out mbxIn =>
      sdoWriteStart_accounts hT cfg fuel out mbxIn index subindex ca p) hwf hnd hr
    exact ⟨fun hbad => this.1 (not_not.mp hbad),this.2⟩
  | txPdo number psize =>
    obtain ⟨a,ha⟩ := map_wkc_ok hr
    have := infoService_pool h (fun T hT out mbxIn =>
      txPdoRequest_accounts hT cfg number psize out mbxIn) hwf hnd ha
    exact ⟨fun hbad => this.1 (not_not.mp hbad),this.2⟩
  | readOdList =>
    obtain ⟨a,ha⟩ := map_wkc_ok hr
    have := infoService_pool h (fun T hT out mbxIn =>
      readOdListRequest_accounts hT cfg out mbxIn) hwf hnd ha
    exact ⟨fun hbad => this.1 (not_not.mp hbad),this.2⟩
  | readOdDescription index =>
    obtain ⟨a,ha⟩ := map_wkc_ok hr
    have := infoService_pool h (fun T hT out mbxIn =>
      readOdDescriptionRequest_accounts hT cfg index out mbxIn) hwf hnd ha
    exact ⟨fun hbad => this.1 (not_not.mp hbad),this.2⟩
  | readOeSingle index subi =>
    obtain ⟨a,ha⟩ := map_wkc_ok hr
    have := infoService_pool h (fun T hT out mbxIn =>
      readOeSingleRequest_accounts hT cfg index subi out mbxIn) hwf hnd ha
    exact ⟨fun hbad => this.1 (not_not.mp hbad),this.2⟩
  | rxPdo number p =>
    exact ⟨fun hbad => absurd trivial hbad,fun _ =>
      balanced_pool h (fun T hT => rxPdo_accounts hT cfg number p) hwf hnd hr⟩
  | soeRead fuel driveNo elementflags idn psize =>
    obtain ⟨a,ha⟩ := map_wkc_ok hr
    exact ⟨fun hbad => absurd trivial hbad,fun _ =>
      balanced_pool h (fun T hT => soeRead_accounts hT cfg fuel driveNo elementflags idn psize)
        hwf hnd ha⟩
  | soeWrite fuel driveNo elementflags idn p =>
    exact ⟨fun hbad => absurd trivial hbad,fun _ =>
      balanced_pool h (fun T hT => soeWrite_accounts hT cfg fuel driveNo elementflags idn p)
        hwf hnd hr⟩
  | foeRead fuel filename password psize =>
    obtain ⟨a,ha⟩ := map_wkc_ok hr
    exact ⟨fun hbad => absurd trivial hbad,fun _ =>
      balanced_pool h (fun T hT => foeRead_accounts hT cfg fuel filename password psize)
        hwf hnd ha⟩
  | foeWrite fuel filename password file =>
    exact ⟨fun hbad => absurd trivial hbad,fun _ =>
      balanced_pool h (fun T hT => foeWrite_accounts hT cfg fuel filename password file)
        hwf hnd hr⟩
  | eoeSend fuel eoePort p =>
    exact ⟨fun hbad => absurd trivial hbad,fun _ =>
      balanced_pool h (fun T hT => eoeSend_accounts hT cfg fuel eoePort p) hwf hnd hr⟩
  | eoeRecv fuel eoePort psize =>
    obtain ⟨a,ha⟩ := map_wkc_ok hr
    exact ⟨fun hbad => absurd trivial hbad,fun _ =>
      balanced_pool h (fun T hT => eoeRecv_accounts hT cfg fuel eoePort psize) hwf hnd ha⟩
  | eoeSetIp eoePort ipparam =>
    exact ⟨fun hbad => absurd trivial hbad,fun _ =>
      balanced_pool h (fun T hT => eoeSetIp_accounts hT cfg eoePort ipparam) hwf hnd hr⟩
  | eoeGetIp eoePort =>
    obtain ⟨a,ha⟩ := map_wkc_ok hr
    exact ⟨fun hbad => absurd trivial hbad,fun _ =>
      balanced_pool h (fun T hT => eoeGetIp_accounts hT cfg eoePort) hwf hnd ha⟩

/-- Over any sequence of calls that return, the pool stays together as long as the calls are made
where the services give everything back, and no longer. -/
theorem pool_conserved_iff_gives_back (h : Alone port) {c : Client σ} {calls : List Call}
    (hwf : c.pool.Wf) (hnd : c.pool.free.Nodup)
    (hr : Along (callStep port) (Completes port) c calls) :
    Along (callStep port) (Conserves port) c calls ↔
      Along (callStep port) (GivesBack port) c calls := by
  refine along_iff_while (I := fun c => c.pool.Wf ∧ c.pool.free.Nodup) ?_ ?_ ⟨hwf,hnd⟩ hr
  · intro c call hpool hret hgives
    obtain ⟨hwf',hperm⟩ := (call_pool h hpool.1 hpool.2 hret).2 hgives
    exact ⟨hwf',hperm.nodup_iff.mpr hpool.2⟩
  · intro c call hpool hret
    obtain ⟨hbad,hgood⟩ := call_pool h hpool.1 hpool.2 hret
    constructor
    · intro hcons
      by_contra hnot
      exact hbad hnot hcons
    · intro hgives
      exact (hgood hgives).2

/-- A TxPDO of two bytes. -/
def txPdoAnswer : List UInt8 := coeHeader 4 1 (ectCoesTxpdo <<< 12)++[0x12,0x34]

theorem two_txPdo_conserve :
    Along (callStep (answering txPdoAnswer)) (Conserves (answering txPdoAnswer))
      (Client.start false) [⟨cfg128,.txPdo 0 8⟩,⟨cfg128,.txPdo 0 8⟩] := by
  refine (pool_conserved_iff_gives_back (fun _ => rfl) initMbxPool_wf ?_ ?_).mpr ?_
  · rw [show (Client.start false).pool=initMbxPool from rfl,initMbxPool_free]
    exact List.nodup_range
  · decide +kernel
  · have hfirst : ¬StaleMailbox (answering txPdoAnswer) cfg128 (Client.start false) := by decide
    have hsecond : ¬StaleMailbox (answering txPdoAnswer) cfg128
        (callStep (answering txPdoAnswer) (Client.start false) ⟨cfg128,.txPdo 0 8⟩) := by
      decide +kernel
    exact ⟨hfirst,hsecond,trivial⟩

/-- With a mailbox waiting in the slave, `ecx_TxPDO` puts one into the free list twice. -/
theorem stale_mailbox_given_back_twice :
    Completes (answering txPdoAnswer) (Client.start true) ⟨cfg128,.txPdo 0 8⟩ ∧
      ¬Conserves (answering txPdoAnswer) (Client.start true) ⟨cfg128,.txPdo 0 8⟩ := by
  refine ⟨by decide +kernel,?_⟩
  intro h
  have := h.length_eq
  revert this
  decide +kernel

end EtherCATMaster.Mailbox
