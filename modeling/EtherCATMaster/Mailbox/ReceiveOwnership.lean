import EtherCATMaster.Mailbox.SdoJournal
import EtherCATMaster.Mailbox.Sharing

namespace EtherCATMaster.Mailbox

open EtherCATMaster.Framework

/-- A read of the slave's mailbox: the buffer it goes to, and the context at this time. -/
structure Fprd (σ : Type) where
  target : Option Nat
  context : Client σ

variable {σ : Type} (port : Port σ) (cfg : SlaveCfg)

/-- The context as it is. -/
def current : MbxM σ (Client σ) := fun c => .ok (c,c)

/-- `readLoop` with a journal of its reads. -/
def readLoopJ (mbxin : Option Nat) : List Attempt → MbxM σ (Received × List (Fprd σ))
  | [] => pure (Received.none 0,[])
  | a::rest => do
      let now ← current
      let r ← readAttempt port cfg mbxin a
      if r.2.wkc ≤ 0 ∧ rest≠[] then do
        let s ← readLoopJ r.1 rest
        pure (s.1,⟨mbxin,now⟩::s.2)
      else do
        dropMbxIn port r.1
        pure (r.2,[⟨mbxin,now⟩])

/-- `mbxReceive` with a journal of its reads. -/
def mbxReceiveJ : MbxM σ (Received × List (Fprd σ)) :=
  if 0 < cfg.mbxRl.toNat ∧ cfg.mbxRl.toNat ≤ ecMaxMbx then do
    let reading ← askMailbox port
    match reading with
    | .silent wkc => pure (Received.none (if wkc>0 then ecTimeout else wkc),[])
    | .full first rest => do
        let mbxin ← getMbxM port
        readLoopJ port cfg mbxin (first::rest)
  else pure (Received.none 0,[])

def Fprd.Owned (f : Fprd σ) : Prop := ∃ m,f.target=some m ∧ Shared [m] f.context

/-- All reads go to buffers of the call. When it has returned, the mailboxes that it had, that the
other users had or that were free are the one it hands out, those of the other users and the free
ones; and one is handed out with a result above zero. -/
def OwnsBuffers (own : List Nat) (x : MbxM σ (Received × List (Fprd σ))) (c : Client σ) : Prop :=
  ∃ r js c',x c=.ok ((r,js),c') ∧ (∀ f ∈ js,f.Owned) ∧ Passed own c r.mbx.toList c' ∧
    (r.mbx.isSome=true ↔ 0 < r.wkc)

def HandledEnds (handled : Attempt → Bool) : List Attempt → Prop
  | [] => True
  | a::rest => rest=[] ∨ if a.wkc ≤ 0 then HandledEnds handled rest else handled a=false

section Erasure

variable {port cfg}

theorem readLoopJ_erased (mbxin : Option Nat) (as : List Attempt) :
    erased (readLoopJ port cfg mbxin as)=readLoop port cfg mbxin as := by
  induction as generalizing mbxin with
  | nil => exact erased_pure _ _
  | cons a rest ih =>
    rw [readLoopJ,readLoop,erased_bind]
    have hcurrent : ∀ f : MbxM σ Received,(current >>= fun _ => f)=f := fun f => rfl
    rw [show (fun now => erased (readAttempt port cfg mbxin a >>= fun r =>
          if r.2.wkc ≤ 0 ∧ rest≠[] then (do
            let s ← readLoopJ port cfg r.1 rest
            pure (s.1,(⟨mbxin,now⟩ : Fprd σ)::s.2))
          else (do
            dropMbxIn port r.1
            pure (r.2,[⟨mbxin,now⟩]))))=fun _ => (readAttempt port cfg mbxin a >>= fun r =>
          if r.2.wkc ≤ 0 ∧ rest≠[] then readLoop port cfg r.1 rest
          else (do
            dropMbxIn port r.1
            pure r.2)) from ?_]
    · exact hcurrent _
    · funext now
      rw [erased_bind]
      refine bind_congr fun r => ?_
      rw [erased_ite,← ih]
      simp only [erased,bind_assoc,pure_bind]

theorem mbxReceiveJ_erased : erased (mbxReceiveJ port cfg)=mbxReceive port cfg := by
  rw [mbxReceiveJ,mbxReceive,erased_ite]
  simp only [erased_pure,erased_bind]
  split_ifs
  · refine bind_congr fun reading => ?_
    cases reading with
    | silent wkc => exact erased_pure _ _
    | full first rest =>
      rw [erased_bind]
      exact bind_congr fun mbxin => readLoopJ_erased mbxin _
  · rfl

end Erasure

section Reads

variable {port cfg} {m : Nat} {c : Client σ}

theorem readAttempt_returns (port : Port σ) (cfg : SlaveCfg) (m : Nat) (a : Attempt) (c : Client σ) :
    ∃ r c',readAttempt port cfg (some m) a c=.ok (r,c') := by
  by_cases hw : a.wkc ≤ 0
  · exact ⟨_,c,by rw [readAttempt,if_pos hw]; rfl⟩
  · let c1 := c.store m (a.bytes.take cfg.mbxRl.toNat)
    by_cases hh : handledInReceive (c1.buffers m) a.hooked=true
    · obtain ⟨c2,hreport⟩ : ∃ c2,reportHandled (c1.buffers m) c1=.ok ((),c2) := by
        simp only [reportHandled]
        split_ifs
        · exact ⟨_,rfl⟩
        · exact ⟨_,rfl⟩
        · exact ⟨_,rfl⟩
      obtain ⟨c3,hdrop⟩ : ∃ c3,dropMbxM port m c2=.ok ((),c3) := ⟨_,rfl⟩
      refine ⟨(none,Received.none 0),c3,?_⟩
      rw [readAttempt,if_neg hw]
      rw [run_bind (show fillMbx m _ c=.ok ((),c1) from rfl),
        run_bind (show content m c1=.ok (c1.buffers m,c1) from rfl),if_pos hh,run_bind hreport,
        run_bind hdrop]
      rfl
    · refine ⟨(none,⟨a.wkc,some m,c1.buffers m⟩),c1,?_⟩
      rw [readAttempt,if_neg hw]
      rw [run_bind (show fillMbx m _ c=.ok ((),c1) from rfl),
        run_bind (show content m c1=.ok (c1.buffers m,c1) from rfl),if_neg hh]
      rfl

theorem readAttempt_passed {r : Option Nat × Received} {a : Attempt} {c' : Client σ}
    (h : Shared [m] c) (hr : readAttempt port cfg (some m) a c=.ok (r,c')) :
    Passed [m] c (r.1.toList++r.2.mbx.toList) c' := by
  have haccount : Accounts SharedAccount (m :: []) (readAttempt port cfg (some m) a)
      (fun r => r.1.toList++(r.2.mbx.toList++[])) :=
    readAttempt_accounts sharedAccount_ledger cfg (some m) a
  have hkept := haccount _ _ _ hr
  simpa using hkept h

theorem dropMbxIn_passed (port : Port σ) {mbx : Option Nat} (h : Shared mbx.toList c) :
    ∃ c',dropMbxIn port mbx c=.ok ((),c') ∧ Passed mbx.toList c [] c' := by
  cases mbx with
  | none => exact ⟨c,rfl,h.same rfl rfl⟩
  | some m =>
    have hothers := (h.interfere port).1
    exact ⟨_,rfl,hothers.trans hothers.shared.drop⟩

theorem readLoopJ_null {a : Attempt} {rest : List Attempt} {r : Received} {js : List (Fprd σ)}
    {c' : Client σ} (hr : readLoopJ port cfg none (a::rest) c=.ok ((r,js),c')) :
    ¬∀ f ∈ js,f.Owned := by
  have hfirst : ∃ tail,js=⟨none,c⟩::tail := by
    rw [readLoopJ] at hr
    obtain ⟨now,c1,hnow,hr⟩ := bind_ok.mp hr
    cases hnow
    obtain ⟨s,c2,_,hr⟩ := bind_ok.mp hr
    by_cases hgo : s.2.wkc ≤ 0 ∧ rest≠[]
    · rw [if_pos hgo] at hr
      obtain ⟨s',c3,_,hr⟩ := bind_ok.mp hr
      cases pure_ok.mp hr
      exact ⟨_,rfl⟩
    · rw [if_neg hgo] at hr
      obtain ⟨_,c3,_,hr⟩ := bind_ok.mp hr
      cases pure_ok.mp hr
      exact ⟨_,rfl⟩
  obtain ⟨tail,rfl⟩ := hfirst
  intro hall
  obtain ⟨m,hm,-⟩ := hall _ List.mem_cons_self
  cases hm

theorem readLoopJ_cons (a b : Attempt) (rest : List Attempt) (mbxin : Option Nat)
    {s : Option Nat × Received} {c' : Client σ}
    (hs : readAttempt port cfg mbxin a c=.ok (s,c')) :
    readLoopJ port cfg mbxin (a::b::rest) c=
      if s.2.wkc ≤ 0 then (do
        let r ← readLoopJ port cfg s.1 (b::rest)
        pure (r.1,(⟨mbxin,c⟩ : Fprd σ)::r.2)) c'
      else (do
        dropMbxIn port s.1
        pure (s.2,[(⟨mbxin,c⟩ : Fprd σ)])) c' := by
  rw [readLoopJ,run_bind (show current c=.ok (c,c) from rfl),run_bind hs]
  by_cases hw : s.2.wkc ≤ 0
  · rw [if_pos ⟨hw,List.cons_ne_nil b rest⟩,if_pos hw]
  · rw [if_neg (fun h => hw h.1),if_neg hw]

/-- The reads keep to the buffer of the call exactly if only the last one brings a mailbox that the
call deals with itself. -/
theorem readLoopJ_owns (as : List Attempt) (a : Attempt) (h : Shared [m] c) :
    OwnsBuffers [m] (readLoopJ port cfg (some m) (a::as)) c ↔
      HandledEnds (fun a => handledInReceive
        (overwrite (c.buffers m) (a.bytes.take cfg.mbxRl.toNat)) a.hooked) (a::as) := by
  induction as generalizing a with
  | nil =>
    refine iff_of_true ?_ (.inl rfl)
    obtain ⟨s,c1,hs⟩ := readAttempt_returns port cfg m a c
    have hpassed := readAttempt_passed h hs
    have hrun : readLoopJ port cfg (some m) [a] c=(do
        dropMbxIn port s.1
        pure (s.2,[(⟨some m,c⟩ : Fprd σ)])) c1 := by
      rw [readLoopJ,run_bind (show current c=.ok (c,c) from rfl),run_bind hs,
        if_neg (fun hgo => hgo.2 rfl)]
    have howned : ∀ f ∈ [(⟨some m,c⟩ : Fprd σ)],f.Owned := by
      intro f hf
      rw [List.mem_singleton.mp hf]
      exact ⟨m,rfl,h⟩
    rw [OwnsBuffers,hrun]
    rcases readAttempt_cases hs with ⟨hw,rfl,-⟩|⟨-,rfl,-⟩|⟨hw,rfl,-⟩
    · have hkept : Passed [m] c (some m).toList c1 := hpassed
      obtain ⟨c2,hdrop,hback⟩ := dropMbxIn_passed port hkept.shared
      exact ⟨Received.none a.wkc,_,c2,by rw [run_bind hdrop]; rfl,howned,hkept.trans hback,
        iff_of_false Bool.false_ne_true (show ¬0 < a.wkc by omega)⟩
    · exact ⟨_,_,c1,rfl,howned,hpassed,iff_of_false Bool.false_ne_true (Int.lt_irrefl 0)⟩
    · exact ⟨_,_,c1,rfl,howned,hpassed,iff_of_true rfl hw⟩
  | cons b rest ih =>
    obtain ⟨s,c1,hs⟩ := readAttempt_returns port cfg m a c
    have hpassed := readAttempt_passed h hs
    have hfirst : (⟨some m,c⟩ : Fprd σ).Owned := ⟨m,rfl,h⟩
    rw [OwnsBuffers,readLoopJ_cons a b rest (some m) hs,HandledEnds]
    rcases readAttempt_cases hs with ⟨hw,rfl,rfl⟩|⟨hw,rfl,hh⟩|⟨hw,rfl,rfl,hh⟩
    · rw [if_pos (show (Received.none a.wkc).wkc ≤ 0 from hw),if_pos hw]
      simp only [List.cons_ne_nil,false_or]
      rw [← ih b]
      constructor
      · rintro ⟨r,js,c',hr,hall,hafter⟩
        obtain ⟨⟨r',js'⟩,c2,hrest,hr⟩ := bind_ok.mp hr
        cases pure_ok.mp hr
        exact ⟨r',js',c',hrest,fun f hf => hall f (List.mem_cons_of_mem _ hf),hafter⟩
      · rintro ⟨r,js,c',hr,hall,hafter⟩
        refine ⟨r,⟨some m,c1⟩::js,c',by rw [run_bind hr]; rfl,?_,hafter⟩
        intro f hf
        rcases List.mem_cons.mp hf with rfl|hf
        · exact hfirst
        · exact hall f hf
    · -- the call goes on without a buffer
      rw [if_pos (show (Received.none 0).wkc ≤ 0 from Int.le_refl 0),if_neg (by omega),hh]
      refine iff_of_false ?_ ?_
      · rintro ⟨r,js,c',hr,hall,-⟩
        obtain ⟨⟨r',js'⟩,c2,hrest,hr⟩ := bind_ok.mp hr
        cases pure_ok.mp hr
        exact readLoopJ_null hrest (fun f hf => hall f (List.mem_cons_of_mem _ hf))
      · rintro (hnil|hfalse)
        · cases hnil
        · cases hfalse
    · rw [if_neg (show ¬a.wkc ≤ 0 by omega),if_neg (by omega),hh]
      refine iff_of_true ?_ (.inr rfl)
      refine ⟨_,_,_,rfl,?_,hpassed,iff_of_true rfl hw⟩
      intro f hf
      rw [List.mem_singleton.mp hf]
      exact hfirst

end Reads

variable {port cfg}

/-- The slave reports a full mailbox, the pool has a buffer for it, and of the reads that are made
only the last one brings a mailbox that the call deals with itself. -/
def ReadsOwn (port : Port σ) (cfg : SlaveCfg) (c : Client σ) : Prop :=
  ∀ first rest,(port.mailbox c.env).1=.full first rest →
    ∃ m,(getMbx ((c.asked port).interfere port).pool).1=some m ∧
      HandledEnds (fun a => handledInReceive
        (overwrite (((c.asked port).interfere port).buffers m) (a.bytes.take cfg.mbxRl.toNat))
        a.hooked) (first::rest)

/-- A receive without the cyclic handler keeps to its buffer exactly if it has one, and what it
deals with itself is the last it reads. -/
theorem receive_owns_iff {c : Client σ} (h : Shared [] c) :
    OwnsBuffers [] (mbxReceiveJ port cfg) c ↔
      (0 < cfg.mbxRl.toNat ∧ cfg.mbxRl.toNat ≤ ecMaxMbx → ReadsOwn port cfg c) := by
  have hasked : Passed [] c [] (c.asked port) := h.same rfl rfl
  by_cases hl : 0 < cfg.mbxRl.toNat ∧ cfg.mbxRl.toNat ≤ ecMaxMbx
  · have hask : askMailbox port c=.ok ((port.mailbox c.env).1,c.asked port) := rfl
    rw [OwnsBuffers,mbxReceiveJ,if_pos hl,run_bind hask]
    simp only [hl,and_self,forall_const]
    cases hreading : (port.mailbox c.env).1 with
    | silent wkc =>
      refine iff_of_true ?_ ?_
      · refine ⟨_,[],c.asked port,rfl,fun f hf => (nomatch hf),hasked,?_⟩
        refine iff_of_false Bool.false_ne_true ?_
        change ¬0 < if wkc>0 then ecTimeout else wkc
        split_ifs with hw
        · decide
        · exact hw
      · intro first rest hfull
        rw [hreading] at hfull
        cases hfull
    | full first rest =>
      have hinterfered := (hasked.shared.interfere port).1
      have hget : getMbxM port (c.asked port)=
          .ok ((getMbx ((c.asked port).interfere port).pool).1,
            { (c.asked port).interfere port with
              pool := (getMbx ((c.asked port).interfere port).pool).2 }) := rfl
      have hdrawn := (hasked.trans hinterfered).trans hinterfered.shared.get
      simp only [run_bind hget]
      cases hm : (getMbx ((c.asked port).interfere port).pool).1 with
      | none =>
        refine iff_of_false ?_ ?_
        · rintro ⟨r,js,c',hr,hall,-⟩
          exact readLoopJ_null hr hall
        · intro hreads
          obtain ⟨m,hsome,-⟩ := hreads first rest hreading
          rw [hm] at hsome
          cases hsome
      | some m =>
        rw [hm] at hdrawn
        have howns : OwnsBuffers [m] (readLoopJ port cfg (some m) (first::rest)) _ ↔ _ :=
          readLoopJ_owns rest first hdrawn.shared
        rw [OwnsBuffers] at howns
        simp only [hdrawn.before]
        refine Iff.trans howns ?_
        constructor
        · intro hends first' rest' hfull
          rw [hreading] at hfull
          cases hfull
          exact ⟨m,hm,hends⟩
        · intro hreads
          obtain ⟨m',hm',hends⟩ := hreads first rest hreading
          rw [hm] at hm'
          cases hm'
          exact hends
  · rw [OwnsBuffers,mbxReceiveJ,if_neg hl]
    refine iff_of_true ?_ (fun hc => absurd hc hl)
    refine ⟨_,[],c,rfl,fun f hf => (nomatch hf),h.same rfl rfl,?_⟩
    exact iff_of_false Bool.false_ne_true (Int.lt_irrefl 0)

/-- A slave with an SDO response in its mailbox, and with an error in front of it or not. -/
def answeringAfter (errors : List Attempt) : Port Unit where
  write := fun _ _ => (1,())
  empty := fun _ => (true,())
  mailbox := fun _ => (
    match errors with
    | [] => .full ⟨1,sdoFrame 10 1 0x43 0x1000 0 [0,0,0,0],false⟩ []
    | e::rest => .full e (rest++[⟨1,sdoFrame 10 1 0x43 0x1000 0 [0,0,0,0],false⟩]),())
  others := fun _ => ([],())

def mailboxErrorReply : Attempt := ⟨1,[4,0,0,0,0,0x10,1,0,2,0],false⟩

theorem lone_reply_owned :
    OwnsBuffers [] (mbxReceiveJ (answeringAfter []) cfg128) (Client.start ()) := by
  refine (receive_owns_iff (Shared.start ())).mpr fun _ first rest hfull => ?_
  cases hfull
  exact ⟨0,by decide,.inl rfl⟩

/-- The error is dealt with and its buffer given back, and the next read goes to NULL. -/
theorem error_then_null :
    mbxReceive (answeringAfter [mailboxErrorReply]) cfg128 (Client.start ())=.error .nullPointer ∧
    ¬OwnsBuffers [] (mbxReceiveJ (answeringAfter [mailboxErrorReply]) cfg128) (Client.start ()) := by
  have hrun : mbxReceive (answeringAfter [mailboxErrorReply]) cfg128 (Client.start ())=
      .error .nullPointer := by
    rfl
  refine ⟨hrun,?_⟩
  rintro ⟨r,js,c',hr,-⟩
  have hplain : erased (mbxReceiveJ (answeringAfter [mailboxErrorReply]) cfg128)
      (Client.start ())=.ok (r,c') := by
    rw [erased,run_bind hr]
    rfl
  rw [mbxReceiveJ_erased,hrun] at hplain
  cases hplain

end EtherCATMaster.Mailbox
