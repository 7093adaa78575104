import EtherCATMaster.Mailbox.Link

namespace EtherCATMaster.Mailbox

open EtherCATMaster.Framework

variable {σ : Type} {port : Port σ} {cfg : SlaveCfg}

/-- The same slave and line, with the frames the slave has taken so far. -/
def Port.recording (port : Port σ) : Port (σ × List (List UInt8)) where
  write := fun e frame =>
    let w := port.write e.1 frame
    (w.1,w.2,if w.1>0 then e.2++[frame] else e.2)
  empty := fun e => ((port.empty e.1).1,(port.empty e.1).2,e.2)
  mailbox := fun e => ((port.mailbox e.1).1,(port.mailbox e.1).2,e.2)
  others := fun e => ((port.others e.1).1,(port.others e.1).2,e.2)

/-- The frames the slave has taken. -/
def taken (c : Client (σ × List (List UInt8))) : List (List UInt8) := c.env.2

def NoneTaken (_ : Unit) (c : Client (σ × List (List UInt8))) (_ : Unit)
    (c' : Client (σ × List (List UInt8))) : Prop := taken c'=taken c

theorem noneTaken_ledger : Ledger (NoneTaken (σ := σ)) :=
  ⟨fun _ _ => rfl,fun _ _ _ _ _ _ h1 h2 => h2.trans h1⟩

theorem taken_moves (mvs : List Move) : ∀ c : Client (σ × List (List UInt8)),
    taken (mvs.foldl Client.move c)=taken c := by
  induction mvs with
  | nil =>
    intro c
    rfl
  | cons mv mvs ih =>
    intro c
    have hmove : taken (c.move mv)=taken c := by
      cases mv <;> simp only [Client.move] <;> split <;> rfl
    exact (ih _).trans hmove

theorem taken_interfere (c : Client (σ × List (List UInt8))) :
    taken (c.interfere port.recording)=taken c := taken_moves _ _

theorem dropMbxM_none_taken (m : Nat) :
    Accounts NoneTaken () (dropMbxM port.recording m) (fun _ => ()) := by
  intro c a c' hr
  cases hr
  exact taken_interfere c

theorem dropMbxIn_none_taken (mbx : Option Nat) :
    Accounts NoneTaken () (dropMbxIn port.recording mbx) (fun _ => ()) := by
  cases mbx with
  | none => exact noneTaken_ledger.pure () rfl
  | some m => exact dropMbxM_none_taken m

theorem getMbxM_none_taken : Accounts NoneTaken () (getMbxM port.recording) (fun _ => ()) := by
  intro c a c' hr
  cases hr
  exact taken_interfere c

theorem readAttempt_none_taken (mbxin : Option Nat) (a : Attempt) :
    Accounts NoneTaken () (readAttempt port.recording cfg mbxin a) (fun _ => ()) := by
  refine Accounts.ite (fun _ => noneTaken_ledger.pure _ rfl) (fun _ => ?_)
  cases mbxin with
  | none => exact Ledger.throw _
  | some m =>
    have hfill : Accounts (NoneTaken (σ := σ)) () (fillMbx m (a.bytes.take cfg.mbxRl.toNat))
        (fun _ => ()) := by
      intro c u c' hr
      cases hr
      rfl
    refine noneTaken_ledger.bind hfill (fun _ => ?_)
    intro c r c' hr
    obtain ⟨mbx,c1,hcontent,hr⟩ := bind_ok.mp hr
    cases hcontent
    by_cases hh : handledInReceive (c.buffers m) a.hooked=true
    · rw [if_pos hh] at hr
      obtain ⟨_,c2,hreport,hr⟩ := bind_ok.mp hr
      obtain ⟨_,c3,hdrop,hr⟩ := bind_ok.mp hr
      have hquiet : taken c2=taken c := by
        simp only [reportHandled] at hreport
        split_ifs at hreport <;> cases hreport <;> rfl
      cases pure_ok.mp hr
      exact (dropMbxM_none_taken m _ _ _ hdrop).trans hquiet
    · rw [if_neg hh] at hr
      cases pure_ok.mp hr
      rfl

theorem readLoop_none_taken (reads : List Attempt) : ∀ mbxin : Option Nat,
    Accounts NoneTaken () (readLoop port.recording cfg mbxin reads) (fun _ => ()) := by
  induction reads with
  | nil =>
    intro mbxin
    exact noneTaken_ledger.pure _ rfl
  | cons a rest ih =>
    intro mbxin
    refine noneTaken_ledger.bind (readAttempt_none_taken mbxin a) (fun r => ?_)
    refine Accounts.ite (fun _ => ih r.1) (fun _ => ?_)
    exact noneTaken_ledger.bind (dropMbxIn_none_taken r.1) (fun _ => noneTaken_ledger.pure _ rfl)

theorem mbxReceive_none_taken :
    Accounts NoneTaken () (mbxReceive port.recording cfg) (fun _ => ()) := by
  refine Accounts.ite (fun _ => ?_) (fun _ => noneTaken_ledger.pure _ rfl)
  have hask : Accounts NoneTaken () (askMailbox port.recording) (fun _ => ()) := by
    intro c r c' hr
    cases hr
    rfl
  refine noneTaken_ledger.bind hask (fun reading => ?_)
  cases reading with
  | silent wkc => exact noneTaken_ledger.pure _ rfl
  | full first rest =>
    exact noneTaken_ledger.bind getMbxM_none_taken (fun mbxin => readLoop_none_taken _ mbxin)

theorem writeSlave_taken {frame : List UInt8} {w : Int} {c c' : Client (σ × List (List UInt8))}
    (hr : writeSlave port.recording frame c=.ok (w,c')) :
    taken c'=if w>0 then taken c++[frame] else taken c := by
  cases hr
  rfl

/-- A send that has succeeded: the mailbox has the size it needs, and the slave took what is in
it, once. -/
theorem mbxSend_taken {m : Nat} {wkc : Int} {c c' : Client (σ × List (List UInt8))}
    (hr : mbxSend port.recording cfg m c=.ok (wkc,c')) (hw : 0 < wkc) :
    cfg.mbxL.toNat ≤ ecMaxMbx ∧ taken c'=taken c++[(c.buffers m).take cfg.mbxL.toNat] := by
  obtain ⟨w,c1,hwrite,hr⟩ := bind_ok.mp hr
  obtain ⟨_,c2,hdrop,hr⟩ := bind_ok.mp hr
  have hkept : taken c2=taken c1 := dropMbxM_none_taken m _ _ _ hdrop
  cases pure_ok.mp hr
  rw [hkept]
  simp only [writeMailbox] at hwrite
  by_cases hl : 0 < cfg.mbxL.toNat ∧ cfg.mbxL.toNat ≤ ecMaxMbx ∧ cfg.preop=true
  · refine ⟨hl.2.1,?_⟩
    rw [if_pos hl] at hwrite
    obtain ⟨mbx,c3,hcontent,hwrite⟩ := bind_ok.mp hwrite
    cases hcontent
    obtain ⟨w1,c4,hslave,hwrite⟩ := bind_ok.mp hwrite
    have hfirst := writeSlave_taken hslave
    by_cases hfail : w1 ≤ 0
    · rw [if_neg (show ¬w1>0 by omega)] at hfirst
      rw [if_pos hfail] at hwrite
      obtain ⟨empty,c5,hempty,hwrite⟩ := bind_ok.mp hwrite
      have hsame : taken c5=taken c4 := by
        cases hempty
        rfl
      by_cases he : empty=true
      · rw [if_pos he] at hwrite
        obtain ⟨w2,c6,hslave,hwrite⟩ := bind_ok.mp hwrite
        have hsecond := writeSlave_taken hslave
        cases pure_ok.mp hwrite
        rw [if_pos (show w2>0 by omega)] at hsecond
        rw [hsecond,hsame,hfirst]
      · rw [if_neg he] at hwrite
        cases pure_ok.mp hwrite
        omega
    · rw [if_neg hfail] at hwrite
      cases pure_ok.mp hwrite
      rw [if_pos hw] at hfirst
      exact hfirst
  · rw [if_neg hl] at hwrite
    cases pure_ok.mp hwrite
    omega

end EtherCATMaster.Mailbox
