import EtherCATMaster.Mailbox.Recording
import EtherCATMaster.Mailbox.UploadSlave

namespace EtherCATMaster.Mailbox

open EtherCATMaster.Framework

variable {σ τ : Type} {port : Port σ} {cfg : SlaveCfg} {view : σ → List (List UInt8) × τ}

/-- A slave on a line that loses nothing, and nobody else at the pool. There is to see of the slave
the mailboxes that wait to be read, and the state of its service. -/
structure Line (port : Port σ) (cfg : SlaveCfg) (view : σ → List (List UInt8) × τ) : Prop where
  inbox : 0 < cfg.mbxL.toNat ∧ cfg.mbxL.toNat ≤ ecMaxMbx ∧ cfg.preop=true
  outbox : 0 < cfg.mbxRl.toNat ∧ cfg.mbxRl.toNat ≤ ecMaxMbx
  alone : Alone port
  steady : ∀ e,view (port.others e).2=view e
  takes : ∀ e frame,0 < (port.write e frame).1
  hands : ∀ e reply q t,view e=(reply::q,t) → ∃ a rest,(port.mailbox e).1=.full a rest ∧
    0 < a.wkc ∧ reply <+: a.bytes ∧ reply.length ≤ cfg.mbxRl.toNat ∧
    (∀ mbx,reply <+: mbx → handledInReceive mbx a.hooked=false) ∧
    view (port.mailbox e).2=(q,t)
  silent : ∀ e t,view e=([],t) → ∃ wkc,(port.mailbox e).1=.silent wkc ∧
    view (port.mailbox e).2=([],t)

/-- In a conversation `need` mailboxes are free or in the hands of the call, and the slave is as it
was left. -/
structure Talking (view : σ → List (List UInt8) × τ) (need : Nat) (own : List Nat)
    (v : List (List UInt8) × τ) (c : Client σ) : Prop where
  tail : c.pool.listtail < mbxPoolSize
  cells : ∀ i < mbxPoolSize,c.pool.mbxemptylist i < mbxPoolSize
  items : ∀ m ∈ own,m < mbxPoolSize
  supply : need ≤ own.length+c.pool.listcount
  seen : view c.env=v

/-- What a step of the conversation leaves alone. -/
structure Undisturbed (c c' : Client σ) : Prop where
  buffers : c'.buffers=c.buffers
  frameno : c'.txframeno=c.txframeno
  errors : c'.errors=c.errors

theorem Talking.start (view : σ → List (List UInt8) × τ) {need : Nat} {c : Client σ}
    (hwf : c.pool.Wf) (hn : need ≤ c.pool.listcount) : Talking view need [] (view c.env) c :=
  ⟨hwf.tail,hwf.cells,by simp,by simpa using hn,rfl⟩

section Steps

variable {need : Nat} {own : List Nat} {v : List (List UInt8) × τ} {c : Client σ}

theorem Talking.get (hs : Line port cfg view) (h : Talking view need own v c)
    (hl : own.length < need) : ∃ m c',getMbxM port c=.ok (some m,c') ∧
      Talking view need (m::own) v c' ∧ Undisturbed c c' := by
  have hsupply := h.supply
  have hpos : c.pool.listcount>0 := by omega
  let pool' : MbxPool := { c.pool with
    listtail := ringNext mbxPoolSize c.pool.listtail, listcount := c.pool.listcount-1 }
  let c' : Client σ := { c with pool := pool', env := (port.others c.env).2 }
  refine ⟨c.pool.mbxemptylist c.pool.listtail,c',?_,?_,rfl,rfl,rfl⟩
  · simp only [getMbxM,interfere_alone hs.alone,getMbx,if_pos hpos]
    rfl
  · refine ⟨ringNext_lt h.tail,h.cells,?_,?_,?_⟩
    · intro m hm
      rcases List.mem_cons.mp hm with rfl|hm
      · exact h.cells _ h.tail
      · exact h.items m hm
    · simp only [List.length_cons,c',pool']
      omega
    · exact (hs.steady c.env).trans h.seen

theorem Talking.drop {m : Nat} (hs : Line port cfg view) (h : Talking view need (m::own) v c) :
    ∃ c',dropMbxM port m c=.ok ((),c') ∧ Talking view need own v c' ∧ Undisturbed c c' := by
  have hm := h.items m List.mem_cons_self
  have hsupply := h.supply
  let pool' : MbxPool := { c.pool with
    mbxemptylist := Function.update c.pool.mbxemptylist c.pool.listhead m,
    listhead := ringNext mbxPoolSize c.pool.listhead, listcount := c.pool.listcount+1 }
  let c' : Client σ := { c with pool := pool', env := (port.others c.env).2 }
  refine ⟨c',?_,?_,rfl,rfl,rfl⟩
  · simp only [dropMbxM,interfere_alone hs.alone,dropMbx,if_pos hm]
    rfl
  · refine ⟨h.tail,?_,fun x hx => h.items x (List.mem_cons_of_mem m hx),?_,?_⟩
    · intro i hi
      simp only [c',pool',Function.update_apply]
      split_ifs
      · exact hm
      · exact h.cells i hi
    · simp only [List.length_cons] at hsupply
      simp only [c',pool']
      omega
    · exact (hs.steady c.env).trans h.seen

theorem Talking.dropIn {mbx : Option Nat} (hs : Line port cfg view)
    (h : Talking view need (mbx.toList++own) v c) : ∃ c',dropMbxIn port mbx c=.ok ((),c') ∧
      Talking view need own v c' ∧ Undisturbed c c' := by
  cases mbx with
  | none => exact ⟨c,rfl,h,rfl,rfl,rfl⟩
  | some m => exact h.drop hs

theorem Talking.count (cfg : SlaveCfg) (h : Talking view need own v c) : ∃ cnt c',
    nextMbxCnt cfg c=.ok (cnt,c') ∧ Talking view need own v c' ∧ Undisturbed c c' :=
  ⟨_,_,rfl,⟨h.tail,h.cells,h.items,h.supply,h.seen⟩,rfl,rfl,rfl⟩

theorem Talking.store (h : Talking view need own v c) (m : Nat) (bytes : List UInt8) :
    Talking view need own v (c.store m bytes) :=
  ⟨h.tail,h.cells,h.items,h.supply,h.seen⟩

theorem Talking.peek (hs : Line port cfg view) (h : Talking view need own v c) (m : Nat) :
    ∃ c',peek port m c=.ok (c.buffers m,c') ∧ Talking view need own v c' ∧ Undisturbed c c' := by
  let c' : Client σ := { c with env := (port.others c.env).2 }
  refine ⟨c',?_,⟨h.tail,h.cells,h.items,h.supply,(hs.steady c.env).trans h.seen⟩,rfl,rfl,rfl⟩
  simp only [Mailbox.peek,interfere_alone hs.alone]
  rfl

theorem Talking.send {out : Nat} (hs : Line port cfg view) (h : Talking view need (out::own) v c) :
    ∃ wkc c',mbxSend port cfg out c=.ok (wkc,c') ∧ 0 < wkc ∧
      Talking view need own
        (view (port.write c.env ((c.buffers out).take cfg.mbxL.toNat)).2) c' ∧ Undisturbed c c' := by
  have hin := hs.inbox
  have hwkc := hs.takes c.env ((c.buffers out).take cfg.mbxL.toNat)
  let sent : Client σ :=
    { c with env := (port.write c.env ((c.buffers out).take cfg.mbxL.toNat)).2 }
  have hwrite : writeMailbox port cfg out c=
      .ok ((port.write c.env ((c.buffers out).take cfg.mbxL.toNat)).1,sent) := by
    rw [writeMailbox,if_pos hin]
    rw [run_bind (show content out c=.ok (c.buffers out,c) from rfl)]
    rw [run_bind (show writeSlave port ((c.buffers out).take cfg.mbxL.toNat) c=
      .ok ((port.write c.env ((c.buffers out).take cfg.mbxL.toNat)).1,sent) from rfl)]
    rw [if_neg (by omega)]
    rfl
  have hsent : Talking view need (out::own) (view sent.env) sent :=
    ⟨h.tail,h.cells,h.items,h.supply,rfl⟩
  obtain ⟨c',hdrop,hafter,hkept⟩ := hsent.drop hs
  refine ⟨_,c',?_,hwkc,hafter,⟨hkept.buffers,hkept.frameno,hkept.errors⟩⟩
  rw [mbxSend,run_bind hwrite,run_bind hdrop]
  rfl

/-- The first mailbox that waits in the slave is read into the next one of the pool. -/
theorem Talking.receive {reply : List UInt8} {q : List (List UInt8)} {t : τ}
    (hs : Line port cfg view) (h : Talking view need own (reply::q,t) c)
    (hl : own.length < need) : ∃ r m c',mbxReceive port cfg c=.ok (r,c') ∧ 0 < r.wkc ∧
      r.mbx=some m ∧ reply <+: r.data ∧ Talking view need (m::own) (q,t) c' ∧
      c'.buffers=Function.update c.buffers m r.data ∧
      (c'.txframeno=c.txframeno ∧ c'.errors=c.errors) ∧ getMbx c.pool=(some m,c'.pool) := by
  obtain ⟨a,rest,hfull,hwkc,hbytes,hmax,hfree,hview⟩ := hs.hands c.env reply q t h.seen
  let asked : Client σ := { c with env := (port.mailbox c.env).2 }
  have hasked : Talking view need own (q,t) asked :=
    ⟨h.tail,h.cells,h.items,h.supply,hview⟩
  obtain ⟨m,c1,hget,hafter,hkept⟩ := hasked.get hs hl
  let mbx := overwrite (c1.buffers m) (a.bytes.take cfg.mbxRl.toNat)
  have hfront : reply <+: mbx := by
    have htake : reply <+: a.bytes.take cfg.mbxRl.toNat := by
      rw [List.prefix_take_iff]
      exact ⟨hbytes,hmax⟩
    exact htake.trans (List.prefix_append _ _)
  have hattempt : readAttempt port cfg (some m) a c1=
      .ok ((none,⟨a.wkc,some m,mbx⟩),{ c1 with buffers := Function.update c1.buffers m mbx }) := by
    rw [readAttempt,if_neg (by omega)]
    rw [run_bind (show fillMbx m (a.bytes.take cfg.mbxRl.toNat) c1=
      .ok ((),{ c1 with buffers := Function.update c1.buffers m mbx }) from rfl)]
    rw [run_bind (show content m { c1 with buffers := Function.update c1.buffers m mbx }=
      .ok (mbx,{ c1 with buffers := Function.update c1.buffers m mbx }) by
        simp only [content,Function.update_self])]
    rw [if_neg (by rw [hfree mbx hfront]; decide)]
    rfl
  refine ⟨⟨a.wkc,some m,mbx⟩,m,{ c1 with buffers := Function.update c1.buffers m mbx },?_,hwkc,
    rfl,hfront,⟨hafter.tail,hafter.cells,hafter.items,hafter.supply,hafter.seen⟩,?_,
    ⟨hkept.frameno,hkept.errors⟩,?_⟩
  · rw [mbxReceive,if_pos hs.outbox]
    rw [run_bind (show askMailbox port c=.ok ((port.mailbox c.env).1,asked) from rfl),hfull]
    simp only
    rw [run_bind hget,readLoop,run_bind hattempt]
    have hstop : ¬(a.wkc ≤ 0 ∧ rest≠[]) := by
      intro hgo
      have := hgo.1
      omega
    rw [if_neg hstop]
    rfl
  · simp only [hkept.buffers]
    rfl
  · obtain ⟨hout,hpool⟩ := getMbxM_pool hs.alone hget
    exact Prod.ext hout.symm hpool.symm

theorem Talking.receiveNothing {t : τ} (hs : Line port cfg view)
    (h : Talking view need own ([],t) c) : ∃ r c',mbxReceive port cfg c=.ok (r,c') ∧
      r.wkc ≤ 0 ∧ r.mbx=none ∧ Talking view need own ([],t) c' ∧ Undisturbed c c' := by
  obtain ⟨wkc,hsilent,hview⟩ := hs.silent c.env t h.seen
  let asked : Client σ := { c with env := (port.mailbox c.env).2 }
  refine ⟨Received.none (if wkc>0 then ecTimeout else wkc),asked,?_,?_,rfl,
    ⟨h.tail,h.cells,h.items,h.supply,hview⟩,rfl,rfl,rfl⟩
  · rw [mbxReceive,if_pos hs.outbox]
    rw [run_bind (show askMailbox port c=.ok ((port.mailbox c.env).1,asked) from rfl),hsilent]
    rfl
  · by_cases hw : wkc>0
    · rw [if_pos hw]
      decide
    · rw [if_neg hw]
      exact Int.not_lt.mp hw

/-- If no more than one mailbox waits, nothing does after the first reception of a call, and the call
has it. -/
theorem Talking.clearFirst {q : List (List UInt8)} {t : τ} (hs : Line port cfg view)
    (h : Talking view need [] (q,t) c) (hq : q.length ≤ 1) (hn : q.length ≤ need) :
    ∃ r c',mbxReceive port cfg c=.ok (r,c') ∧ Talking view need (r.mbx.toList++[]) ([],t) c' ∧
      (r.mbx.toList++[]).length=q.length := by
  cases q with
  | nil =>
    obtain ⟨r,c',hr,-,hm,h',-⟩ := h.receiveNothing hs
    refine ⟨r,c',hr,?_⟩
    rw [hm]
    exact ⟨h',rfl⟩
  | cons stale q =>
    have hlast : q=[] := List.length_eq_zero_iff.mp (Nat.le_zero.mp (Nat.le_of_succ_le_succ hq))
    obtain ⟨r,m,c',hr,-,hm,-,h',-,-,-⟩ := h.receive hs (Nat.lt_of_succ_le (by
      rw [hlast] at hn
      exact hn))
    rw [hlast] at h' ⊢
    refine ⟨r,c',hr,?_⟩
    rw [hm]
    exact ⟨h',rfl⟩

theorem Talking.clearAll {q : List (List UInt8)} {t : τ} (hs : Line port cfg view)
    (h : Talking view need [] (q,t) c) (hn : 0 < need) (hq : q.length ≤ 1) :
    ∃ r c',mbxReceive port cfg c=.ok (r,c') ∧
      Talking view need (r.mbx.toList++[]) ([],t) c' ∧ (r.mbx.toList++[]).length<2 := by
  obtain ⟨r,c',hr,h',hheld⟩ := h.clearFirst hs hq (hq.trans hn)
  exact ⟨r,c',hr,h',hheld.trans_lt (Nat.lt_succ_of_le hq)⟩

end Steps

def recorded (view : σ → List (List UInt8) × τ) (e : σ × List (List UInt8)) :
    List (List UInt8) × (τ × List (List UInt8)) :=
  ((view e.1).1,(view e.1).2,e.2)

theorem recorded_eq {e : σ × List (List UInt8)} {q : List (List UInt8)} {t : τ}
    {frames : List (List UInt8)} :
    recorded view e=(q,t,frames) ↔ view e.1=(q,t) ∧ e.2=frames := by
  simp only [recorded,Prod.ext_iff]
  tauto

theorem Line.recording (hs : Line port cfg view) : Line port.recording cfg (recorded view) where
  inbox := hs.inbox
  outbox := hs.outbox
  alone := fun e => hs.alone e.1
  steady := by
    intro e
    simp only [recorded,Port.recording,hs.steady]
  takes := fun e frame => hs.takes e.1 frame
  hands := by
    intro e reply q t h
    obtain ⟨hview,hframes⟩ := recorded_eq.mp (show recorded view e=(reply::q,t.1,t.2) from h)
    obtain ⟨a,rest,hfull,hwkc,hbytes,hmax,hfree,hafter⟩ := hs.hands e.1 reply q t.1 hview
    exact ⟨a,rest,hfull,hwkc,hbytes,hmax,hfree,recorded_eq.mpr ⟨hafter,hframes⟩⟩
  silent := by
    intro e t h
    obtain ⟨hview,hframes⟩ := recorded_eq.mp (show recorded view e=([],t.1,t.2) from h)
    obtain ⟨wkc,hsilent,hafter⟩ := hs.silent e.1 t.1 hview
    exact ⟨wkc,hsilent,recorded_eq.mpr ⟨hafter,hframes⟩⟩

theorem Line.recording_write (hs : Line port cfg view) {e : σ × List (List UInt8)}
    {q : List (List UInt8)} {t : τ} (frame : List UInt8)
    (h : view (port.write e.1 frame).2=(q,t)) :
    recorded view (port.recording.write e frame).2=(q,t,e.2++[frame]) := by
  have htaken : (port.write e.1 frame).1>0 := hs.takes e.1 frame
  rw [recorded_eq]
  refine ⟨h,?_⟩
  simp only [Port.recording]
  exact if_pos htaken

theorem Talking.sendRecorded {need out : Nat} {own : List Nat} {q q' : List (List UInt8)} {t t' : τ}
    {frames : List (List UInt8)} {c : Client (σ × List (List UInt8))} (hs : Line port cfg view)
    (h : Talking (recorded view) need (out::own) (q,t,frames) c)
    (hanswer : view (port.write c.env.1 ((c.buffers out).take cfg.mbxL.toNat)).2=(q',t')) :
    ∃ wkc c',mbxSend port.recording cfg out c=.ok (wkc,c') ∧ 0 < wkc ∧
      Talking (recorded view) need own (q',t',frames++[(c.buffers out).take cfg.mbxL.toNat]) c' ∧
      Undisturbed c c' := by
  obtain ⟨-,hframes⟩ := recorded_eq.mp h.seen
  obtain ⟨wkc,c',hsend,hwkc,h',hkept⟩ := h.send hs.recording
  rw [hs.recording_write _ hanswer,hframes] at h'
  exact ⟨wkc,c',hsend,hwkc,h',hkept⟩

end EtherCATMaster.Mailbox
