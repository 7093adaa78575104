import EtherCATMaster.Framework.Run
import EtherCATMaster.Nicdrv.ProcessFrames

namespace EtherCATMaster.Nicdrv

open EtherCATMaster.Framework
open EtherCATMaster.Mapping (ecMaxBuf ecNoFrame Datagram Group groupDatagrams Slave Sm
  mailboxSlave freshContext freshContext_fresh configMapGroup)

/-- An index is empty in the stacks of the port. -/
structure Port.Free (p : Port) (idx : Nat) : Prop where
  primary : p.stack.rxbufstat idx=.empty
  secondary : ∀ red,p.redport=some red → red.rxbufstat idx=.empty

section Stacks

variable (txbuflength : Nat → Nat) {idx j : Nat} {s : Stack}

theorem Stack.mark_other (h : j≠idx) (bufstat : BufStat) :
    (s.mark idx bufstat).rxbufstat j=s.rxbufstat j := by
  rw [Stack.mark]
  exact Function.update_of_ne h bufstat s.rxbufstat

theorem Stack.mark_self (bufstat : BufStat) : (s.mark idx bufstat).rxbufstat idx=bufstat := by
  rw [Stack.mark]
  exact Function.update_self idx bufstat s.rxbufstat

theorem Stack.store_other (h : j≠idx) (bufstat : BufStat) :
    (s.store txbuflength idx bufstat).rxbufstat j=s.rxbufstat j := by
  rw [Stack.store]
  exact Function.update_of_ne h bufstat s.rxbufstat

theorem Stack.recvpkt_stat : s.recvpkt.2.rxbufstat=s.rxbufstat := by
  rw [Stack.recvpkt]
  cases s.socket <;> rfl

theorem Stack.inframe_empty (hj : j≠idx) (h : s.rxbufstat j=.empty) :
    (s.inframe txbuflength idx).2.rxbufstat j=.empty := by
  rw [Stack.inframe]
  split_ifs
  · rw [Stack.mark_other hj]
    exact h
  · have hstat := s.recvpkt_stat
    rcases hrecv : s.recvpkt with ⟨read,s'⟩
    rw [hrecv] at hstat
    rw [← hstat] at h
    cases read with
    | false => exact h
    | true =>
      simp only
      split_ifs with htype hown hwaited
      · rw [Stack.store_other _ hj]
        exact h
      · rw [Stack.store_other _ ?_]
        · exact h
        · intro heq
          rw [← heq,h] at hwaited
          cases hwaited.2
      · exact h
      · exact h

theorem Stack.poll_empty (hj : j≠idx) (wkc : Int) (h : s.rxbufstat j=.empty) :
    (s.poll txbuflength idx wkc).2.rxbufstat j=.empty := by
  rw [Stack.poll]
  split_ifs
  · exact Stack.inframe_empty txbuflength hj h
  · exact h

theorem waitLoop_empty (hj : j≠idx) (polls : List Arrivals) (prim sec : Int × Stack)
    (hprim : prim.2.rxbufstat j=.empty) (hsec : sec.2.rxbufstat j=.empty) :
    (waitLoop txbuflength idx polls prim sec).1.2.rxbufstat j=.empty ∧
      (waitLoop txbuflength idx polls prim sec).2.2.rxbufstat j=.empty := by
  induction polls generalizing prim sec with
  | nil => exact ⟨hprim,hsec⟩
  | cons a rest ih =>
    have hprim' := Stack.poll_empty txbuflength (s := prim.2.arrive a.primary) hj prim.1 hprim
    have hsec' := Stack.poll_empty txbuflength (s := sec.2.arrive a.secondary) hj sec.1 hsec
    rw [waitLoop]
    split_ifs
    · exact ih _ _ hprim' hsec'
    · exact ⟨hprim',hsec'⟩

theorem waitLoopSingle_empty (hj : j≠idx) (polls : List Arrivals) {prim : Int × Stack}
    (hprim : prim.2.rxbufstat j=.empty) :
    (waitLoopSingle txbuflength idx polls prim).2.rxbufstat j=.empty := by
  induction polls generalizing prim with
  | nil => exact hprim
  | cons a rest ih =>
    have hprim' := Stack.poll_empty txbuflength (s := prim.2.arrive a.primary) hj prim.1 hprim
    rw [waitLoopSingle]
    split_ifs
    · exact ih hprim'
    · exact hprim'

theorem retrieve_empty (hj : j≠idx) (packets : List Packet) (later : List (List Packet))
    (h : s.rxbufstat j=.empty) :
    (retrieve txbuflength idx packets later s).2.rxbufstat j=.empty := by
  induction later generalizing packets s with
  | nil => exact Stack.inframe_empty txbuflength (s := s.arrive packets) hj h
  | cons next later ih =>
    have h' := Stack.inframe_empty txbuflength (s := s.arrive packets) hj h
    rw [retrieve]
    split_ifs
    · exact ih next h'
    · exact h'

end Stacks

section Ports

variable {p : Port} {idx j : Nat}

theorem Port.setbufstat_free (p : Port) (idx : Nat) : (p.setbufstat idx .empty).Free idx := by
  refine ⟨Stack.mark_self _,?_⟩
  intro red hred
  obtain ⟨red',-,rfl⟩ := Option.map_eq_some_iff.mp hred
  exact Stack.mark_self _

theorem Port.Free.setbufstat (h : p.Free j) (hj : j≠idx) (bufstat : BufStat) :
    (p.setbufstat idx bufstat).Free j := by
  refine ⟨(Stack.mark_other hj _).trans h.primary,?_⟩
  intro red hred
  obtain ⟨red',hred',rfl⟩ := Option.map_eq_some_iff.mp hred
  exact (Stack.mark_other hj _).trans (h.secondary red' hred')

theorem Port.Free.outframeRed (h : p.Free j) (hj : j≠idx) (sent sent2 : Bool) :
    (p.outframeRed idx sent sent2).2.Free j := by
  have hprim : (p.stack.transmitted idx sent).rxbufstat j=.empty :=
    (Stack.mark_other hj _).trans h.primary
  rw [Port.outframeRed]
  cases hred : p.redport with
  | none =>
    refine ⟨hprim,?_⟩
    intro red hnone
    cases hnone
  | some red =>
    refine ⟨hprim,?_⟩
    rintro red' hsome
    cases hsome
    exact (Stack.mark_other hj _).trans (h.secondary red hred)

theorem Port.Free.copySecondary {red : Stack} (hprim : p.stack.rxbufstat j=.empty)
    (hsec : red.rxbufstat j=.empty) : (p.copySecondary red idx).Free j := by
  refine ⟨hprim,?_⟩
  intro red' hsome
  cases hsome
  exact hsec

theorem Port.Free.withSecondary {red : Stack} (hprim : p.stack.rxbufstat j=.empty)
    (hsec : red.rxbufstat j=.empty) : ({ p with redport := some red } : Port).Free j := by
  refine ⟨hprim,?_⟩
  intro red' hsome
  cases hsome
  exact hsec

theorem Port.Free.sendAgain {red : Stack} (hj : j≠idx) (hprim : p.stack.rxbufstat j=.empty)
    (hsec : red.rxbufstat j=.empty) (wkc : Int) (resend : Packet → Resent) :
    (p.sendAgain red idx wkc resend).port.Free j := by
  have hout : (red.transmitted idx (resend (p.frame idx)).sent).rxbufstat j=.empty :=
    (Stack.mark_other hj _).trans hsec
  have hretrieve := retrieve_empty p.txbuflength hj (resend (p.frame idx)).first
    (resend (p.frame idx)).later hout
  simp only [Port.sendAgain]
  by_cases hback : (retrieve p.txbuflength idx (resend (p.frame idx)).first
      (resend (p.frame idx)).later (red.transmitted idx (resend (p.frame idx)).sent)).1>ecNoFrame
  · rw [if_pos hback]
    exact Port.Free.copySecondary hprim hretrieve
  · rw [if_neg hback]
    exact Port.Free.withSecondary hprim hretrieve

theorem Port.Free.reroute {red : Stack} (hj : j≠idx) (hprim : p.stack.rxbufstat j=.empty)
    (hsec : red.rxbufstat j=.empty) (wkc wkc2 : Int) (resend : Packet → Resent) :
    (p.reroute red idx wkc wkc2 resend).port.Free j := by
  have hagain : ∀ c : Prop,[Decidable c] →
      ((if c then p.copyReceived idx else p).sendAgain red idx wkc resend).port.Free j := by
    intro c _
    split_ifs
    · exact Port.Free.sendAgain (p := p.copyReceived idx) hj hprim hsec wkc resend
    · exact Port.Free.sendAgain hj hprim hsec wkc resend
  simp only [Port.reroute]
  generalize (if wkc>ecNoFrame then p.stack.rxsa idx else 0)=primrx
  generalize (if wkc2>ecNoFrame then red.rxsa idx else 0)=secrx
  by_cases hnormal : primrx=rxSec ∧ secrx=rxPrim
  · rw [if_pos hnormal]
    exact Port.Free.copySecondary hprim hsec
  · rw [if_neg hnormal]
    by_cases hresend : primrx=0 ∧ secrx=rxSec ∨ primrx=rxPrim ∧ secrx=rxSec
    · rw [if_pos hresend]
      exact hagain _
    · rw [if_neg hresend]
      exact Port.Free.withSecondary hprim hsec

theorem Port.Free.waitinframe (h : p.Free j) (hj : j≠idx) (polls : List Arrivals)
    (resend : Packet → Resent) : (p.waitinframe idx polls resend).port.Free j := by
  rw [Port.waitinframe]
  cases hred : p.redport with
  | none =>
    refine ⟨waitLoopSingle_empty _ hj polls h.primary,?_⟩
    intro red hnone
    cases hnone
  | some red =>
    have hloop := waitLoop_empty p.txbuflength hj polls (ecNoFrame,p.stack) (ecNoFrame,red)
      h.primary (h.secondary red hred)
    exact Port.Free.reroute hj hloop.1 hloop.2 _ _ _

end Ports

section Cycles

variable {c : Context} {j : Nat}

def Port.nextFree (p : Port) : Nat :=
  search p.stack.rxbufstat (ringNext ecMaxBuf p.lastidx) ecMaxBuf

theorem fillFrame_free (configadr idx : Nat) (d : Datagram) (h : c.port.Free j) :
    (c.fillFrame configadr idx d).1.Free j := by
  rw [Context.fillFrame]
  split_ifs
  · exact ⟨h.primary,h.secondary⟩
  · exact ⟨h.primary,h.secondary⟩

theorem sendFrame_free (configadr : Nat) (d : Datagram) (sent : Bool × Bool) (h : c.port.Free j)
    (hj : j≠c.port.nextFree) : (c.sendFrame configadr d sent).2.2.port.Free j := by
  have htaken : ({ c with port := c.port.getindex.2 } : Context).port.Free j := by
    have := h.setbufstat hj .alloc
    exact ⟨this.primary,this.secondary⟩
  exact (fillFrame_free configadr c.port.nextFree d htaken).outframeRed hj sent.1 sent.2

theorem sendFrame_idx (configadr : Nat) (d : Datagram) (sent : Bool × Bool) :
    (c.sendFrame configadr d sent).1=c.port.nextFree := rfl

theorem sendGroup_stack (configadr : Nat) (sends : Nat → Bool × Bool) (ds : List Datagram)
    (k : Nat) (c : Context) (hroom : c.idxstack.length ≤ ecMaxBuf) :
    (Context.sendGroup configadr sends ds k c).2.idxstack.map Entry.idx=
      (c.idxstack.map Entry.idx++
        (Context.sendGroup configadr sends ds k c).1.map Prod.fst).take ecMaxBuf := by
  induction ds generalizing k c with
  | nil =>
    rw [Context.sendGroup,List.map_nil,List.append_nil,List.take_of_length_le]
    rw [List.length_map]
    exact hroom
  | cons d rest ih =>
    have hstack : (c.sendFrame configadr d (sends k)).2.2.idxstack=
        pushindex c.idxstack ⟨c.port.nextFree,d.dest,d.length,
          (({ c with port := c.port.getindex.2 } : Context).fillFrame configadr
            c.port.nextFree d).2⟩ := rfl
    have hpush := ih (k+1) (c.sendFrame configadr d (sends k)).2.2 (by
      rw [hstack,pushindex]
      split_ifs with hless
      · rw [List.length_append,List.length_singleton]
        exact hless
      · exact hroom)
    rw [Context.sendGroup]
    simp only [List.map_cons]
    rw [hpush,hstack,pushindex,sendFrame_idx]
    split_ifs with hless
    · rw [List.map_append,List.map_singleton,List.append_assoc,List.singleton_append]
    · have hfull : (c.idxstack.map Entry.idx).length=ecMaxBuf := by
        rw [List.length_map]
        omega
      rw [List.take_append_of_le_length (by omega),List.take_append_of_le_length (by omega)]

theorem sendGroup_length (configadr : Nat) (sends : Nat → Bool × Bool) (ds : List Datagram)
    (k : Nat) (c : Context) : (Context.sendGroup configadr sends ds k c).1.length=ds.length := by
  induction ds generalizing k c with
  | nil => rfl
  | cons d rest ih =>
    rw [Context.sendGroup]
    simp only [List.length_cons]
    rw [ih]

theorem sendGroup_free (configadr : Nat) (sends : Nat → Bool × Bool) (ds : List Datagram) (k : Nat)
    (c : Context) (h : c.port.Free j)
    (hj : j ∉ (Context.sendGroup configadr sends ds k c).1.map Prod.fst) :
    (Context.sendGroup configadr sends ds k c).2.port.Free j := by
  induction ds generalizing k c with
  | nil => exact h
  | cons d rest ih =>
    rw [Context.sendGroup] at hj ⊢
    simp only [List.map_cons,List.mem_cons,not_or] at hj
    exact ih (k+1) _ (sendFrame_free configadr d (sends k) h hj.1) hj.2

theorem useFrame_port (e : Entry) (wkc2 : Int) (r : Received) :
    (c.useFrame e wkc2 r).2.port=c.port := by
  rw [Context.useFrame]
  split_ifs <;> rfl

theorem receiveEntry_port (e : Entry) (w : Wait) (r : Received) :
    (c.receiveEntry e w r).2.port=(c.port.waitinframe e.idx w.polls w.resend).port.setbufstat e.idx
      .empty := by
  simp only [Context.receiveEntry]
  split_ifs
  · rw [useFrame_port]
  · rfl

theorem receiveEntry_free (e : Entry) (w : Wait) (r : Received)
    (h : c.port.Free j ∨ j=e.idx) : (c.receiveEntry e w r).2.port.Free j := by
  rw [receiveEntry_port]
  by_cases hj : j=e.idx
  · rw [hj]
    exact Port.setbufstat_free _ _
  · have hfree := h.resolve_right hj
    exact (hfree.waitinframe hj w.polls w.resend).setbufstat hj .empty

theorem receiveEntries_free (waits : Nat → Wait) (entries : List Entry) (k : Nat) (r : Received)
    (c : Context) (h : c.port.Free j ∨ j ∈ entries.map Entry.idx) :
    (Context.receiveEntries waits entries k r c).2.port.Free j := by
  induction entries generalizing k r c with
  | nil =>
    rcases h with h|h
    · exact h
    · cases h
  | cons e rest ih =>
    rw [Context.receiveEntries]
    apply ih
    rcases h with h|h
    · exact .inl (receiveEntry_free e (waits k) r (.inl h))
    · rw [List.map_cons,List.mem_cons] at h
      rcases h with h|h
      · exact .inl (receiveEntry_free e (waits k) r (.inr h))
      · exact .inr h

/-- A cycle: its datagrams, the results of `send`, and what comes in for each wait. -/
structure Cycle where
  configadr : Nat
  datagrams : List Datagram
  sends : Nat → Bool × Bool
  waits : Nat → Wait

def Context.afterSend (c : Context) (cycle : Cycle) : List Nat × Context :=
  let r := Context.sendGroup cycle.configadr cycle.sends cycle.datagrams 0 c
  (r.1.map Prod.fst,r.2)

/-- `ecx_send_processdata_group` and `ecx_receive_processdata_group` -/
def Context.cycle (c : Context) (cycle : Cycle) : Context :=
  ((c.afterSend cycle).2.receiveGroup cycle.waits).2

/-- Every index that a cycle takes is waited for, and is empty after it. -/
def Context.Releases (c : Context) (cycle : Cycle) : Prop :=
  ∀ idx ∈ (c.afterSend cycle).1,idx ∈ (c.afterSend cycle).2.idxstack.map Entry.idx ∧
    (c.cycle cycle).port.Free idx

theorem afterSend_stack (hstack : c.idxstack=[]) (cycle : Cycle) :
    (c.afterSend cycle).2.idxstack.map Entry.idx=(c.afterSend cycle).1.take ecMaxBuf := by
  have h := sendGroup_stack cycle.configadr cycle.sends cycle.datagrams 0 c (by
    rw [hstack]
    exact Nat.zero_le _)
  rw [hstack,List.map_nil,List.nil_append] at h
  exact h

theorem afterSend_length (c : Context) (cycle : Cycle) :
    (c.afterSend cycle).1.length=cycle.datagrams.length := by
  rw [Context.afterSend,List.length_map]
  exact sendGroup_length _ _ _ _ _

theorem cycle_free (cycle : Cycle) (h : (c.afterSend cycle).2.port.Free j ∨
    j ∈ (c.afterSend cycle).2.idxstack.map Entry.idx) : (c.cycle cycle).port.Free j :=
  receiveEntries_free cycle.waits (c.afterSend cycle).2.idxstack 0 _ _ h

theorem releases_of_length (hstack : c.idxstack=[]) {cycle : Cycle}
    (hlen : cycle.datagrams.length ≤ ecMaxBuf) : c.Releases cycle := by
  have hall : (c.afterSend cycle).2.idxstack.map Entry.idx=(c.afterSend cycle).1 := by
    rw [afterSend_stack hstack,List.take_of_length_le]
    rw [afterSend_length]
    exact hlen
  intro idx hidx
  rw [hall]
  refine ⟨hidx,cycle_free cycle (.inr ?_)⟩
  rw [hall]
  exact hidx

theorem cycle_keeps_free (hstack : c.idxstack=[]) {cycle : Cycle}
    (hlen : cycle.datagrams.length ≤ ecMaxBuf) (h : c.port.Free j) :
    (c.cycle cycle).port.Free j := by
  by_cases hj : j ∈ (c.afterSend cycle).1
  · exact (releases_of_length hstack hlen j hj).2
  · exact cycle_free cycle (.inl (sendGroup_free _ _ _ _ c h hj))

/-- The indices that `n` frames take when all of them are sent. -/
def takes : Nat → (Nat → BufStat) → Nat → List Nat
  | 0,_,_ => []
  | n+1,rxbufstat,lastidx =>
      let idx := search rxbufstat (ringNext ecMaxBuf lastidx) ecMaxBuf
      idx::takes n (Function.update rxbufstat idx .tx) idx

theorem takes_take (n : Nat) {m : Nat} (h : m ≤ n) (rxbufstat : Nat → BufStat) (lastidx : Nat) :
    (takes n rxbufstat lastidx).take m=takes m rxbufstat lastidx := by
  induction n generalizing m rxbufstat lastidx with
  | zero =>
    rw [Nat.le_zero.mp h]
    rfl
  | succ n ih =>
    cases m with
    | zero => rfl
    | succ m =>
      rw [takes,takes,List.take_succ_cons]
      simp only [ih (Nat.le_of_succ_le_succ h)]

theorem outframeRed_stat (p : Port) (idx : Nat) (sent sent2 : Bool) :
    (p.outframeRed idx sent sent2).2.stack=p.stack.transmitted idx sent ∧
      (p.outframeRed idx sent sent2).2.lastidx=p.lastidx := by
  rw [Port.outframeRed]
  cases p.redport <;> exact ⟨rfl,rfl⟩

theorem fillFrame_stack (configadr idx : Nat) (d : Datagram) :
    (c.fillFrame configadr idx d).1.stack=c.port.stack ∧
      (c.fillFrame configadr idx d).1.lastidx=c.port.lastidx := by
  rw [Context.fillFrame]
  split_ifs <;> exact ⟨rfl,rfl⟩

theorem sendFrame_stat (configadr : Nat) (d : Datagram) {sent : Bool × Bool}
    (hsent : sent.1=true) :
    (c.sendFrame configadr d sent).2.2.port.stack.rxbufstat=
        Function.update c.port.stack.rxbufstat c.port.nextFree .tx ∧
      (c.sendFrame configadr d sent).2.2.port.lastidx=c.port.nextFree := by
  obtain ⟨hstack,hlast⟩ := fillFrame_stack (c := { c with port := c.port.getindex.2 }) configadr
    c.port.nextFree d
  obtain ⟨hout,hlastidx⟩ := outframeRed_stat
    (({ c with port := c.port.getindex.2 } : Context).fillFrame configadr c.port.nextFree d).1
    c.port.nextFree sent.1 sent.2
  constructor
  · refine (congrArg Stack.rxbufstat hout).trans ?_
    rw [hstack,Stack.transmitted,if_pos hsent]
    exact Function.update_idem _ _ _
  · exact hlastidx.trans hlast

theorem sendGroup_takes (configadr : Nat) {sends : Nat → Bool × Bool}
    (hsent : ∀ k,(sends k).1=true) (ds : List Datagram) (k : Nat) (c : Context) :
    (Context.sendGroup configadr sends ds k c).1.map Prod.fst=
      takes ds.length c.port.stack.rxbufstat c.port.lastidx := by
  induction ds generalizing k c with
  | nil => rfl
  | cons d rest ih =>
    obtain ⟨hstat,hlast⟩ := sendFrame_stat (c := c) configadr d (hsent k)
    rw [Context.sendGroup]
    simp only [List.map_cons,List.length_cons]
    rw [ih,hstat,hlast]
    rfl

/-- A context in which index 1 is in use elsewhere, and index 0 comes next. -/
def busyContext : Context where
  port :=
    { stack := ⟨fun i => if i=1 then .tx else .empty,fun _ _ => 0,fun _ => 0,fun _ => 0,[]⟩
      redport := none
      txbuf := fun _ _ => 0
      txbuflength := fun _ => 0
      txbuf2 := fun _ => 0
      txbuflength2 := 0
      lastidx := 15 }
  idxstack := []
  iomap := fun _ => 0
  dcTime := 0

/-- A cycle in which all frames are sent, and none comes back. -/
def lostCycle (ds : List Datagram) : Cycle :=
  ⟨0,ds,fun _ => (true,true),fun _ => ⟨[],fun _ => ⟨true,[],[]⟩⟩⟩

theorem beyond_not_released (ds : List Datagram) (hlen : ecMaxBuf < ds.length) :
    1 ∈ (busyContext.afterSend (lostCycle ds)).1 ∧
      1 ∉ (busyContext.afterSend (lostCycle ds)).2.idxstack.map Entry.idx := by
  have htaken : (busyContext.afterSend (lostCycle ds)).1=
      takes ds.length busyContext.port.stack.rxbufstat 15 :=
    sendGroup_takes 0 (fun _ => rfl) ds 0 busyContext
  rw [afterSend_stack rfl,htaken]
  constructor
  · have hmem : 1 ∈ takes (ecMaxBuf+1) busyContext.port.stack.rxbufstat 15 := by
      decide +kernel
    rw [← takes_take ds.length hlen] at hmem
    exact List.mem_of_mem_take hmem
  · rw [takes_take ds.length hlen.le]
    decide +kernel

/-- A cycle's indices are all released when its frames are not more than the index stack has room
for, and then no index stays allocated over any number of cycles. -/
theorem indices_released_iff (overlapped : Bool) (g : Group) (ds : List Datagram)
    (_ : groupDatagrams overlapped g=some ds) :
    ((∀ (c : Context) (cycle : Cycle),c.idxstack=[] → cycle.datagrams=ds → c.Releases cycle) ↔
      ds.length ≤ ecMaxBuf) ∧
    ∀ (c : Context) (cycles : List Cycle),c.idxstack=[] →
      (∀ cycle ∈ cycles,cycle.datagrams.length ≤ ecMaxBuf) →
      ∀ idx,c.port.Free idx → (runFrom Context.cycle c cycles).port.Free idx := by
  constructor
  · constructor
    · intro hall
      by_contra hlen
      obtain ⟨htaken,hstack⟩ := beyond_not_released ds (Nat.not_le.mp hlen)
      exact hstack (hall busyContext (lostCycle ds) rfl rfl 1 htaken).1
    · intro hlen c cycle hstack hds
      apply releases_of_length hstack
      rw [hds]
      exact hlen
  · intro c cycles hstack hall idx hfree
    induction cycles generalizing c with
    | nil => exact hfree
    | cons cycle rest ih =>
      obtain ⟨hfirst,hrest⟩ := List.forall_mem_cons.mp hall
      exact ih (c.cycle cycle) rfl hrest (cycle_keeps_free hstack hfirst hfree)

theorem mailbox_indices_released :
    ∃ ctx' size,configMapGroup (freshContext [mailboxSlave 0] 0 false false) 0=some (ctx',size) ∧
      ∃ ds,groupDatagrams ctx'.overlappedMode ctx'.group=some ds ∧ ds≠[] ∧
        (∀ (c : Context) (cycle : Cycle),c.idxstack=[] → cycle.datagrams=ds → c.Releases cycle) ∧
        (runFrom Context.cycle busyContext [lostCycle ds,lostCycle ds]).port.Free 0 := by
  have hmapped : (configMapGroup (freshContext [mailboxSlave 0] 0 false false) 0).any (fun r =>
      (groupDatagrams r.1.overlappedMode r.1.group).any (fun ds =>
        decide (ds≠[] ∧ ds.length ≤ ecMaxBuf)))=true := by decide +kernel
  obtain ⟨⟨ctx',size⟩,h,hrun⟩ := (Option.any_eq_true _ _).mp hmapped
  obtain ⟨ds,hds,hlen⟩ := (Option.any_eq_true _ _).mp hrun
  obtain ⟨hsome,hlen⟩ := of_decide_eq_true hlen
  refine ⟨ctx',size,h,ds,hds,hsome,(indices_released_iff _ _ ds hds).1.mpr hlen,?_⟩
  have hcycles : ∀ cycle ∈ [lostCycle ds,lostCycle ds],cycle.datagrams.length ≤ ecMaxBuf := by
    intro cycle hcycle
    simp only [List.mem_cons,List.not_mem_nil,or_false,or_self] at hcycle
    rw [hcycle]
    exact hlen
  apply (indices_released_iff _ _ ds hds).2 busyContext _ rfl hcycles
  refine ⟨rfl,?_⟩
  intro red hnone
  cases hnone

/-- A slave with 1480 bytes of outputs. -/
def wideSlave : Slave :=
  { mailboxSlave 0 with
    mbxL := 0
    obits := 11840
    ibits := 0
    sm := fun i => [Sm.mk 0 0 0,Sm.mk 0 0 0,Sm.mk 0x1100 1480 3,Sm.mk 0 0 0].getD i ⟨0,0,0⟩ }

theorem wideSlave_fresh : wideSlave.Fresh := ⟨rfl,rfl,rfl,fun _ => rfl,rfl,rfl,rfl⟩

/-- Seventeen such slaves need eighteen frames. -/
theorem wide_indices_not_released :
    (freshContext (List.replicate 17 wideSlave) 0 false false).Fresh 0 ∧
      ∃ ctx' size,configMapGroup (freshContext (List.replicate 17 wideSlave) 0 false false) 0=
          some (ctx',size) ∧
        ∃ ds,groupDatagrams ctx'.overlappedMode ctx'.group=some ds ∧ ds.length=18 ∧
          ¬busyContext.Releases (lostCycle ds) := by
  have hmapped : (configMapGroup (freshContext (List.replicate 17 wideSlave) 0 false false) 0).any
      (fun r => (groupDatagrams r.1.overlappedMode r.1.group).any (fun ds =>
        decide (ds.length=18)))=true := by decide +kernel
  refine ⟨freshContext_fresh _ _ (by decide) (by decide) (by decide) ?_,?_⟩
  · intro s hs
    rw [List.eq_of_mem_replicate hs]
    exact wideSlave_fresh
  obtain ⟨⟨ctx',size⟩,h,hrun⟩ := (Option.any_eq_true _ _).mp hmapped
  obtain ⟨ds,hds,hlen⟩ := (Option.any_eq_true _ _).mp hrun
  have hlen := of_decide_eq_true hlen
  refine ⟨ctx',size,h,ds,hds,hlen,?_⟩
  intro hall
  obtain ⟨htaken,hstack⟩ := beyond_not_released ds (by rw [hlen]; decide)
  exact hstack (hall 1 htaken).1

end Cycles

end EtherCATMaster.Nicdrv
