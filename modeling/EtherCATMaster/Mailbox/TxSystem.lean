import EtherCATMaster.Mailbox.TxInvariant

namespace EtherCATMaster.Mailbox

open EtherCATMaster.Framework

/-- Only mailboxes of the pool have owners, and each has one. -/
structure OwnedOnce (s : TxSys) : Prop where
  pool : ∀ m o,Owns s m o → m < mbxPoolSize
  one : ∀ m < mbxPoolSize,∃ o',∀ o,Owns s m o ↔ o=o'

theorem not_owns_handler {s : TxSys} {m : Nat} (h : ∀ f,s.handler≠.releasing m f) :
    ¬Owns s m .handler := by
  intro ho
  obtain ⟨f,hf⟩ := ho
  exact h f hf

theorem OwnedOnce.eq_owner {s : TxSys} (h : OwnedOnce s) {m : Nat} {o : Owner} (ho : Owns s m o)
    (o' : Owner) : Owns s m o' ↔ o'=o := by
  obtain ⟨p,hp⟩ := h.one m (h.pool m o ho)
  rw [hp,(hp o).mp ho]

theorem OwnedOnce.congr {s s' : TxSys} (h : OwnedOnce s)
    (hsame : ∀ m o,Owns s' m o ↔ Owns s m o) : OwnedOnce s' := by
  constructor
  · intro m o ho
    exact h.pool m o ((hsame m o).mp ho)
  · intro m hm
    obtain ⟨o',ho'⟩ := h.one m hm
    exact ⟨o',fun o => (hsame m o).trans (ho' o)⟩

theorem OwnedOnce.transfer {s s' : TxSys} (h : OwnedOnce s) {m : Nat} {o : Owner}
    (hold : Owns s m o) (o' : Owner) (hother : ∀ m',m'≠m → ∀ p,Owns s' m' p ↔ Owns s m' p)
    (hnew : ∀ p,Owns s' m p ↔ p=o') : OwnedOnce s' := by
  constructor
  · intro m' p hp
    by_cases heq : m'=m
    · rw [heq]
      exact h.pool m o hold
    · exact h.pool m' p ((hother m' heq p).mp hp)
  · intro m' hm'
    by_cases heq : m'=m
    · rw [heq]
      exact ⟨o',hnew⟩
    · obtain ⟨q,hq⟩ := h.one m' hm'
      exact ⟨q,fun p => (hother m' heq p).trans (hq p)⟩

def HandlerOk (q : MbxQueue) : HandlerPc → Prop
  | .idle => True
  | .loop f => f.listcount ≤ q.listcount
  | .rotating loc f => loc=q.listtail ∧ f.listcount<q.listcount
  | .checking loc f => loc < mbxPoolSize ∧ f.listcount<q.listcount
  | .dropping loc f => loc=q.listtail ∧ f.listcount<q.listcount ∧ q.mbxremove loc=true
  | .releasing _ f => f.listcount ≤ q.listcount

/-- The transmit side as a whole. -/
structure TxInv (s : TxSys) : Prop where
  pool : s.pool.Wf
  nodup : s.pool.free.Nodup
  queue : s.queue.Wf
  owned : OwnedOnce s
  tickets : ∀ i t m,s.senders i=.waiting t m → ∃ loc,s.queue.mbxticket t=some loc
  apart : ∀ i j t m n,s.senders i=.waiting t m → s.senders j=.waiting t n → i=j
  handler : HandlerOk s.queue s.handler

theorem txInit_inv : TxInv txInit := by
  refine ⟨initMbxPool_wf,?_,initMbxQueue_wf,⟨?_,?_⟩,?_,?_,trivial⟩
  · rw [txInit,initMbxPool_free]
    exact List.nodup_range
  · intro m o ho
    cases o with
    | free =>
      have hm : m ∈ initMbxPool.free := ho
      exact initMbxPool_wf.items m hm
    | slot i => exact absurd ho.2.1 (Nat.not_lt_zero _)
    | caller j => cases ho
    | handler =>
      obtain ⟨f,hf⟩ := ho
      cases hf
  · intro m hm
    refine ⟨.free,?_⟩
    intro o
    constructor
    · intro ho
      cases o with
      | free => rfl
      | slot i => exact absurd ho.2.1 (Nat.not_lt_zero _)
      | caller j => cases ho
      | handler =>
        obtain ⟨f,hf⟩ := ho
        cases hf
    · rintro rfl
      change m ∈ initMbxPool.free
      rw [initMbxPool_free]
      exact List.mem_range.mpr hm
  · intro i t m h
    cases h
  · intro i j t m n h
    cases h

theorem release_spec {s : TxSys} (h : TxInv s) {m : Nat} {o : Owner} (ho : Owns s m o)
    (hne : o≠.free) :
    (dropMbx s.pool m).free=s.pool.free++[m] ∧ (dropMbx s.pool m).Wf ∧
      (dropMbx s.pool m).free.Nodup := by
  have hm := h.owned.pool m o ho
  have hn : m ∉ s.pool.free := by
    intro hf
    have hfree : Owns s m .free := hf
    exact hne ((h.owned.eq_owner ho .free).mp hfree).symm
  obtain ⟨hfree,hwf⟩ := dropMbx_free h.pool hm
    (count_lt_of_nodup h.pool hm (List.nodup_cons.mpr ⟨hn,h.nodup⟩))
  refine ⟨hfree,hwf,?_⟩
  rw [hfree]
  refine List.Nodup.append h.nodup (List.nodup_singleton m) ?_
  intro x hx hx'
  rw [List.mem_singleton.mp hx'] at hx
  exact hn hx

theorem HandlerOk.mono {q q' : MbxQueue} {pc : HandlerPc} (h : HandlerOk q pc)
    (htail : q'.listtail=q.listtail) (hcount : q.listcount ≤ q'.listcount)
    (hmark : q.mbxremove q.listtail=true → q'.mbxremove q.listtail=true) : HandlerOk q' pc := by
  cases pc with
  | idle => trivial
  | loop f => exact Nat.le_trans h hcount
  | rotating loc f => exact ⟨h.1.trans htail.symm,Nat.lt_of_lt_of_le h.2 hcount⟩
  | checking loc f => exact ⟨h.1,Nat.lt_of_lt_of_le h.2 hcount⟩
  | dropping loc f =>
    obtain ⟨hloc,hlt,hm⟩ := h
    refine ⟨hloc.trans htail.symm,Nat.lt_of_lt_of_le hlt hcount,?_⟩
    rw [hloc] at hm ⊢
    exact hmark hm
  | releasing m f => exact Nat.le_trans h hcount

theorem waiting_of_set (s : TxSys) (i : Nat) (pc : SenderPc) (hpc : ∀ t m,pc≠.waiting t m)
    (j t m : Nat) (hj : Function.update s.senders i pc j=.waiting t m) :
    j≠i ∧ s.senders j=.waiting t m := by
  simp only [Function.update_apply] at hj
  split_ifs at hj with heq
  · exact absurd hj (hpc t m)
  · exact ⟨heq,hj⟩

theorem release_owned {s s' : TxSys} (h : TxInv s) {m : Nat} {o : Owner} (ho : Owns s m o)
    (hne : o≠.free) (hpool : s'.pool=dropMbx s.pool m)
    (hlose : ∀ m' p,p≠.free → (Owns s' m' p ↔ m'≠m ∧ Owns s m' p)) : OwnedOnce s' := by
  have hfree := (release_spec h ho hne).1
  have hmem : ∀ m',Owns s' m' .free ↔ Owns s m' .free ∨ m'=m := by
    intro m'
    simp only [Owns,hpool,hfree,List.mem_append,List.mem_singleton]
  refine h.owned.transfer ho .free ?_ ?_
  · intro m' hm' p
    by_cases hp : p=.free
    · rw [hp,hmem]
      exact ⟨fun hh => hh.resolve_right hm',.inl⟩
    · rw [hlose m' p hp]
      exact ⟨And.right,fun hh => ⟨hm',hh⟩⟩
  · intro p
    by_cases hp : p=.free
    · rw [hp,hmem]
      exact iff_of_true (.inr rfl) rfl
    · rw [hlose m p hp]
      exact iff_of_false (fun hh => hh.1 rfl) hp

theorem get_inv {s : TxSys} (h : TxInv s) (i : Nat) : TxInv (txStep s (.get i)) := by
  simp only [txStep]
  cases hs : s.senders i with
  | holding mbx => exact h
  | waiting t m => exact h
  | idle =>
    cases hg : getMbx s.pool with
    | mk found pool =>
      cases found with
      | none => exact h
      | some m =>
        have hfst : (getMbx s.pool).1=some m := by rw [hg]
        obtain ⟨hfree,hwf⟩ := getMbx_some h.pool hfst
        rw [hg] at hfree hwf
        change s.pool.free=m::pool.free at hfree
        have hnd := h.nodup
        rw [hfree] at hnd
        obtain ⟨hnot,hnd⟩ := List.nodup_cons.mp hnd
        have hold : Owns s m .free := by
          change m ∈ s.pool.free
          rw [hfree]
          exact List.mem_cons_self
        have hset := waiting_of_set s i (.holding m) (fun t n hn => by cases hn)
        refine ⟨hwf,hnd,h.queue,h.owned.transfer hold (.caller i) ?_ ?_,?_,?_,h.handler⟩
        · intro m' hne o
          cases o with
          | free =>
            change m' ∈ pool.free ↔ m' ∈ s.pool.free
            rw [hfree,List.mem_cons]
            exact ⟨.inr,fun hm => hm.resolve_left hne⟩
          | slot j => exact Iff.rfl
          | caller j =>
            simp only [Owns,TxSys.setSender,Function.update_apply]
            split_ifs with heq
            · rw [heq,hs]
              constructor
              · intro hh
                exact absurd (SenderPc.holding.inj hh).symm hne
              · intro hh
                cases hh
            · exact Iff.rfl
          | handler => exact Iff.rfl
        · intro o
          have hone := h.owned.eq_owner hold o
          cases o with
          | free => exact iff_of_false hnot (fun hh => by cases hh)
          | slot j => exact iff_of_false (fun hh => by cases hone.mp hh) (fun hh => by cases hh)
          | caller j =>
            simp only [Owns,TxSys.setSender,Function.update_apply]
            split_ifs with heq
            · rw [heq]
              exact iff_of_true rfl rfl
            · exact iff_of_false (fun hh => by cases hone.mp hh)
                (fun hh => heq (Owner.caller.inj hh))
          | handler => exact iff_of_false (fun hh => by cases hone.mp hh) (fun hh => by cases hh)
        · intro j t n hj
          exact h.tickets j t n (hset j t n hj).2
        · intro j k t n n' hj hk
          exact h.apart j k t n n' (hset j t n hj).2 (hset k t n' hk).2

theorem giveUp_inv {s : TxSys} (h : TxInv s) (i : Nat) : TxInv (txStep s (.giveUp i)) := by
  simp only [txStep]
  cases hs : s.senders i with
  | idle => exact h
  | waiting t m => exact h
  | holding m =>
    have hold : Owns s m (.caller i) := hs
    obtain ⟨-,hwf,hnd⟩ := release_spec h hold (fun hh => by cases hh)
    have hset := waiting_of_set s i .idle (fun t n hn => by cases hn)
    refine ⟨hwf,hnd,h.queue,release_owned h hold (fun hh => by cases hh) rfl ?_,?_,?_,h.handler⟩
    · intro m' p hp
      have hmoved : m'=m → Owns s m' p → p=.caller i := by
        rintro rfl hh
        exact (h.owned.eq_owner hold p).mp hh
      cases p with
      | free => exact absurd rfl hp
      | slot j =>
        exact ⟨fun hh => ⟨fun he => (by cases hmoved he hh),hh⟩,And.right⟩
      | caller j =>
        simp only [Owns,TxSys.setSender,Function.update_apply]
        split_ifs with heq
        · rw [heq,hs]
          constructor
          · intro hh
            cases hh
          · intro hh
            exact absurd (SenderPc.holding.inj hh.2).symm hh.1
        · exact ⟨fun hh => ⟨fun he => heq (Owner.caller.inj (hmoved he hh)),hh⟩,And.right⟩
      | handler =>
        exact ⟨fun hh => ⟨fun he => (by cases hmoved he hh),hh⟩,And.right⟩
    · intro j t n hj
      exact h.tickets j t n (hset j t n hj).2
    · intro j k t n n' hj hk
      exact h.apart j k t n n' (hset j t n hj).2 (hset k t n' hk).2

theorem add_inv {s : TxSys} (h : TxInv s) (i : Nat) (slave : UInt16) :
    TxInv (txStep s (.add i slave)) := by
  simp only [txStep]
  cases hs : s.senders i with
  | idle => exact h
  | waiting t m => exact h
  | holding m =>
    by_cases hc : s.queue.listcount < mbxPoolSize
    · have hwf := addQueue_wf h.queue hc slave m s.messages
      obtain ⟨hfree,hnone⟩ := freeTicket_spec h.queue hc
      obtain ⟨hhead,hoff⟩ := head_free h.queue hc
      simp only [mbxAddQueue,if_pos hc] at hwf ⊢
      have hold : Owns s m (.caller i) := hs
      have hslot : ∀ j,j < mbxPoolSize → j≠s.queue.listhead →
          ringOffset mbxPoolSize s.queue.listtail j < s.queue.listcount+1 →
          s.queue.InSegment j := fun j hj hne hlt =>
        ((add_segment h.queue hc hj).mp hlt).resolve_right hne
      refine ⟨h.pool,h.nodup,hwf,h.owned.transfer hold (.slot s.queue.listhead) ?_ ?_,
        ?_,?_,?_⟩
      · intro m' hne o
        cases o with
        | free => exact Iff.rfl
        | slot j =>
          by_cases heq : j=s.queue.listhead
          · rw [heq]
            constructor
            · rintro ⟨-,-,hm⟩
              simp only [Function.update_self,Option.some.injEq] at hm
              exact absurd hm.symm hne
            · rintro ⟨-,hseg,-⟩
              exact absurd rfl (inSegment_lt h.queue hc hseg)
          · constructor
            · rintro ⟨hj,hseg,hm⟩
              simp only [Function.update_of_ne heq] at hm
              exact ⟨hj,hslot j hj heq hseg,hm⟩
            · rintro ⟨hj,hseg,hm⟩
              refine ⟨hj,Nat.lt_succ_of_lt hseg,?_⟩
              simp only [Function.update_of_ne heq]
              exact hm
        | caller j =>
          simp only [Owns,TxSys.setSender,Function.update_apply]
          split_ifs with heq
          · rw [heq,hs]
            exact iff_of_false (fun hh => by cases hh)
              (fun hh => hne (SenderPc.holding.inj hh).symm)
          · exact Iff.rfl
        | handler => exact Iff.rfl
      · intro o
        have hone := h.owned.eq_owner hold o
        cases o with
        | free => exact iff_of_false (fun hh => by cases hone.mp hh) (fun hh => by cases hh)
        | slot j =>
          by_cases heq : j=s.queue.listhead
          · rw [heq]
            refine iff_of_true ⟨hhead,?_,Function.update_self ..⟩ rfl
            change ringOffset mbxPoolSize s.queue.listtail s.queue.listhead < s.queue.listcount+1
            omega
          · refine iff_of_false ?_ (fun hh => heq (Owner.slot.inj hh))
            rintro ⟨hj,hseg,hm⟩
            simp only [Function.update_of_ne heq] at hm
            cases hone.mp ⟨hj,hslot j hj heq hseg,hm⟩
        | caller j =>
          refine iff_of_false ?_ (fun hh => by cases hh)
          simp only [Owns,TxSys.setSender,Function.update_apply]
          split_ifs with heq
          · exact fun hh => by cases hh
          · exact fun hh => heq (Owner.caller.inj (hone.mp hh))
        | handler => exact iff_of_false (fun hh => by cases hone.mp hh) (fun hh => by cases hh)
      · intro j t n hj
        simp only [TxSys.setSender,Function.update_apply] at hj ⊢
        split_ifs at hj with heq
        · rw [(SenderPc.waiting.inj hj).1]
          exact ⟨_,if_pos rfl⟩
        · split_ifs
          · exact ⟨_,rfl⟩
          · exact h.tickets j t n hj
      · -- the ticket was unused, so no other sender waits with it
        have hnew : ∀ j n,s.senders j≠.waiting (freeTicket s.queue) n := by
          intro j n hj
          obtain ⟨loc,hloc⟩ := h.tickets j _ n hj
          rw [hnone] at hloc
          cases hloc
        intro j k t n n' hj hk
        simp only [TxSys.setSender,Function.update_apply] at hj hk
        split_ifs at hj hk with h1 h2 h2
        · rw [h1,h2]
        · rw [← (SenderPc.waiting.inj hj).1] at hk
          exact absurd hk (hnew k n')
        · rw [← (SenderPc.waiting.inj hk).1] at hj
          exact absurd hj (hnew j n)
        · exact h.apart j k t n n' hj hk
      · refine h.handler.mono rfl (Nat.le_succ _) ?_
        intro hm
        have hseg := h.queue.marked _ h.queue.tail hm
        simp only [Function.update_of_ne (inSegment_lt h.queue hc hseg)]
        exact hm
    · simp only [mbxAddQueue,if_neg hc]
      exact h

theorem mark_inv {s : TxSys} (h : TxInv s) {i t m loc : Nat} (hs : s.senders i=.waiting t m)
    (ht : s.queue.mbxticket t=some loc) (expired : List Nat) :
    TxInv { s.setSender i .idle with queue := s.queue.mark t loc, expired := expired } := by
  have hset := waiting_of_set s i .idle (fun t n hn => by cases hn)
  refine ⟨h.pool,h.nodup,mark_wf h.queue ht,h.owned.congr ?_,?_,?_,
    h.handler.mono rfl (Nat.le_refl _) ?_⟩
  · intro m' o
    cases o with
    | free => exact Iff.rfl
    | slot j => exact Iff.rfl
    | caller j =>
      simp only [Owns,TxSys.setSender,Function.update_apply]
      split_ifs with heq
      · rw [heq,hs]
        exact iff_of_false (fun hh => by cases hh) (fun hh => by cases hh)
      · exact Iff.rfl
    | handler => exact Iff.rfl
  · intro j t' n hj
    obtain ⟨hne,hj⟩ := hset j t' n hj
    obtain ⟨loc',hloc'⟩ := h.tickets j t' n hj
    refine ⟨loc',?_⟩
    simp only [MbxQueue.mark]
    rw [Function.update_of_ne]
    · exact hloc'
    · intro heq
      rw [heq] at hj
      exact hne (h.apart j i t n m hj hs)
  · intro j k t' n n' hj hk
    exact h.apart j k t' n n' (hset j t' n hj).2 (hset k t' n' hk).2
  · intro hm
    simp only [MbxQueue.mark,Function.update_apply]
    split_ifs
    · rfl
    · exact hm

theorem poll_inv {s : TxSys} (h : TxInv s) (i : Nat) : TxInv (txStep s (.poll i)) := by
  simp only [txStep]
  cases hs : s.senders i with
  | idle => exact h
  | holding m => exact h
  | waiting t m =>
    obtain ⟨loc,hloc⟩ := h.tickets i t m hs
    simp only [mbxDoneQueue,hloc]
    split_ifs
    · exact mark_inv h hs hloc s.expired
    · exact h

theorem expire_inv {s : TxSys} (h : TxInv s) (i : Nat) : TxInv (txStep s (.expire i)) := by
  simp only [txStep]
  cases hs : s.senders i with
  | idle => exact h
  | holding m => exact h
  | waiting t m =>
    obtain ⟨loc,hloc⟩ := h.tickets i t m hs
    obtain ⟨-,hlt,hseg,-⟩ := h.queue.ticket t loc hloc
    have hlive := h.queue.live loc hlt hseg
    simp only [mbxExpireQueue,hloc,if_pos hlive]
    exact mark_inv h hs hloc (m::s.expired)

theorem call_inv {s : TxSys} (h : TxInv s) (limit : Int) : TxInv (txStep s (.call limit)) := by
  simp only [txStep]
  cases hs : s.handler with
  | idle =>
    refine ⟨h.pool,h.nodup,h.queue,h.owned.congr ?_,h.tickets,h.apart,Nat.le_refl _⟩
    intro m o
    cases o with
    | handler =>
      refine iff_of_false (not_owns_handler fun f hf => by cases hf) (not_owns_handler ?_)
      intro f hf
      rw [hs] at hf
      cases hf
    | _ => exact Iff.rfl
  | _ => exact h

end EtherCATMaster.Mailbox
