import EtherCATMaster.Mailbox.TxSystem

namespace EtherCATMaster.Mailbox

open EtherCATMaster.Framework

theorem handler_set {s : TxSys} (h : TxInv s) {pc : HandlerPc}
    (hold : ∀ m f,s.handler≠.releasing m f) (hnew : ∀ m f,pc≠.releasing m f)
    (hok : HandlerOk s.queue pc) : TxInv { s with handler := pc } := by
  refine ⟨h.pool,h.nodup,h.queue,h.owned.congr ?_,h.tickets,h.apart,hok⟩
  intro m o
  cases o with
  | handler => exact iff_of_false (not_owns_handler (hnew m)) (not_owns_handler (hold m))
  | _ => exact Iff.rfl

theorem tail_inSegment {q : MbxQueue} (hpos : 0 < q.listcount) : q.InSegment q.listtail := by
  change ringOffset mbxPoolSize q.listtail q.listtail<q.listcount
  rw [ringOffset_self]
  exact hpos

/-- A write that reaches the slave gives the mailbox back to the pool. -/
theorem writeTail_inv {s : TxSys} (h : TxInv s) (hpos : 0 < s.queue.listcount) (sent : Bool) :
    TxInv (writeTail s s.queue.listtail sent) := by
  have hseg := tail_inSegment hpos
  simp only [writeTail]
  split_ifs with hsent
  · have hq := written_wf h.queue s.queue.listtail .done (fun hn => by cases hn)
      (Function.update s.queue.mbx s.queue.listtail none)
    cases hm : s.queue.mbx s.queue.listtail with
    | none =>
      refine ⟨h.pool,h.nodup,hq,h.owned.congr ?_,h.tickets,h.apart,
        h.handler.mono rfl (Nat.le_refl _) id⟩
      intro m o
      cases o with
      | slot j =>
        simp only [Owns,Function.update_apply]
        split_ifs with heq
        · rw [heq,hm]
          exact iff_of_false (fun hh => hh.2.2) (fun hh => by cases hh.2.2)
        · exact Iff.rfl
      | _ => exact Iff.rfl
    | some m =>
      have hold : Owns s m (.slot s.queue.listtail) := ⟨h.queue.tail,hseg,hm⟩
      obtain ⟨-,hwf,hnd⟩ := release_spec h hold (fun hh => by cases hh)
      refine ⟨hwf,hnd,hq,release_owned h hold (fun hh => by cases hh) rfl ?_,h.tickets,h.apart,
        h.handler.mono rfl (Nat.le_refl _) id⟩
      intro m' p hp
      have hmoved : m'=m → Owns s m' p → p=.slot s.queue.listtail := by
        rintro rfl hh
        exact (h.owned.eq_owner hold p).mp hh
      cases p with
      | free => exact absurd rfl hp
      | slot j =>
        by_cases heq : j=s.queue.listtail
        · rw [heq]
          constructor
          · rintro ⟨-,-,hh⟩
            simp only [Function.update_self] at hh
            cases hh
          · rintro ⟨hne,-,-,hh⟩
            rw [hm] at hh
            exact absurd (Option.some.inj hh).symm hne
        · simp only [Owns,Function.update_of_ne heq]
          constructor
          · intro hh
            exact ⟨fun he => heq (Owner.slot.inj (hmoved he hh)),hh⟩
          · exact And.right
      | caller j => exact ⟨fun hh => ⟨fun he => (by cases hmoved he hh),hh⟩,And.right⟩
      | handler => exact ⟨fun hh => ⟨fun he => (by cases hmoved he hh),hh⟩,And.right⟩
  · have hq := written_wf h.queue s.queue.listtail .fail (fun hn => by cases hn)
      s.queue.mbx
    exact ⟨h.pool,h.nodup,hq,h.owned.congr (fun m o => Iff.rfl),h.tickets,h.apart,
      h.handler.mono rfl (Nat.le_refl _) id⟩

theorem visitTail_inv {s : TxSys} (h : TxInv s) {f : HandlerFrame} (hs : s.handler=.loop f)
    (hf : f.listcount≠0) (preop sent : Bool) : TxInv (visitTail s f preop sent) := by
  have hcount : f.listcount ≤ s.queue.listcount := by
    have hok := h.handler
    rw [hs] at hok
    exact hok
  have hlt : f.listcount-1 < s.queue.listcount := by omega
  have hloop : ∀ m g,s.handler≠.releasing m g := by
    intro m g hh
    rw [hs] at hh
    cases hh
  simp only [visitTail]
  cases hst : s.queue.mbxstate s.queue.listtail with
  | none => exact handler_set h hloop (fun m g hh => by cases hh) ⟨h.queue.tail,hlt⟩
  | done => exact handler_set h hloop (fun m g hh => by cases hh) ⟨rfl,hlt⟩
  | _ =>
    simp only
    split_ifs
    · have hw := writeTail_inv h (by omega) sent
      have hhand : (writeTail s s.queue.listtail sent).handler=s.handler := by
        simp only [writeTail]
        split_ifs <;> rfl
      have htail : (writeTail s s.queue.listtail sent).queue.listtail=s.queue.listtail ∧
          (writeTail s s.queue.listtail sent).queue.listcount=s.queue.listcount := by
        simp only [writeTail]
        split_ifs <;> exact ⟨rfl,rfl⟩
      refine handler_set hw ?_ (fun m g hh => by cases hh) ⟨htail.1.symm,?_⟩
      · rw [hhand]
        exact hloop
      · rw [htail.2]
        exact hlt
    · exact handler_set h hloop (fun m g hh => by cases hh) ⟨rfl,hlt⟩

/-- A rotation moves the mailbox of the tail to the slot at the head. -/
theorem moved_owned {s : TxSys} (h : TxInv s) (hc : s.queue.listcount < mbxPoolSize) {t : Nat}
    (ht : s.queue.mbxticket t=some s.queue.listtail) {loc : Nat} {f : HandlerFrame}
    (hs : s.handler=.rotating loc f) :
    OwnedOnce { s with queue := s.queue.moved t, handler := .checking loc f } := by
  obtain ⟨-,-,hseg,-⟩ := h.queue.ticket t _ ht
  obtain ⟨hhead,-⟩ := head_free h.queue hc
  have hne : s.queue.listtail≠s.queue.listhead := inSegment_lt h.queue hc hseg
  have hslot : ∀ m j,
      Owns { s with queue := s.queue.moved t, handler := .checking loc f } m (.slot j) ↔
      (j=s.queue.listhead ∧ s.queue.mbx s.queue.listtail=some m) ∨
        (j≠s.queue.listtail ∧ Owns s m (.slot j)) := by
    intro m j
    constructor
    · rintro ⟨hj,hin,hm⟩
      obtain ⟨hnt,hin⟩ := (moved_segment h.queue hc t hj).mp hin
      by_cases heq : j=s.queue.listhead
      · rw [heq] at hm
        simp only [MbxQueue.moved,Function.update_self] at hm
        exact .inl ⟨heq,hm⟩
      · simp only [MbxQueue.moved,Function.update_of_ne heq] at hm
        exact .inr ⟨hnt,hj,hin.resolve_right heq,hm⟩
    · rintro (⟨rfl,hm⟩|⟨hnt,hj,hin,hm⟩)
      · refine ⟨hhead,(moved_segment h.queue hc t hhead).mpr ⟨hne.symm,.inr rfl⟩,?_⟩
        simp only [MbxQueue.moved,Function.update_self]
        exact hm
      · refine ⟨hj,(moved_segment h.queue hc t hj).mpr ⟨hnt,.inl hin⟩,?_⟩
        simp only [MbxQueue.moved,Function.update_of_ne (inSegment_lt h.queue hc hin)]
        exact hm
  have hhand : ∀ m,(
      Owns { s with queue := s.queue.moved t, handler := .checking loc f } m .handler ↔
      Owns s m .handler) := by
    intro m
    refine iff_of_false (not_owns_handler fun g hg => by cases hg) ?_
    rintro ⟨g,hg⟩
    rw [hs] at hg
    cases hg
  cases hm : s.queue.mbx s.queue.listtail with
  | none =>
    refine h.owned.congr ?_
    intro m o
    cases o with
    | free => exact Iff.rfl
    | caller j => exact Iff.rfl
    | handler => exact hhand m
    | slot j =>
      rw [hslot m j,hm]
      constructor
      · rintro (⟨-,hh⟩|⟨-,hh⟩)
        · cases hh
        · exact hh
      · intro hh
        refine .inr ⟨?_,hh⟩
        rintro rfl
        rw [hh.2.2] at hm
        cases hm
  | some m =>
    have hold : Owns s m (.slot s.queue.listtail) := ⟨h.queue.tail,hseg,hm⟩
    refine h.owned.transfer hold (.slot s.queue.listhead) ?_ ?_
    · intro m' hne' o
      cases o with
      | free => exact Iff.rfl
      | caller j => exact Iff.rfl
      | handler => exact hhand m'
      | slot j =>
        rw [hslot m' j,hm]
        constructor
        · rintro (⟨-,hh⟩|⟨-,hh⟩)
          · exact absurd (Option.some.inj hh).symm hne'
          · exact hh
        · intro hh
          refine .inr ⟨?_,hh⟩
          rintro rfl
          have hm' := hh.2.2
          rw [hm] at hm'
          exact hne' (Option.some.inj hm').symm
    · intro o
      have hone := h.owned.eq_owner hold o
      cases o with
      | free => exact iff_of_false (fun hh => by cases hone.mp hh) (fun hh => by cases hh)
      | caller j => exact iff_of_false (fun hh => by cases hone.mp hh) (fun hh => by cases hh)
      | handler =>
        exact iff_of_false (not_owns_handler fun g hg => by cases hg) (fun hh => by cases hh)
      | slot j =>
        rw [hslot m j]
        constructor
        · rintro (⟨rfl,-⟩|⟨hnt,hh⟩)
          · rfl
          · exact absurd (Owner.slot.inj (hone.mp hh)) hnt
        · intro hh
          exact .inl ⟨Owner.slot.inj hh,hm⟩

theorem rotate_inv {s : TxSys} (h : TxInv s) {loc : Nat} {f : HandlerFrame}
    (hs : s.handler=.rotating loc f) :
    TxInv { s with queue := mbxRotateQueue s.queue loc, handler := .checking loc f } := by
  have hok := h.handler
  rw [hs] at hok
  obtain ⟨hloc,hlt⟩ := hok
  rcases rotateQueue_cases h.queue with hsame|⟨t,hc,ht,hmoved⟩
  · rw [hloc,hsame]
    refine handler_set h ?_ (fun m g hh => by cases hh) ⟨h.queue.tail,hlt⟩
    intro m g hh
    rw [hs] at hh
    cases hh
  · rw [hloc,hmoved,← hloc]
    refine ⟨h.pool,h.nodup,moved_wf h.queue hc ht,moved_owned h hc ht hs,?_,h.apart,
      hloc ▸ h.queue.tail,hlt⟩
    intro i t' m hi
    simp only [MbxQueue.moved,Function.update_apply]
    split_ifs
    · exact ⟨_,rfl⟩
    · exact h.tickets i t' m hi

/-- The slot at the tail is cleared; its mailbox is in the handler's hand. -/
theorem drop_inv {s : TxSys} (h : TxInv s) {loc : Nat} {f : HandlerFrame}
    (hs : s.handler=.dropping loc f) (preop sent : Bool) : TxInv (handlerStep s preop sent) := by
  have hok := h.handler
  rw [hs] at hok
  obtain ⟨hloc,hlt,hmark⟩ := hok
  subst hloc
  have hpos : 0 < s.queue.listcount := by omega
  have hwf := dropQueue_wf h.queue hpos hmark
  have hseg := tail_inSegment hpos
  have hslot : ∀ m j,j < mbxPoolSize ∧ (mbxDropQueue s.queue s.queue.listtail).2.InSegment j ∧
      (mbxDropQueue s.queue s.queue.listtail).2.mbx j=some m ↔
        j≠s.queue.listtail ∧ Owns s m (.slot j) := by
    intro m j
    constructor
    · rintro ⟨hj,hin,hm⟩
      obtain ⟨hne,hin⟩ := (dropQueue_segment h.queue hpos hj _).mp hin
      simp only [mbxDropQueue,Function.update_of_ne hne] at hm
      exact ⟨hne,hj,hin,hm⟩
    · rintro ⟨hne,hj,hin,hm⟩
      refine ⟨hj,(dropQueue_segment h.queue hpos hj _).mpr ⟨hne,hin⟩,?_⟩
      simp only [mbxDropQueue,Function.update_of_ne hne]
      exact hm
  have hother : ∀ m,¬Owns s m .handler := by
    rintro m ⟨g,hg⟩
    rw [hs] at hg
    cases hg
  have hframe : f.listcount ≤ (mbxDropQueue s.queue s.queue.listtail).2.listcount := by
    simp only [mbxDropQueue]
    omega
  have hunfold : mbxDropQueue s.queue s.queue.listtail=
      (s.queue.mbx s.queue.listtail,(mbxDropQueue s.queue s.queue.listtail).2) := rfl
  simp only [handlerStep,hs]
  cases hm : s.queue.mbx s.queue.listtail with
  | none =>
    rw [hunfold,hm]
    refine ⟨h.pool,h.nodup,hwf,h.owned.congr ?_,h.tickets,h.apart,hframe⟩
    intro m o
    cases o with
    | free => exact Iff.rfl
    | caller j => exact Iff.rfl
    | handler => exact iff_of_false (not_owns_handler fun g hg => by cases hg) (hother m)
    | slot j =>
      refine (hslot m j).trans ⟨And.right,fun hh => ⟨?_,hh⟩⟩
      rintro rfl
      rw [hh.2.2] at hm
      cases hm
  | some m =>
    rw [hunfold,hm]
    have hold : Owns s m (.slot s.queue.listtail) := ⟨h.queue.tail,hseg,hm⟩
    refine ⟨h.pool,h.nodup,hwf,h.owned.transfer hold .handler ?_ ?_,h.tickets,h.apart,
      hframe⟩
    · intro m' hne o
      cases o with
      | free => exact Iff.rfl
      | caller j => exact Iff.rfl
      | handler =>
        refine iff_of_false ?_ (hother m')
        rintro ⟨g,hg⟩
        exact hne (HandlerPc.releasing.inj hg).1.symm
      | slot j =>
        refine (hslot m' j).trans ⟨And.right,fun hh => ⟨?_,hh⟩⟩
        rintro rfl
        have hm' := hh.2.2
        rw [hm] at hm'
        exact hne (Option.some.inj hm').symm
    · intro o
      have hone := h.owned.eq_owner hold o
      cases o with
      | free => exact iff_of_false (fun hh => by cases hone.mp hh) (fun hh => by cases hh)
      | caller j => exact iff_of_false (fun hh => by cases hone.mp hh) (fun hh => by cases hh)
      | handler => exact iff_of_true ⟨f,rfl⟩ rfl
      | slot j =>
        refine (hslot m j).trans (iff_of_false ?_ (fun hh => by cases hh))
        rintro ⟨hne,hh⟩
        exact hne (Owner.slot.inj (hone.mp hh))

theorem releasing_inv {s : TxSys} (h : TxInv s) {m : Nat} {f : HandlerFrame}
    (hs : s.handler=.releasing m f) :
    TxInv { s with pool := dropMbx s.pool m, handler := .loop f } := by
  have hold : Owns s m .handler := ⟨f,hs⟩
  obtain ⟨-,hwf,hnd⟩ := release_spec h hold (fun hh => by cases hh)
  have hok := h.handler
  rw [hs] at hok
  refine ⟨hwf,hnd,h.queue,release_owned h hold (fun hh => by cases hh) rfl ?_,h.tickets,h.apart,
    hok⟩
  intro m' p hp
  have hmoved : m'=m → Owns s m' p → p=.handler := by
    rintro rfl hh
    exact (h.owned.eq_owner hold p).mp hh
  cases p with
  | free => exact absurd rfl hp
  | slot j => exact ⟨fun hh => ⟨fun he => (by cases hmoved he hh),hh⟩,And.right⟩
  | caller j => exact ⟨fun hh => ⟨fun he => (by cases hmoved he hh),hh⟩,And.right⟩
  | handler =>
    refine iff_of_false (not_owns_handler fun g hg => by cases hg) ?_
    rintro ⟨hne,g,hg⟩
    rw [hs] at hg
    exact hne (HandlerPc.releasing.inj hg).1.symm

theorem handlerStep_inv {s : TxSys} (h : TxInv s) (preop sent : Bool)
    (hc : MarkAtTail s (.handler preop sent)) : TxInv (handlerStep s preop sent) := by
  have hok := h.handler
  cases hs : s.handler with
  | idle =>
    simp only [handlerStep,hs]
    exact h
  | loop f =>
    simp only [handlerStep,hs]
    split_ifs with hgo
    · exact visitTail_inv h hs hgo.2 preop sent
    · refine handler_set h ?_ (fun m g hh => by cases hh) trivial
      intro m g hh
      rw [hs] at hh
      cases hh
  | rotating loc f =>
    simp only [handlerStep,hs]
    exact rotate_inv h hs
  | checking loc f =>
    rw [hs] at hok
    have hnot : ∀ m g,s.handler≠.releasing m g := by
      intro m g hh
      rw [hs] at hh
      cases hh
    simp only [MarkAtTail,HandlerPc.MarkAtTail,hs] at hc
    simp only [handlerStep,hs]
    split_ifs with hm
    · exact handler_set h hnot (fun m g hh => by cases hh) ⟨hc hm,hok.2,hm⟩
    · exact handler_set h hnot (fun m g hh => by cases hh) (Nat.le_of_lt hok.2)
  | dropping loc f => exact drop_inv h hs preop sent
  | releasing m f =>
    simp only [handlerStep,hs]
    exact releasing_inv h hs

theorem txStep_inv {s : TxSys} (h : TxInv s) (e : TxEvent) (hc : MarkAtTail s e) :
    TxInv (txStep s e) := by
  cases e with
  | get i => exact get_inv h i
  | add i slave => exact add_inv h i slave
  | poll i => exact poll_inv h i
  | expire i => exact expire_inv h i
  | giveUp i => exact giveUp_inv h i
  | call limit => exact call_inv h limit
  | handler preop sent => exact handlerStep_inv h preop sent hc

theorem queueLaw_of_inv {s : TxSys} (h : TxInv s) : QueueLaw s := by
  refine ⟨?_,h.queue.ticket,?_,h.nodup,?_⟩
  · intro i hi
    constructor
    · rintro (⟨t,ht⟩|hr)
      · exact (h.queue.ticket t i ht).2.2.1
      · exact h.queue.marked i hi hr
    · intro hseg
      rcases h.queue.held i hi hseg with hr|ht
      · exact .inr hr
      · exact .inl ht
  · intro i hi hseg hr
    rcases h.queue.held i hi hseg with hm|⟨t,ht⟩
    · rw [hr] at hm
      cases hm
    · exact ⟨t,ht,fun t' ht' => h.queue.inj t' t i ht' ht⟩
  · intro m hm
    obtain ⟨o,ho⟩ := h.owned.one m hm
    exact ⟨o,(ho o).mpr rfl,fun o' ho' => (ho o').mp ho'⟩

theorem inBounds_of_inv {s : TxSys} (h : TxInv s) (e : TxEvent) : InBounds s e := by
  have hticket : ∀ i t m,s.senders i=.waiting t m →
      ∃ loc,s.queue.mbxticket t=some loc ∧ loc < mbxPoolSize := by
    intro i t m hi
    obtain ⟨loc,hloc⟩ := h.tickets i t m hi
    exact ⟨loc,hloc,(h.queue.ticket t loc hloc).2.1⟩
  have hhead : s.queue.listhead < mbxPoolSize := by
    rw [h.queue.head]
    exact ringIndex_lt h.queue.tail h.queue.count
  cases e with
  | get i => trivial
  | add i slave =>
    intro mbx _ hc
    exact ⟨(freeTicket_spec h.queue hc).1,hhead⟩
  | poll i => exact hticket i
  | expire i => exact hticket i
  | giveUp i => trivial
  | call limit => trivial
  | handler preop sent =>
    have hok := h.handler
    simp only [InBounds]
    cases hs : s.handler with
    | idle => trivial
    | loop f => exact h.queue.tail
    | rotating loc f =>
      rw [hs] at hok
      exact ⟨hhead,h.queue.tail,hok.1 ▸ h.queue.tail⟩
    | checking loc f =>
      rw [hs] at hok
      exact hok.1
    | dropping loc f =>
      rw [hs] at hok
      exact hok.1 ▸ h.queue.tail
    | releasing m f => trivial

/-- The queue keeps its order in every run in which the handler finds each removal mark at the
tail. -/
theorem queue_law_while_marks_at_tail (es : List TxEvent)
    (hc : Along txStep MarkAtTail txInit es) :
    Along txStep (fun s e => QueueLaw s ∧ InBounds s e) txInit es ∧
      QueueLaw (runFrom txStep txInit es) := by
  have hkeep : ∀ s e,TxInv s → MarkAtTail s e → TxInv (txStep s e) := fun s e h hm =>
    txStep_inv h e hm
  constructor
  · exact along_of_invariant hkeep (fun s e h _ => ⟨queueLaw_of_inv h,inBounds_of_inv h e⟩)
      txInit_inv hc
  · exact queueLaw_of_inv (invariant_runFrom hkeep txInit_inv hc)

/-- Two sends; the second one expires while the handler is at work. -/
def expiryRun : List TxEvent :=
  [.get 0,.get 1,.add 0 1,.add 1 1,.call 2,.handler true true,.handler true true,.poll 0,
    .handler true true,.handler true false,.expire 1,.handler true true,.handler true true,
    .handler true true,.handler true true]

theorem expiry_run_keeps_queue_law :
    Along txStep MarkAtTail txInit expiryRun ∧
      (runFrom txStep txInit expiryRun).queue.listcount=1 ∧
      QueueLaw (runFrom txStep txInit expiryRun) := by
  have hc : Along txStep MarkAtTail txInit expiryRun := by decide +kernel
  exact ⟨hc,by decide +kernel,(queue_law_while_marks_at_tail expiryRun hc).2⟩

/-- A ring with one slot left: the rotation of slot 0 leaves it to the next sender, whose entry
expires before the handler looks at the mark. -/
def fullRingRun : List TxEvent :=
  ((List.range 31).flatMap fun i => [.get i,.add i 1])++
    [.call 31,.handler true false,.handler true false,.get 31,.add 31 1,.expire 31,
      .handler true false,.handler true false]

/-- The handler then drops the slot that is no longer the tail, and the entry of slot 1 is left
outside the segment. -/
theorem full_ring_loses_slot : ¬∀ es,QueueLaw (runFrom txStep txInit es) := by
  intro h
  have hticket : (runFrom txStep txInit fullRingRun).queue.mbxticket 1=some 1 := by
    decide +kernel
  have hseg : (runFrom txStep txInit fullRingRun).queue.InSegment 1 :=
    ((h fullRingRun).segment 1 (by decide)).mp (.inl ⟨1,hticket⟩)
  have hout : ¬ringOffset mbxPoolSize (runFrom txStep txInit fullRingRun).queue.listtail 1<
      (runFrom txStep txInit fullRingRun).queue.listcount := by
    decide +kernel
  exact hout hseg

end EtherCATMaster.Mailbox
