import EtherCATMaster.Mailbox.TxHandler

namespace EtherCATMaster.Mailbox

open EtherCATMaster.Framework

/-- No write starts of a message whose send has returned by its timer. -/
def ExpiredUnsent (s : TxSys) (e : TxEvent) : Prop := ∀ m,transmits s e=some m → m ∉ s.expired

/-- The handler does not come to write an entry that already has its removal mark. -/
def WritesUnmarked (s : TxSys) (e : TxEvent) : Prop :=
  (transmits s e).isSome → s.queue.mbxremove s.queue.listtail=false

instance WritesUnmarked.decidable (s : TxSys) (e : TxEvent) : Decidable (WritesUnmarked s e) :=
  inferInstanceAs (Decidable ((transmits s e).isSome=true →
    s.queue.mbxremove s.queue.listtail=false))

/-- The messages in the queue. Those that have expired are marked, and an entry that is marked
before it was written has expired. -/
structure MessageInv (s : TxSys) : Prop where
  numbered : ∀ i < mbxPoolSize,s.queue.InSegment i → s.queue.message i < s.messages
  distinct : ∀ i < mbxPoolSize,∀ j < mbxPoolSize,s.queue.InSegment i → s.queue.InSegment j →
    s.queue.message i=s.queue.message j → i=j
  waiting : ∀ i t m loc,s.senders i=.waiting t m → s.queue.mbxticket t=some loc →
    s.queue.message loc=m
  past : ∀ m ∈ s.expired,m < s.messages
  marked : ∀ i < mbxPoolSize,s.queue.InSegment i → s.queue.message i ∈ s.expired →
    s.queue.mbxremove i=true
  unsent : ∀ i < mbxPoolSize,s.queue.InSegment i → s.queue.mbxremove i=true →
    s.queue.mbxstate i≠.done → s.queue.message i ∈ s.expired

theorem txInit_messages : MessageInv txInit := by
  have hempty : ∀ i,¬initMbxQueue.InSegment i := fun i h => Nat.not_lt_zero _ h
  refine ⟨?_,?_,?_,?_,?_,?_⟩
  · intro i _ h
    exact absurd h (hempty i)
  · intro i _ j _ h
    exact absurd h (hempty i)
  · intro i t m loc h
    cases h
  · intro m h
    cases h
  · intro i _ h
    exact absurd h (hempty i)
  · intro i _ h
    exact absurd h (hempty i)

theorem MessageInv.of_queue {s s' : TxSys} (h : MessageInv s) (hq : s'.queue=s.queue)
    (hm : s'.messages=s.messages) (he : s'.expired=s.expired)
    (hw : ∀ i t m,s'.senders i=.waiting t m → s.senders i=.waiting t m) : MessageInv s' := by
  refine ⟨?_,?_,?_,?_,?_,?_⟩
  · rw [hq,hm]
    exact h.numbered
  · rw [hq]
    exact h.distinct
  · intro i t m loc hi
    rw [hq]
    exact h.waiting i t m loc (hw i t m hi)
  · rw [he,hm]
    exact h.past
  · rw [hq,he]
    exact h.marked
  · rw [hq,he]
    exact h.unsent

theorem add_messages {s : TxSys} (h : TxInv s) (hm : MessageInv s) (i : Nat) (slave : UInt16) :
    MessageInv (txStep s (.add i slave)) := by
  simp only [txStep]
  cases hs : s.senders i with
  | idle => exact hm
  | waiting t m => exact hm
  | holding mbx =>
    by_cases hc : s.queue.listcount < mbxPoolSize
    · obtain ⟨-,hnone⟩ := freeTicket_spec h.queue hc
      have hseg : ∀ j,j < mbxPoolSize →
          ringOffset mbxPoolSize s.queue.listtail j < s.queue.listcount+1 → j≠s.queue.listhead →
          s.queue.InSegment j := fun j hj hlt hne =>
        ((add_segment h.queue hc hj).mp hlt).resolve_right hne
      simp only [mbxAddQueue,if_pos hc]
      refine ⟨?_,?_,?_,?_,?_,?_⟩
      · intro j hj hin
        simp only [Function.update_apply]
        split_ifs with heq
        · exact Nat.lt_succ_self _
        · exact Nat.lt_succ_of_lt (hm.numbered j hj (hseg j hj hin heq))
      · intro j hj k hk hin hin' heq
        simp only [Function.update_apply] at heq
        split_ifs at heq with h1 h2 h2
        · rw [h1,h2]
        · have := hm.numbered k hk (hseg k hk hin' h2)
          omega
        · have := hm.numbered j hj (hseg j hj hin h1)
          omega
        · exact hm.distinct j hj k hk (hseg j hj hin h1) (hseg k hk hin' h2) heq
      · intro j t m loc hj ht
        simp only [TxSys.setSender,Function.update_apply] at hj ht ⊢
        by_cases hji : j=i
        · rw [if_pos hji] at hj
          obtain ⟨h1,h2⟩ := SenderPc.waiting.inj hj
          rw [if_pos h1.symm] at ht
          rw [if_pos (Option.some.inj ht).symm]
          exact h2
        · rw [if_neg hji] at hj
          have hne : t≠freeTicket s.queue := by
            rintro rfl
            obtain ⟨l,hl⟩ := h.tickets j _ m hj
            rw [hnone] at hl
            cases hl
          rw [if_neg hne] at ht
          rw [if_neg (inSegment_lt h.queue hc (h.queue.ticket t loc ht).2.2.1)]
          exact hm.waiting j t m loc hj ht
      · intro m hmem
        exact Nat.lt_succ_of_lt (hm.past m hmem)
      · intro j hj hin hmem
        simp only [Function.update_apply] at hmem ⊢
        split_ifs at hmem ⊢ with heq
        · exact absurd (hm.past _ hmem) (Nat.lt_irrefl _)
        · exact hm.marked j hj (hseg j hj hin heq) hmem
      · intro j hj hin hr hst
        simp only [Function.update_apply] at hr hst ⊢
        split_ifs at hr hst ⊢ with heq
        exact hm.unsent j hj (hseg j hj hin heq) hr hst
    · simp only [mbxAddQueue,if_neg hc]
      exact hm

/-- A ticket is given up, of an entry that has been written or with its message as expired. -/
theorem mark_messages {s : TxSys} (h : TxInv s) (hm : MessageInv s) {i t m loc : Nat}
    (hs : s.senders i=.waiting t m) (ht : s.queue.mbxticket t=some loc) {expired : List Nat}
    (he : expired=m::s.expired ∨ expired=s.expired ∧ s.queue.mbxstate loc=.done) :
    MessageInv { s.setSender i .idle with queue := s.queue.mark t loc, expired := expired } := by
  have hset := waiting_of_set s i .idle (fun t n hn => by cases hn)
  obtain ⟨-,hloc,hseg,-⟩ := h.queue.ticket t loc ht
  have hmsg := hm.waiting i t m loc hs ht
  have hsub : ∀ x ∈ s.expired,x ∈ expired := by
    intro x hx
    rcases he with he|⟨he,-⟩
    · rw [he]
      exact List.mem_cons_of_mem _ hx
    · rw [he]
      exact hx
  refine ⟨hm.numbered,hm.distinct,?_,?_,?_,?_⟩
  · intro j t' n l hj hl
    obtain ⟨-,hj⟩ := hset j t' n hj
    simp only [MbxQueue.mark,Function.update_apply] at hl
    split_ifs at hl
    exact hm.waiting j t' n l hj hl
  · intro x hx
    rcases he with he|⟨he,-⟩
    · rw [he] at hx
      rcases List.mem_cons.mp hx with rfl|hx
      · rw [← hmsg]
        exact hm.numbered loc hloc hseg
      · exact hm.past x hx
    · rw [he] at hx
      exact hm.past x hx
  · intro j hj hin hmem
    simp only [MbxQueue.mark,Function.update_apply]
    split_ifs with heq
    · rfl
    · rcases he with he|⟨he,-⟩
      · rw [he] at hmem
        rcases List.mem_cons.mp hmem with hnew|hold
        · exact absurd (hm.distinct j hj loc hloc hin hseg (hnew.trans hmsg.symm)) heq
        · exact hm.marked j hj hin hold
      · rw [he] at hmem
        exact hm.marked j hj hin hmem
  · intro j hj hin hr hst
    simp only [MbxQueue.mark,Function.update_apply] at hr
    split_ifs at hr with heq
    · rcases he with he|⟨-,hdone⟩
      · rw [he,heq]
        exact List.mem_cons.mpr (.inl hmsg)
      · rw [heq] at hst
        exact absurd hdone hst
    · exact hsub _ (hm.unsent j hj hin hr hst)

theorem writeTail_messages {s : TxSys} (hm : MessageInv s)
    (hst : s.queue.mbxstate s.queue.listtail≠.done) (sent : Bool) :
    MessageInv (writeTail s s.queue.listtail sent) := by
  simp only [writeTail]
  split_ifs
  · refine ⟨hm.numbered,hm.distinct,hm.waiting,hm.past,hm.marked,?_⟩
    intro i hi hin hr hne
    simp only [Function.update_apply] at hne
    split_ifs at hne
    · exact absurd rfl hne
    · exact hm.unsent i hi hin hr hne
  · refine ⟨hm.numbered,hm.distinct,hm.waiting,hm.past,hm.marked,?_⟩
    intro i hi hin hr hne
    simp only [Function.update_apply] at hne
    split_ifs at hne with heq
    · rw [← heq] at hst
      exact hm.unsent i hi hin hr hst
    · exact hm.unsent i hi hin hr hne

theorem visitTail_messages {s : TxSys} (hm : MessageInv s) (f : HandlerFrame) (preop sent : Bool) :
    MessageInv (visitTail s f preop sent) := by
  have hkeep : ∀ pc,MessageInv { s with handler := pc } := fun pc =>
    hm.of_queue rfl rfl rfl (fun i t m hi => hi)
  simp only [visitTail]
  cases hst : s.queue.mbxstate s.queue.listtail with
  | none => exact hkeep _
  | done => exact hkeep _
  | _ =>
    simp only
    split_ifs
    · refine (writeTail_messages hm ?_ sent).of_queue rfl rfl rfl (fun i t m hi => hi)
      rw [hst]
      exact fun hh => by cases hh
    · exact hkeep _

theorem moved_messages {s : TxSys} (h : TxInv s) (hm : MessageInv s)
    (hc : s.queue.listcount < mbxPoolSize) {t : Nat}
    (ht : s.queue.mbxticket t=some s.queue.listtail) (pc : HandlerPc) :
    MessageInv { s with queue := s.queue.moved t, handler := pc } := by
  obtain ⟨-,-,htail,-⟩ := h.queue.ticket t _ ht
  have hne := inSegment_lt h.queue hc htail
  -- every slot of the new segment carries what a slot of the old one did
  have hsource : ∀ i,i < mbxPoolSize → (s.queue.moved t).InSegment i →
      ∃ j,j < mbxPoolSize ∧ s.queue.InSegment j ∧ (i=s.queue.listhead → j=s.queue.listtail) ∧
        (i≠s.queue.listhead → j=i ∧ j≠s.queue.listtail) ∧
        (s.queue.moved t).message i=s.queue.message j ∧
        (s.queue.moved t).mbxremove i=s.queue.mbxremove j ∧
        (s.queue.moved t).mbxstate i=s.queue.mbxstate j := by
    intro i hi hin
    obtain ⟨hnt,hin⟩ := (moved_segment h.queue hc t hi).mp hin
    simp only [MbxQueue.moved,Function.update_apply]
    by_cases heq : i=s.queue.listhead
    · simp only [if_pos heq]
      exact ⟨_,h.queue.tail,htail,fun _ => rfl,fun hn => absurd heq hn,rfl,rfl,rfl⟩
    · simp only [if_neg heq]
      exact ⟨i,hi,hin.resolve_right heq,fun hn => absurd hn heq,fun _ => ⟨rfl,hnt⟩,rfl,rfl,rfl⟩
  refine ⟨?_,?_,?_,hm.past,?_,?_⟩
  · intro i hi hin
    obtain ⟨j,hj,hsj,-,-,hmsg,-,-⟩ := hsource i hi hin
    simp only [hmsg]
    exact hm.numbered j hj hsj
  · intro i hi k hk hin hin' heq
    obtain ⟨j,hj,hsj,hj1,hj2,hmsg,-,-⟩ := hsource i hi hin
    obtain ⟨l,hl,hsl,hl1,hl2,hmsg',-,-⟩ := hsource k hk hin'
    simp only [hmsg,hmsg'] at heq
    have hjl := hm.distinct j hj l hl hsj hsl heq
    by_cases hih : i=s.queue.listhead
    · by_cases hkh : k=s.queue.listhead
      · rw [hih,hkh]
      · exact absurd (hjl.symm.trans (hj1 hih)) (hl2 hkh).2
    · by_cases hkh : k=s.queue.listhead
      · exact absurd (hjl.trans (hl1 hkh)) (hj2 hih).2
      · rw [← (hj2 hih).1,← (hl2 hkh).1]
        exact hjl
  · intro i t' m loc hi hl
    simp only [MbxQueue.moved,Function.update_apply] at hl ⊢
    by_cases heq : t'=t
    · rw [if_pos heq] at hl
      rw [if_pos (Option.some.inj hl).symm]
      exact hm.waiting i t m _ (heq ▸ hi) ht
    · rw [if_neg heq] at hl
      rw [if_neg (inSegment_lt h.queue hc (h.queue.ticket t' loc hl).2.2.1)]
      exact hm.waiting i t' m loc hi hl
  · intro i hi hin hmem
    obtain ⟨j,hj,hsj,-,-,hmsg,hrem,-⟩ := hsource i hi hin
    simp only [hmsg] at hmem
    simp only [hrem]
    exact hm.marked j hj hsj hmem
  · intro i hi hin hr hst
    obtain ⟨j,hj,hsj,-,-,hmsg,hrem,hstate⟩ := hsource i hi hin
    simp only [hrem] at hr
    simp only [hstate] at hst
    simp only [hmsg]
    exact hm.unsent j hj hsj hr hst

theorem drop_messages {s : TxSys} (h : TxInv s) (hm : MessageInv s) (hpos : 0 < s.queue.listcount)
    (pc : HandlerPc) :
    MessageInv { s with queue := (mbxDropQueue s.queue s.queue.listtail).2, handler := pc } := by
  have hseg := fun i hi => dropQueue_segment (i := i) h.queue hpos hi s.queue.listtail
  refine ⟨?_,?_,hm.waiting,hm.past,?_,?_⟩
  · intro i hi hin
    exact hm.numbered i hi ((hseg i hi).mp hin).2
  · intro i hi j hj hin hin'
    exact hm.distinct i hi j hj ((hseg i hi).mp hin).2 ((hseg j hj).mp hin').2
  · intro i hi hin hmem
    obtain ⟨hne,hin⟩ := (hseg i hi).mp hin
    simp only [mbxDropQueue,Function.update_of_ne hne]
    exact hm.marked i hi hin hmem
  · intro i hi hin hr hst
    obtain ⟨hne,hin⟩ := (hseg i hi).mp hin
    simp only [mbxDropQueue,Function.update_of_ne hne] at hr hst
    exact hm.unsent i hi hin hr hst

theorem handlerStep_messages {s : TxSys} (h : TxInv s) (hm : MessageInv s) (preop sent : Bool) :
    MessageInv (handlerStep s preop sent) := by
  have hok := h.handler
  have hkeep : ∀ pool pc,MessageInv { s with pool := pool, handler := pc } := fun pool pc =>
    hm.of_queue rfl rfl rfl (fun i t m hi => hi)
  cases hs : s.handler with
  | idle =>
    simp only [handlerStep,hs]
    exact hm
  | loop f =>
    simp only [handlerStep,hs]
    split_ifs
    · exact visitTail_messages hm f preop sent
    · exact hkeep s.pool _
  | rotating loc f =>
    rw [hs] at hok
    simp only [handlerStep,hs]
    rw [hok.1]
    rcases rotateQueue_cases h.queue with hsame|⟨t,hc,ht,hmoved⟩
    · rw [hsame]
      exact hkeep s.pool _
    · rw [hmoved]
      exact moved_messages h hm hc ht _
  | checking loc f =>
    simp only [handlerStep,hs]
    split_ifs
    · exact hkeep s.pool _
    · exact hkeep s.pool _
  | dropping loc f =>
    rw [hs] at hok
    obtain ⟨hloc,hlt,-⟩ := hok
    subst hloc
    simp only [handlerStep,hs]
    have hunfold : mbxDropQueue s.queue s.queue.listtail=
        (s.queue.mbx s.queue.listtail,(mbxDropQueue s.queue s.queue.listtail).2) := rfl
    rw [hunfold]
    cases s.queue.mbx s.queue.listtail with
    | none => exact drop_messages h hm (by omega) _
    | some m => exact drop_messages h hm (by omega) _
  | releasing m f =>
    simp only [handlerStep,hs]
    exact hkeep _ _

theorem txStep_messages {s : TxSys} (h : TxInv s) (hm : MessageInv s) (e : TxEvent) :
    MessageInv (txStep s e) := by
  have hset : ∀ i (pc : SenderPc),(∀ t m,pc≠.waiting t m) → ∀ j t m,
      (s.setSender i pc).senders j=.waiting t m → s.senders j=.waiting t m :=
    fun i pc hpc j t m hj => (waiting_of_set s i pc hpc j t m hj).2
  cases e with
  | get i =>
    simp only [txStep]
    split
    · exact hm.of_queue rfl rfl rfl (hset i _ (fun t m hh => by cases hh))
    · exact hm
  | add i slave => exact add_messages h hm i slave
  | poll i =>
    simp only [txStep]
    cases hs : s.senders i with
    | idle => exact hm
    | holding m => exact hm
    | waiting t m =>
      obtain ⟨loc,hloc⟩ := h.tickets i t m hs
      simp only [mbxDoneQueue,hloc]
      split_ifs with hdone
      · exact mark_messages h hm hs hloc (.inr ⟨rfl,hdone⟩)
      · exact hm
  | expire i =>
    simp only [txStep]
    cases hs : s.senders i with
    | idle => exact hm
    | holding m => exact hm
    | waiting t m =>
      obtain ⟨loc,hloc⟩ := h.tickets i t m hs
      obtain ⟨-,hlt,hseg,-⟩ := h.queue.ticket t loc hloc
      simp only [mbxExpireQueue,hloc,if_pos (h.queue.live loc hlt hseg)]
      exact mark_messages h hm hs hloc (.inl rfl)
  | giveUp i =>
    simp only [txStep]
    split
    · exact hm.of_queue rfl rfl rfl (hset i _ (fun t m hh => by cases hh))
    · exact hm
  | call limit =>
    simp only [txStep]
    split
    · exact hm.of_queue rfl rfl rfl (fun i t m hi => hi)
    · exact hm
  | handler preop sent => exact handlerStep_messages h hm preop sent

theorem transmits_spec {s : TxSys} (h : TxInv s) {e : TxEvent} {m : Nat}
    (ht : transmits s e=some m) : s.queue.InSegment s.queue.listtail ∧
      s.queue.mbxstate s.queue.listtail≠.done ∧ s.queue.message s.queue.listtail=m := by
  cases e with
  | handler preop sent =>
    have hok := h.handler
    simp only [transmits] at ht
    cases hs : s.handler with
    | loop f =>
      rw [hs] at hok
      simp only [hs] at ht
      split_ifs at ht with hgo
      obtain ⟨-,hf,-,hst⟩ := hgo
      have hcount : f.listcount ≤ s.queue.listcount := hok
      refine ⟨tail_inSegment (by omega),?_,Option.some.inj ht⟩
      intro hdone
      rw [hdone] at hst
      rcases hst with hh|hh <;> cases hh
    | _ =>
      simp only [hs] at ht
      cases ht
  | _ => cases ht

theorem expiredUnsent_iff {s : TxSys} (h : TxInv s) (hm : MessageInv s) (e : TxEvent) :
    ExpiredUnsent s e ↔ WritesUnmarked s e := by
  constructor
  · intro hlaw hsome
    obtain ⟨m,ht⟩ := Option.isSome_iff_exists.mp hsome
    obtain ⟨hseg,hst,hmsg⟩ := transmits_spec h ht
    by_contra hr
    rw [Bool.not_eq_false] at hr
    have hmem := hm.unsent _ h.queue.tail hseg hr hst
    rw [hmsg] at hmem
    exact hlaw m ht hmem
  · intro hc m ht hmem
    obtain ⟨hseg,-,hmsg⟩ := transmits_spec h ht
    rw [← hmsg] at hmem
    have hr := hm.marked _ h.queue.tail hseg hmem
    rw [hc (Option.isSome_iff_exists.mpr ⟨m,ht⟩)] at hr
    cases hr

/-- Expired sends are not transmitted exactly in the runs in which the handler never comes to
write an entry with a removal mark. -/
theorem expired_unsent_iff_writes_unmarked (es : List TxEvent)
    (hc : Along txStep MarkAtTail txInit es) :
    Along txStep ExpiredUnsent txInit es ↔ Along txStep WritesUnmarked txInit es := by
  refine along_iff_of_invariant (I := fun s => TxInv s ∧ MessageInv s) ?_ ?_
    ⟨txInit_inv,txInit_messages⟩ hc
  · intro s e h hmark
    exact ⟨txStep_inv h.1 e hmark,txStep_messages h.1 h.2 e⟩
  · intro s e h _
    exact expiredUnsent_iff h.1 h.2 e

/-- The timer of the second send runs out between a failed write and the look at the mark. -/
theorem expiry_run_unsent : Along txStep WritesUnmarked txInit expiryRun ∧
    (runFrom txStep txInit expiryRun).expired=[1] ∧
      Along txStep ExpiredUnsent txInit expiryRun := by
  have hw : Along txStep WritesUnmarked txInit expiryRun := by decide +kernel
  have hc : Along txStep MarkAtTail txInit expiryRun := by decide +kernel
  exact ⟨hw,by decide +kernel,(expired_unsent_iff_writes_unmarked expiryRun hc).mpr hw⟩

def lateWriteRun : List TxEvent := [.get 0,.add 0 1,.expire 0,.call 0,.handler true true]

theorem expired_send_written : ¬∀ es,Along txStep ExpiredUnsent txInit es := by
  intro h
  have hrun := h lateWriteRun
  have hlast : ExpiredUnsent (runFrom txStep txInit [.get 0,.add 0 1,.expire 0,.call 0])
      (.handler true true) := hrun.2.2.2.2.1
  exact hlast 0 (by decide +kernel) (by decide +kernel)

end EtherCATMaster.Mailbox
