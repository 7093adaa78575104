import EtherCATMaster.Mailbox.TxQueue
import Mathlib.Data.Fintype.Card
import Mathlib.Data.Fintype.EquivFin

namespace EtherCATMaster.Mailbox

open EtherCATMaster.Framework

/-- The queue alone: a ring segment whose slots are marked for removal or have one ticket. -/
structure MbxQueue.Wf (q : MbxQueue) : Prop where
  tail : q.listtail < mbxPoolSize
  count : q.listcount ≤ mbxPoolSize
  head : q.listhead=ringIndex mbxPoolSize q.listtail q.listcount
  ticket : ∀ t i,q.mbxticket t=some i →
    t < mbxPoolSize ∧ i < mbxPoolSize ∧ q.InSegment i ∧ q.mbxremove i=false
  inj : ∀ t t' i,q.mbxticket t=some i → q.mbxticket t'=some i → t=t'
  held : ∀ i < mbxPoolSize,q.InSegment i → q.mbxremove i=true ∨ ∃ t,q.mbxticket t=some i
  marked : ∀ i < mbxPoolSize,q.mbxremove i=true → q.InSegment i
  live : ∀ i < mbxPoolSize,q.InSegment i → q.mbxstate i≠.none

theorem initMbxQueue_wf : initMbxQueue.Wf := by
  refine ⟨by decide,by decide,by decide,?_,?_,?_,?_,?_⟩
  · intro t i h
    cases h
  · intro t t' i h
    cases h
  · intro i _ h
    exact absurd h (Nat.not_lt_zero _)
  · intro i _ h
    cases h
  · intro i _ h
    exact absurd h (Nat.not_lt_zero _)

theorem freeTicket_spec {q : MbxQueue} (h : q.Wf) (hc : q.listcount < mbxPoolSize) :
    freeTicket q < mbxPoolSize ∧ q.mbxticket (freeTicket q)=none := by
  have hex : ∃ t < mbxPoolSize,q.mbxticket t=none := by
    by_contra hall
    push Not at hall
    have hloc : ∀ t : Fin mbxPoolSize,∃ i,q.mbxticket t=some i := fun t =>
      Option.ne_none_iff_exists'.mp (hall t t.isLt)
    choose loc hloc using hloc
    let place : Fin mbxPoolSize → Fin q.listcount := fun t =>
      ⟨ringOffset mbxPoolSize q.listtail (loc t),(h.ticket t (loc t) (hloc t)).2.2.1⟩
    have hinj : Function.Injective place := by
      intro t t' heq
      have ho : ringOffset mbxPoolSize q.listtail (loc t)=
          ringOffset mbxPoolSize q.listtail (loc t') := congrArg Fin.val heq
      have hl : loc t=loc t' := by
        rw [← ringIndex_offset h.tail (h.ticket t _ (hloc t)).2.1,ho,
          ringIndex_offset h.tail (h.ticket t' _ (hloc t')).2.1]
      exact Fin.ext (h.inj t t' (loc t) (hloc t) (hl ▸ hloc t'))
    have hcard := Fintype.card_le_of_injective place hinj
    simp only [Fintype.card_fin] at hcard
    omega
  obtain ⟨t,ht,hn⟩ := hex
  have hsome : ((List.range mbxPoolSize).find? fun t => (q.mbxticket t).isNone).isSome := by
    rw [List.find?_isSome]
    exact ⟨t,List.mem_range.mpr ht,by simp [hn]⟩
  obtain ⟨u,hu⟩ := Option.isSome_iff_exists.mp hsome
  have hfree : freeTicket q=u := by
    rw [freeTicket,hu]
    rfl
  rw [hfree]
  refine ⟨List.mem_range.mp (List.mem_of_find?_eq_some hu),?_⟩
  simpa using List.find?_some hu

theorem head_free {q : MbxQueue} (h : q.Wf) (hc : q.listcount < mbxPoolSize) :
    q.listhead < mbxPoolSize ∧ ringOffset mbxPoolSize q.listtail q.listhead=q.listcount := by
  rw [h.head]
  exact ⟨ringIndex_lt h.tail h.count,ringOffset_index h.tail hc⟩

theorem inSegment_lt {q : MbxQueue} (h : q.Wf) {i : Nat} (hc : q.listcount < mbxPoolSize)
    (hi : q.InSegment i) : i≠q.listhead := by
  intro he
  have ho := (head_free h hc).2
  rw [← he] at ho
  have hi' : ringOffset mbxPoolSize q.listtail i<q.listcount := hi
  omega

theorem add_segment {q : MbxQueue} (h : q.Wf) (hc : q.listcount < mbxPoolSize) {i : Nat}
    (hi : i < mbxPoolSize) : ringOffset mbxPoolSize q.listtail i<q.listcount+1 ↔
      q.InSegment i ∨ i=q.listhead := by
  have hoff := (head_free h hc).2
  constructor
  · intro hlt
    by_cases heq : ringOffset mbxPoolSize q.listtail i=q.listcount
    · right
      rw [h.head,← heq,ringIndex_offset h.tail hi]
    · left
      change ringOffset mbxPoolSize q.listtail i<q.listcount
      omega
  · rintro (hs|rfl)
    · exact Nat.lt_succ_of_lt hs
    · omega

theorem addQueue_wf {q : MbxQueue} (h : q.Wf) (hc : q.listcount < mbxPoolSize) (slave : UInt16)
    (mbx message : Nat) : (mbxAddQueue q slave mbx message).2.Wf := by
  obtain ⟨hfree,hnone⟩ := freeTicket_spec h hc
  obtain ⟨hhead,hoff⟩ := head_free h hc
  have hseg := fun i hi => add_segment (i := i) h hc hi
  rw [mbxAddQueue,if_pos hc]
  refine ⟨h.tail,hc,?_,?_,?_,?_,?_,?_⟩
  · change ringNext mbxPoolSize q.listhead=_
    rw [h.head]
    exact ringNext_index h.tail hc
  · intro t i ht
    by_cases htf : t=freeTicket q
    · subst htf
      simp only [Function.update_self,Option.some.injEq] at ht
      subst ht
      exact ⟨hfree,hhead,(hseg _ hhead).mpr (.inr rfl),Function.update_self ..⟩
    · simp only [Function.update_of_ne htf] at ht
      obtain ⟨h1,h2,h3,h4⟩ := h.ticket t i ht
      refine ⟨h1,h2,(hseg i h2).mpr (.inl h3),?_⟩
      simp only [Function.update_of_ne (inSegment_lt h hc h3)]
      exact h4
  · intro t t' i ht ht'
    simp only [Function.update_apply] at ht ht'
    split_ifs at ht ht' with h1 h2 h2
    · rw [h1,h2]
    · simp only [Option.some.injEq] at ht
      exact absurd ht.symm (inSegment_lt h hc (h.ticket t' i ht').2.2.1)
    · simp only [Option.some.injEq] at ht'
      exact absurd ht'.symm (inSegment_lt h hc (h.ticket t i ht).2.2.1)
    · exact h.inj t t' i ht ht'
  · intro i hi hs
    rcases (hseg i hi).mp hs with hs|rfl
    · have hne := inSegment_lt h hc hs
      simp only [Function.update_of_ne hne]
      rcases h.held i hi hs with hr|⟨t,ht⟩
      · exact .inl hr
      · refine .inr ⟨t,?_⟩
        rw [Function.update_of_ne]
        · exact ht
        · intro heq
          rw [heq,hnone] at ht
          cases ht
    · exact .inr ⟨freeTicket q,Function.update_self ..⟩
  · intro i hi hr
    by_cases hne : i=q.listhead
    · exact (hseg i hi).mpr (.inr hne)
    · simp only [Function.update_of_ne hne] at hr
      exact (hseg i hi).mpr (.inl (h.marked i hi hr))
  · intro i hi hs
    rcases (hseg i hi).mp hs with hs|rfl
    · simp only [Function.update_of_ne (inSegment_lt h hc hs)]
      exact h.live i hi hs
    · simp only [Function.update_self]
      exact fun hn => by cases hn

theorem mark_wf {q : MbxQueue} (h : q.Wf) {t loc : Nat} (ht : q.mbxticket t=some loc) :
    (q.mark t loc).Wf := by
  obtain ⟨-,hloc,hseg,-⟩ := h.ticket t loc ht
  have hkeep : ∀ t' i,(q.mark t loc).mbxticket t'=some i → t'≠t ∧ q.mbxticket t'=some i := by
    intro t' i ht'
    simp only [MbxQueue.mark,Function.update_apply] at ht'
    split_ifs at ht' with heq
    exact ⟨heq,ht'⟩
  have hne : ∀ t' i,t'≠t → q.mbxticket t'=some i → i≠loc := by
    intro t' i hn ht' heq
    exact hn (h.inj t' t loc (heq ▸ ht') ht)
  refine ⟨h.tail,h.count,h.head,?_,?_,?_,?_,h.live⟩
  · intro t' i ht'
    obtain ⟨hn,hold⟩ := hkeep t' i ht'
    obtain ⟨h1,h2,h3,h4⟩ := h.ticket t' i hold
    refine ⟨h1,h2,h3,?_⟩
    simp only [MbxQueue.mark,Function.update_of_ne (hne t' i hn hold)]
    exact h4
  · intro t' t'' i h1 h2
    exact h.inj t' t'' i (hkeep t' i h1).2 (hkeep t'' i h2).2
  · intro i hi hs
    by_cases heq : i=loc
    · left
      rw [heq]
      exact Function.update_self ..
    · rcases h.held i hi hs with hr|⟨t',ht'⟩
      · left
        simp only [MbxQueue.mark,Function.update_of_ne heq]
        exact hr
      · right
        refine ⟨t',?_⟩
        simp only [MbxQueue.mark]
        rw [Function.update_of_ne]
        · exact ht'
        · intro hn
          rw [hn,ht] at ht'
          exact heq (Option.some.inj ht').symm
  · intro i hi hr
    by_cases heq : i=loc
    · rw [heq]
      exact hseg
    · simp only [MbxQueue.mark,Function.update_of_ne heq] at hr
      exact h.marked i hi hr

theorem offset_next_lt {q : MbxQueue} (h : q.Wf) {i k : Nat} (hi : i < mbxPoolSize)
    (hk : k < mbxPoolSize) :
    ringOffset mbxPoolSize (ringNext mbxPoolSize q.listtail) i<k ↔
      i≠q.listtail ∧ ringOffset mbxPoolSize q.listtail i<k+1 := by
  have hzero := ringOffset_eq_zero (i := i) h.tail
  rw [ringOffset_next h.tail hi]
  split_ifs with heq
  · constructor
    · intro hlt
      omega
    · intro hc
      exact absurd heq hc.1
  · have hpos : ringOffset mbxPoolSize q.listtail i≠0 := fun h0 => heq (hzero.mp h0)
    constructor
    · intro hlt
      exact ⟨heq,by omega⟩
    · intro hc
      omega

theorem ticketOf_some {q : MbxQueue} {loc t : Nat} (h : ticketOf q loc=some t) :
    q.mbxticket t=some loc := by
  simpa using List.find?_some h

theorem moved_segment {q : MbxQueue} (h : q.Wf) (hc : q.listcount < mbxPoolSize) (t : Nat) {i : Nat}
    (hi : i < mbxPoolSize) :
    (q.moved t).InSegment i ↔ i≠q.listtail ∧ (q.InSegment i ∨ i=q.listhead) := by
  have hnext := offset_next_lt h hi hc
  rw [add_segment h hc hi] at hnext
  exact hnext

theorem moved_wf {q : MbxQueue} (h : q.Wf) (hc : q.listcount < mbxPoolSize) {t : Nat}
    (ht : q.mbxticket t=some q.listtail) : (q.moved t).Wf := by
  have hseg := fun i hi => moved_segment (i := i) h hc t hi
  obtain ⟨hhead,-⟩ := head_free h hc
  obtain ⟨htick,-,htail,hrem⟩ := h.ticket t _ ht
  have hne : q.listhead≠q.listtail := fun heq => inSegment_lt h hc htail heq.symm
  have hold : ∀ t' i,t'≠t → q.mbxticket t'=some i → i≠q.listtail := by
    intro t' i hn ht' heq
    exact hn (h.inj t' t _ (heq ▸ ht') ht)
  refine ⟨ringNext_lt h.tail,h.count,?_,?_,?_,?_,?_,?_⟩
  · change ringNext mbxPoolSize q.listhead=ringIndex mbxPoolSize
      (ringNext mbxPoolSize q.listtail) q.listcount
    rw [ringIndex_next h.tail hc,h.head]
    exact ringNext_index h.tail hc
  · intro t' i ht'
    by_cases heq : t'=t
    · subst heq
      simp only [MbxQueue.moved,Function.update_self,Option.some.injEq] at ht'
      subst ht'
      refine ⟨htick,hhead,(hseg _ hhead).mpr ⟨hne,.inr rfl⟩,?_⟩
      simp only [MbxQueue.moved,Function.update_self]
      exact hrem
    · simp only [MbxQueue.moved,Function.update_of_ne heq] at ht'
      obtain ⟨h1,h2,h3,h4⟩ := h.ticket t' i ht'
      refine ⟨h1,h2,(hseg i h2).mpr ⟨hold t' i heq ht',.inl h3⟩,?_⟩
      simp only [MbxQueue.moved,Function.update_of_ne (inSegment_lt h hc h3)]
      exact h4
  · intro t' t'' i h1 h2
    simp only [MbxQueue.moved,Function.update_apply] at h1 h2
    split_ifs at h1 h2 with e1 e2 e2
    · rw [e1,e2]
    · simp only [Option.some.injEq] at h1
      exact absurd h1.symm (inSegment_lt h hc (h.ticket t'' i h2).2.2.1)
    · simp only [Option.some.injEq] at h2
      exact absurd h2.symm (inSegment_lt h hc (h.ticket t' i h1).2.2.1)
    · exact h.inj t' t'' i h1 h2
  · intro i hi hs
    obtain ⟨hnt,hs|heq⟩ := (hseg i hi).mp hs
    · rcases h.held i hi hs with hr|⟨t',ht'⟩
      · left
        simp only [MbxQueue.moved,Function.update_of_ne (inSegment_lt h hc hs)]
        exact hr
      · right
        refine ⟨t',?_⟩
        simp only [MbxQueue.moved]
        rw [Function.update_of_ne]
        · exact ht'
        · intro hn
          rw [hn,ht] at ht'
          exact hnt (Option.some.inj ht').symm
    · right
      refine ⟨t,?_⟩
      rw [heq]
      exact Function.update_self ..
  · intro i hi hr
    by_cases heq : i=q.listhead
    · exact (hseg i hi).mpr ⟨fun he => hne (heq ▸ he),.inr heq⟩
    · simp only [MbxQueue.moved,Function.update_of_ne heq] at hr
      refine (hseg i hi).mpr ⟨?_,.inl (h.marked i hi hr)⟩
      intro he
      rw [he,hrem] at hr
      cases hr
  · intro i hi hs
    obtain ⟨-,hs|heq⟩ := (hseg i hi).mp hs
    · simp only [MbxQueue.moved,Function.update_of_ne (inSegment_lt h hc hs)]
      exact h.live i hi hs
    · rw [heq]
      simp only [MbxQueue.moved,Function.update_self]
      exact h.live _ h.tail htail

theorem rotateQueue_cases {q : MbxQueue} (h : q.Wf) :
    mbxRotateQueue q q.listtail=q ∨ ∃ t,q.listcount < mbxPoolSize ∧
      q.mbxticket t=some q.listtail ∧ mbxRotateQueue q q.listtail=q.moved t := by
  simp only [mbxRotateQueue]
  split_ifs with hne
  · cases ht : ticketOf q q.listtail with
    | none => exact .inl rfl
    | some t =>
      refine .inr ⟨t,?_,ticketOf_some ht,rfl⟩
      by_contra hfull
      have hcount : q.listcount=mbxPoolSize := by have := h.count; omega
      apply hne
      rw [h.head,hcount]
      simp only [ringIndex]
      split_ifs <;> omega
  · exact .inl rfl

theorem dropQueue_segment {q : MbxQueue} (h : q.Wf) (hpos : 0 < q.listcount) {i : Nat}
    (hi : i < mbxPoolSize) (loc : Nat) :
    (mbxDropQueue q loc).2.InSegment i ↔ i≠q.listtail ∧ q.InSegment i := by
  have hcount := h.count
  have hnext := offset_next_lt h hi (k := q.listcount-1) (by omega)
  rw [Nat.sub_add_cancel hpos] at hnext
  exact hnext

theorem dropQueue_wf {q : MbxQueue} (h : q.Wf) (hpos : 0 < q.listcount)
    (hmark : q.mbxremove q.listtail=true) : (mbxDropQueue q q.listtail).2.Wf := by
  have hseg := fun i hi => dropQueue_segment (i := i) h hpos hi q.listtail
  have hcount := h.count
  have hnone : ∀ t i,q.mbxticket t=some i → i≠q.listtail := by
    intro t i ht heq
    have hr := (h.ticket t i ht).2.2.2
    rw [heq,hmark] at hr
    cases hr
  refine ⟨ringNext_lt h.tail,by simp only [mbxDropQueue]; omega,?_,?_,h.inj,?_,?_,?_⟩
  · change q.listhead=ringIndex mbxPoolSize (ringNext mbxPoolSize q.listtail) (q.listcount-1)
    rw [ringIndex_next h.tail (by omega),Nat.sub_add_cancel hpos]
    exact h.head
  · intro t i ht
    obtain ⟨h1,h2,h3,h4⟩ := h.ticket t i ht
    have hne := hnone t i ht
    refine ⟨h1,h2,(hseg i h2).mpr ⟨hne,h3⟩,?_⟩
    simp only [mbxDropQueue,Function.update_of_ne hne]
    exact h4
  · intro i hi hs
    obtain ⟨hne,hs⟩ := (hseg i hi).mp hs
    simp only [mbxDropQueue,Function.update_of_ne hne]
    exact h.held i hi hs
  · intro i hi hr
    by_cases heq : i=q.listtail
    · rw [heq] at hr
      simp only [mbxDropQueue,Function.update_self] at hr
      cases hr
    · simp only [mbxDropQueue,Function.update_of_ne heq] at hr
      exact (hseg i hi).mpr ⟨heq,h.marked i hi hr⟩
  · intro i hi hs
    obtain ⟨hne,hs⟩ := (hseg i hi).mp hs
    simp only [mbxDropQueue,Function.update_of_ne hne]
    exact h.live i hi hs

theorem written_wf {q : MbxQueue} (h : q.Wf) (loc : Nat) (state : QueueState)
    (hs : state≠.none) (mbx : Nat → Option Nat) :
    MbxQueue.Wf { q with mbxstate := Function.update q.mbxstate loc state, mbx := mbx } := by
  refine ⟨h.tail,h.count,h.head,h.ticket,h.inj,h.held,h.marked,?_⟩
  intro i hi hseg
  simp only [Function.update_apply]
  split_ifs
  · exact hs
  · exact h.live i hi hseg

end EtherCATMaster.Mailbox
