import EtherCATMaster.Mailbox.Reception

namespace EtherCATMaster.Mailbox

open EtherCATMaster.Framework

/-- What can become of a mailbox: it is returned or still in its slot, counted as overrun, or handled
by the EoE hook. -/
inductive Fate where
  | kept
  | overrun
  | hooked
  deriving DecidableEq, Repr

def sharing (fate : Fate) (l : List (List UInt8 × Fate)) : List (List UInt8) :=
  (l.filter fun x => x.2=fate).map Prod.fst

theorem sharing_snoc (fate : Fate) (l : List (List UInt8 × Fate)) (mbx : List UInt8) (f : Fate) :
    sharing fate (l++[(mbx,f)])=sharing fate l++(if f=fate then [mbx] else []) := by
  simp only [sharing,List.filter_append,List.map_append]
  by_cases h : f=fate
  · simp [h]
  · simp [h]

def Outbox.handedOut (o : Outbox) (p : MbxProtocol) : List (List UInt8) :=
  ((o.produced.take o.handed).map Mail.bytes).filter fun mbx => protocolOf mbx=some p

/-- The mailbox that is in the slot of a protocol. -/
def SlaveItem.held (item : SlaveItem) (p : MbxProtocol) : List MbxPtr :=
  if (item.slots p).full=true then [(item.slots p).mbxin] else []

/-- Each mailbox the slave has handed out has one fate: in their order, those that are kept were
returned or are in the slot, those that overran are counted, and the hook has had the others. -/
def Station.Accounted (s : Station) (p : MbxProtocol) : Prop :=
  ∃ l : List (List UInt8 × Fate),l.map Prod.fst=s.box.handedOut p ∧
    (sharing .kept l).map MbxPtr.mbx=s.returned p++s.item.held p ∧
    (s.item.slots p).overrun=UInt32.ofNat (sharing .overrun l).length ∧
    sharing .hooked l=if p=.eoe then s.hooked else []

def Station.Reads (s : Station) (v : Visit) : Prop :=
  s.item.cyclic=true ∧ s.item.mbxrmpstate=0 ∧ s.status &&& 0x08>0 ∧ 0 < s.item.mbxRl.toNat ∧
    v.pool=true

/-- A read in which the slave hands out a mailbox, or after which it has none to repeat. -/
def Outbox.SafeToRead (o : Outbox) (passage : Passage) : Prop :=
  (o.waiting≠none ∧ passage≠.requestLost) ∨ o.last=none

/-- A visit without an incident: a slave is not lost while it is asked for a repeat, the mailbox is
read when it may be, and the hook leaves it. -/
structure Station.Clean (s : Station) (v : Visit) : Prop where
  found : s.item.cyclic=true → s.item.mbxrmpstate≠0 → s.item.islost=false
  full : s.Reads v → s.box.SafeToRead v.passage
  unhooked : s.Reads v → v.passage=.arrives →
    ∀ mail ∈ s.box.waiting,isFragment mail.bytes → v.hooked=false

/-- All visits that a call makes are clean. -/
def CleanLoop (limit : Int) (visits : Nat → Visit) : List Nat → Int → Reception → Prop
  | [],_,_ => True
  | i::rest,limitcnt,r =>
      let visited := (r.stations i).visit (visits i)
      let r' := { r.update i visited.2 with lastmbxpos := i }
      (r.stations i).Clean (visits i) ∧
        if visited.1=true then
          if limitcnt+1 ≥ limit then True else CleanLoop limit visits rest (limitcnt+1) r'
        else CleanLoop limit visits rest limitcnt r'

def CleanStep (n : Nat) (r : Reception) : ReceptionStep → Prop
  | .inhandler limit visits => CleanLoop limit visits (handlerOrder n r.lastmbxpos) 0 r
  | _ => True

/-- The repeat request and its acknowledge, by the state of the protocol. Once the request is
written and acknowledged, the slave has nothing left to repeat. -/
def Handshake (rmpstate : Nat) (instateex : UInt16) (o : Outbox) : Prop :=
  match rmpstate with
  | 0 => o.req=o.ack
  | 1 => o.req=o.ack
  | 2 => (o.req=o.ack ∧ repeatBit instateex≠o.req) ∨
      (repeatBit instateex=o.req ∧ (o.req=o.ack → o.last=none))
  | 3 => repeatBit instateex=o.req ∧ (o.req=o.ack → o.last=none)
  | _ => False

/-- The mailboxes that are still to come: a repeat first, if one is being asked for. -/
def Station.toCome (s : Station) : List Mail :=
  (if s.item.mbxrmpstate=0 then [] else s.box.last.toList)++(s.box.waiting.toList++s.box.queue)

structure Station.Linked (s : Station) : Prop where
  order : s.toCome=s.box.produced.drop s.box.handed
  numbers : ∀ (k : Nat) (mail : Mail),s.box.produced[k]?=some mail → mail.number=k
  bound : s.box.handed ≤ s.box.produced.length
  handshake : Handshake s.item.mbxrmpstate s.item.mbxinstateex s.box
  accounts : ∀ p,s.Accounted p

variable {s : Station} {v : Visit}

theorem start_linked (mbxRl : UInt16) (enabled : MbxProtocol → Bool) :
    (Station.start mbxRl enabled).Linked := by
  refine ⟨rfl,?_,Nat.le_refl 0,rfl,?_⟩
  · intro k mail h
    cases h
  · intro p
    refine ⟨[],rfl,rfl,rfl,?_⟩
    split_ifs <;> rfl

theorem Station.Linked.status (h : s.Linked) (status : UInt8) (sampled : Option UInt8) :
    Station.Linked { s with status := status, sampled := sampled } :=
  ⟨h.order,h.numbers,h.bound,h.handshake,h.accounts⟩

theorem Station.Linked.setLost (h : s.Linked) (islost : Bool) :
    Station.Linked { s with item.islost := islost } :=
  ⟨h.order,h.numbers,h.bound,h.handshake,h.accounts⟩

theorem Station.Linked.produce (h : s.Linked) (mbx : List UInt8) :
    Station.Linked { s with box := s.box.produce mbx } := by
  have hbound := h.bound
  refine ⟨?_,?_,?_,?_,?_⟩
  · have horder := h.order
    simp only [Station.toCome,Outbox.produce] at horder ⊢
    rw [List.drop_append_of_le_length hbound,← horder]
    simp only [List.append_assoc]
  · intro k mail hk
    simp only [Outbox.produce] at hk
    by_cases hlt : k < s.box.produced.length
    · rw [List.getElem?_append_left hlt] at hk
      exact h.numbers k mail hk
    · rw [List.getElem?_append_right (by omega)] at hk
      by_cases heq : k=s.box.produced.length
      · rw [heq,Nat.sub_self] at hk
        cases hk
        exact heq.symm
      · rw [List.getElem?_eq_none (by simp; omega)] at hk
        cases hk
  · simp only [Outbox.produce,List.length_append]
    omega
  · exact h.handshake
  · intro p
    obtain ⟨l,hl,hrest⟩ := h.accounts p
    refine ⟨l,?_,hrest⟩
    rw [hl]
    simp only [Outbox.handedOut,Outbox.produce,List.take_append_of_le_length hbound]

theorem Station.Linked.load (h : s.Linked) : Station.Linked { s with box := s.box.load } := by
  simp only [Outbox.load]
  split
  · rename_i mail rest hwaiting hqueue
    have horder := h.order
    simp only [Station.toCome,hwaiting,hqueue] at horder
    refine ⟨?_,h.numbers,h.bound,h.handshake,h.accounts⟩
    simp only [Station.toCome]
    exact horder
  · exact h

theorem Station.Linked.asking (h : s.Linked) (hreq : s.box.req≠s.box.ack) :
    (s.item.mbxrmpstate=2 ∨ s.item.mbxrmpstate=3) ∧
      repeatBit s.item.mbxinstateex=s.box.req := by
  have hshake := h.handshake
  simp only [Handshake] at hshake
  split at hshake
  · exact absurd hshake hreq
  · exact absurd hshake hreq
  · rename_i htwo
    rcases hshake with ⟨heq,-⟩|⟨hbit,-⟩
    · exact absurd heq hreq
    · exact ⟨.inl htwo,hbit⟩
  · rename_i hthree
    exact ⟨.inr hthree,hshake.1⟩
  · exact absurd hshake id

theorem Station.Linked.serveRepeat (h : s.Linked) (hreq : s.box.req≠s.box.ack) :
    Station.Linked { s with box := s.box.serveRepeat } := by
  obtain ⟨hstate,hbit⟩ := h.asking hreq
  have hne : s.item.mbxrmpstate≠0 := by omega
  have horder := h.order
  simp only [Station.toCome,if_neg hne] at horder
  have hshake : ∀ o : Outbox,repeatBit s.item.mbxinstateex=o.req → o.last=none →
      Handshake s.item.mbxrmpstate s.item.mbxinstateex o := by
    intro o ho hlast
    rcases hstate with hstate|hstate
    · rw [hstate]
      exact .inr ⟨ho,fun _ => hlast⟩
    · rw [hstate]
      exact ⟨ho,fun _ => hlast⟩
  simp only [Outbox.serveRepeat]
  cases hlast : s.box.last with
  | none =>
    refine ⟨?_,h.numbers,h.bound,hshake _ hbit rfl,h.accounts⟩
    rw [hlast] at horder
    simp only [Station.toCome,if_neg hne]
    exact horder
  | some mail =>
    refine ⟨?_,h.numbers,h.bound,hshake _ hbit rfl,h.accounts⟩
    rw [hlast] at horder
    simp only [Station.toCome,if_neg hne]
    exact horder

theorem Station.Linked.work (h : s.Linked) : Station.Linked { s with box := s.box.work } := by
  by_cases hreq : s.box.req=s.box.ack
  · rw [Outbox.work,if_pos hreq]
    exact h.load
  · rw [Outbox.work,if_neg hreq]
    exact h.serveRepeat hreq

theorem toggled_repeatBit (o : Outbox) : repeatBit (o.smStatex ^^^ 0x0200)≠o.req := by
  simp only [Outbox.smStatex]
  cases o.waiting.isSome <;> cases o.req <;> decide

theorem and_two (a : UInt8) : a &&& 0x02=0 ∨ a &&& 0x02=0x02 := by
  have h : ∀ n : Fin 256,UInt8.ofFin n &&& 0x02=0 ∨ UInt8.ofFin n &&& 0x02=0x02 := by
    decide +kernel
  exact h a.toFin

theorem acknowledged_iff (o : Outbox) (w : UInt16) :
    o.smContr &&& 0x02=hiByte w &&& 0x02 ↔ o.ack=repeatBit w := by
  simp only [Outbox.smContr,repeatBit]
  rcases and_two (hiByte w) with h|h <;> rw [h] <;> cases o.ack <;> decide

/-- The protocol between a failed read and the repeated mailbox. -/
theorem Station.Linked.rmp (h : s.Linked) (hne : s.item.mbxrmpstate≠0) : (s.rmp v).Linked := by
  have horder := h.order
  have hshake := h.handshake
  simp only [Station.toCome,if_neg hne] at horder
  simp only [Station.rmp]
  split
  · rename_i hone
    rw [hone] at hshake
    split_ifs
    · refine ⟨horder,h.numbers,h.bound,?_,h.accounts⟩
      exact .inl ⟨hshake,toggled_repeatBit s.box⟩
    · refine ⟨h.order,h.numbers,h.bound,?_,h.accounts⟩
      simp only [hone]
      exact hshake
  · rename_i htwo
    rw [htwo] at hshake
    have hwritten : repeatBit s.item.mbxinstateex=s.box.ack → s.box.last=none := by
      intro hack
      rcases hshake with ⟨heq,hbit⟩|⟨hbit,hnone⟩
      · exact absurd (hack.trans heq.symm) hbit
      · exact hnone (hbit.symm.trans hack)
    split
    · exact ⟨horder,h.numbers,h.bound,⟨rfl,hwritten⟩,h.accounts⟩
    · refine ⟨?_,h.numbers,h.bound,?_,h.accounts⟩
      · simp only [Station.toCome,if_neg hne]
        exact horder
      · simp only [htwo]
        exact .inr ⟨rfl,hwritten⟩
    · exact h
  · rename_i hthree
    rw [hthree] at hshake
    split_ifs with hack
    · have heq := (acknowledged_iff s.box _).mp hack.2
      have hdone : s.box.req=s.box.ack := hshake.1.symm.trans heq.symm
      refine ⟨?_,h.numbers,h.bound,hdone,h.accounts⟩
      rw [hshake.2 hdone] at horder
      exact horder
    · exact h
  · exact h

theorem Station.Accounted.other {p q : MbxProtocol} {mbx : List UInt8} (h : s.Accounted p)
    (s' : Station) (hq : protocolOf mbx=some q) (hne : q≠p)
    (hout : s'.box.handedOut p=s.box.handedOut p++[mbx].filter fun mbx => protocolOf mbx=some p)
    (hslot : s'.item.slots p=s.item.slots p) (hreturned : s'.returned p=s.returned p)
    (hhooked : s'.hooked=s.hooked) : s'.Accounted p := by
  obtain ⟨l,hl,hkept,hover,hhook⟩ := h
  refine ⟨l,?_,?_,?_,?_⟩
  · rw [hl,hout]
    simp [hq,hne]
  · rw [hkept,hreturned]
    simp only [SlaveItem.held,hslot]
  · rw [hslot]
    exact hover
  · rw [hhooked]
    exact hhook

/-- A mailbox for the protocol is put in the slot, or counted. -/
theorem Station.Accounted.stored {p : MbxProtocol} {box : Outbox} {mbx : List UInt8}
    (h : s.Accounted p) (hp : protocolOf mbx=some p)
    (hout : box.handedOut p=s.box.handedOut p++[mbx].filter fun mbx => protocolOf mbx=some p) :
    Station.Accounted ({ s with box := box }.updateSlot p ((s.item.slots p).store mbx)) p := by
  obtain ⟨l,hl,hkept,hover,hhook⟩ := h
  have hout' : box.handedOut p=l.map Prod.fst++[mbx] := by
    rw [hout,hl]
    simp [hp]
  simp only [MbxSlot.store]
  by_cases hfree : (s.item.slots p).mbxin≠.null ∧ (s.item.slots p).full=false
  · rw [if_pos hfree]
    have hempty : s.item.held p=[] := if_neg (by simp [hfree.2])
    rw [hempty,List.append_nil] at hkept
    refine ⟨l++[(mbx,.kept)],?_,?_,?_,?_⟩
    · rw [List.map_append]
      exact hout'.symm
    · rw [sharing_snoc,if_pos rfl,List.map_append,hkept]
      simp only [Station.updateSlot,SlaveItem.held,Function.update_self]
      rfl
    · rw [sharing_snoc,if_neg (by decide),List.append_nil]
      simp only [Station.updateSlot,Function.update_self]
      exact hover
    · rw [sharing_snoc,if_neg (by decide),List.append_nil]
      exact hhook
  · rw [if_neg hfree]
    refine ⟨l++[(mbx,.overrun)],?_,?_,?_,?_⟩
    · rw [List.map_append]
      exact hout'.symm
    · rw [sharing_snoc,if_neg (by decide),List.append_nil,hkept]
      simp only [Station.updateSlot,SlaveItem.held,Function.update_self,MbxSlot.overran]
    · rw [sharing_snoc,if_pos rfl,List.length_append]
      simp only [Station.updateSlot,Function.update_self,MbxSlot.overran,hover,
        List.length_singleton,UInt32.ofNat_add]
      rfl
    · rw [sharing_snoc,if_neg (by decide),List.append_nil]
      exact hhook

theorem sort_accounted {box : Outbox} {mbx : List UInt8} (h : ∀ p,s.Accounted p)
    (hhook : isFragment mbx → v.hooked=false)
    (hout : ∀ p,box.handedOut p=
      s.box.handedOut p++[mbx].filter fun mbx => protocolOf mbx=some p) (p : MbxProtocol) :
    (Station.sort { s with box := box } v mbx).Accounted p := by
  simp only [Station.sort]
  cases hq : protocolOf mbx with
  | none =>
    obtain ⟨l,hl,hrest⟩ := h p
    refine ⟨l,?_,hrest⟩
    rw [hl]
    simp [hout p,hq]
  | some q =>
    have hleft : ¬(isFragment mbx ∧ v.hooked=true) := by
      rintro ⟨hfragment,htaken⟩
      rw [hhook hfragment] at htaken
      cases htaken
    simp only [if_neg hleft]
    by_cases hqp : q=p
    · subst hqp
      exact (h q).stored hq (hout q)
    · refine (h p).other _ hq hqp (hout p) ?_ rfl rfl
      exact Function.update_of_ne (Ne.symm hqp) _ _

theorem Station.Linked.next (h : s.Linked) (hstate : s.item.mbxrmpstate=0) {mail : Mail}
    (hwaiting : s.box.waiting=some mail) :
    s.box.produced.drop s.box.handed=mail::s.box.queue ∧ mail.number=s.box.handed ∧
      s.box.handed < s.box.produced.length := by
  have horder := h.order
  simp only [Station.toCome,if_pos hstate,hwaiting,Option.toList_some,List.nil_append,
    List.singleton_append] at horder
  have hget : s.box.produced[s.box.handed]?=some mail := by
    rw [← List.head?_drop,← horder]
    rfl
  obtain ⟨hlt,-⟩ := List.getElem?_eq_some_iff.mp hget
  exact ⟨horder.symm,h.numbers _ _ hget,hlt⟩

theorem handedOut_next {o o' : Outbox} {mail : Mail} {rest : List Mail}
    (hdrop : o.produced.drop o.handed=mail::rest) (hproduced : o'.produced=o.produced)
    (hhanded : o'.handed=o.handed+1) (p : MbxProtocol) :
    o'.handedOut p=
      o.handedOut p++[mail.bytes].filter fun mbx => protocolOf mbx=some p := by
  have hget : o.produced[o.handed]?=some mail := by
    rw [← List.head?_drop,hdrop]
    rfl
  simp only [Outbox.handedOut,hproduced,hhanded]
  rw [List.take_add_one,hget]
  simp only [Option.toList_some,List.map_append,List.map_cons,List.map_nil,List.filter_append]

theorem sort_frame (s : Station) (v : Visit) (mbx : List UInt8) :
    (s.sort v mbx).box=s.box ∧ (s.sort v mbx).item.mbxrmpstate=s.item.mbxrmpstate ∧
      (s.sort v mbx).item.mbxinstateex=s.item.mbxinstateex := by
  simp only [Station.sort]
  split
  · exact ⟨rfl,rfl,rfl⟩
  · split_ifs <;> exact ⟨rfl,rfl,rfl⟩

/-- What a visit with a read leaves behind. -/
theorem Station.Linked.readMailbox (h : s.Linked) (hstate : s.item.mbxrmpstate=0)
    (hsafe : s.box.SafeToRead v.passage)
    (hhook : v.passage=.arrives → ∀ mail ∈ s.box.waiting,isFragment mail.bytes → v.hooked=false) :
    (s.readMailbox v).Linked := by
  have hshake := h.handshake
  rw [hstate] at hshake
  -- nothing was handed out, and the slave has nothing to repeat: the order stays
  have hidle : s.box.last=none →
      Station.Linked { s with item.mbxrmpstate := 1 } := by
    intro hlast
    have horder := h.order
    refine ⟨?_,h.numbers,h.bound,hshake,h.accounts⟩
    simp only [Station.toCome,if_pos hstate] at horder
    simp only [Station.toCome,hlast]
    exact horder
  simp only [Station.readMailbox,Outbox.read]
  cases hwaiting : s.box.waiting with
  | none =>
    rcases hsafe with ⟨hsome,-⟩|hlast
    · exact absurd hwaiting hsome
    · exact hidle hlast
  | some mail =>
    obtain ⟨hdrop,hnumber,hlt⟩ := h.next hstate hwaiting
    cases hpassage : v.passage with
    | arrives =>
      let box : Outbox := { s.box with
        waiting := none, last := some mail, handed := max s.box.handed (mail.number+1) }
      have hhanded : box.handed=s.box.handed+1 := by
        simp only [box,hnumber]
        omega
      obtain ⟨hbox,hrmp,hex⟩ := sort_frame { s with box := box } v mail.bytes
      have hfragment := hhook hpassage mail hwaiting
      change (Station.sort { s with box := box } v mail.bytes).Linked
      refine ⟨?_,?_,?_,?_,?_⟩
      · simp only [Station.toCome,hbox,hrmp,hstate,if_pos]
        rw [hhanded,← List.drop_drop,hdrop]
        rfl
      · rw [hbox]
        exact h.numbers
      · rw [hbox]
        simp only [hhanded]
        exact hlt
      · rw [hbox,hrmp,hex]
        simp only [hstate]
        exact hshake
      · exact sort_accounted h.accounts hfragment (handedOut_next hdrop rfl hhanded)
    | requestLost =>
      rcases hsafe with ⟨-,hnot⟩|hlast
      · exact absurd hpassage hnot
      · exact hidle hlast
    | replyLost =>
      refine ⟨?_,h.numbers,h.bound,hshake,h.accounts⟩
      simp only [Station.toCome]
      exact hdrop.symm

theorem Station.Linked.visit (h : s.Linked) (hclean : s.Clean v) : (s.visit v).2.Linked := by
  simp only [Station.visit]
  split_ifs with hcyclic hne hlost hread
  · rw [hclean.found hcyclic hne] at hlost
    cases hlost
  · exact h.rmp hne
  · have hreads : s.Reads v := ⟨hcyclic,not_not.mp hne,hread⟩
    exact h.readMailbox hreads.2.1 (hclean.full hreads) (hclean.unhooked hreads)
  · exact h
  · exact h

theorem Station.Linked.mbxReceive (h : s.Linked) : s.mbxReceive.2.Linked := by
  simp only [Station.mbxReceive]
  split
  · exact h
  · rename_i q hq
    have hfull : (s.item.slots q).full=true := by simpa using List.find?_some hq
    refine ⟨h.order,h.numbers,h.bound,h.handshake,?_⟩
    intro p
    obtain ⟨l,hl,hkept,hover,hhook⟩ := h.accounts p
    by_cases hqp : q=p
    · subst hqp
      have hheld : s.item.held q=[(s.item.slots q).mbxin] := if_pos hfull
      refine ⟨l,hl,?_,?_,hhook⟩
      · rw [hkept,hheld]
        simp only [Station.updateSlot,SlaveItem.held,Function.update_self]
        simp
      · simp only [Station.updateSlot,Function.update_self]
        exact hover
    · have hne : p≠q := Ne.symm hqp
      refine ⟨l,hl,?_,?_,hhook⟩
      · rw [hkept]
        simp only [Station.updateSlot,SlaveItem.held,Function.update_of_ne hne]
      · simp only [Station.updateSlot,Function.update_of_ne hne]
        exact hover

def Reception.Linked (r : Reception) : Prop := ∀ i,(r.stations i).Linked

variable {r : Reception}

theorem Reception.Linked.update {i : Nat} (h : r.Linked) (hs : s.Linked) :
    (r.update i s).Linked := by
  intro j
  by_cases hj : j=i
  · rw [hj]
    simp only [Reception.update,Function.update_self]
    exact hs
  · simp only [Reception.update,Function.update_of_ne hj]
    exact h j

theorem inHandlerLoop_linked {limit : Int} {visits : Nat → Visit} (places : List Nat) :
    ∀ {limitcnt : Int} {r : Reception},r.Linked → CleanLoop limit visits places limitcnt r →
      (inHandlerLoop limit visits places limitcnt r).2.Linked := by
  induction places with
  | nil =>
    intro limitcnt r h _
    exact h
  | cons i rest ih =>
    intro limitcnt r h hclean
    obtain ⟨hvisit,hrest⟩ := hclean
    have hnext : Reception.Linked
        { r.update i ((r.stations i).visit (visits i)).2 with lastmbxpos := i } :=
      h.update ((h i).visit hvisit)
    simp only [inHandlerLoop]
    by_cases hwork : ((r.stations i).visit (visits i)).1=true
    · rw [if_pos hwork] at hrest ⊢
      by_cases hlimit : limitcnt+1 ≥ limit
      · rw [if_pos hlimit]
        exact hnext
      · rw [if_neg hlimit] at hrest ⊢
        exact ih hnext hrest
    · rw [if_neg hwork] at hrest ⊢
      exact ih hnext hrest

theorem receptionStep_linked {n : Nat} (r : Reception) (e : ReceptionStep) (h : r.Linked)
    (hclean : CleanStep n r e) : (receptionStep n r e).Linked := by
  cases e with
  | produce i mbx => exact h.update ((h i).produce mbx)
  | work i => exact h.update (h i).work
  | send => exact fun i => (h i).status _ _
  | pass i => exact h.update ((h i).status _ _)
  | arrive => exact fun i => (h i).status _ _
  | inhandler limit visits => exact inHandlerLoop_linked _ h hclean
  | mbxreceive i => exact h.update (h i).mbxReceive
  | setLost i islost => exact h.update ((h i).setLost islost)

/-- Every mailbox is accounted for once, in every state of every run in which the mailbox of a
slave is read when the slave hands one out, or has none to repeat, the EoE hook takes no fragment,
and no slave is marked as lost while it is asked for a repeat. -/
theorem mailboxes_accounted_once (n : Nat) (mbxRl : Nat → UInt16)
    (enabled : Nat → MbxProtocol → Bool) (es : List ReceptionStep)
    (hclean : Along (receptionStep n) (CleanStep n) (Reception.start mbxRl enabled) es) (i : Nat)
    (p : MbxProtocol) :
    ((runFrom (receptionStep n) (Reception.start mbxRl enabled) es).stations i).Accounted p := by
  have hlinked : (runFrom (receptionStep n) (Reception.start mbxRl enabled) es).Linked :=
    invariant_runFrom (receptionStep_linked (n := n)) (fun i => start_linked _ _) hclean
  exact (hlinked i).accounts p

instance Outbox.SafeToRead.decidable (o : Outbox) (passage : Passage) :
    Decidable (o.SafeToRead passage) := inferInstanceAs (Decidable (_ ∨ _))

instance Station.Reads.decidable (s : Station) (v : Visit) : Decidable (s.Reads v) :=
  inferInstanceAs (Decidable (_ ∧ _))

instance Station.Clean.decidable (s : Station) (v : Visit) : Decidable (s.Clean v) :=
  decidable_of_iff ((s.item.cyclic=true → s.item.mbxrmpstate≠0 → s.item.islost=false) ∧
      (s.Reads v → s.box.SafeToRead v.passage) ∧
      (s.Reads v → v.passage=.arrives →
        ∀ mail ∈ s.box.waiting,isFragment mail.bytes → v.hooked=false))
    ⟨fun h => ⟨h.1,h.2.1,h.2.2⟩,fun h => ⟨h.found,h.full,h.unhooked⟩⟩

instance CleanLoop.decidable (limit : Int) (visits : Nat → Visit) :
    ∀ (places : List Nat) (limitcnt : Int) (r : Reception),
      Decidable (CleanLoop limit visits places limitcnt r)
  | [],_,_ => isTrue trivial
  | i::rest,_,r =>
      haveI := CleanLoop.decidable limit visits rest
      inferInstanceAs (Decidable ((r.stations i).Clean (visits i) ∧ ite _ _ _))

instance CleanStep.decidable (n : Nat) (r : Reception) (e : ReceptionStep) :
    Decidable (CleanStep n r e) :=
  match e with
  | .inhandler limit visits =>
      CleanLoop.decidable limit visits (handlerOrder n r.lastmbxpos) 0 r
  | .produce _ _ => isTrue trivial
  | .work _ => isTrue trivial
  | .send => isTrue trivial
  | .pass _ => isTrue trivial
  | .arrive => isTrue trivial
  | .mbxreceive _ => isTrue trivial
  | .setLost _ _ => isTrue trivial

/-- An SDO response, and a fragment of an Ethernet frame. -/
def coeMail : List UInt8 := [0x0a,0,0,0,0,0x03,0,0x30,0x43,0,0x10,0,1,2,3,4]
def eoeMail : List UInt8 := [0x04,0,0,0,0,0x02,0,0,0,0]

/-- One slave with mailboxes of 128 bytes, and the slots for CoE and EoE enabled. -/
def oneSlave : Reception :=
  Reception.start (fun _ => 128) (fun _ p => decide (p=.coe ∨ p=.eoe))

def called (passage : Passage) (hooked : Bool) : ReceptionStep :=
  .inhandler 4 (fun _ => ⟨passage,true,hooked,0⟩)

/-- A frame with process data goes round. -/
def cycle : List ReceptionStep := [.send,.pass 0,.arrive]

/-- The reply to the read is lost, and the mailbox is asked for again. -/
def repeatedRun : List ReceptionStep :=
  [.produce 0 coeMail,.work 0]++cycle++[called .replyLost false]++cycle++
    [called .arrives false,called .arrives false,.work 0,called .arrives false]++cycle++
    [called .arrives false,.mbxreceive 0]

theorem repeated_mailbox_accounted :
    (((runFrom (receptionStep 1) oneSlave repeatedRun).stations 0).Accounted .coe) ∧
      ((runFrom (receptionStep 1) oneSlave repeatedRun).stations 0).returned .coe=[.mbx coeMail] :=
  ⟨mailboxes_accounted_once 1 _ _ repeatedRun (by decide +kernel) 0 .coe,by decide +kernel⟩

theorem sharing_length (l : List (List UInt8 × Fate)) :
    (sharing .kept l).length+(sharing .overrun l).length+(sharing .hooked l).length=l.length := by
  induction l with
  | nil => rfl
  | cons x l ih =>
    obtain ⟨mbx,fate⟩ := x
    simp only [sharing,List.length_map] at ih ⊢
    cases fate <;> simp <;> omega

/-- No lost frame is needed: after a second call in one cycle, on a status byte that is out of date,
the slave repeats what it has handed out. -/
def staleRun : List ReceptionStep :=
  [.produce 0 coeMail,.work 0]++cycle++
    [called .arrives false,.mbxreceive 0,called .arrives false,called .arrives false,
      called .arrives false,.work 0,called .arrives false,called .arrives false,.mbxreceive 0]

/-- A fragment that the EoE hook handles. -/
def hookedRun : List ReceptionStep :=
  [.produce 0 eoeMail,.work 0]++cycle++[called .arrives true]

/-- One mailbox was handed out and is returned twice, and one that the hook has handled is counted
as overrun as well. -/
theorem one_mailbox_returned_twice :
    (((runFrom (receptionStep 1) oneSlave staleRun).stations 0).returned .coe=
        [.mbx coeMail,.mbx coeMail] ∧
      ¬((runFrom (receptionStep 1) oneSlave staleRun).stations 0).Accounted .coe) ∧
    ¬((runFrom (receptionStep 1) oneSlave hookedRun).stations 0).Accounted .eoe := by
  refine ⟨⟨by decide +kernel,?_⟩,?_⟩
  · intro haccounted
    obtain ⟨l,hl,hkept,-,-⟩ := haccounted
    have hone : (l.map Prod.fst).length=1 := by
      rw [hl]
      decide +kernel
    have htwo : ((sharing .kept l).map MbxPtr.mbx).length=2 := by
      rw [hkept]
      decide +kernel
    have hall := sharing_length l
    simp only [List.length_map] at hone htwo
    omega
  · intro haccounted
    obtain ⟨l,hl,-,hover,hhook⟩ := haccounted
    have hone : (l.map Prod.fst).length=1 := by
      rw [hl]
      decide +kernel
    have hhooked : (sharing .hooked l).length=1 := by
      rw [hhook]
      decide +kernel
    have hcounted : (sharing .overrun l).length≠0 := by
      intro hzero
      rw [hzero] at hover
      exact absurd hover (by decide +kernel)
    have hall := sharing_length l
    simp only [List.length_map] at hone
    omega

end EtherCATMaster.Mailbox
