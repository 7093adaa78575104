import EtherCATMaster.Mailbox.Expiry

namespace EtherCATMaster.Mailbox

open EtherCATMaster.Framework

/-- An entry of the queue. -/
structure TxEntry where
  message : Nat
  slave : UInt16
  state : QueueState
  remove : Bool
  deriving DecidableEq, Repr

def MbxQueue.entryAt (q : MbxQueue) (i : Nat) : TxEntry :=
  ⟨q.message i,q.mbxslave i,q.mbxstate i,q.mbxremove i⟩

/-- The entries from the tail on. -/
def MbxQueue.entries (q : MbxQueue) : List TxEntry :=
  ringList mbxPoolSize q.entryAt q.listtail q.listcount

def TxEntry.Pending (e : TxEntry) : Prop := e.state=.req ∨ e.state=.fail

instance TxEntry.Pending.decidable (e : TxEntry) : Decidable e.Pending :=
  inferInstanceAs (Decidable (_ ∨ _))

def TxEntry.Due (preop : UInt16 → Bool) (e : TxEntry) : Prop := e.Pending ∧ preop e.slave=true

instance TxEntry.Due.decidable (preop : UInt16 → Bool) (e : TxEntry) : Decidable (e.Due preop) :=
  inferInstanceAs (Decidable (_ ∧ _))

/-- The end of a round: an entry that is marked is dropped, with the mailbox it still has. -/
def dropMarked (s : TxSys) (loc : Nat) : TxSys :=
  if s.queue.mbxremove loc=true then
    match mbxDropQueue s.queue loc with
    | (some mbx,queue) => { s with queue := queue, pool := dropMbx s.pool mbx }
    | (none,queue) => { s with queue := queue }
  else s

/-- The body of the loop of `ecx_mbxouthandler` with nobody else at work. -/
def outBody (preop : UInt16 → Bool) (sent : Bool) (s : TxSys) : TxSys :=
  let loc := s.queue.listtail
  dropMarked (match s.queue.mbxstate loc with
    | .none => s
    | .done => { s with queue := mbxRotateQueue s.queue loc }
    | _ =>
        let s' := if preop (s.queue.mbxslave loc)=true then writeTail s loc sent else s
        { s' with queue := mbxRotateQueue s'.queue loc }) loc

/-- What comes of a call: the count it returns, the messages it has tried to write, in order, and the
state. -/
structure OutCall where
  limitcnt : Int
  writes : List Nat
  sys : TxSys

/-- The loop of `ecx_mbxouthandler`. `sent` says for each round whether a write would reach the
slave. -/
def outHandlerLoop (preop : UInt16 → Bool) (limit : Int) :
    Nat → Int → (Nat → Bool) → TxSys → OutCall
  | 0,limitcnt,_,s => ⟨limitcnt,[],s⟩
  | listcount+1,limitcnt,sent,s =>
      if limitcnt ≤ limit then
        let e := s.queue.entryAt s.queue.listtail
        let r := outHandlerLoop preop limit listcount (if e.Pending then limitcnt+1 else limitcnt)
          (fun k => sent (k+1)) (outBody preop (sent 0) s)
        { r with writes := (if e.Due preop then [e.message] else [])++r.writes }
      else ⟨limitcnt,[],s⟩

def mbxOutHandler (preop : UInt16 → Bool) (limit : Int) (sent : Nat → Bool) (s : TxSys) : OutCall :=
  outHandlerLoop preop limit s.queue.listcount 0 sent s

def transmitted : TxSys → List TxEvent → List Nat
  | _,[] => []
  | s,e::es => (transmits s e).toList++transmitted (txStep s e) es

section Steps

variable {preop : UInt16 → Bool} {s : TxSys} {f : HandlerFrame}

theorem transmitted_append (es es' : List TxEvent) : ∀ s : TxSys,
    transmitted s (es++es')=transmitted s es++transmitted (runFrom txStep s es) es' := by
  induction es with
  | nil =>
    intro s
    rfl
  | cons e es ih =>
    intro s
    rw [List.cons_append,transmitted,transmitted,ih,List.append_assoc]
    rfl

theorem checking_run (s : TxSys) (loc : Nat) (f : HandlerFrame) (e : TxEvent)
    (he : ∃ p b,e=.handler p b) :
    ∃ n,runFrom txStep { s with handler := .checking loc f } (List.replicate n e)=
        { dropMarked s loc with handler := .loop f } ∧
      transmitted { s with handler := .checking loc f } (List.replicate n e)=[] := by
  obtain ⟨p,b,rfl⟩ := he
  by_cases hmark : s.queue.mbxremove loc=true
  · cases hdrop : mbxDropQueue s.queue loc with
    | mk mbx queue =>
      cases mbx with
      | none =>
        refine ⟨2,?_,?_⟩
        · simp only [List.replicate,runFrom,List.foldl_cons,List.foldl_nil,txStep,handlerStep,
            if_pos hmark,hdrop,dropMarked]
        · simp only [List.replicate,transmitted,transmits,txStep,handlerStep,if_pos hmark,
            Option.toList_none,List.append_nil]
      | some mbx =>
        refine ⟨3,?_,?_⟩
        · simp only [List.replicate,runFrom,List.foldl_cons,List.foldl_nil,txStep,handlerStep,
            if_pos hmark,hdrop,dropMarked]
        · simp only [List.replicate,transmitted,transmits,txStep,handlerStep,if_pos hmark,hdrop,
            Option.toList_none,List.append_nil]
  · refine ⟨1,?_,rfl⟩
    simp only [List.replicate,runFrom,List.foldl_cons,List.foldl_nil,txStep,handlerStep,
      if_neg hmark,dropMarked]

theorem visitTail_pending (h : (s.queue.entryAt s.queue.listtail).Pending) (p b : Bool) :
    visitTail s f p b={ (if p=true then writeTail s s.queue.listtail b else s) with
      handler := .rotating s.queue.listtail
        { f with limitcnt := f.limitcnt+1, listcount := f.listcount-1 } } := by
  rcases h with h|h
  · have hst : s.queue.mbxstate s.queue.listtail=.req := h
    simp only [visitTail,hst]
    split_ifs <;> rfl
  · have hst : s.queue.mbxstate s.queue.listtail=.fail := h
    simp only [visitTail,hst]
    split_ifs <;> rfl

theorem outBody_pending {sent : Bool} (h : (s.queue.entryAt s.queue.listtail).Pending) :
    outBody preop sent s=dropMarked { (if preop (s.queue.mbxslave s.queue.listtail)=true then
      writeTail s s.queue.listtail sent else s) with
        queue := mbxRotateQueue (if preop (s.queue.mbxslave s.queue.listtail)=true then
          writeTail s s.queue.listtail sent else s).queue s.queue.listtail } s.queue.listtail := by
  rcases h with h|h
  · have hst : s.queue.mbxstate s.queue.listtail=.req := h
    simp only [outBody,hst]
  · have hst : s.queue.mbxstate s.queue.listtail=.fail := h
    simp only [outBody,hst]

/-- The steps of a round up to the one that reads the removal mark. -/
theorem visit_run (preop : UInt16 → Bool) (sent : Bool) (hs : s.handler=.loop f)
    (hgo : f.limitcnt ≤ f.limit ∧ f.listcount≠0) :
    ∃ es t,(∀ e ∈ es,∃ p b,e=.handler p b) ∧ dropMarked t s.queue.listtail=outBody preop sent s ∧
      runFrom txStep s es={ t with handler := .checking s.queue.listtail ⟨f.limit,
        if (s.queue.entryAt s.queue.listtail).Pending then f.limitcnt+1 else f.limitcnt,
        f.listcount-1⟩ } ∧
      transmitted s es=if (s.queue.entryAt s.queue.listtail).Due preop then
        [s.queue.message s.queue.listtail] else [] := by
  have hevent : ∀ {n : Nat} {p b : Bool},∀ e ∈ List.replicate n (TxEvent.handler p b),
      ∃ p b,e=.handler p b := by
    intro n p b e he
    exact ⟨p,b,List.eq_of_mem_replicate he⟩
  by_cases hpending : (s.queue.entryAt s.queue.listtail).Pending
  · refine ⟨List.replicate 2 (.handler (preop (s.queue.mbxslave s.queue.listtail)) sent),
      _,hevent,(outBody_pending hpending).symm,?_,?_⟩
    · simp only [List.replicate,runFrom,List.foldl_cons,List.foldl_nil,txStep,handlerStep,hs,
        if_pos hgo,visitTail_pending hpending,if_pos hpending]
    · have hsent : (transmits s (.handler (preop (s.queue.mbxslave s.queue.listtail)) sent)).toList=
          if (s.queue.entryAt s.queue.listtail).Due preop then [s.queue.message s.queue.listtail]
          else [] := by
        simp only [transmits,hs]
        by_cases hpreop : preop (s.queue.mbxslave s.queue.listtail)=true
        · rw [if_pos ⟨hgo.1,hgo.2,hpreop,hpending⟩]
          exact (if_pos ⟨hpending,hpreop⟩).symm
        · rw [if_neg fun h => hpreop h.2.2.1]
          exact (if_neg fun h => hpreop h.2).symm
      have hafter : ∀ e,e=TxEvent.handler (preop (s.queue.mbxslave s.queue.listtail)) sent →
          transmits (txStep s e) e=none := by
        rintro e rfl
        simp only [txStep,handlerStep,hs,if_pos hgo,visitTail_pending hpending,transmits]
      simp only [List.replicate,transmitted,hsent,hafter,Option.toList_none,List.append_nil]
  · have hnothing : ¬(s.queue.entryAt s.queue.listtail).Due preop := fun h => hpending h.1
    have hunsent : ∀ p b,transmits s (.handler p b)=none := by
      intro p b
      simp only [transmits,hs]
      exact if_neg fun h => hpending h.2.2.2
    cases hst : s.queue.mbxstate s.queue.listtail with
    | none =>
      refine ⟨List.replicate 1 (.handler true true),s,hevent,?_,?_,?_⟩
      · simp only [outBody,hst]
      · simp only [List.replicate,runFrom,List.foldl_cons,List.foldl_nil,txStep,handlerStep,hs,
          if_pos hgo,visitTail,hst,if_neg hpending]
      · simp only [List.replicate,transmitted,hunsent,if_neg hnothing,Option.toList_none,
          List.append_nil]
    | done =>
      refine ⟨List.replicate 2 (.handler true true),
        { s with queue := mbxRotateQueue s.queue s.queue.listtail },hevent,?_,?_,?_⟩
      · simp only [outBody,hst]
      · simp only [List.replicate,runFrom,List.foldl_cons,List.foldl_nil,txStep,handlerStep,hs,
          if_pos hgo,visitTail,hst,if_neg hpending]
      · have hafter : ∀ e,e=TxEvent.handler true true → transmits (txStep s e) e=none := by
          rintro e rfl
          simp only [txStep,handlerStep,hs,if_pos hgo,visitTail,hst,transmits]
        simp only [List.replicate,transmitted,hunsent,hafter,if_neg hnothing,Option.toList_none,
          List.append_nil]
    | req => exact absurd (Or.inl hst) hpending
    | fail => exact absurd (Or.inr hst) hpending

theorem outBody_run (preop : UInt16 → Bool) (s : TxSys) (sent : Bool) (hs : s.handler=.loop f)
    (hgo : f.limitcnt ≤ f.limit ∧ f.listcount≠0) :
    ∃ es,(∀ e ∈ es,∃ p b,e=.handler p b) ∧
      runFrom txStep s es={ outBody preop sent s with handler := .loop ⟨f.limit,
        if (s.queue.entryAt s.queue.listtail).Pending then f.limitcnt+1 else f.limitcnt,
        f.listcount-1⟩ } ∧
      transmitted s es=if (s.queue.entryAt s.queue.listtail).Due preop then
        [s.queue.message s.queue.listtail] else [] := by
  obtain ⟨es,t,hes,hdrop,hrun,htransmitted⟩ := visit_run preop sent hs hgo
  obtain ⟨n,hrest,hnone⟩ := checking_run t s.queue.listtail _ (.handler true true) ⟨true,true,rfl⟩
  refine ⟨es++List.replicate n (.handler true true),?_,?_,?_⟩
  · intro e he
    rcases List.mem_append.mp he with he|he
    · exact hes e he
    · exact ⟨true,true,List.eq_of_mem_replicate he⟩
  · rw [runFrom,List.foldl_append]
    change runFrom txStep (runFrom txStep s es) _=_
    rw [hrun,hrest,hdrop]
  · rw [transmitted_append,hrun,hnone,htransmitted,List.append_nil]

theorem dropMarked_handler (s : TxSys) (loc : Nat) (pc : HandlerPc) :
    dropMarked { s with handler := pc } loc={ dropMarked s loc with handler := pc } := by
  simp only [dropMarked]
  split_ifs
  · split <;> rfl
  · rfl

theorem outBody_handler (sent : Bool) (s : TxSys) (pc : HandlerPc) :
    outBody preop sent { s with handler := pc }={ outBody preop sent s with handler := pc } := by
  by_cases hpending : (s.queue.entryAt s.queue.listtail).Pending
  · have hpending' : (({ s with handler := pc } : TxSys).queue.entryAt s.queue.listtail).Pending :=
      hpending
    rw [outBody_pending hpending,outBody_pending hpending',← dropMarked_handler]
    simp only [writeTail]
    split_ifs <;> rfl
  · rw [outBody,outBody,← dropMarked_handler]
    cases hst : s.queue.mbxstate s.queue.listtail with
    | none => rfl
    | done => rfl
    | req => exact absurd (Or.inl hst) hpending
    | fail => exact absurd (Or.inr hst) hpending

theorem outHandlerLoop_handler (limit : Int) (pc : HandlerPc) (listcount : Nat) :
    ∀ (limitcnt : Int) (sent : Nat → Bool) (s : TxSys),
    outHandlerLoop preop limit listcount limitcnt sent { s with handler := pc }=
      { outHandlerLoop preop limit listcount limitcnt sent s with
        sys := { (outHandlerLoop preop limit listcount limitcnt sent s).sys with
          handler := pc } } := by
  induction listcount with
  | zero =>
    intro limitcnt sent s
    rfl
  | succ listcount ih =>
    intro limitcnt sent s
    rw [outHandlerLoop,outHandlerLoop,outBody_handler]
    split_ifs
    · simp only [ih]
    · rfl

theorem outHandlerLoop_run (preop : UInt16 → Bool) (limit : Int) (listcount : Nat) :
    ∀ (limitcnt : Int) (sent : Nat → Bool) (s : TxSys),
    ∃ es,(∀ e ∈ es,∃ p b,e=.handler p b) ∧
      runFrom txStep { s with handler := .loop ⟨limit,limitcnt,listcount⟩ } es=
        { (outHandlerLoop preop limit listcount limitcnt sent s).sys with handler := .idle } ∧
      transmitted { s with handler := .loop ⟨limit,limitcnt,listcount⟩ } es=
        (outHandlerLoop preop limit listcount limitcnt sent s).writes := by
  have hend : ∀ {n : Nat} {limitcnt : Int} {s : TxSys},¬(limitcnt ≤ limit ∧ n≠0) →
      ∃ es,(∀ e ∈ es,∃ p b,e=TxEvent.handler p b) ∧
        runFrom txStep { s with handler := .loop ⟨limit,limitcnt,n⟩ } es=
          { s with handler := .idle } ∧
        transmitted { s with handler := .loop ⟨limit,limitcnt,n⟩ } es=[] := by
    intro n limitcnt s hstop
    refine ⟨[.handler true true],by simp,?_,?_⟩
    · simp only [runFrom,List.foldl_cons,List.foldl_nil,txStep,handlerStep,if_neg hstop]
    · simp only [transmitted,transmits,List.append_nil]
      rw [if_neg fun h => hstop ⟨h.1,h.2.1⟩]
      rfl
  induction listcount with
  | zero =>
    intro limitcnt sent s
    exact hend fun h => h.2 rfl
  | succ listcount ih =>
    intro limitcnt sent s
    rw [outHandlerLoop]
    by_cases hgo : limitcnt ≤ limit
    · rw [if_pos hgo]
      obtain ⟨es,hes,hround,hwrite⟩ := outBody_run preop
        { s with handler := .loop ⟨limit,limitcnt,listcount+1⟩ } (sent 0) rfl
        ⟨hgo,Nat.succ_ne_zero _⟩
      obtain ⟨es',hes',hrest,hlater⟩ := ih (if (s.queue.entryAt s.queue.listtail).Pending then
        limitcnt+1 else limitcnt) (fun k => sent (k+1)) (outBody preop (sent 0) s)
      rw [outBody_handler] at hround
      refine ⟨es++es',?_,?_,?_⟩
      · intro e he
        exact (List.mem_append.mp he).elim (hes e) (hes' e)
      · rw [runFrom,List.foldl_append]
        change runFrom txStep (runFrom txStep _ es) es'=_
        rw [hround]
        exact hrest
      · rw [transmitted_append,hround,hwrite]
        exact congrArg (_++·) hlater
    · rw [if_neg hgo]
      exact hend fun h => hgo h.1

theorem mbxOutHandler_run (preop : UInt16 → Bool) (limit : Int) (sent : Nat → Bool) (hs : s.handler=.idle) :
    ∃ es,(∀ e ∈ es,∃ p b,e=.handler p b) ∧
      runFrom txStep s (.call limit::es)=(mbxOutHandler preop limit sent s).sys ∧
      transmitted s (.call limit::es)=(mbxOutHandler preop limit sent s).writes := by
  obtain ⟨es,hes,hrun,hwrites⟩ := outHandlerLoop_run preop limit s.queue.listcount 0
    sent s
  have hcall : txStep s (.call limit)={ s with handler := .loop ⟨limit,0,s.queue.listcount⟩ } := by
    simp only [txStep,hs]
  refine ⟨es,hes,?_,?_⟩
  · rw [runFrom,List.foldl_cons,hcall]
    refine Eq.trans hrun ?_
    have hidle : s={ s with handler := .idle } := by
      rw [← hs]
    conv_rhs => rw [mbxOutHandler,hidle]
    exact (congrArg OutCall.sys (outHandlerLoop_handler limit .idle s.queue.listcount 0 sent s)).symm
  · rw [transmitted,hcall]
    exact hwrites

end Steps

end EtherCATMaster.Mailbox
