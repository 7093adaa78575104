import EtherCATMaster.Mailbox.OutHandler
import Mathlib.Data.List.Rotate

namespace EtherCATMaster.Mailbox

open EtherCATMaster.Framework

def TxEntry.visited (preop : UInt16 → Bool) (sent : Bool) (e : TxEntry) : TxEntry :=
  if e.Due preop then { e with state := if sent=true then .done else .fail } else e

def stays (preop : UInt16 → Bool) : Nat → (Nat → Bool) → TxEntry → List TxEntry
  | 0,_,_ => []
  | n+1,sent,e => e::stays preop n (fun k => sent (k+1)) (e.visited preop (sent 0))

/-- The entries in the order in which a call comes to them. A full queue is not turned: its first
entry is visited again and again, unless it is dropped at once. -/
def visitOrder (preop : UInt16 → Bool) (sent : Nat → Bool) : List TxEntry → List TxEntry
  | [] => []
  | e::rest =>
      if rest.length+1=mbxPoolSize ∧ e.remove=false then stays preop mbxPoolSize sent e
      else e::rest

def turnWrites (preop : UInt16 → Bool) (limit : Int) : Int → List TxEntry → List Nat
  | _,[] => []
  | limitcnt,e::rest =>
      if limitcnt ≤ limit then
        (if e.Due preop then [e.message] else [])++
          turnWrites preop limit (if e.Pending then limitcnt+1 else limitcnt) rest
      else []

section Queue

variable {q : MbxQueue}

theorem entries_cons (h : q.Wf) (hpos : 0 < q.listcount) :
    q.entries=q.entryAt q.listtail::
      ringList mbxPoolSize q.entryAt (ringNext mbxPoolSize q.listtail) (q.listcount-1) := by
  have hroom : q.listcount-1+1 ≤ mbxPoolSize := by
    rw [Nat.sub_add_cancel hpos]
    exact h.count
  have hpop := ringList_pop q.entryAt h.tail hroom
  rw [Nat.sub_add_cancel hpos] at hpop
  exact hpop

theorem entries_length : q.entries.length=q.listcount := ringList_length _ _ _ _

theorem entries_tail {q' : MbxQueue} {v : TxEntry} (h : q.Wf) (hpos : 0 < q.listcount)
    (htail : q'.listtail=q.listtail) (hcount : q'.listcount=q.listcount)
    (hcells : q'.entryAt=Function.update q.entryAt q.listtail v) :
    q'.entries=v::q.entries.tail := by
  have hc := h.count
  have hpop := ringList_pop (Function.update q.entryAt q.listtail v) h.tail
    (show q.listcount-1+1 ≤ mbxPoolSize by omega)
  rw [Nat.sub_add_cancel hpos,Function.update_self,
    ringList_update_start _ _ h.tail (by omega)] at hpop
  rw [MbxQueue.entries,htail,hcount,hcells,hpop,entries_cons h hpos]
  rfl

theorem moved_entries (h : q.Wf) (hpos : 0 < q.listcount) (hc : q.listcount < mbxPoolSize)
    (t : Nat) : (q.moved t).entries=q.entries.tail++[q.entryAt q.listtail] := by
  have hcells : (q.moved t).entryAt=Function.update q.entryAt q.listhead (q.entryAt q.listtail) := by
    funext i
    simp only [MbxQueue.entryAt,MbxQueue.moved,Function.update_apply]
    split_ifs <;> rfl
  have hhead : q.listhead=ringIndex mbxPoolSize (ringNext mbxPoolSize q.listtail)
      (q.listcount-1) := by
    rw [ringIndex_next h.tail (by omega),Nat.sub_add_cancel hpos]
    exact h.head
  have hpush := ringList_push q.entryAt (q.entryAt q.listtail) (ringNext_lt h.tail)
    (show q.listcount-1 < mbxPoolSize by omega)
  rw [← hhead,Nat.sub_add_cancel hpos] at hpush
  rw [entries_cons h hpos,List.tail_cons,← hpush,MbxQueue.entries,hcells]
  rfl

theorem dropped_entries (h : q.Wf) (hpos : 0 < q.listcount) :
    (mbxDropQueue q q.listtail).2.entries=q.entries.tail := by
  have hc := h.count
  have hcells : (mbxDropQueue q q.listtail).2.entryAt=
      Function.update q.entryAt q.listtail ⟨q.message q.listtail,0,.none,false⟩ := by
    funext i
    simp only [MbxQueue.entryAt,mbxDropQueue,Function.update_apply]
    split_ifs with hi
    · rw [hi]
    · rfl
  rw [MbxQueue.entries,hcells,entries_cons h hpos,List.tail_cons]
  exact ringList_update_start _ _ h.tail (show q.listcount-1+1 ≤ mbxPoolSize by omega)

theorem rotateQueue_marked (h : q.Wf) (hmark : q.mbxremove q.listtail=true) :
    mbxRotateQueue q q.listtail=q := by
  rcases rotateQueue_cases h with hsame|⟨t,-,ht,-⟩
  · exact hsame
  · have hr := (h.ticket t _ ht).2.2.2
    rw [hmark] at hr
    cases hr

theorem rotateQueue_full (h : q.Wf) (hfull : q.listcount=mbxPoolSize) :
    mbxRotateQueue q q.listtail=q := by
  rcases rotateQueue_cases h with hsame|⟨t,hc,-,-⟩
  · exact hsame
  · omega

theorem rotateQueue_moves (h : q.Wf) (hpos : 0 < q.listcount) (hc : q.listcount < mbxPoolSize)
    (hmark : q.mbxremove q.listtail=false) : ∃ t,q.mbxticket t=some q.listtail ∧
      mbxRotateQueue q q.listtail=q.moved t := by
  have hseg := tail_inSegment hpos
  have hne : q.listhead≠q.listtail := fun heq => inSegment_lt h hc hseg heq.symm
  obtain ⟨t,ht⟩ : ∃ t,q.mbxticket t=some q.listtail := by
    rcases h.held _ h.tail hseg with hr|ht
    · rw [hmark] at hr
      cases hr
    · exact ht
  have hsome : (ticketOf q q.listtail).isSome := by
    rw [ticketOf,List.find?_isSome]
    exact ⟨t,List.mem_range.mpr (h.ticket t _ ht).1,by simp [ht]⟩
  obtain ⟨u,hu⟩ := Option.isSome_iff_exists.mp hsome
  exact ⟨u,ticketOf_some hu,by simp only [mbxRotateQueue,if_pos hne,hu]⟩

theorem round_entries (h : q.Wf) {e : TxEntry} {rest : List TxEntry} (he : q.entries=e::rest)
    (q' : MbxQueue) (hq' : q'=mbxRotateQueue q q.listtail) :
    (if q'.mbxremove q.listtail=true then (mbxDropQueue q' q.listtail).2 else q').Wf ∧
      (if q'.mbxremove q.listtail=true then (mbxDropQueue q' q.listtail).2 else q').entries=
        if e.remove=true then rest else if rest.length+1 < mbxPoolSize then rest++[e]
        else e::rest := by
  have hlength : rest.length+1=q.listcount := by
    rw [← entries_length,he]
    rfl
  have hpos : 0 < q.listcount := by omega
  have hcons := entries_cons h hpos
  rw [he] at hcons
  obtain ⟨rfl,hrest⟩ := List.cons.inj hcons
  have htail : q.entries.tail=rest := by rw [he,List.tail_cons]
  by_cases hmark : q.mbxremove q.listtail=true
  · rw [hq',rotateQueue_marked h hmark,if_pos hmark,
      if_pos (show (q.entryAt q.listtail).remove=true from hmark)]
    exact ⟨dropQueue_wf h hpos hmark,(dropped_entries h hpos).trans htail⟩
  · have hunmarked : q.mbxremove q.listtail=false := Bool.eq_false_iff.mpr hmark
    rw [if_neg (show ¬(q.entryAt q.listtail).remove=true from hmark),hlength]
    by_cases hc : q.listcount < mbxPoolSize
    · obtain ⟨t,ht,hmoves⟩ := rotateQueue_moves h hpos hc hunmarked
      have hne : q.listtail≠q.listhead := inSegment_lt h hc (tail_inSegment hpos)
      have hleft : ¬(q.moved t).mbxremove q.listtail=true := by
        simp only [MbxQueue.moved,Function.update_of_ne hne]
        exact hmark
      rw [hq',hmoves,if_neg hleft,if_pos hc]
      refine ⟨moved_wf h hc ht,?_⟩
      rw [moved_entries h hpos hc,htail]
    · have hfull : q.listcount=mbxPoolSize := Nat.le_antisymm h.count (Nat.not_lt.mp hc)
      rw [hq',rotateQueue_full h hfull,if_neg hmark,if_neg hc]
      exact ⟨h,he⟩

end Queue

section Rounds

variable {preop : UInt16 → Bool} {s : TxSys}

theorem dropMarked_queue (s : TxSys) (loc : Nat) : (dropMarked s loc).queue=
    if s.queue.mbxremove loc=true then (mbxDropQueue s.queue loc).2 else s.queue := by
  rw [dropMarked]
  split_ifs
  · split
    · next heq => rw [heq]
    · next heq => rw [heq]
  · rfl

theorem TxEntry.visited_message (sent : Bool) (e : TxEntry) :
    (e.visited preop sent).message=e.message := by
  rw [TxEntry.visited]
  split_ifs <;> rfl

theorem TxEntry.visited_remove (sent : Bool) (e : TxEntry) :
    (e.visited preop sent).remove=e.remove := by
  rw [TxEntry.visited]
  split_ifs <;> rfl

/-- The queue as a round leaves it to the rotation: its first entry has been visited. -/
theorem visit_entries (preop : UInt16 → Bool) (h : s.queue.Wf) {e : TxEntry} {rest : List TxEntry}
    (he : s.queue.entries=e::rest) (sent : Bool) :
    ∃ t : TxSys,t.queue.Wf ∧ t.queue.listtail=s.queue.listtail ∧
      t.queue.entries=e.visited preop sent::rest ∧ outBody preop sent s=
        dropMarked { t with queue := mbxRotateQueue t.queue s.queue.listtail }
          s.queue.listtail := by
  have hlength : rest.length+1=s.queue.listcount := by
    rw [← entries_length,he]
    rfl
  have hpos : 0 < s.queue.listcount := by omega
  have hcons := entries_cons h hpos
  rw [he] at hcons
  obtain ⟨rfl,-⟩ := List.cons.inj hcons
  by_cases hpending : (s.queue.entryAt s.queue.listtail).Pending
  · by_cases hpreop : preop (s.queue.mbxslave s.queue.listtail)=true
    · have hdue : (s.queue.entryAt s.queue.listtail).Due preop := ⟨hpending,hpreop⟩
      have hplace : (writeTail s s.queue.listtail sent).queue.listtail=s.queue.listtail ∧
          (writeTail s s.queue.listtail sent).queue.listcount=s.queue.listcount := by
        simp only [writeTail]
        split_ifs <;> exact ⟨rfl,rfl⟩
      have hcells : (writeTail s s.queue.listtail sent).queue.entryAt=
          Function.update s.queue.entryAt s.queue.listtail
            ((s.queue.entryAt s.queue.listtail).visited preop sent) := by
        funext i
        rw [TxEntry.visited,if_pos hdue]
        simp only [MbxQueue.entryAt,writeTail,Function.update_apply]
        by_cases hi : i=s.queue.listtail
        · rw [if_pos hi,hi]
          split_ifs <;> simp only [Function.update_self]
        · rw [if_neg hi]
          split_ifs <;> simp only [Function.update_of_ne hi]
      refine ⟨writeTail s s.queue.listtail sent,?_,hplace.1,?_,?_⟩
      · simp only [writeTail]
        split_ifs
        · exact written_wf h _ .done (fun hn => by cases hn) _
        · exact written_wf h _ .fail (fun hn => by cases hn) _
      · rw [entries_tail h hpos hplace.1 hplace.2 hcells,he,List.tail_cons]
      · rw [outBody_pending hpending,if_pos hpreop]
    · have hundue : ¬(s.queue.entryAt s.queue.listtail).Due preop := fun hd => hpreop hd.2
      refine ⟨s,h,rfl,?_,?_⟩
      · rw [TxEntry.visited,if_neg hundue]
        exact he
      · rw [outBody_pending hpending,if_neg hpreop]
  · have hundue : ¬(s.queue.entryAt s.queue.listtail).Due preop := fun hd => hpending hd.1
    refine ⟨s,h,rfl,?_,?_⟩
    · rw [TxEntry.visited,if_neg hundue]
      exact he
    · cases hst : s.queue.mbxstate s.queue.listtail with
      | none => exact absurd hst (h.live _ h.tail (tail_inSegment hpos))
      | done => simp only [outBody,hst]
      | req => exact absurd (Or.inl hst) hpending
      | fail => exact absurd (Or.inr hst) hpending

/-- A round drops the first entry if it is marked; otherwise it takes it to the end, unless the
queue is full. -/
theorem outBody_entries (preop : UInt16 → Bool) (h : s.queue.Wf) {e : TxEntry} {rest : List TxEntry}
    (he : s.queue.entries=e::rest) (sent : Bool) :
    (outBody preop sent s).queue.Wf ∧ (outBody preop sent s).queue.entries=
      if e.remove=true then rest else if rest.length+1 < mbxPoolSize then
        rest++[e.visited preop sent] else e.visited preop sent::rest := by
  obtain ⟨t,ht,htail,hentries,hbody⟩ := visit_entries preop h he sent
  have hround := round_entries ht hentries (mbxRotateQueue t.queue s.queue.listtail)
    (by rw [htail])
  rw [TxEntry.visited_remove,htail] at hround
  rw [hbody,dropMarked_queue]
  exact hround

theorem entryAt_first (h : s.queue.Wf) {e : TxEntry} {rest : List TxEntry}
    (he : s.queue.entries=e::rest) : s.queue.entryAt s.queue.listtail=e := by
  have hpos : 0 < s.queue.listcount := by
    rw [← entries_length,he]
    exact Nat.succ_pos _
  rw [entries_cons h hpos] at he
  exact (List.cons.inj he).1

/-- The entries that no round has come to yet are the first ones. -/
theorem loop_turns (preop : UInt16 → Bool) (limit : Int) (todo : List TxEntry) : ∀ (past : List TxEntry) (limitcnt : Int)
    (sent : Nat → Bool) (s : TxSys),s.queue.Wf → s.queue.entries=todo++past →
    (todo.length+past.length < mbxPoolSize ∨ ∀ e ∈ todo.head?,e.remove=true) →
    (outHandlerLoop preop limit todo.length limitcnt sent s).writes=
        turnWrites preop limit limitcnt todo ∧
      (limitcnt+todo.length ≤ limit+1 →
        (outHandlerLoop preop limit todo.length limitcnt sent s).sys.queue.entries.map
          TxEntry.message=(past++todo.filter fun e => !e.remove).map TxEntry.message) := by
  induction todo with
  | nil =>
    intro past limitcnt sent s _ he _
    refine ⟨rfl,fun _ => ?_⟩
    rw [List.length_nil,outHandlerLoop,he,List.nil_append,List.filter_nil,List.append_nil]
  | cons e rest ih =>
    intro past limitcnt sent s h he hroom
    rw [List.cons_append] at he
    obtain ⟨hwf,hentries⟩ := outBody_entries preop h he (sent 0)
    have hnext : limitcnt+((e::rest).length : Nat) ≤ limit+1 →
        (if e.Pending then limitcnt+1 else limitcnt)+rest.length ≤ limit+1 := by
      rw [List.length_cons]
      split_ifs <;> omega
    rw [List.length_cons,outHandlerLoop,turnWrites]
    by_cases hgo : limitcnt ≤ limit
    · simp only [if_pos hgo,entryAt_first h he]
      by_cases hmark : e.remove=true
      · rw [if_pos hmark] at hentries
        have hcount : rest.length+past.length < mbxPoolSize := by
          have hc := h.count
          rw [← entries_length,he,List.length_cons,List.length_append] at hc
          omega
        obtain ⟨hwrites,hleft⟩ := ih past (if e.Pending then limitcnt+1 else limitcnt)
          (fun k => sent (k+1)) _ hwf hentries (.inl hcount)
        refine ⟨by rw [hwrites],fun huncut => ?_⟩
        rw [hleft (hnext huncut),List.filter_cons_of_neg (by simp [hmark])]
      · have hcount : rest.length+(past++[e.visited preop (sent 0)]).length < mbxPoolSize := by
          rcases hroom with hroom|hmarked
          · rw [List.length_append,List.length_singleton]
            rw [List.length_cons] at hroom
            omega
          · exact absurd (hmarked e rfl) hmark
        have hturned : (rest++past).length+1 < mbxPoolSize := by
          rw [List.length_append,List.length_singleton] at hcount
          rw [List.length_append]
          omega
        rw [if_neg hmark,if_pos hturned,List.append_assoc] at hentries
        obtain ⟨hwrites,hleft⟩ := ih (past++[e.visited preop (sent 0)])
          (if e.Pending then limitcnt+1 else limitcnt) (fun k => sent (k+1)) _ hwf hentries
          (.inl hcount)
        refine ⟨by rw [hwrites],fun huncut => ?_⟩
        rw [hleft (hnext huncut),List.filter_cons_of_pos (by simp [hmark]),List.append_assoc]
        simp only [List.map_append,List.map_cons,TxEntry.visited_message,List.singleton_append]
    · rw [if_neg hgo,if_neg hgo]
      refine ⟨rfl,fun huncut => ?_⟩
      omega

theorem loop_stays (limit : Int) (n : Nat) : ∀ (e : TxEntry) (rest : List TxEntry) (limitcnt : Int)
    (sent : Nat → Bool) (s : TxSys),s.queue.Wf → s.queue.entries=e::rest →
    rest.length+1=mbxPoolSize → e.remove=false →
    (outHandlerLoop preop limit n limitcnt sent s).writes=
        turnWrites preop limit limitcnt (stays preop n sent e) ∧
      (outHandlerLoop preop limit n limitcnt sent s).sys.queue.entries.map TxEntry.message=
        (e::rest).map TxEntry.message := by
  induction n with
  | zero =>
    intro e rest limitcnt sent s _ he _ _
    exact ⟨rfl,by rw [outHandlerLoop,he]⟩
  | succ n ih =>
    intro e rest limitcnt sent s h he hfull hmark
    obtain ⟨hwf,hentries⟩ := outBody_entries preop h he (sent 0)
    rw [hmark,if_neg Bool.false_ne_true,if_neg (by omega)] at hentries
    rw [outHandlerLoop,stays,turnWrites]
    by_cases hgo : limitcnt ≤ limit
    · simp only [if_pos hgo,entryAt_first h he]
      obtain ⟨hwrites,hleft⟩ := ih (e.visited preop (sent 0)) rest
        (if e.Pending then limitcnt+1 else limitcnt) (fun k => sent (k+1)) _ hwf hentries hfull
        ((e.visited_remove (sent 0)).trans hmark)
      refine ⟨by rw [hwrites],?_⟩
      rw [hleft,List.map_cons,List.map_cons,TxEntry.visited_message]
    · rw [if_neg hgo,if_neg hgo,he]
      exact ⟨rfl,rfl⟩

theorem outHandler_stays (preop : UInt16 → Bool) {e : TxEntry} {rest : List TxEntry} (h : s.queue.Wf)
    (he : s.queue.entries=e::rest) (hfull : rest.length+1=mbxPoolSize) (hmark : e.remove=false)
    (limit : Int) (sent : Nat → Bool) :
    (mbxOutHandler preop limit sent s).writes=
        turnWrites preop limit 0 (stays preop mbxPoolSize sent e) ∧
      (mbxOutHandler preop limit sent s).sys.queue.entries.map TxEntry.message=
        s.queue.entries.map TxEntry.message := by
  have hcount : s.queue.listcount=mbxPoolSize := by
    rw [← entries_length,he]
    exact hfull
  rw [mbxOutHandler,hcount,he]
  exact loop_stays limit mbxPoolSize e rest 0 sent s h he hfull hmark

theorem outHandler_turns (preop : UInt16 → Bool) (h : s.queue.Wf)
    (hturns : ∀ e rest,s.queue.entries=e::rest → rest.length+1=mbxPoolSize → e.remove=true)
    (limit : Int) (sent : Nat → Bool) :
    (mbxOutHandler preop limit sent s).writes=turnWrites preop limit 0 s.queue.entries ∧
      ((s.queue.listcount : Int) ≤ limit →
        (mbxOutHandler preop limit sent s).sys.queue.entries.map TxEntry.message=
          (s.queue.entries.filter fun e => !e.remove).map TxEntry.message) := by
  have hroom : s.queue.entries.length+([] : List TxEntry).length < mbxPoolSize ∨
      ∀ e ∈ s.queue.entries.head?,e.remove=true := by
    have hc := h.count
    rw [← entries_length] at hc
    by_cases hfull : s.queue.entries.length=mbxPoolSize
    · right
      cases he : s.queue.entries with
      | nil =>
        intro e hmem
        cases hmem
      | cons e rest =>
        intro x hx
        cases hx
        rw [he] at hfull
        exact hturns e rest he hfull
    · left
      rw [List.length_nil]
      omega
  obtain ⟨hwrites,hleft⟩ := loop_turns preop limit s.queue.entries [] 0 sent s h
    (List.append_nil _).symm hroom
  rw [mbxOutHandler,← entries_length]
  refine ⟨hwrites,fun hlimit => ?_⟩
  rw [hleft (by omega),List.nil_append]

theorem outHandler_writes (h : s.queue.Wf) (limit : Int) (sent : Nat → Bool) :
    (mbxOutHandler preop limit sent s).writes=
      turnWrites preop limit 0 (visitOrder preop sent s.queue.entries) := by
  by_cases hturns : ∀ e rest,s.queue.entries=e::rest → rest.length+1=mbxPoolSize → e.remove=true
  · have horder : visitOrder preop sent s.queue.entries=s.queue.entries := by
      cases he : s.queue.entries with
      | nil => rfl
      | cons e rest =>
        rw [visitOrder,if_neg]
        rintro ⟨hfull,hmark⟩
        rw [hturns e rest he hfull] at hmark
        cases hmark
    rw [horder]
    exact (outHandler_turns preop h hturns limit sent).1
  · simp only [not_forall] at hturns
    obtain ⟨e,rest,he,hfull,hmark⟩ := hturns
    have hunmarked : e.remove=false := Bool.eq_false_iff.mpr hmark
    rw [(outHandler_stays preop h he hfull hunmarked limit sent).1,he,visitOrder,
      if_pos ⟨hfull,hunmarked⟩]

end Rounds

theorem turnWrites_all {preop : UInt16 → Bool} {limit : Int} (todo : List TxEntry) :
    ∀ {limitcnt : Int},limitcnt+todo.length ≤ limit+1 →
    turnWrites preop limit limitcnt todo=
      (todo.filter fun e => decide (e.Due preop)).map TxEntry.message := by
  induction todo with
  | nil =>
    intro limitcnt _
    rfl
  | cons e rest ih =>
    intro limitcnt hroom
    rw [List.length_cons] at hroom
    rw [turnWrites,if_pos (by omega),ih (by split_ifs <;> omega)]
    by_cases hdue : e.Due preop
    · rw [if_pos hdue]
      simp [hdue]
    · rw [if_neg hdue]
      simp [hdue]

/-- What a call is to do: it tries to write each entry that is due once, and leaves the entries
that it does not drop in their order around the ring. -/
structure Fair (preop : UInt16 → Bool) (q q' : MbxQueue) (writes : List Nat) : Prop where
  once : writes.Perm ((q.entries.filter fun e => decide (e.Due preop)).map TxEntry.message)
  order : ∃ left : List TxEntry,left.Sublist q.entries ∧
    (∀ e ∈ q.entries,e.remove=false → e ∈ left) ∧
    List.IsRotated (q'.entries.map TxEntry.message) (left.map TxEntry.message)

/-- The queue is not full, its first entry is marked, or no other entry is due, and the first one
is not or its first write succeeds. -/
def FairWhen (preop : UInt16 → Bool) (sent : Nat → Bool) (q : MbxQueue) : Prop :=
  ∀ e rest,q.entries=e::rest → rest.length+1=mbxPoolSize → e.remove=false →
    (∀ x ∈ rest,¬x.Due preop) ∧ (e.Due preop → sent 0=true)

instance FairWhen.decidable (preop : UInt16 → Bool) (sent : Nat → Bool) (q : MbxQueue) :
    Decidable (FairWhen preop sent q) :=
  match h : q.entries with
  | [] => isTrue fun e rest he => nomatch h.symm.trans he
  | e::rest =>
      decidable_of_iff (rest.length+1=mbxPoolSize → e.remove=false →
        (∀ x ∈ rest,¬x.Due preop) ∧ (e.Due preop → sent 0=true))
      ⟨fun hall e' rest' he => by cases h.symm.trans he; exact hall,fun hall => hall e rest h⟩

section Stays

variable {preop : UInt16 → Bool}

theorem stays_message (n : Nat) : ∀ (sent : Nat → Bool) (e : TxEntry),
    ∀ x ∈ stays preop n sent e,x.message=e.message := by
  induction n with
  | zero =>
    intro sent e x hx
    cases hx
  | succ n ih =>
    intro sent e x hx
    rcases List.mem_cons.mp hx with rfl|hx
    · rfl
    · rw [ih _ _ x hx,TxEntry.visited_message]

theorem stays_undue (n : Nat) : ∀ (sent : Nat → Bool) {e : TxEntry},¬e.Due preop →
    ((stays preop n sent e).filter fun x => decide (x.Due preop))=[] := by
  induction n with
  | zero =>
    intro sent e _
    rfl
  | succ n ih =>
    intro sent e hundue
    have hsame : e.visited preop (sent 0)=e := by rw [TxEntry.visited,if_neg hundue]
    rw [stays,hsame,List.filter_cons_of_neg (by simpa using hundue)]
    exact ih _ hundue

theorem stays_due {sent : Nat → Bool} {e : TxEntry} (n : Nat) (hdue : e.Due preop) :
    (sent 0=true → ((stays preop (n+1) sent e).filter fun x => decide (x.Due preop))=[e]) ∧
    (sent 0=false → ∃ l,((stays preop (n+2) sent e).filter fun x => decide (x.Due preop)).map
      TxEntry.message=e.message::e.message::l) := by
  constructor
  · intro hsent
    have hdone : ¬(e.visited preop (sent 0)).Due preop := by
      rw [TxEntry.visited,if_pos hdue,hsent]
      rintro ⟨hpending,-⟩
      rcases hpending with h|h <;> cases h
    rw [stays,List.filter_cons_of_pos (by simpa using hdue),stays_undue n _ hdone]
  · intro hsent
    have hagain : (e.visited preop (sent 0)).Due preop := by
      rw [TxEntry.visited,if_pos hdue,hsent]
      exact ⟨.inr rfl,hdue.2⟩
    rw [stays,stays,List.filter_cons_of_pos (by simpa using hdue),
      List.filter_cons_of_pos (by simpa using hagain),List.map_cons,List.map_cons,
      TxEntry.visited_message]
    exact ⟨_,rfl⟩

end Stays

theorem entries_nodup {s : TxSys} (h : TxInv s) (hm : MessageInv s) :
    (s.queue.entries.map TxEntry.message).Nodup := by
  have hc := h.queue.count
  rw [MbxQueue.entries,ringList,List.map_map]
  refine List.Nodup.map_on ?_ List.nodup_range
  intro i hi j hj heq
  have hi' : i < s.queue.listcount := List.mem_range.mp hi
  have hj' : j < s.queue.listcount := List.mem_range.mp hj
  have hseg : ∀ k < s.queue.listcount,
      s.queue.InSegment (ringIndex mbxPoolSize s.queue.listtail k) := by
    intro k hk
    change ringOffset _ _ (ringIndex _ _ k) < _
    rw [ringOffset_index h.queue.tail (by omega)]
    exact hk
  have hsame := hm.distinct _ (ringIndex_lt h.queue.tail (by omega)) _
    (ringIndex_lt h.queue.tail (by omega)) (hseg i hi') (hseg j hj') heq
  rw [← ringOffset_index h.queue.tail (show i < mbxPoolSize by omega),hsame,
    ringOffset_index h.queue.tail (by omega)]

section Fairness

variable {preop : UInt16 → Bool} {s : TxSys} {limit : Int} {sent : Nat → Bool}

theorem stays_length (n : Nat) : ∀ (sent : Nat → Bool) (e : TxEntry),
    (stays preop n sent e).length=n := by
  induction n with
  | zero => exact fun _ _ => rfl
  | succ n ih => exact fun sent e => congrArg Nat.succ (ih _ _)

theorem fair_of_turns (h : s.queue.Wf) (hlimit : (s.queue.listcount : Int) ≤ limit)
    (hturns : ∀ e rest,s.queue.entries=e::rest → rest.length+1=mbxPoolSize → e.remove=true) :
    Fair preop s.queue (mbxOutHandler preop limit sent s).sys.queue
      (mbxOutHandler preop limit sent s).writes := by
  obtain ⟨hwrites,hleft⟩ := outHandler_turns preop h hturns limit sent
  refine ⟨?_,s.queue.entries.filter fun e => !e.remove,List.filter_sublist,?_,?_⟩
  · rw [hwrites,turnWrites_all _ (by rw [entries_length]; omega)]
  · intro e he hmark
    exact List.mem_filter.mpr ⟨he,by rw [hmark]; rfl⟩
  · rw [hleft hlimit]

/-- A full queue that does not turn. -/
theorem fair_iff_of_stays (h : TxInv s) (hm : MessageInv s) {e : TxEntry} {rest : List TxEntry}
    (he : s.queue.entries=e::rest) (hfull : rest.length+1=mbxPoolSize) (hmark : e.remove=false)
    (hlimit : (s.queue.listcount : Int) ≤ limit) :
    Fair preop s.queue (mbxOutHandler preop limit sent s).sys.queue
        (mbxOutHandler preop limit sent s).writes ↔
      (∀ x ∈ rest,¬x.Due preop) ∧ (e.Due preop → sent 0=true) := by
  obtain ⟨hwrites,hleft⟩ := outHandler_stays preop h.queue he hfull hmark limit sent
  have hnodup := entries_nodup h hm
  have hcount : s.queue.listcount=mbxPoolSize := by
    rw [← entries_length,he]
    exact hfull
  rw [turnWrites_all _ (by rw [stays_length]; omega)] at hwrites
  constructor
  · rintro ⟨honce,-⟩
    rw [hwrites,he] at honce
    rw [he] at hnodup
    refine ⟨fun x hx hdue => ?_,fun hdue => ?_⟩
    · -- the message of another entry is never written
      have hmem : x.message ∈ ((e::rest).filter fun e => decide (e.Due preop)).map
          TxEntry.message := by
        exact List.mem_map.mpr ⟨x,List.mem_filter.mpr ⟨List.mem_cons_of_mem _ hx,by
          simpa using hdue⟩,rfl⟩
      obtain ⟨y,hy,heq⟩ := List.mem_map.mp (honce.symm.subset hmem)
      have hfirst := stays_message _ _ _ y (List.mem_filter.mp hy).1
      rw [List.map_cons,List.nodup_cons] at hnodup
      exact hnodup.1 (hfirst ▸ heq ▸ List.mem_map_of_mem hx)
    · by_contra hfailed
      obtain ⟨l,htwice⟩ := (stays_due (mbxPoolSize-2) hdue).2 (Bool.eq_false_iff.mpr hfailed)
      have hwritten := honce.nodup_iff.mpr (hnodup.sublist (List.filter_sublist.map _))
      rw [show mbxPoolSize=mbxPoolSize-2+2 from rfl,htwice] at hwritten
      exact (List.nodup_cons.mp hwritten).1 List.mem_cons_self
  · rintro ⟨hothers,hfirst⟩
    refine ⟨?_,s.queue.entries,List.Sublist.refl _,fun _ hx _ => hx,?_⟩
    · have hrest : (rest.filter fun e => decide (e.Due preop))=[] := by
        rw [List.filter_eq_nil_iff]
        intro x hx
        simpa using hothers x hx
      rw [hwrites,he]
      by_cases hdue : e.Due preop
      · rw [show mbxPoolSize=mbxPoolSize-1+1 from rfl,
          (stays_due (mbxPoolSize-1) hdue).1 (hfirst hdue),
          List.filter_cons_of_pos (by simpa using hdue),hrest]
      · rw [stays_undue _ _ hdue,List.filter_cons_of_neg (by simpa using hdue),hrest]
    · rw [hleft]

/-- In every queue that is reached, a call with a limit that is not below the number of entries is
fair exactly if the queue turns, or there is nothing but its first entry to write and the first
write succeeds. -/
theorem out_handler_fair_iff (es : List TxEvent) (hc : Along txStep MarkAtTail txInit es)
    (preop : UInt16 → Bool) (sent : Nat → Bool) (limit : Int)
    (hlimit : ((runFrom txStep txInit es).queue.listcount : Int) ≤ limit) :
    Fair preop (runFrom txStep txInit es).queue
        (mbxOutHandler preop limit sent (runFrom txStep txInit es)).sys.queue
        (mbxOutHandler preop limit sent (runFrom txStep txInit es)).writes ↔
      FairWhen preop sent (runFrom txStep txInit es).queue := by
  obtain ⟨h,hm⟩ : TxInv (runFrom txStep txInit es) ∧ MessageInv (runFrom txStep txInit es) :=
    invariant_runFrom (I := fun s => TxInv s ∧ MessageInv s)
      (fun s e h hmark => ⟨txStep_inv h.1 e hmark,txStep_messages h.1 h.2 e⟩)
      ⟨txInit_inv,txInit_messages⟩ hc
  by_cases hturns : ∀ e rest,(runFrom txStep txInit es).queue.entries=e::rest →
      rest.length+1=mbxPoolSize → e.remove=true
  · refine iff_of_true (fair_of_turns h.queue hlimit hturns) ?_
    intro e rest he hfull hmark
    rw [hturns e rest he hfull] at hmark
    cases hmark
  · simp only [not_forall] at hturns
    obtain ⟨e,rest,he,hfull,hmark⟩ := hturns
    have hunmarked : e.remove=false := Bool.eq_false_iff.mpr hmark
    rw [fair_iff_of_stays h hm he hfull hunmarked hlimit]
    constructor
    · intro hall e' rest' he' _ _
      cases he.symm.trans he'
      exact hall
    · exact fun hwhen => hwhen e rest he hfull hunmarked

end Fairness

/-- So many senders with one entry each. -/
def queuedRun (n : Nat) : List TxEvent := (List.range n).flatMap fun i => [.get i,.add i 1]

theorem two_entries_fair : Fair (fun _ => true) (runFrom txStep txInit (queuedRun 2)).queue
    (mbxOutHandler (fun _ => true) 2 (fun k => k=1) (runFrom txStep txInit (queuedRun 2))).sys.queue
    (mbxOutHandler (fun _ => true) 2 (fun k => k=1)
      (runFrom txStep txInit (queuedRun 2))).writes :=
  (out_handler_fair_iff (queuedRun 2) (by decide +kernel) (fun _ => true) (fun k => k=1) 2
    (by decide +kernel)).mpr (by decide +kernel)

/-- In a full ring nothing but the first entry is written. -/
theorem full_ring_serves_first :
    (mbxOutHandler (fun _ => true) 32 (fun _ => true)
      (runFrom txStep txInit (queuedRun 32))).writes=[0] ∧
    ¬∀ es preop sent limit,Along txStep MarkAtTail txInit es →
      0 < (runFrom txStep txInit es).queue.listcount →
      ((runFrom txStep txInit es).queue.listcount : Int) ≤ limit →
      Fair preop (runFrom txStep txInit es).queue
        (mbxOutHandler preop limit sent (runFrom txStep txInit es)).sys.queue
        (mbxOutHandler preop limit sent (runFrom txStep txInit es)).writes := by
  refine ⟨by decide +kernel,fun hclaim => ?_⟩
  have hrun : Along txStep MarkAtTail txInit (queuedRun 32) := by decide +kernel
  have hlimit : ((runFrom txStep txInit (queuedRun 32)).queue.listcount : Int) ≤ 32 := by
    decide +kernel
  have hfair := hclaim (queuedRun 32) (fun _ => true) (fun _ => true) 32 hrun (by decide +kernel)
    hlimit
  have hwhen := (out_handler_fair_iff (queuedRun 32) hrun _ _ 32 hlimit).mp hfair
  exact absurd hwhen (by decide +kernel)

end EtherCATMaster.Mailbox
