import EtherCATMaster.Mailbox.OutFairness
import EtherCATMaster.Mailbox.Reception

namespace EtherCATMaster.Mailbox

open EtherCATMaster.Framework

/-- A mailbox operation: the read of a mailbox or a step of the repeat protocol for the slave at a
place, or the write of a message. -/
inductive MbxOperation where
  | read (place : Nat)
  | repeatStep (place : Nat)
  | write (message : Nat)
  deriving DecidableEq, Repr

def Station.operation (s : Station) (place : Nat) : MbxOperation :=
  if s.item.mbxrmpstate≠0 then .repeatStep place else .read place

/-- The operations of `inHandlerLoop`. -/
def inHandlerOperations (limit : Int) (visits : Nat → Visit) :
    List Nat → Int → Reception → List MbxOperation
  | [],_,_ => []
  | i::rest,limitcnt,r =>
      let visited := (r.stations i).visit (visits i)
      let r' := { r.update i visited.2 with lastmbxpos := i }
      if visited.1=true then
        (r.stations i).operation i::(if limitcnt+1 ≥ limit then []
          else inHandlerOperations limit visits rest (limitcnt+1) r')
      else inHandlerOperations limit visits rest limitcnt r'

/-- What comes of a call of `ecx_mbxhandler`: the count it returns, its operations, and the states
of both directions. -/
structure HandlerCall where
  limitcnt : Int
  operations : List MbxOperation
  reception : Reception
  sys : TxSys

/-- `ecx_mbxhandler` for a group with `n` slaves in `mbxstatuslookup`. -/
def mbxHandler (n : Nat) (limit : Int) (visits : Nat → Visit) (preop : UInt16 → Bool)
    (sent : Nat → Bool) (r : Reception) (s : TxSys) : HandlerCall :=
  let received := mbxInHandler n limit visits r
  let out := mbxOutHandler preop (limit-received.1) sent s
  ⟨out.limitcnt,inHandlerOperations limit visits (handlerOrder n r.lastmbxpos) 0 r++
    out.writes.map .write,received.2,out.sys⟩

/-- How many slaves the handler would find something to receive from. -/
def receiveWork (visits : Nat → Visit) (places : List Nat) (r : Reception) : Nat :=
  places.countP fun i => ((r.stations i).visit (visits i)).1

/-- More than `k` of the entries are in state REQ or FAIL, and of these the first `k+1` are written
when they are visited. -/
def FirstDue (preop : UInt16 → Bool) (k : Nat) (entries : List TxEntry) : Prop :=
  k < (entries.filter fun e => decide e.Pending).length ∧
    ∀ e ∈ (entries.filter fun e => decide e.Pending).take (k+1),e.Due preop

instance FirstDue.decidable (preop : UInt16 → Bool) (k : Nat) (entries : List TxEntry) :
    Decidable (FirstDue preop k entries) := inferInstanceAs (Decidable (_ ∧ _))

section Receive

variable (limit : Int) (visits : Nat → Visit)

theorem inHandlerLoop_count (places : List Nat) : ∀ (limitcnt : Int) (r : Reception),
    (inHandlerLoop limit visits places limitcnt r).1=
      limitcnt+(inHandlerOperations limit visits places limitcnt r).length := by
  induction places with
  | nil =>
    intro limitcnt r
    simp [inHandlerLoop,inHandlerOperations]
  | cons i rest ih =>
    intro limitcnt r
    rw [inHandlerLoop,inHandlerOperations]
    by_cases hwork : ((r.stations i).visit (visits i)).1=true
    · simp only [if_pos hwork]
      by_cases hend : limitcnt+1 ≥ limit
      · rw [if_pos hend,if_pos hend]
        rfl
      · rw [if_neg hend,if_neg hend,ih,List.length_cons]
        omega
    · simp only [if_neg hwork]
      exact ih _ _

theorem receiveWork_congr {places : List Nat} {r r' : Reception}
    (h : ∀ i ∈ places,r'.stations i=r.stations i) :
    receiveWork visits places r'=receiveWork visits places r := by
  apply List.countP_congr
  intro i hi
  rw [h i hi]

theorem inHandlerOperations_length (places : List Nat) : ∀ (limitcnt : Int) (r : Reception),
    places.Nodup → ((inHandlerOperations limit visits places limitcnt r).length : Int)=
      min ((receiveWork visits places r : Nat) : Int) (max (limit-limitcnt) 1) := by
  induction places with
  | nil =>
    intro limitcnt r _
    simp only [inHandlerOperations,receiveWork,List.length_nil,List.countP_nil]
    omega
  | cons i rest ih =>
    intro limitcnt r hnodup
    obtain ⟨hi,hrest⟩ := List.nodup_cons.mp hnodup
    have hsame : ∀ (x : Station),receiveWork visits rest { r.update i x with lastmbxpos := i }=
        receiveWork visits rest r := by
      intro x
      refine receiveWork_congr visits fun j hj => ?_
      have hne : j≠i := fun heq => hi (heq ▸ hj)
      exact Function.update_of_ne hne _ _
    rw [inHandlerOperations]
    by_cases hwork : ((r.stations i).visit (visits i)).1=true
    · have hcount : receiveWork visits (i::rest) r=receiveWork visits rest r+1 :=
        List.countP_cons_of_pos hwork
      simp only [if_pos hwork]
      by_cases hend : limitcnt+1 ≥ limit
      · rw [if_pos hend,hcount,List.length_singleton]
        omega
      · have hlater := ih (limitcnt+1) { r.update i ((r.stations i).visit (visits i)).2 with
          lastmbxpos := i } hrest
        rw [hsame] at hlater
        rw [if_neg hend,hcount,List.length_cons,Nat.cast_add,hlater]
        omega
    · have hcount : receiveWork visits (i::rest) r=receiveWork visits rest r :=
        List.countP_cons_of_neg hwork
      simp only [if_neg hwork]
      rw [ih _ _ hrest,hsame,hcount]

end Receive

theorem handlerOrder_nodup (n last : Nat) : (handlerOrder n last).Nodup := by
  refine List.Nodup.map_on ?_ List.nodup_range
  intro i hi j hj heq
  have hi' : i < n := List.mem_range.mp hi
  have hj' : j < n := List.mem_range.mp hj
  split_ifs at heq <;> omega

section Send

variable {preop : UInt16 → Bool} {limit : Int}

theorem turnWrites_take (todo : List TxEntry) : ∀ {limitcnt : Int} {k : Nat},
    limit+1-limitcnt=k ∨ limit+1-limitcnt < 0 ∧ k=0 →
    turnWrites preop limit limitcnt todo=
      (((todo.filter fun e => decide e.Pending).take k).filter fun e =>
        decide (e.Due preop)).map TxEntry.message := by
  induction todo with
  | nil =>
    intro limitcnt k _
    simp [turnWrites]
  | cons e rest ih =>
    intro limitcnt k hk
    rw [turnWrites]
    cases k with
    | zero =>
      rw [if_neg (by omega),List.take_zero]
      rfl
    | succ k =>
      rw [if_pos (by omega)]
      by_cases hpending : e.Pending
      · rw [if_pos hpending,List.filter_cons_of_pos (by simpa using hpending),List.take_succ_cons,
          ih (k := k) (by omega)]
        by_cases hdue : e.Due preop
        · rw [if_pos hdue,List.filter_cons_of_pos (by simpa using hdue)]
          rfl
        · rw [if_neg hdue,List.filter_cons_of_neg (by simpa using hdue)]
          rfl
      · have hundue : ¬e.Due preop := fun hdue => hpending hdue.1
        rw [if_neg hpending,if_neg hundue,List.filter_cons_of_neg (by simpa using hpending),
          ih (k := k+1) (by omega)]
        rfl

theorem turnWrites_length_le (preop : UInt16 → Bool) (k : Nat) (todo : List TxEntry) :
    (turnWrites preop k 0 todo).length ≤ k ↔ ¬FirstDue preop k todo := by
  rw [turnWrites_take (k := k+1) todo (by left; omega),List.length_map]
  have hle := List.length_filter_le (fun e => decide (e.Due preop))
    ((todo.filter fun e => decide e.Pending).take (k+1))
  have htake := List.length_take (i := k+1) (l := todo.filter fun e => decide e.Pending)
  constructor
  · rintro hlength ⟨hlong,hall⟩
    have hsame := List.filter_eq_self.mpr fun e he => decide_eq_true (hall e he)
    rw [hsame] at hlength
    omega
  · intro hnot
    by_contra hlong
    have hfull : (((todo.filter fun e => decide e.Pending).take (k+1)).filter fun e =>
        decide (e.Due preop)).length=
          ((todo.filter fun e => decide e.Pending).take (k+1)).length := by
      omega
    refine hnot ⟨by omega,fun e he => ?_⟩
    exact of_decide_eq_true (List.length_filter_eq_length_iff.mp hfull e he)

end Send

/-- A call keeps to its limit exactly if, with a limit of zero, no slave has anything to receive
from, and not all of what the out handler may look at with the rest of the limit, and one entry
more, is written. -/
theorem handler_within_limit_iff (es : List TxEvent) (hc : Along txStep MarkAtTail txInit es)
    (n : Nat) (r : Reception) (visits : Nat → Visit) (preop : UInt16 → Bool) (sent : Nat → Bool)
    (limit : Nat) :
    (mbxHandler n limit visits preop sent r (runFrom txStep txInit es)).operations.length ≤ limit ↔
      (limit=0 → receiveWork visits (handlerOrder n r.lastmbxpos) r=0) ∧
        ¬FirstDue preop (limit-receiveWork visits (handlerOrder n r.lastmbxpos) r)
          (visitOrder preop sent (runFrom txStep txInit es).queue.entries) := by
  have h : TxInv (runFrom txStep txInit es) :=
    invariant_runFrom (I := TxInv) (fun s e h hmark => txStep_inv h e hmark) txInit_inv hc
  have hcount := inHandlerLoop_count limit visits (handlerOrder n r.lastmbxpos) 0 r
  have hreceived := inHandlerOperations_length limit visits (handlerOrder n r.lastmbxpos) 0 r
    (handlerOrder_nodup n r.lastmbxpos)
  simp only [mbxHandler,mbxInHandler,List.length_append,List.length_map,hcount,
    outHandler_writes h.queue]
  generalize (inHandlerOperations limit visits (handlerOrder n r.lastmbxpos) 0 r).length=received
    at hreceived ⊢
  generalize receiveWork visits (handlerOrder n r.lastmbxpos) r=work at hreceived ⊢
  by_cases hzero : limit=0 ∧ 0 < work
  · exact iff_of_false (by omega) fun hboth => absurd (hboth.1 hzero.1) (by omega)
  · have hrest : (limit : Int)-(0+(received : Int))=((limit-work : Nat) : Int) := by omega
    rw [hrest]
    have hwrites := turnWrites_length_le preop (limit-work)
      (visitOrder preop sent (runFrom txStep txInit es).queue.entries)
    constructor
    · intro hle
      exact ⟨by omega,hwrites.mp (by omega)⟩
    · rintro ⟨-,hnot⟩
      have hle := hwrites.mpr hnot
      omega

/-- A group with slaves that have nothing to send. -/
def quietGroup : Reception := Reception.start (fun _ => 128) (fun _ _ => true)

theorem one_entry_within_limit : (mbxHandler 1 1 (fun _ => ⟨.arrives,true,false,0⟩) (fun _ => true)
    (fun _ => true) quietGroup (runFrom txStep txInit (queuedRun 1))).operations.length ≤ 1 :=
  (handler_within_limit_iff (queuedRun 1) (by decide +kernel) 1 quietGroup _ _ _ 1).mpr
    (by decide +kernel)

/-- With two entries queued a limit of one allows two writes. -/
theorem limit_of_one_allows_two :
    (mbxHandler 1 1 (fun _ => ⟨.arrives,true,false,0⟩) (fun _ => true) (fun _ => true) quietGroup
      (runFrom txStep txInit (queuedRun 2))).operations=[.write 0,.write 1] ∧
    ¬∀ es n r visits preop sent (limit : Nat),Along txStep MarkAtTail txInit es →
      (mbxHandler n limit visits preop sent r (runFrom txStep txInit es)).operations.length ≤
        limit := by
  refine ⟨by decide +kernel,fun hclaim => ?_⟩
  have hlength := hclaim (queuedRun 2) 1 quietGroup (fun _ => ⟨.arrives,true,false,0⟩)
    (fun _ => true) (fun _ => true) 1 (by decide +kernel)
  exact absurd hlength (by decide +kernel)

end EtherCATMaster.Mailbox
