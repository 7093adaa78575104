import EtherCATMaster.Framework.Ring

namespace EtherCATMaster.Mailbox

open EtherCATMaster.Framework

/-- `ec_errort`. Of the union, `detail` are the bytes. -/
structure ErrorEntry where
  time : Int × Int
  signal : Bool
  slave : UInt16
  index : UInt16
  subIdx : UInt8
  etype : Nat
  detail : List UInt8
  deriving DecidableEq, Repr

/-- `EC_MAXELIST`, as the build sets it. -/
def ecMaxElist : Nat := 64

/-- `ec_eringt`, and `ecaterror` of the context. -/
structure ErrorList where
  head : Nat
  tail : Nat
  error : Nat → ErrorEntry
  ecaterror : Bool

/-- `ecx_pusherror` -/
def pusherror (elist : ErrorList) (ec : ErrorEntry) : ErrorList :=
  let error := Function.update elist.error elist.head { ec with signal := true }
  let head := elist.head+1
  let head := if head>ecMaxElist then 0 else head
  let tail := if head=elist.tail then elist.tail+1 else elist.tail
  let tail := if tail>ecMaxElist then 0 else tail
  ⟨head,tail,error,true⟩

/-- `ecx_poperror`: whether an error was popped, and what is in `Ec` then. -/
def poperror (elist : ErrorList) : (Bool × ErrorEntry) × ErrorList :=
  let notEmpty := elist.head≠elist.tail
  let ec := elist.error elist.tail
  let error := Function.update elist.error elist.tail { ec with signal := false }
  if notEmpty then
    let tail := elist.tail+1
    let tail := if tail>ecMaxElist then 0 else tail
    ((true,ec),{ elist with tail := tail, error := error })
  else ((false,ec),{ elist with error := error, ecaterror := false })

/-- `ecx_iserror` -/
def iserror (elist : ErrorList) : Bool := elist.head≠elist.tail

/-- A call, and what the caller learns from it. The entry of a pop that fails means nothing. -/
inductive ElistCall where
  | push (ec : ErrorEntry)
  | pop
  | isError

inductive ElistResult where
  | pushed
  | popped (ec : Option ErrorEntry)
  | isError (b : Bool)
  deriving DecidableEq

def ErrorList.call (elist : ErrorList) : ElistCall → ElistResult × ErrorList
  | .push ec => (.pushed,pusherror elist ec)
  | .pop =>
    let ((notEmpty,ec),elist) := poperror elist
    (.popped (if notEmpty then some ec else none),elist)
  | .isError => (.isError (iserror elist),elist)

/-- A queue of at most `capacity` entries, which loses its oldest one when it is full. -/
def queuePush (capacity : Nat) (q : List ErrorEntry) (ec : ErrorEntry) : List ErrorEntry :=
  if q.length<capacity then q++[ec] else (q++[ec]).tail

/-- The calls on a queue, where an entry is pushed with its signal set. -/
def queueCall (capacity : Nat) (q : List ErrorEntry) : ElistCall → ElistResult × List ErrorEntry
  | .push ec => (.pushed,queuePush capacity q { ec with signal := true })
  | .pop => (.popped q.head?,q.tail)
  | .isError => (.isError (!q.isEmpty),q)

/-- The results of calls, one after the other. -/
def results {S : Type} (call : S → ElistCall → ElistResult × S) :
    S → List ElistCall → List ElistResult
  | _,[] => []
  | s,c::cs => (call s c).1::results call (call s c).2 cs

/-- The cells from `tail` to `head` hold the queue, and none but these cells is accessed. -/
structure Holds (elist : ErrorList) (q : List ErrorEntry) : Prop where
  tail : elist.tail<ecMaxElist+1
  length : q.length ≤ ecMaxElist
  head : elist.head=ringIndex (ecMaxElist+1) elist.tail q.length
  cells : ringList (ecMaxElist+1) elist.error elist.tail q.length=q

theorem ringNext_elist (i : Nat) :
    ringNext (ecMaxElist+1) i=if i+1>ecMaxElist then 0 else i+1 := by
  rw [ringNext]
  split_ifs <;> omega

section Steps

variable {elist : ErrorList} {q : List ErrorEntry}

theorem Holds.empty_iff (h : Holds elist q) : elist.head=elist.tail ↔ q=[] := by
  have hlen := h.length
  constructor
  · intro heq
    by_contra hne
    have hpos : 0<q.length := List.length_pos_iff.mpr hne
    rw [h.head] at heq
    have hfull := (ringIndex_eq_start h.tail (Nat.le_succ_of_le hlen) hpos).mp heq
    omega
  · rintro rfl
    rw [h.head]
    exact ringIndex_zero h.tail

theorem Holds.push (h : Holds elist q) (ec : ErrorEntry) :
    Holds (pusherror elist ec) (queuePush ecMaxElist q { ec with signal := true }) := by
  have hlen := h.length
  have htail := h.tail
  have hcells := ringList_push elist.error { ec with signal := true } htail
    (show q.length<ecMaxElist+1 by omega)
  rw [h.cells,← h.head] at hcells
  have hhead : (if elist.head+1>ecMaxElist then 0 else elist.head+1)=
      ringIndex (ecMaxElist+1) elist.tail (q.length+1) := by
    rw [← ringNext_elist,h.head]
    exact ringNext_index htail (by omega)
  have hmeet := ringIndex_eq_start htail (show q.length+1 ≤ ecMaxElist+1 by omega) (Nat.succ_pos _)
  rw [queuePush]
  by_cases hroom : q.length<ecMaxElist
  · have hapart : ringIndex (ecMaxElist+1) elist.tail (q.length+1)≠elist.tail := by
      intro heq
      have := hmeet.mp heq
      omega
    have htail' : (pusherror elist ec).tail=elist.tail := by
      simp only [pusherror]
      rw [hhead,if_neg hapart,if_neg (by omega)]
    rw [if_pos hroom]
    refine ⟨?_,?_,?_,?_⟩
    · rw [htail']
      exact htail
    · rw [List.length_append,List.length_singleton]
      exact hroom
    · rw [htail',List.length_append,List.length_singleton]
      exact hhead
    · rw [htail',List.length_append,List.length_singleton]
      exact hcells
  · have hfull : q.length=ecMaxElist := by omega
    have heq : ringIndex (ecMaxElist+1) elist.tail (q.length+1)=elist.tail :=
      hmeet.mpr (by omega)
    have htail' : (pusherror elist ec).tail=ringNext (ecMaxElist+1) elist.tail := by
      simp only [pusherror]
      rw [hhead,if_pos heq,ringNext_elist]
    have hpop := ringList_pop (n := ecMaxElist+1)
      (Function.update elist.error elist.head { ec with signal := true }) htail
      (show q.length+1 ≤ ecMaxElist+1 by omega)
    have hlast : (q++[{ ec with signal := true }]).tail.length=q.length := by
      rw [List.length_tail,List.length_append,List.length_singleton,Nat.add_sub_cancel]
    rw [if_neg hroom]
    refine ⟨?_,?_,?_,?_⟩
    · rw [htail']
      exact ringNext_lt htail
    · rw [hlast]
      exact hlen
    · rw [htail',hlast,ringIndex_next htail (by omega)]
      exact hhead
    · rw [htail',hlast,← hcells,hpop]
      rfl

theorem Holds.pop (h : Holds elist q) :
    (elist.call .pop).1=.popped q.head? ∧ Holds (elist.call .pop).2 q.tail := by
  have hlen := h.length
  by_cases hempty : elist.head=elist.tail
  · have hq := h.empty_iff.mp hempty
    have hrun : poperror elist=((false,elist.error elist.tail),
        { elist with
          error := Function.update elist.error elist.tail
            { elist.error elist.tail with signal := false }
          ecaterror := false }) := if_neg (not_not_intro hempty)
    subst hq
    refine ⟨?_,?_⟩
    · simp only [ErrorList.call,hrun]
      rfl
    · simp only [ErrorList.call,hrun]
      exact ⟨h.tail,h.length,h.head,rfl⟩
  · obtain ⟨ec,rest,rfl⟩ := List.exists_cons_of_ne_nil (fun hq => hempty (h.empty_iff.mpr hq))
    have hcells := h.cells
    rw [List.length_cons,ringList_pop elist.error h.tail
      (by rw [List.length_cons] at hlen; omega)] at hcells
    obtain ⟨hfirst,hrest⟩ := List.cons.inj hcells
    have hrun : poperror elist=((true,elist.error elist.tail),
        { elist with
          tail := if elist.tail+1>ecMaxElist then 0 else elist.tail+1
          error := Function.update elist.error elist.tail
            { elist.error elist.tail with signal := false } }) := if_pos hempty
    rw [← ringNext_elist] at hrun
    rw [List.length_cons] at hlen
    refine ⟨?_,?_⟩
    · simp only [ErrorList.call,hrun,hfirst]
      rfl
    · simp only [ErrorList.call,hrun]
      refine ⟨ringNext_lt h.tail,by rw [List.tail_cons]; omega,?_,?_⟩
      · change elist.head=_
        rw [h.head,List.length_cons,List.tail_cons,ringIndex_next h.tail (by omega)]
      · rw [List.tail_cons]
        exact (ringList_update_start _ _ h.tail (by omega)).trans hrest

theorem Holds.isError (h : Holds elist q) : iserror elist=!q.isEmpty := by
  rw [iserror]
  cases q with
  | nil => exact decide_eq_false (not_not_intro (h.empty_iff.mpr rfl))
  | cons ec rest =>
    refine decide_eq_true (fun heq => ?_)
    cases h.empty_iff.mp heq

theorem Holds.call (h : Holds elist q) (c : ElistCall) :
    (elist.call c).1=(queueCall ecMaxElist q c).1 ∧
      Holds (elist.call c).2 (queueCall ecMaxElist q c).2 := by
  cases c with
  | push ec => exact ⟨rfl,h.push ec⟩
  | pop => exact h.pop
  | isError => exact ⟨congrArg ElistResult.isError h.isError,h⟩

theorem Holds.results (cs : List ElistCall) : ∀ {elist : ErrorList} {q : List ErrorEntry},
    Holds elist q → Mailbox.results ErrorList.call elist cs=
      Mailbox.results (queueCall ecMaxElist) q cs := by
  induction cs with
  | nil => exact fun _ => rfl
  | cons c cs ih =>
    intro elist q h
    obtain ⟨hresult,hnext⟩ := h.call c
    rw [Mailbox.results,Mailbox.results,hresult,ih hnext]

end Steps

/-- From the empty list on, the calls are those on a queue that loses its oldest entry when it is
full. -/
theorem elist_is_queue (error : Nat → ErrorEntry) (ecaterror : Bool) (cs : List ElistCall) :
    results ErrorList.call ⟨0,0,error,ecaterror⟩ cs=results (queueCall ecMaxElist) [] cs :=
  Holds.results cs ⟨Nat.succ_pos ecMaxElist,Nat.zero_le ecMaxElist,rfl,rfl⟩

end EtherCATMaster.Mailbox
