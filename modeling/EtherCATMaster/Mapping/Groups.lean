import EtherCATMaster.Mapping.Received
import Mathlib.Data.List.Permutation

namespace EtherCATMaster.Mapping

/-- The calls of `ecx_send_processdata_group` and `ecx_receive_processdata_group` for two groups. -/
inductive GroupCall where
  | send (b : Bool)
  | receive (b : Bool)
  deriving DecidableEq, Repr

/-- Each call once, and every receive behind its own send. -/
structure Ordered (o : List GroupCall) : Prop where
  once : o.Perm [.send false,.send true,.receive false,.receive true]
  behind : ∀ b,[GroupCall.send b,GroupCall.receive b].Sublist o

/-- `ecx_pushindex`, with the frame that comes back for the index. -/
def pushFrame (idxstack : List (Datagram × Option Reply)) (f : Datagram × Option Reply) :
    List (Datagram × Option Reply) :=
  if idxstack.length < ecMaxBuf then idxstack++[f] else idxstack

/-- What the groups share, and what the receives have returned, with the IO map at that time. -/
structure Exchange where
  idxstack : List (Datagram × Option Reply)
  iomap : IoMemory
  results : Bool → Option (Int × IoMemory)

/-- What a receive makes of the index stack: it returns the working counter, and copies. -/
def received (idxstack : List (Datagram × Option Reply)) (mem : IoMemory) : Int × IoMemory :=
  let r := receiveProcessdata idxstack receiveStart
  (r.result,copied mem r.copies)

section Calls

variable (overlapped : Bool) (g : Bool → Group) (replies : Bool → List Reply)

/-- The index stack is the same for both groups, and a receive does not look at its group. -/
def Exchange.call (s : Exchange) : GroupCall → Option Exchange
  | .send b => do
      let (_,ds,mem) ← sendProcessdata overlapped (g b) s.iomap
      some { s with
        idxstack := (ds.zip ((replies b).map some)).foldl pushFrame s.idxstack, iomap := mem }
  | .receive b =>
      let r := received s.idxstack s.iomap
      some ⟨[],r.2,Function.update s.results b (some r)⟩

def Exchange.calls : List GroupCall → Exchange → Option Exchange
  | [],s => some s
  | call::rest,s => do
      let s ← s.call overlapped g replies call
      Exchange.calls rest s

end Calls

def Exchange.start (mem : IoMemory) : Exchange := ⟨[],mem,fun _ => none⟩

/-- What a frame counts. With distributed clocks its working counter is that of the datagram with
the data. -/
def frameCount (d : Datagram) (reply : Reply) : Int :=
  (if d.dc=true then (reply.leWkc.toNat : Int) else reply.wkc)*(if d.command=.lwr then 2 else 1)

def frameCounts : List (Datagram × Reply) → Int
  | [] => 0
  | f::rest => frameCount f.1 f.2+frameCounts rest

def ownCounter (frames : List (Datagram × Reply)) : Int :=
  if frames=[] then ecNoFrame else frameCounts frames

def Refreshed (frames : List (Datagram × Reply)) (mem : IoMemory) : Prop :=
  ∀ f ∈ frames,f.1.command≠.lwr → ∀ k,k<f.1.length → mem (f.1.dest+k)=f.2.bytes.getD k 0

/-- All frames come back. -/
structure NoLoss (ds : List Datagram) (replies : List Reply) : Prop where
  length : replies.length=ds.length
  back : ∀ r ∈ replies,r.wkc>ecNoFrame

/-- Each of the two receives returns the working counter of its own group, and has refreshed the
inputs of it. -/
def Isolated (overlapped : Bool) (g : Bool → Group) (ds : Bool → List Datagram)
    (replies : Bool → List Reply) (mem : IoMemory) (o : List GroupCall) : Prop :=
  ∃ s,Exchange.calls overlapped g replies o (Exchange.start mem)=some s ∧
    ∀ b,∃ wkc mem',s.results b=some (wkc,mem') ∧ wkc=ownCounter ((ds b).zip (replies b)) ∧
      Refreshed ((ds b).zip (replies b)) mem'

/-- When the frames of group `b` are received, those of the other group are out, too. -/
def Overlapping (o : List GroupCall) (b : Bool) : Prop :=
  [GroupCall.send (!b),GroupCall.receive b,GroupCall.receive (!b)].Sublist o

section Orders

theorem Ordered.cases {o : List GroupCall} (h : Ordered o) :
    ∃ b,o=[.send b,.receive b,.send (!b),.receive (!b)] ∨
      o=[.send b,.send (!b),.receive b,.receive (!b)] ∨
      o=[.send (!b),.send b,.receive b,.receive (!b)] := by
  have hall : ∀ o ∈ [GroupCall.send false,.send true,.receive false,.receive true].permutations',
      (∀ b,[GroupCall.send b,GroupCall.receive b].Sublist o) →
      ∃ b,o=[.send b,.receive b,.send (!b),.receive (!b)] ∨
        o=[.send b,.send (!b),.receive b,.receive (!b)] ∨
        o=[.send (!b),.send b,.receive b,.receive (!b)] := by decide +kernel
  exact hall o (List.mem_permutations'.mpr h.once) h.behind

theorem overlapping_serial (b b' : Bool) :
    ¬Overlapping [.send b,.receive b,.send (!b),.receive (!b)] b' := by
  rw [Overlapping]
  revert b b'
  decide

theorem overlapping_first (b b' : Bool) :
    (Overlapping [.send b,.send (!b),.receive b,.receive (!b)] b' ↔ b'=b) ∧
      (Overlapping [.send (!b),.send b,.receive b,.receive (!b)] b' ↔ b'=b) := by
  rw [Overlapping,Overlapping]
  revert b b'
  decide

end Orders

section Stack

theorem pushFrames_eq (fs : List (Datagram × Option Reply))
    {idxstack : List (Datagram × Option Reply)} (hroom : idxstack.length ≤ ecMaxBuf) :
    fs.foldl pushFrame idxstack=(idxstack++fs).take ecMaxBuf := by
  induction fs generalizing idxstack with
  | nil =>
    rw [List.append_nil]
    exact (List.take_of_length_le hroom).symm
  | cons f rest ih =>
    rw [List.foldl_cons,pushFrame]
    split_ifs with hless
    · have hlen : (idxstack++[f]).length ≤ ecMaxBuf := by
        rw [List.length_append,List.length_singleton]
        exact hless
      rw [ih hlen,List.append_assoc,List.singleton_append]
    · have hfull : idxstack.length=ecMaxBuf := Nat.le_antisymm hroom (Nat.not_lt.mp hless)
      rw [ih hroom,← hfull,List.take_left,List.take_left]

theorem frameCounts_append (xs ys : List (Datagram × Reply)) :
    frameCounts (xs++ys)=frameCounts xs+frameCounts ys := by
  induction xs with
  | nil => simp [frameCounts]
  | cons f rest ih => rw [List.cons_append,frameCounts,frameCounts,ih,Int.add_assoc]

theorem frameCount_nonneg {d : Datagram} {reply : Reply} (h : reply.wkc>ecNoFrame) :
    0 ≤ frameCount d reply := by
  have hwkc : 0 ≤ reply.wkc := h
  rw [frameCount]
  split_ifs <;> omega

theorem frameCounts_nonneg {fs : List (Datagram × Reply)} (h : ∀ f ∈ fs,f.2.wkc>ecNoFrame) :
    0 ≤ frameCounts fs := by
  induction fs with
  | nil => exact Int.le_refl 0
  | cons f rest ih =>
    obtain ⟨hf,hrest⟩ := List.forall_mem_cons.mp h
    exact Int.add_nonneg (frameCount_nonneg hf) (ih hrest)

theorem receiveProcessdata_counts {fs : List (Datagram × Reply)} (hdc : ∀ f ∈ fs,f.1.dc=false)
    (hback : ∀ f ∈ fs,f.2.wkc>ecNoFrame) (r : ReceiveRun) :
    (receiveProcessdata (fs.map fun f => (f.1,some f.2)) r).wkc=r.wkc+frameCounts fs ∧
      (receiveProcessdata (fs.map fun f => (f.1,some f.2)) r).valid=(r.valid || !fs.isEmpty) := by
  induction fs generalizing r with
  | nil => simp [receiveProcessdata,frameCounts]
  | cons f rest ih =>
    obtain ⟨hf,hrest⟩ := List.forall_mem_cons.mp hdc
    obtain ⟨hb,hbrest⟩ := List.forall_mem_cons.mp hback
    have hframe : (receiveFrame r f.1 (some f.2)).wkc=r.wkc+frameCount f.1 f.2 ∧
        (receiveFrame r f.1 (some f.2)).valid=true := by
      simp [receiveFrame,hb,hf,frameCount]
    rw [List.map_cons,receiveProcessdata]
    obtain ⟨hwkc,hvalid⟩ := ih hrest hbrest (receiveFrame r f.1 (some f.2))
    rw [hframe.1] at hwkc
    rw [hframe.2] at hvalid
    constructor
    · rw [hwkc,frameCounts,Int.add_assoc]
    · rw [hvalid]
      simp

def FirstDc (fs : List (Datagram × Reply)) : Prop := ∀ f ∈ fs.tail,f.1.dc=false

theorem received_wkc {fs : List (Datagram × Reply)} (hdc : FirstDc fs)
    (hback : ∀ f ∈ fs,f.2.wkc>ecNoFrame) (mem : IoMemory) :
    (received (fs.map fun f => (f.1,some f.2)) mem).1=ownCounter fs := by
  cases fs with
  | nil => rfl
  | cons f rest =>
    obtain ⟨hb,hbrest⟩ := List.forall_mem_cons.mp hback
    have hframe : (receiveFrame receiveStart f.1 (some f.2)).wkc=frameCount f.1 f.2 ∧
        (receiveFrame receiveStart f.1 (some f.2)).valid=true := by
      cases hclock : f.1.dc <;> simp [receiveFrame,receiveStart,hb,hclock,frameCount]
    have hlater : ∀ f ∈ rest,f.1.dc=false := hdc
    obtain ⟨hwkc,hvalid⟩ := receiveProcessdata_counts hlater hbrest
      (receiveFrame receiveStart f.1 (some f.2))
    rw [hframe.1] at hwkc
    rw [hframe.2,Bool.true_or] at hvalid
    rw [received,List.map_cons,receiveProcessdata,ownCounter,if_neg (List.cons_ne_nil f rest)]
    simp only [ReceiveRun.result]
    rw [if_pos hvalid]
    exact hwkc

def Apart (ds : List Datagram) : Prop :=
  ds.Pairwise (fun d e => d.command≠.lwr → e.command≠.lwr → d.dest+d.length ≤ e.dest)

theorem copied_other {copies : List (Nat × List UInt8)} {x : Nat}
    (h : ∀ c ∈ copies,x < c.1 ∨ c.1+c.2.length ≤ x) (mem : IoMemory) :
    copied mem copies x=mem x := by
  induction copies generalizing mem with
  | nil => rfl
  | cons c rest ih =>
    obtain ⟨hc,hrest⟩ := List.forall_mem_cons.mp h
    have hout : ¬(c.1 ≤ x ∧ x < c.1+c.2.length) := by omega
    rw [copied,List.foldl_cons]
    change copied (writeBytes mem c.1 c.2) rest x=mem x
    rw [ih hrest,writeBytes,if_neg hout]

theorem copyOf_back {d : Datagram} {reply : Reply} (hback : reply.wkc>ecNoFrame)
    (hread : d.command≠.lwr) :
    copyOf d (some reply)=some (d.dest,readBytes (reply.bytes.getD · 0) 0 d.length) := by
  simp only [copyOf]
  rw [if_pos ⟨hback,hread⟩]

theorem copyOf_dest {d : Datagram} {reply : Option Reply} {c : Nat × List UInt8}
    (h : copyOf d reply=some c) : d.command≠.lwr ∧ c.1=d.dest ∧ c.2.length=d.length := by
  cases reply with
  | none => cases h
  | some reply =>
    simp only [copyOf] at h
    split_ifs at h with hback
    cases h
    refine ⟨hback.2,rfl,?_⟩
    rw [readBytes_length]

theorem received_refreshed {fs : List (Datagram × Reply)} (hapart : Apart (fs.map Prod.fst))
    (hback : ∀ f ∈ fs,f.2.wkc>ecNoFrame) (mem : IoMemory) :
    Refreshed fs (copied mem ((fs.map fun f => (f.1,some f.2)).filterMap
      fun f => copyOf f.1 f.2)) := by
  induction fs generalizing mem with
  | nil =>
    intro f hf
    cases hf
  | cons f rest ih =>
    obtain ⟨hb,hbrest⟩ := List.forall_mem_cons.mp hback
    rw [Apart,List.map_cons,List.pairwise_cons] at hapart
    intro e he hread k hk
    rw [List.map_cons,List.filterMap_cons]
    rcases List.mem_cons.mp he with rfl|he
    · simp only [copyOf_back hb hread]
      rw [copied,List.foldl_cons]
      -- what comes behind lies behind
      refine (copied_other ?_ _).trans ?_
      · intro c hc
        obtain ⟨f',hf',hcopy⟩ := List.mem_filterMap.mp hc
        obtain ⟨f,hf,rfl⟩ := List.mem_map.mp hf'
        obtain ⟨hfread,hdest,-⟩ := copyOf_dest hcopy
        have hbehind := hapart.1 f.1 (List.mem_map_of_mem hf) hread hfread
        exact .inl (by rw [hdest]; exact Nat.lt_of_lt_of_le (Nat.add_lt_add_left hk _) hbehind)
      · have hin : e.1.dest ≤ e.1.dest+k ∧ e.1.dest+k < e.1.dest+e.1.length :=
          ⟨Nat.le_add_right _ _,by omega⟩
        rw [writeBytes,readBytes_length,if_pos hin,Nat.add_sub_cancel_left,readBytes,
          List.getD_eq_getElem?_getD,List.getElem?_map,List.getElem?_range hk]
        simp
    · cases hcopy : copyOf f.1 (some f.2) with
      | none => exact ih hapart.2 hbrest mem e he hread k hk
      | some c => exact ih hapart.2 hbrest (writeBytes mem c.1 c.2) e he hread k hk

theorem zip_some (ds : List Datagram) (replies : List Reply) :
    ds.zip (replies.map some)=(ds.zip replies).map fun f => (f.1,some f.2) := by
  rw [List.zip_map_right]
  rfl

end Stack

section Sent

theorem sendSegments_apart (command : Command) (moved : Nat) (segments : List Nat) (length : Int)
    (logAdr data : Nat) :
    Apart (sendSegments command moved segments length logAdr data) ∧
      ∀ d ∈ sendSegments command moved segments length logAdr data,
        data+moved ≤ d.dest ∧ d.dc=false := by
  induction segments generalizing length logAdr data with
  | nil => exact ⟨List.Pairwise.nil,fun d hd => by cases hd⟩
  | cons s rest ih =>
    obtain ⟨hapart,hdest⟩ := ih (length-s) (logAdr+s) (data+s)
    rw [sendSegments]
    split_ifs
    · refine ⟨List.pairwise_cons.mpr ⟨?_,hapart⟩,?_⟩
      · intro e he _ _
        have := (hdest e he).1
        simp only
        omega
      · intro d hd
        rcases List.mem_cons.mp hd with rfl|hd
        · exact ⟨Nat.le_refl _,rfl⟩
        · have := hdest d hd
          exact ⟨by omega,this.2⟩
    · refine ⟨List.pairwise_singleton _ _,?_⟩
      intro d hd
      rw [List.mem_singleton.mp hd]
      exact ⟨Nat.le_refl _,rfl⟩

theorem sendOutputs_write (segments : List Nat) (length : Int) (logAdr data : Nat) :
    ∀ d ∈ sendOutputs segments length logAdr data,d.command=.lwr ∧ d.dc=false := by
  induction segments generalizing length logAdr data with
  | nil =>
    intro d hd
    cases hd
  | cons s rest ih =>
    intro d hd
    simp only [sendOutputs] at hd
    rcases List.mem_cons.mp hd with rfl|hd
    · exact ⟨rfl,rfl⟩
    · generalize (if length-(shorten s : Int) < 0 then shorten length.toNat else shorten s)=n at hd
      split_ifs at hd
      · exact ih _ _ _ d hd
      · cases hd

theorem apart_append {xs ys : List Datagram} (hxs : Apart xs) (hys : ∀ d ∈ ys,d.command=.lwr) :
    Apart (xs++ys) := by
  refine List.pairwise_append.mpr ⟨hxs,?_,?_⟩
  · apply List.Pairwise.imp_of_mem (R := fun _ _ => True)
    · intro d e hd _ _ hread
      exact absurd (hys d hd) hread
    · exact List.pairwise_of_forall fun _ _ => trivial
  · intro d _ e he _ hread
    exact absurd (hys e he) hread

theorem withDc_apart {ds : List Datagram} (hasdc : Bool) (h : Apart ds) :
    Apart (withDc hasdc ds) := by
  cases ds with
  | nil => exact h
  | cons d rest =>
    rw [Apart,List.pairwise_cons] at h
    exact List.pairwise_cons.mpr h

theorem withDc_tail {ds : List Datagram} (hasdc : Bool) (h : ∀ d ∈ ds,d.dc=false) :
    ∀ d ∈ (withDc hasdc ds).tail,d.dc=false := by
  cases ds with
  | nil => exact h
  | cons d rest => exact fun e he => h e (List.mem_cons_of_mem d he)

/-- The frames of a group are apart, and the first one alone carries the clocks. -/
theorem groupDatagrams_shape {overlapped : Bool} {g : Group} {ds : List Datagram}
    (h : groupDatagrams overlapped g=some ds) : Apart ds ∧ ∀ d ∈ ds.tail,d.dc=false := by
  have hnil : Apart [] ∧ ∀ d ∈ ([] : List Datagram),d.dc=false :=
    ⟨List.Pairwise.nil,fun d hd => by cases hd⟩
  have hreads : ∀ command moved segments length logAdr data,
      Apart (sendSegments command moved segments length logAdr data) ∧
        ∀ d ∈ sendSegments command moved segments length logAdr data,d.dc=false := by
    intro command moved segments length logAdr data
    obtain ⟨hapart,hdc⟩ := sendSegments_apart command moved segments length logAdr data
    exact ⟨hapart,fun d hd => (hdc d hd).2⟩
  have hshape : ∀ reads writes : List Datagram,(Apart reads ∧ ∀ d ∈ reads,d.dc=false) →
      (∀ d ∈ writes,d.command=.lwr ∧ d.dc=false) → withDc g.hasdc (reads++writes)=ds →
      Apart ds ∧ ∀ d ∈ ds.tail,d.dc=false := by
    intro reads writes hr hw heq
    rw [← heq]
    refine ⟨withDc_apart _ (apart_append hr.1 fun d hd => (hw d hd).1),withDc_tail _ ?_⟩
    intro d hd
    rcases List.mem_append.mp hd with hd|hd
    · exact hr.2 d hd
    · exact (hw d hd).2
  have hnone : ∀ d ∈ ([] : List Datagram),d.command=.lwr ∧ d.dc=false := fun d hd => by cases hd
  have hlrw : ∀ moved data,withDc g.hasdc (sendSegments .lrw moved (g.iosegment.map shorten)
      (frameLength overlapped g) g.logstartaddr data)=ds → Apart ds ∧ ∀ d ∈ ds.tail,d.dc=false := by
    intro moved data heq
    rw [← List.append_nil (sendSegments _ _ _ _ _ _)] at heq
    exact hshape _ _ (hreads _ _ _ _ _ _) hnone heq
  rw [groupDatagrams] at h
  split_ifs at h with hlen hblock hread hwrite
  all_goals try simp only [bind,Option.bind_eq_some_iff,Option.bind_some,Option.some.injEq] at h
  · rw [← h]
    exact hnil
  · obtain ⟨inputs,-,outputs,-,heq⟩ := h
    exact hshape _ _ (hreads _ _ _ _ _ _) (sendOutputs_write _ _ _ _) heq
  · obtain ⟨outputs,-,heq⟩ := h
    exact hshape _ _ hnil (sendOutputs_write _ _ _ _) heq
  · obtain ⟨inputs,-,heq⟩ := h
    exact hshape _ _ (hreads _ _ _ _ _ _) hnone heq
  · exact hshape _ _ hnil hnone h
  all_goals
    obtain ⟨data,-,heq⟩ := h
    exact hlrw _ data heq

end Sent

section Runs

variable {overlapped : Bool} {g : Bool → Group} {ds : Bool → List Datagram}
variable (replies : Bool → List Reply)

/-- The two groups can be sent: their pointers point into the IO map. -/
def Sendable (overlapped : Bool) (g : Bool → Group) (ds : Bool → List Datagram) : Prop :=
  ∀ b mem,∃ wkc mem',sendProcessdata overlapped (g b) mem=some (wkc,ds b,mem')

def groupFrames (ds : Bool → List Datagram) (replies : Bool → List Reply) (b : Bool) :
    List (Datagram × Option Reply) := (ds b).zip ((replies b).map some)

theorem calls_send (hsend : Sendable overlapped g ds) (b : Bool) (rest : List GroupCall)
    (s : Exchange) : ∃ mem,Exchange.calls overlapped g replies (.send b::rest) s=
      Exchange.calls overlapped g replies rest
        ⟨(groupFrames ds replies b).foldl pushFrame s.idxstack,mem,s.results⟩ := by
  obtain ⟨wkc,mem',h⟩ := hsend b s.iomap
  refine ⟨mem',?_⟩
  rw [Exchange.calls,Exchange.call,h]
  rfl

theorem calls_receive (b : Bool) (rest : List GroupCall) (s : Exchange) :
    Exchange.calls overlapped g replies (.receive b::rest) s=
      Exchange.calls overlapped g replies rest ⟨[],(received s.idxstack s.iomap).2,
        Function.update s.results b (some (received s.idxstack s.iomap))⟩ := rfl

theorem update_both {α : Type} (f : Bool → Option α) (b : Bool) (x y : α) :
    Function.update (Function.update f b (some x)) (!b) (some y) b=some x ∧
      Function.update (Function.update f b (some x)) (!b) (some y) (!b)=some y := by
  constructor
  · rw [Function.update_of_ne (by cases b <;> decide),Function.update_self]
  · exact Function.update_self _ _ _

theorem calls_serial (hsend : Sendable overlapped g ds) (b : Bool) (mem : IoMemory) :
    ∃ s m1 m2,Exchange.calls overlapped g replies
        [.send b,.receive b,.send (!b),.receive (!b)] (Exchange.start mem)=some s ∧
      s.results b=some (received ((groupFrames ds replies b).foldl pushFrame []) m1) ∧
      s.results (!b)=some (received ((groupFrames ds replies (!b)).foldl pushFrame []) m2) := by
  obtain ⟨m1,h1⟩ := calls_send replies hsend b
    [.receive b,.send (!b),.receive (!b)] (Exchange.start mem)
  rw [h1,calls_receive]
  obtain ⟨m2,h2⟩ := calls_send replies hsend (!b) [.receive (!b)] _
  rw [h2,calls_receive]
  exact ⟨_,m1,m2,rfl,update_both _ b _ _⟩

theorem calls_overlapping (hsend : Sendable overlapped g ds) (b c : Bool) (mem : IoMemory) :
    ∃ s m1 m2,Exchange.calls overlapped g replies
        [.send c,.send (!c),.receive b,.receive (!b)] (Exchange.start mem)=some s ∧
      s.results b=some (received ((groupFrames ds replies (!c)).foldl pushFrame
        ((groupFrames ds replies c).foldl pushFrame [])) m1) ∧
      s.results (!b)=some (received [] m2) := by
  obtain ⟨m1,h1⟩ := calls_send replies hsend c
    [.send (!c),.receive b,.receive (!b)] (Exchange.start mem)
  rw [h1]
  obtain ⟨m2,h2⟩ := calls_send replies hsend (!c) [.receive b,.receive (!b)] _
  rw [h2,calls_receive,calls_receive]
  exact ⟨_,m2,_,rfl,update_both _ b _ _⟩

theorem Sendable.shape (hsend : Sendable overlapped g ds) (b : Bool) :
    Apart (ds b) ∧ ∀ d ∈ (ds b).tail,d.dc=false := by
  obtain ⟨wkc,mem',h⟩ := hsend b (fun _ => 0)
  obtain ⟨mem1,-,h⟩ := Option.bind_eq_some_iff.mp h
  obtain ⟨ds1,hds1,h⟩ := Option.bind_eq_some_iff.mp h
  cases h
  exact groupDatagrams_shape hds1

theorem groupFrames_eq (b : Bool) :
    groupFrames ds replies b=((ds b).zip (replies b)).map fun f => (f.1,some f.2) :=
  zip_some (ds b) (replies b)

variable {replies}

theorem zip_firstDc {xs : List Datagram} (h : ∀ d ∈ xs.tail,d.dc=false) (rs : List Reply) :
    FirstDc (xs.zip rs) := by
  intro f hf
  cases xs with
  | nil => cases hf
  | cons d xs =>
    cases rs with
    | nil => cases hf
    | cons r rs => exact h f.1 (List.of_mem_zip (show (f.1,f.2) ∈ xs.zip rs from hf)).1

theorem own_received (hsend : Sendable overlapped g ds) {b : Bool}
    (hloss : NoLoss (ds b) (replies b)) (hlen : (ds b).length ≤ ecMaxBuf) (mem : IoMemory) :
    (received ((groupFrames ds replies b).foldl pushFrame []) mem).1=
        ownCounter ((ds b).zip (replies b)) ∧
      Refreshed ((ds b).zip (replies b))
        (received ((groupFrames ds replies b).foldl pushFrame []) mem).2 := by
  obtain ⟨hapart,hdc⟩ := hsend.shape b
  have hback : ∀ f ∈ (ds b).zip (replies b),f.2.wkc>ecNoFrame := fun f hf =>
    hloss.back f.2 (List.of_mem_zip (show (f.1,f.2) ∈ _ from hf)).2
  have hall : (groupFrames ds replies b).foldl pushFrame []=
      ((ds b).zip (replies b)).map fun f => (f.1,some f.2) := by
    rw [pushFrames_eq _ (Nat.zero_le _),List.nil_append,groupFrames_eq,List.take_of_length_le]
    rw [List.length_map,List.length_zip]
    exact (Nat.min_le_left _ _).trans hlen
  have hfst : ((ds b).zip (replies b)).map Prod.fst=ds b :=
    List.map_fst_zip (le_of_eq hloss.length.symm)
  rw [hall]
  refine ⟨received_wkc (zip_firstDc hdc _) hback mem,?_⟩
  rw [received,receiveProcessdata_copies]
  exact received_refreshed (by rw [hfst]; exact hapart) hback mem

def lateReplies (n : Nat) : List Reply :=
  List.replicate ecMaxBuf ⟨0,[],0,0⟩++List.replicate (n-ecMaxBuf) emptyReply

theorem lateReplies_noLoss {xs : List Datagram} (hlen : ecMaxBuf ≤ xs.length) :
    NoLoss xs (lateReplies xs.length) := by
  constructor
  · rw [lateReplies,List.length_append,List.length_replicate,List.length_replicate]
    omega
  · intro r hr
    rcases List.mem_append.mp hr with hr|hr
    · rw [List.eq_of_mem_replicate hr]
      decide
    · rw [List.eq_of_mem_replicate hr]
      decide

theorem frameCounts_zero (xs : List Datagram) (n : Nat) :
    frameCounts (xs.zip (List.replicate n ⟨0,[],0,0⟩))=0 := by
  induction xs generalizing n with
  | nil => rfl
  | cons d rest ih =>
    cases n with
    | zero => rfl
    | succ n =>
      rw [List.replicate_succ,List.zip_cons_cons,frameCounts,ih]
      simp [frameCount]

theorem frameCounts_pos {xs : List Datagram} (hne : xs≠[]) (hdc : ∀ d ∈ xs,d.dc=false) :
    0 < frameCounts (xs.zip (List.replicate xs.length emptyReply)) := by
  cases xs with
  | nil => exact absurd rfl hne
  | cons d rest =>
    have hback : ∀ f ∈ rest.zip (List.replicate rest.length emptyReply),f.2.wkc>ecNoFrame := by
      intro f hf
      have hmem := (List.of_mem_zip (show (f.1,f.2) ∈ _ from hf)).2
      rw [List.eq_of_mem_replicate hmem]
      decide
    have hrest := frameCounts_nonneg hback
    have hfirst : 0 < frameCount d emptyReply := by
      rw [frameCount,hdc d List.mem_cons_self,if_neg Bool.false_ne_true]
      simp only [emptyReply]
      split_ifs <;> decide
    rw [List.length_cons,List.replicate_succ,List.zip_cons_cons,frameCounts]
    exact Int.add_pos_of_pos_of_nonneg hfirst hrest

/-- Frames that find no room on the index stack are missing in the working counter. -/
theorem late_received (hsend : Sendable overlapped g ds) {b : Bool}
    (hreplies : replies b=lateReplies (ds b).length) (hlen : ecMaxBuf < (ds b).length)
    (mem : IoMemory) :
    (received ((groupFrames ds replies b).foldl pushFrame []) mem).1≠
      ownCounter ((ds b).zip (replies b)) := by
  have hdc := (hsend.shape b).2
  -- the frames on the stack, and those beyond
  have hsplit : (ds b).zip (replies b)=
      ((ds b).take ecMaxBuf).zip (List.replicate ecMaxBuf ⟨0,[],0,0⟩)++
        ((ds b).drop ecMaxBuf).zip (List.replicate ((ds b).drop ecMaxBuf).length emptyReply) := by
    rw [← List.zip_append (by rw [List.length_take,List.length_replicate]; omega),
      List.take_append_drop,hreplies,lateReplies,List.length_drop]
  have hfront : (((ds b).take ecMaxBuf).zip
      (List.replicate ecMaxBuf (⟨0,[],0,0⟩ : Reply))).length=ecMaxBuf := by
    rw [List.length_zip,List.length_take,List.length_replicate]
    omega
  have hpushed : (groupFrames ds replies b).foldl pushFrame []=
      (((ds b).take ecMaxBuf).zip (List.replicate ecMaxBuf ⟨0,[],0,0⟩)).map
        fun f => (f.1,some f.2) := by
    rw [pushFrames_eq _ (Nat.zero_le _),List.nil_append,groupFrames_eq,← List.map_take,hsplit,
      List.take_left' hfront]
  have hback : ∀ f ∈ ((ds b).take ecMaxBuf).zip (List.replicate ecMaxBuf (⟨0,[],0,0⟩ : Reply)),
      f.2.wkc>ecNoFrame := by
    intro f hf
    rw [List.eq_of_mem_replicate (List.of_mem_zip (show (f.1,f.2) ∈ _ from hf)).2]
    decide
  have hfirst : ∀ d ∈ ((ds b).take ecMaxBuf).tail,d.dc=false := by
    intro d hd
    rw [← List.drop_one] at hd hdc
    rw [List.drop_take] at hd
    exact hdc d (List.mem_of_mem_take hd)
  have hlate : ∀ d ∈ (ds b).drop ecMaxBuf,d.dc=false := by
    intro d hd
    rw [← List.drop_one] at hdc
    have hdrop : (ds b).drop ecMaxBuf=((ds b).drop 1).drop (ecMaxBuf-1) := by
      rw [List.drop_drop]
      rfl
    rw [hdrop] at hd
    exact hdc d (List.mem_of_mem_drop hd)
  have hne : (ds b).drop ecMaxBuf≠[] := by
    intro hnil
    have := congrArg List.length hnil
    rw [List.length_drop,List.length_nil] at this
    omega
  rw [hpushed,received_wkc (zip_firstDc hfirst _) hback mem,hsplit]
  have hpos := frameCounts_pos hne hlate
  have hfrontne : ((ds b).take ecMaxBuf).zip
      (List.replicate ecMaxBuf (⟨0,[],0,0⟩ : Reply))≠[] := by
    intro hnil
    rw [hnil] at hfront
    exact absurd hfront (by decide)
  rw [ownCounter,if_neg hfrontne,ownCounter,if_neg (fun hnil =>
    hfrontne (List.append_eq_nil_iff.mp hnil).1),frameCounts_append,frameCounts_zero]
  omega

theorem noLoss_all (xs : List Datagram) : NoLoss xs (List.replicate xs.length emptyReply) := by
  refine ⟨List.length_replicate,?_⟩
  intro r hr
  rw [List.eq_of_mem_replicate hr]
  decide

theorem empty_received {xs : List Datagram} {rs : List Reply} (hloss : NoLoss xs rs)
    (mem : IoMemory) : (received [] mem).1=ownCounter (xs.zip rs) ↔ xs=[] := by
  have hnone : (received [] mem).1=ecNoFrame := rfl
  rw [hnone]
  constructor
  · intro heq
    by_contra hne
    have hback : ∀ f ∈ xs.zip rs,f.2.wkc>ecNoFrame := fun f hf =>
      hloss.back f.2 (List.of_mem_zip (show (f.1,f.2) ∈ _ from hf)).2
    have hzip : xs.zip rs≠[] := by
      intro hnil
      have hlen := congrArg List.length hnil
      rw [List.length_zip,hloss.length,Nat.min_self,List.length_nil] at hlen
      exact hne (List.eq_nil_of_length_eq_zero hlen)
    rw [ownCounter,if_neg hzip] at heq
    have hnonneg := frameCounts_nonneg hback
    rw [← heq] at hnonneg
    exact absurd hnonneg (by decide)
  · intro hnil
    rw [hnil]
    rfl

theorem overlapping_stack {b c : Bool} (hc : c=b ∨ c=!b) (hnil : ds (!b)=[]) :
    (groupFrames ds replies (!c)).foldl pushFrame ((groupFrames ds replies c).foldl pushFrame [])=
      (groupFrames ds replies b).foldl pushFrame [] := by
  have hnone : groupFrames ds replies (!b)=[] := by rw [groupFrames,hnil,List.zip_nil_left]
  rcases hc with rfl|rfl
  · rw [hnone]
    rfl
  · rw [Bool.not_not,hnone]
    rfl

/-- What a receive needs to be isolated: all its frames on the stack, and none of the other group. -/
def Separate (ds : Bool → List Datagram) (o : List GroupCall) : Prop :=
  ∀ b,(ds b).length ≤ ecMaxBuf ∧ (Overlapping o b → ds (!b)=[])

theorem separate_isolated (hsend : Sendable overlapped g ds) {o : List GroupCall}
    (ho : Ordered o) (hsep : Separate ds o) (hloss : ∀ b,NoLoss (ds b) (replies b))
    (mem : IoMemory) : Isolated overlapped g ds replies mem o := by
  obtain ⟨b,hcases⟩ := ho.cases
  have hown := fun b mem => own_received hsend (hloss b) (hsep b).1 mem
  -- behind both sends, with nothing sent for the second group
  have hfirst : ∀ c,c=b ∨ c=!b → ds (!b)=[] →
      Isolated overlapped g ds replies mem [.send c,.send (!c),.receive b,.receive (!b)] := by
    intro c hc hnil
    obtain ⟨s,m1,m2,hrun,hres,hother⟩ := calls_overlapping replies hsend b c mem
    rw [overlapping_stack hc hnil] at hres
    refine ⟨s,hrun,?_⟩
    intro b'
    by_cases hb : b'=b
    · rw [hb]
      exact ⟨_,_,hres,hown b m1⟩
    · rw [Bool.eq_not_of_ne hb]
      refine ⟨_,_,hother,(empty_received (hloss (!b)) m2).mpr hnil,?_⟩
      rw [hnil]
      intro f hf
      cases hf
  rcases hcases with rfl|rfl|rfl
  · obtain ⟨s,m1,m2,hrun,hres,hother⟩ := calls_serial replies hsend b mem
    refine ⟨s,hrun,?_⟩
    intro b'
    by_cases hb : b'=b
    · rw [hb]
      exact ⟨_,_,hres,hown b m1⟩
    · rw [Bool.eq_not_of_ne hb]
      exact ⟨_,_,hother,hown (!b) m2⟩
  · exact hfirst b (.inl rfl) ((hsep b).2 ((overlapping_first b b).1.mpr rfl))
  · have hnil := (hsep b).2 ((overlapping_first b b).2.mpr rfl)
    have hrun := hfirst (!b) (.inr rfl) hnil
    rw [Bool.not_not] at hrun
    exact hrun

theorem isolated_separate (hsend : Sendable overlapped g ds) {o : List GroupCall}
    (ho : Ordered o) (h : ∀ replies,(∀ b,NoLoss (ds b) (replies b)) →
      ∀ mem,Isolated overlapped g ds replies mem o) : Separate ds o := by
  obtain ⟨b,hcases⟩ := ho.cases
  -- the replies that show a frame missing
  have hlate : ∀ b',∃ replies : Bool → List Reply,(∀ b,NoLoss (ds b) (replies b)) ∧
      (ecMaxBuf < (ds b').length → replies b'=lateReplies (ds b').length) := by
    intro b'
    by_cases hlen : ecMaxBuf < (ds b').length
    · refine ⟨Function.update (fun b => List.replicate (ds b).length emptyReply) b'
        (lateReplies (ds b').length),?_,fun _ => Function.update_self _ _ _⟩
      intro b
      by_cases hb : b=b'
      · rw [hb,Function.update_self]
        exact lateReplies_noLoss hlen.le
      · rw [Function.update_of_ne hb]
        exact noLoss_all (ds b)
    · exact ⟨fun b => List.replicate (ds b).length emptyReply,fun b => noLoss_all (ds b),
        fun hc => absurd hc hlen⟩
  have hfirst : ∀ c,c=b ∨ c=!b → o=[.send c,.send (!c),.receive b,.receive (!b)] →
      ds (!b)=[] ∧ (ds b).length ≤ ecMaxBuf := by
    intro c hc hcalls
    have hnil : ds (!b)=[] := by
      obtain ⟨s,hs,hres⟩ := h _ (fun b => noLoss_all (ds b)) (fun _ => 0)
      obtain ⟨s',m1,m2,hrun,-,hother⟩ := calls_overlapping
        (fun b => List.replicate (ds b).length emptyReply) hsend b c (fun _ => 0)
      rw [hcalls,hrun] at hs
      cases hs
      obtain ⟨wkc,mem',hwkc,heq,-⟩ := hres (!b)
      rw [hother] at hwkc
      cases hwkc
      exact (empty_received (noLoss_all (ds (!b))) m2).mp heq
    refine ⟨hnil,?_⟩
    by_contra hlen
    obtain ⟨replies,hloss,hreplies⟩ := hlate b
    obtain ⟨s,hs,hres⟩ := h replies hloss (fun _ => 0)
    obtain ⟨s',m1,m2,hrun,hown,-⟩ := calls_overlapping replies hsend b c (fun _ => 0)
    rw [hcalls,hrun] at hs
    cases hs
    obtain ⟨wkc,mem',hwkc,heq,-⟩ := hres b
    rw [hown,overlapping_stack hc hnil] at hwkc
    cases hwkc
    exact late_received hsend (hreplies (Nat.not_le.mp hlen)) (Nat.not_le.mp hlen) m1 heq
  -- of two groups one after the other, each has to find room
  have hserial : o=[.send b,.receive b,.send (!b),.receive (!b)] →
      ∀ b',(ds b').length ≤ ecMaxBuf := by
    intro hcalls b'
    by_contra hlen
    obtain ⟨replies,hloss,hreplies⟩ := hlate b'
    obtain ⟨s,hs,hres⟩ := h replies hloss (fun _ => 0)
    obtain ⟨s',m1,m2,hrun,hown,hother⟩ := calls_serial replies hsend b (fun _ => 0)
    rw [hcalls,hrun] at hs
    cases hs
    obtain ⟨wkc,mem',hwkc,heq,-⟩ := hres b'
    have hmissing := late_received hsend (hreplies (Nat.not_le.mp hlen)) (Nat.not_le.mp hlen)
    by_cases hb : b'=b
    · rw [hb,hown] at hwkc
      cases hwkc
      rw [← hb] at heq
      exact hmissing m1 heq
    · rw [Bool.eq_not_of_ne hb,hother] at hwkc
      cases hwkc
      rw [← Bool.eq_not_of_ne hb] at heq
      exact hmissing m2 heq
  intro b'
  by_cases hb : b'=b
  · rw [hb]
    rcases hcases with hcalls|hcalls|hcalls
    · refine ⟨hserial hcalls b,fun hover => ?_⟩
      rw [hcalls] at hover
      exact absurd hover (overlapping_serial b b)
    · obtain ⟨hnil,hlen⟩ := hfirst b (.inl rfl) hcalls
      exact ⟨hlen,fun _ => hnil⟩
    · obtain ⟨hnil,hlen⟩ := hfirst (!b) (.inr rfl) (by rw [hcalls,Bool.not_not])
      exact ⟨hlen,fun _ => hnil⟩
  · rw [Bool.eq_not_of_ne hb]
    rcases hcases with hcalls|hcalls|hcalls
    · refine ⟨hserial hcalls (!b),fun hover => ?_⟩
      rw [hcalls] at hover
      exact absurd hover (overlapping_serial b (!b))
    · obtain ⟨hnil,-⟩ := hfirst b (.inl rfl) hcalls
      refine ⟨by rw [hnil]; exact Nat.zero_le _,fun hover => ?_⟩
      rw [hcalls] at hover
      exact absurd ((overlapping_first b (!b)).1.mp hover) (by cases b <;> decide)
    · obtain ⟨hnil,-⟩ := hfirst (!b) (.inr rfl) (by rw [hcalls,Bool.not_not])
      refine ⟨by rw [hnil]; exact Nat.zero_le _,fun hover => ?_⟩
      rw [hcalls] at hover
      exact absurd ((overlapping_first b (!b)).2.mp hover) (by cases b <;> decide)

/-- Whatever comes back, the two groups are isolated exactly if each has room on the index stack, and
no receive finds frames of the other group. -/
theorem group_isolation_iff (hsend : Sendable overlapped g ds) {o : List GroupCall}
    (ho : Ordered o) :
    (∀ replies,(∀ b,NoLoss (ds b) (replies b)) →
      ∀ mem,Isolated overlapped g ds replies mem o) ↔ Separate ds o :=
  ⟨isolated_separate hsend ho,fun hsep _ hloss mem => separate_isolated hsend ho hsep hloss mem⟩

end Runs

theorem sendable_of_datagrams {overlapped : Bool} {g : Bool → Group} {ds : Bool → List Datagram}
    (hstatus : ∀ b,((g b).mbxstatus.offset).isSome=true)
    (hds : ∀ b,groupDatagrams overlapped (g b)=some (ds b)) : Sendable overlapped g ds := by
  intro b mem
  obtain ⟨offset,hoffset⟩ := Option.isSome_iff_exists.mp (hstatus b)
  have hclear : ∃ mem',clearMbxStatus (g b) mem=some mem' := by
    rw [clearMbxStatus,hoffset]
    split_ifs
    · exact ⟨_,rfl⟩
    · exact ⟨mem,rfl⟩
  obtain ⟨mem',hclear⟩ := hclear
  refine ⟨if frameLength overlapped (g b)=0 then 0 else 1,mem',?_⟩
  rw [sendProcessdata,hclear,hds b]
  rfl

theorem two_groups_mapped :
    ∃ r0 r1,configMapGroup (freshContext [outputSlave 0] 0 false false) 0=some r0 ∧
      configMapGroup (freshContext [outputSlave 1] 1 false false) 1=some r1 ∧
      ∃ ds : Bool → List Datagram,(∀ b,(ds b).length=1) ∧
        Sendable false (fun b => if b=true then r1.1.group else r0.1.group) ds := by
  have hmapped : ∀ group ∈ [0,1],(configMapGroup (freshContext [outputSlave group] group false
      false) group).any (fun r => decide ((r.1.group.mbxstatus.offset).isSome=true ∧
        (groupDatagrams false r.1.group).any (fun ds => decide (ds.length=1))=true))=true := by
    decide +kernel
  obtain ⟨r0,hr0,hrun0⟩ := (Option.any_eq_true _ _).mp (hmapped 0 (by decide))
  obtain ⟨r1,hr1,hrun1⟩ := (Option.any_eq_true _ _).mp (hmapped 1 (by decide))
  obtain ⟨hstatus0,hsent0⟩ := of_decide_eq_true hrun0
  obtain ⟨hstatus1,hsent1⟩ := of_decide_eq_true hrun1
  obtain ⟨ds0,hds0,hlen0⟩ := (Option.any_eq_true _ _).mp hsent0
  obtain ⟨ds1,hds1,hlen1⟩ := (Option.any_eq_true _ _).mp hsent1
  refine ⟨r0,r1,hr0,hr1,fun b => if b=true then ds1 else ds0,?_,sendable_of_datagrams ?_ ?_⟩
  all_goals
    intro b
    cases b
  · exact of_decide_eq_true hlen0
  · exact of_decide_eq_true hlen1
  · exact hstatus0
  · exact hstatus1
  · exact hds0
  · exact hds1

/-- One group after the other. -/
def serialOrder : List GroupCall := [.send false,.receive false,.send true,.receive true]

/-- Both groups are sent, and then received. -/
def crossedOrder : List GroupCall := [.send false,.send true,.receive false,.receive true]

theorem serial_groups_isolated :
    ∃ r0 r1,configMapGroup (freshContext [outputSlave 0] 0 false false) 0=some r0 ∧
      configMapGroup (freshContext [outputSlave 1] 1 false false) 1=some r1 ∧
      ∃ ds : Bool → List Datagram,(∀ b,(ds b).length=1) ∧
        ∀ replies,(∀ b,NoLoss (ds b) (replies b)) → ∀ mem,Isolated false
          (fun b => if b=true then r1.1.group else r0.1.group) ds replies mem serialOrder := by
  obtain ⟨r0,r1,hr0,hr1,ds,hlen,hsend⟩ := two_groups_mapped
  have ho : Ordered serialOrder := ⟨by decide,by decide⟩
  refine ⟨r0,r1,hr0,hr1,ds,hlen,(group_isolation_iff hsend ho).mpr ?_⟩
  intro b
  refine ⟨by rw [hlen b]; decide,fun hover => ?_⟩
  exact absurd hover (overlapping_serial false b)

/-- The first receive counts the frames of both groups, and the second one returns that no frame has
arrived. -/
theorem crossed_groups_not_isolated :
    Ordered crossedOrder ∧
      ∃ r0 r1,configMapGroup (freshContext [outputSlave 0] 0 false false) 0=some r0 ∧
        configMapGroup (freshContext [outputSlave 1] 1 false false) 1=some r1 ∧
        ∃ ds : Bool → List Datagram,∃ replies,(∀ b,NoLoss (ds b) (replies b)) ∧
          Sendable false (fun b => if b=true then r1.1.group else r0.1.group) ds ∧
          ¬Isolated false (fun b => if b=true then r1.1.group else r0.1.group) ds replies
            (fun _ => 0) crossedOrder := by
  obtain ⟨r0,r1,hr0,hr1,ds,hlen,hsend⟩ := two_groups_mapped
  refine ⟨⟨by decide,by decide⟩,r0,r1,hr0,hr1,ds,
    fun b => List.replicate (ds b).length emptyReply,fun b => noLoss_all (ds b),hsend,?_⟩
  rintro ⟨s,hs,hres⟩
  obtain ⟨s',m1,m2,hrun,-,hother⟩ := calls_overlapping
    (fun b => List.replicate (ds b).length emptyReply) hsend false false (fun _ => 0)
  cases hrun.symm.trans hs
  obtain ⟨wkc,mem',hwkc,heq,-⟩ := hres true
  cases hother.symm.trans hwkc
  have hnil := (empty_received (noLoss_all (ds true)) m2).mp heq
  have hone := hlen true
  rw [hnil] at hone
  cases hone

end EtherCATMaster.Mapping
