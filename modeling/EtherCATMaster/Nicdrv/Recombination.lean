import EtherCATMaster.Nicdrv.Sending

namespace EtherCATMaster.Nicdrv

open EtherCATMaster.Framework
open EtherCATMaster.Mapping (ecMaxBuf ecNoFrame ecBufsize ethHeadersize ecHeadersize ecMaxLrwData
  writeBytes readBytes setupDatagram addDatagram shorten Datagram IoMemory Reply ReceiveRun
  receiveFrame receiveProcessdata receiveStart copied freshContext mailboxSlave readBytes_length)

section Waiting

def HoldsFrame (q : Packet) (b : Buffer) : Prop :=
  ∀ i,ethHeadersize+i < q.length → b i=packetBuffer q (ethHeadersize+i)

/-- Frames that may come in for an index: they have the index, and the length that was sent. -/
structure Expects (txbuflength : Nat → Nat) (expected : Nat → Packet → Prop) : Prop where
  own : ∀ idx q,expected idx q → Own idx q
  length : ∀ idx q,expected idx q → q.length=txbuflength idx

/-- Only expected frames are in the socket, and in the buffers that have been filled for a later
wait. -/
structure Stack.Expecting (expected : Nat → Packet → Prop) (s : Stack) : Prop where
  socket : ∀ q ∈ s.socket,∃ idx,expected idx q
  rcvd : ∀ idx,idx < ecMaxBuf → s.rxbufstat idx=.rcvd →
    ∃ q,expected idx q ∧ HoldsFrame q (s.rxbuf idx)

/-- The frame that a wait returns: an expected one, with the working counter at its end. -/
def Brings (expected : Nat → Packet → Prop) (idx : Nat) (r : Int × Stack) : Prop :=
  ecNoFrame < r.1 → ∃ q,expected idx q ∧ HoldsFrame q (r.2.rxbuf idx) ∧
    r.1=leWord (r.2.rxbuf idx) (leWord (packetBuffer q) ethHeadersize%0x1000)

variable {txbuflength : Nat → Nat} {expected : Nat → Packet → Prop} {s : Stack} {idx j : Nat}
variable {bufstat : BufStat}

theorem Stack.Expecting.mark (h : s.Expecting expected) {bufstat : BufStat} (hb : bufstat≠.rcvd) :
    (s.mark idx bufstat).Expecting expected := by
  refine ⟨h.socket,?_⟩
  intro j hj hstat
  by_cases hown : j=idx
  · rw [hown,Stack.mark_self] at hstat
    exact absurd hstat hb
  · rw [Stack.mark_other hown] at hstat
    exact h.rcvd j hj hstat

theorem Stack.Expecting.arrive (h : s.Expecting expected) {packets : List Packet}
    (hp : ∀ q ∈ packets,∃ idx,expected idx q) : (s.arrive packets).Expecting expected := by
  refine ⟨?_,h.rcvd⟩
  intro q hq
  rcases List.mem_append.mp hq with hq|hq
  · exact h.socket q hq
  · exact hp q hq

theorem store_holds {q : Packet} (hq : ∀ i,i < q.length → s.tempbuf i=packetBuffer q i)
    (hlen : q.length=txbuflength idx) (bufstat : BufStat) :
    HoldsFrame q ((s.store txbuflength idx bufstat).rxbuf idx) := by
  intro i hi
  have heth : ethHeadersize=14 := rfl
  rw [Stack.store]
  simp only [Function.update_self]
  rw [writeBytes,readBytes_length,if_pos ⟨Nat.zero_le i,by omega⟩,Nat.sub_zero,
    readBytes_get _ _ _ (by omega)]
  exact hq _ hi

theorem store_expecting (h : s.Expecting expected) {q : Packet} (hq : expected idx q)
    (hholds : HoldsFrame q ((s.store txbuflength idx bufstat).rxbuf idx)) :
    (s.store txbuflength idx bufstat).Expecting expected := by
  refine ⟨h.socket,?_⟩
  intro j hj hstat
  by_cases hown : j=idx
  · rw [hown]
    exact ⟨q,hq,hholds⟩
  · rw [Stack.store_other _ hown] at hstat
    obtain ⟨q',hq',hholds'⟩ := h.rcvd j hj hstat
    refine ⟨q',hq',?_⟩
    have hsame : (s.store txbuflength idx bufstat).rxbuf j=s.rxbuf j :=
      Function.update_of_ne hown _ _
    rw [hsame]
    exact hholds'

def Stack.afterRead (s : Stack) (q : Packet) (rest : List Packet) : Stack :=
  { s with tempbuf := writeBytes s.tempbuf 0 (q.take ecBufsize), socket := rest }

theorem afterRead_get {q : Packet} (hown : Own j q) (rest : List Packet) {i : Nat}
    (hi : i < q.length) : (s.afterRead q rest).tempbuf i=packetBuffer q i := by
  change writeBytes s.tempbuf 0 (q.take ecBufsize) i=_
  rw [List.take_of_length_le hown.fits]
  exact writeBytes_zero s.tempbuf q hi

/-- What `ecx_inframe` makes of the frame of an index. -/
theorem inframe_reads {q : Packet} {rest : List Packet} (hown : Own j q)
    (hsocket : s.socket=q::rest) (hstat : ¬(idx < ecMaxBuf ∧ s.rxbufstat idx=.rcvd)) :
    s.inframe txbuflength idx=
      if j=idx then
        ((leWord (((s.afterRead q rest).store txbuflength idx .complete).rxbuf idx)
            (leWord (packetBuffer q) ethHeadersize%0x1000) : Int),
          (s.afterRead q rest).store txbuflength idx .complete)
      else if j < ecMaxBuf ∧ s.rxbufstat j=.tx then
        (ecOtherFrame,(s.afterRead q rest).store txbuflength j .rcvd)
      else (ecOtherFrame,s.afterRead q rest) := by
  have hlong := hown.long
  have hne : q≠[] := by
    intro hnil
    rw [hnil] at hlong
    cases hlong
  rw [indexOffset] at hlong
  have hrecv : s.recvpkt=(true,s.afterRead q rest) := by
    rw [Stack.recvpkt,hsocket]
    simp only [decide_eq_true hne]
    rfl
  have htype : netWord (s.afterRead q rest).tempbuf etypeOffset=ethPEcat := by
    refine (netWord_congr ?_ ?_).trans hown.etype
    · exact afterRead_get hown rest (by rw [etypeOffset]; omega)
    · exact afterRead_get hown rest (by rw [etypeOffset]; omega)
  have hindex : ((s.afterRead q rest).tempbuf indexOffset).toNat=j := by
    rw [afterRead_get hown rest hown.long]
    exact hown.index
  have helength : leWord (s.afterRead q rest).tempbuf ethHeadersize=
      leWord (packetBuffer q) ethHeadersize := by
    rw [leWord,leWord,afterRead_get hown rest (by rw [ethHeadersize]; omega),
      afterRead_get hown rest (by rw [ethHeadersize]; omega)]
  rw [Stack.inframe,if_neg hstat,hrecv]
  simp only [htype,hindex,helength,if_true]
  rfl

/-- One call of `ecx_inframe`. -/
theorem inframe_expecting (hx : Expects txbuflength expected) (idx : Nat)
    (h : s.Expecting expected) :
    (s.inframe txbuflength idx).2.Expecting expected ∧
      Brings expected idx (s.inframe txbuflength idx) := by
  by_cases hrcvd : idx < ecMaxBuf ∧ s.rxbufstat idx=.rcvd
  · rw [Stack.inframe,if_pos hrcvd]
    refine ⟨h.mark (by decide),fun _ => ?_⟩
    obtain ⟨q,hq,hholds⟩ := h.rcvd idx hrcvd.1 hrcvd.2
    refine ⟨q,hq,hholds,?_⟩
    have hlong := (hx.own idx q hq).long
    rw [indexOffset] at hlong
    have hword : leWord (s.rxbuf idx) 0=leWord (packetBuffer q) ethHeadersize := by
      have hlow := hholds 0 (by rw [ethHeadersize]; omega)
      have hhigh := hholds 1 (by rw [ethHeadersize]; omega)
      change ((s.rxbuf idx) 0).toNat+256*((s.rxbuf idx) 1).toNat=_
      rw [hlow,hhigh]
      rfl
    simp only [bufferWkc,Stack.mark]
    rw [hword]
  · cases hsocket : s.socket with
    | nil =>
      rw [Stack.inframe,if_neg hrcvd,Stack.recvpkt,hsocket]
      exact ⟨h,fun hback => absurd hback (Int.lt_irrefl _)⟩
    | cons q rest =>
      obtain ⟨j,hj⟩ := h.socket q (by rw [hsocket]; exact List.mem_cons_self)
      have hown := hx.own j q hj
      have hread : (s.afterRead q rest).Expecting expected :=
        ⟨fun p hp => h.socket p (by rw [hsocket]; exact List.mem_cons_of_mem q hp),h.rcvd⟩
      have hholds : ∀ bufstat,HoldsFrame q
          (((s.afterRead q rest).store txbuflength j bufstat).rxbuf j) :=
        fun bufstat => store_holds (fun i hi => afterRead_get hown rest hi) (hx.length j q hj) bufstat
      rw [inframe_reads hown hsocket hrcvd]
      by_cases heq : j=idx
      · rw [if_pos heq]
        rw [heq] at hj hholds
        exact ⟨store_expecting hread hj (hholds _),fun _ => ⟨q,hj,hholds _,rfl⟩⟩
      · rw [if_neg heq]
        split_ifs
        · exact ⟨store_expecting hread hj (hholds _),fun hback =>
            absurd hback (show ¬ecNoFrame < ecOtherFrame by decide)⟩
        · exact ⟨hread,fun hback =>
            absurd hback (show ¬ecNoFrame < ecOtherFrame by decide)⟩

theorem waitLoopSingle_expecting (hx : Expects txbuflength expected) (idx : Nat)
    (polls : List Arrivals) (prim : Int × Stack) (h : prim.2.Expecting expected)
    (hb : Brings expected idx prim)
    (hp : ∀ a ∈ polls,∀ q ∈ a.primary,∃ idx,expected idx q) :
    (waitLoopSingle txbuflength idx polls prim).2.Expecting expected ∧
      Brings expected idx (waitLoopSingle txbuflength idx polls prim) := by
  induction polls generalizing prim with
  | nil => exact ⟨h,hb⟩
  | cons a rest ih =>
    obtain ⟨ha,hrest⟩ := List.forall_mem_cons.mp hp
    rw [waitLoopSingle]
    by_cases hback : prim.1 ≤ ecNoFrame
    · obtain ⟨hstack,hbrings⟩ := inframe_expecting hx idx (h.arrive ha)
      have hpoll : (prim.2.arrive a.primary).poll txbuflength idx prim.1=
          (prim.2.arrive a.primary).inframe txbuflength idx := by
        rw [Stack.poll,if_pos hback]
      simp only [hpoll]
      split_ifs
      · exact ih _ hstack hbrings hrest
      · exact ⟨hstack,hbrings⟩
    · have hpoll : (prim.2.arrive a.primary).poll txbuflength idx prim.1=
          (prim.1,prim.2.arrive a.primary) := by
        rw [Stack.poll,if_neg hback]
      simp only [hpoll]
      rw [if_neg hback]
      exact ⟨h.arrive ha,hb⟩

end Waiting

section Receiving

def replyOf (d : Datagram) (r : Int × Buffer) : Reply :=
  ⟨r.1,readBytes r.2 ecHeadersize d.length,UInt16.ofNat (leWord r.2 (ecHeadersize+d.length)),
    readWord64 r.2 (dcOffset d)⟩

/-- A frame that has come back is that of a datagram. -/
structure BackOf (d : Datagram) (r : Int × Buffer) : Prop where
  command : r.2 cmdOffset=commandCode d.command
  wkc : d.dc=false → r.1=leWord r.2 (ecHeadersize+d.length)

/-- The loop on the port has what the loop on the replies has. -/
structure Follows (mem : IoMemory) (time : UInt64) (r : Received) (c : Context) (run : ReceiveRun) :
    Prop where
  wkc : r.wkc=run.wkc
  valid : r.valid=run.valid
  iomap : c.iomap=copied mem run.copies
  dcTime : c.dcTime=run.dcTime.getD time

variable {mem : IoMemory} {time : UInt64} {r : Received} {c : Context} {run : ReceiveRun}

theorem leWord_lt (b : Buffer) (offset : Nat) : leWord b offset < 2^16 := by
  have hlow := (b offset).toNat_lt
  have hhigh := (b (offset+1)).toNat_lt
  rw [leWord]
  omega

theorem dcOffset_pos (d : Datagram) : dcOffset d>0 ↔ d.dc=true := by
  rw [dcOffset]
  split_ifs with hdc
  · exact ⟨fun _ => hdc,fun _ => by omega⟩
  · exact ⟨fun h => absurd h (Nat.lt_irrefl 0),fun h => absurd h hdc⟩

theorem readBytes_readBytes (b : Buffer) (offset n : Nat) :
    readBytes ((readBytes b offset n).getD · 0) 0 n=readBytes b offset n := by
  apply List.map_congr_left
  intro i hi
  change (readBytes b offset n).getD (0+i) 0=b (offset+i)
  rw [Nat.zero_add,readBytes_get _ _ _ (List.mem_range.mp hi)]

theorem copied_append (copies : List (Nat × List UInt8)) (x : Nat × List UInt8) :
    copied mem (copies++[x])=writeBytes (copied mem copies) x.1 x.2 := by
  rw [copied,List.foldl_append]
  rfl

/-- A frame that has come back is used as its reply is. -/
theorem useFrame_follows (h : Follows mem time r c run) (idx : Nat) {d : Datagram} {wkc2 : Int}
    (hback : BackOf d (wkc2,c.port.stack.rxbuf idx)) (hwkc : wkc2>ecNoFrame) :
    Follows mem time (c.useFrame (entryOf idx d) wkc2 r).1 (c.useFrame (entryOf idx d) wkc2 r).2
      (receiveFrame run d (some (replyOf d (wkc2,c.port.stack.rxbuf idx)))) := by
  obtain ⟨h1,h2,h3,h4⟩ := h
  have hcom : c.port.stack.rxbuf idx cmdOffset=commandCode d.command := hback.command
  have hle : (UInt16.ofNat (leWord (c.port.stack.rxbuf idx) (ecHeadersize+d.length))).toNat=
      leWord (c.port.stack.rxbuf idx) (ecHeadersize+d.length) := by
    rw [UInt16.toNat_ofNat']
    exact Nat.mod_eq_of_lt (leWord_lt _ _)
  have hread := readBytes_readBytes (c.port.stack.rxbuf idx) ecHeadersize d.length
  rw [Context.useFrame,receiveFrame]
  simp only [entryOf,replyOf,if_pos hwkc,dcOffset_pos,hcom,hle,hread]
  cases hcommand : d.command with
  | lwr =>
    have hne : ¬(commandCode .lwr=commandCode .lrd ∨ commandCode .lwr=commandCode .lrw) := by decide
    rw [if_neg hne]
    by_cases hdc : d.dc=true
    · simp only [if_pos hdc,if_true]
      exact ⟨rfl,rfl,h3,rfl⟩
    · simp only [if_neg hdc,if_true]
      exact ⟨by rw [h1],rfl,h3,h4⟩
  | _ =>
    have heq : ∀ command : Mapping.Command,command≠.lwr →
        (commandCode command=commandCode .lrd ∨ commandCode command=commandCode .lrw) := by
      intro command h
      cases command with
      | lrd => exact .inl rfl
      | lwr => exact absurd rfl h
      | lrw => exact .inr rfl
    rw [if_pos (heq _ (by decide))]
    by_cases hdc : d.dc=true
    · simp only [if_pos hdc]
      refine ⟨(Int.mul_one _).symm,rfl,?_,rfl⟩
      simp only [reduceCtorEq,if_false]
      rw [copied_append,h3]
    · simp only [if_neg hdc]
      refine ⟨?_,rfl,?_,h4⟩
      · simp only [reduceCtorEq,if_false]
        rw [h1,Int.mul_one]
      · simp only [reduceCtorEq,if_false]
        rw [copied_append,h3]

/-- Working counter of the first datagram in the frame of `d`. -/
def firstWkc (d : Datagram) (q : Packet) : Nat :=
  leWord (packetBuffer q) (ethHeadersize+ecHeadersize+d.length)

def segmentOf (d : Datagram) (q : Packet) : List UInt8 :=
  readBytes (packetBuffer q) (ethHeadersize+ecHeadersize) d.length

/-- Time in the datagram behind it: its header, and the working counter of the first one, lie
between. -/
def clockTime (d : Datagram) (q : Packet) : UInt64 :=
  readWord64 (packetBuffer q) (ethHeadersize+(d.length+24))

def answerOf (d : Datagram) (q : Packet) : Reply :=
  ⟨firstWkc d q,segmentOf d q,UInt16.ofNat (firstWkc d q),clockTime d q⟩

/-- A frame that slaves have passed on is still that of a datagram. -/
structure FrameOf (d : Datagram) (q : Packet) : Prop where
  length : q.length=d.txbuflength
  short : d.length ≤ ecMaxLrwData
  command : packetBuffer q commandOffset=commandCode d.command
  elength : d.dc=false → leWord (packetBuffer q) ethHeadersize%0x1000=ecHeadersize+d.length

theorem FrameOf.long {d : Datagram} {q : Packet} (h : FrameOf d q) :
    28+d.length ≤ q.length ∧ (d.dc=true → q.length=48+d.length) := by
  have hshort := h.short
  have hmax : ecMaxLrwData=1486 := rfl
  have hset : setupDatagram d.length=28+d.length := rfl
  have hadd : addDatagram (setupDatagram d.length) 8=48+d.length := by
    rw [hset,addDatagram,shorten,Nat.mod_eq_of_lt (by omega),Mapping.ecHeadersize,
      Mapping.ecElengthsize,Mapping.ecWkcsize]
    omega
  rw [h.length,Datagram.txbuflength]
  constructor
  · split_ifs <;> omega
  · intro hdc
    rw [if_pos hdc,hadd]

theorem HoldsFrame.word {q : Packet} {b : Buffer} (h : HoldsFrame q b) {l : Nat}
    (hl : ethHeadersize+l+1 < q.length) : leWord b l=leWord (packetBuffer q) (ethHeadersize+l) := by
  rw [leWord,leWord,h l (by omega),h (l+1) (by omega)]
  rfl

theorem HoldsFrame.read {q : Packet} {b : Buffer} (h : HoldsFrame q b) {offset n : Nat}
    (hn : ethHeadersize+offset+n ≤ q.length) :
    readBytes b offset n=readBytes (packetBuffer q) (ethHeadersize+offset) n := by
  apply List.map_congr_left
  intro i hi
  have hi' := List.mem_range.mp hi
  rw [h (offset+i) (by omega),Nat.add_assoc]

theorem FrameOf.back {d : Datagram} {q : Packet} {b : Buffer} (h : FrameOf d q)
    (hb : HoldsFrame q b) :
    BackOf d ((leWord b (leWord (packetBuffer q) ethHeadersize%0x1000) : Int),b) := by
  have hlong := h.long.1
  refine ⟨?_,?_⟩
  · refine (hb cmdOffset ?_).trans h.command
    rw [ethHeadersize,cmdOffset]
    omega
  · intro hdc
    simp only [h.elength hdc]

theorem receiveFrame_answer {d : Datagram} {q : Packet} {b : Buffer} {wkc : Int} (h : FrameOf d q)
    (hb : HoldsFrame q b) (hback : BackOf d (wkc,b)) (hwkc : wkc>ecNoFrame) (run : ReceiveRun) :
    receiveFrame run d (some (replyOf d (wkc,b)))=receiveFrame run d (some (answerOf d q)) := by
  obtain ⟨hlong,hclock⟩ := h.long
  have heth : ethHeadersize=14 := rfl
  have hec : ecHeadersize=12 := rfl
  have hword : leWord b (ecHeadersize+d.length)=firstWkc d q := by
    rw [hb.word (by omega),firstWkc,Nat.add_assoc]
  have hread : readBytes b ecHeadersize d.length=segmentOf d q := hb.read (by omega)
  have hanswer : (answerOf d q).wkc>ecNoFrame := Int.lt_of_lt_of_le (by decide) (Int.natCast_nonneg _)
  rw [receiveFrame,receiveFrame,replyOf]
  simp only
  rw [if_pos hwkc,if_pos hanswer,hword,hread]
  by_cases hdc : d.dc=true
  · have htime : readWord64 b (dcOffset d)=clockTime d q := by
      rw [dcOffset,if_pos hdc,readWord64,hb.read (by have := hclock hdc; omega)]
      rfl
    rw [if_pos hdc,if_pos hdc,htime]
    rfl
  · have hvalue : wkc=firstWkc d q := by
      rw [← hword]
      exact hback.wkc (Bool.eq_false_iff.mpr hdc)
    rw [if_neg hdc,if_neg hdc,hvalue]
    rfl

/-- The frames of a cycle, with the packet that has come back for each of them. -/
def answers (ds : List Datagram) (back : List (Option Packet)) : List (Datagram × Option Reply) :=
  (ds.zip back).map fun f => (f.1,f.2.map (answerOf f.1))

theorem waitinframe_single {p : Port} (hred : p.redport=none) (idx : Nat) (polls : List Arrivals)
    (resend : Packet → Resent) :
    p.waitinframe idx polls resend=
      ⟨(waitLoopSingle p.txbuflength idx polls (ecNoFrame,p.stack)).1,none,
        { p with stack := (waitLoopSingle p.txbuflength idx polls (ecNoFrame,p.stack)).2 }⟩ := by
  rw [Port.waitinframe]
  simp only [hred]

def heardIn (txbuflength : Nat → Nat) (idx : Nat) : List Arrivals → Int × Stack → List Packet
  | [],_ => []
  | a::rest,prim =>
      let prim := (prim.2.arrive a.primary).poll txbuflength idx prim.1
      a.primary++(if prim.1 ≤ ecNoFrame then heardIn txbuflength idx rest prim else [])

/-- A wait: whether it has returned a frame, what has come in during it, and what is in the socket
after it. -/
structure Outcome where
  returned : Bool
  heard : List Packet
  unread : List Packet

def Port.outcome (p : Port) (idx : Nat) (w : Wait) : Outcome :=
  let waited := p.waitinframe idx w.polls w.resend
  ⟨decide (waited.wkc>ecNoFrame),heardIn p.txbuflength idx w.polls (ecNoFrame,p.stack),
    waited.port.stack.socket⟩

def Port.outcomes (waits : Nat → Wait) : List Entry → Nat → Port → List Outcome
  | [],_,_ => []
  | e::rest,k,p =>
      p.outcome e.idx (waits k)::Port.outcomes waits rest (k+1)
        ((p.waitinframe e.idx (waits k).polls (waits k).resend).port.setbufstat e.idx .empty)

/-- The context after a wait. -/
def Context.waited (c : Context) (idx : Nat) (w : Wait) : Context :=
  { c with port := (c.port.waitinframe idx w.polls w.resend).port }

theorem receiveEntry_back (e : Entry) (w : Wait) (r : Received)
    (h : (c.port.waitinframe e.idx w.polls w.resend).wkc>ecNoFrame) :
    let used := (c.waited e.idx w).useFrame e (c.port.waitinframe e.idx w.polls w.resend).wkc r
    c.receiveEntry e w r=
      (used.1,{ used.2 with port := used.2.port.setbufstat e.idx .empty }) := by
  simp only [Context.receiveEntry,if_pos h]
  rfl

theorem receiveEntry_lost (e : Entry) (w : Wait) (r : Received)
    (h : ¬(c.port.waitinframe e.idx w.polls w.resend).wkc>ecNoFrame) :
    c.receiveEntry e w r=
      (r,{ c.waited e.idx w with port := (c.waited e.idx w).port.setbufstat e.idx .empty }) := by
  simp only [Context.receiveEntry,if_neg h]
  rfl

theorem receiveEntry_follows {txbuflength : Nat → Nat} {expected : Nat → Packet → Prop}
    (hx : Expects txbuflength expected) {idx : Nat} {d : Datagram} (w : Wait)
    (hline : ∀ a ∈ w.polls,∀ q ∈ a.primary,∃ idx,expected idx q)
    (hd : ∀ q,expected idx q → FrameOf d q) (hred : c.port.redport=none)
    (htx : c.port.txbuflength=txbuflength) (hstack : c.port.stack.Expecting expected)
    (h : Follows mem time r c run) :
    let c' := (c.receiveEntry (entryOf idx d) w r).2
    (c'.port.redport=none ∧ c'.port.txbuflength=txbuflength ∧ c'.port.stack.Expecting expected) ∧
      ∃ b : Option Packet,(∀ q,b=some q → expected idx q) ∧
        b.isSome=(c.port.outcome idx w).returned ∧
        Follows mem time (c.receiveEntry (entryOf idx d) w r).1 c'
          (receiveFrame run d (b.map (answerOf d))) := by
  have hsingle := waitinframe_single hred idx w.polls w.resend
  obtain ⟨hstack',hbrings⟩ := waitLoopSingle_expecting hx idx w.polls
    (ecNoFrame,c.port.stack) hstack (fun hback => absurd hback (Int.lt_irrefl _)) hline
  rw [← htx] at hstack' hbrings
  have hport : (c.receiveEntry (entryOf idx d) w r).2.port=
      (c.port.waitinframe idx w.polls w.resend).port.setbufstat idx .empty :=
    receiveEntry_port (entryOf idx d) w r
  have hwaited : Follows mem time r (c.waited idx w) run := ⟨h.wkc,h.valid,h.iomap,h.dcTime⟩
  refine ⟨?_,?_⟩
  · rw [hport,hsingle]
    refine ⟨?_,htx,hstack'.mark (by decide)⟩
    rw [Port.setbufstat]
    simp only [hred,Option.map_none]
  · by_cases hwkc : (c.port.waitinframe idx w.polls w.resend).wkc>ecNoFrame
    · have hbrings' : Brings expected idx ((c.port.waitinframe idx w.polls w.resend).wkc,
          (c.port.waitinframe idx w.polls w.resend).port.stack) := by
        rw [hsingle]
        exact hbrings
      obtain ⟨q,hq,hholds,hvalue⟩ := hbrings' hwkc
      have hback := (hd q hq).back hholds
      rw [← hvalue] at hback
      have hused := useFrame_follows hwaited idx hback hwkc
      refine ⟨some q,fun q' hq' => Option.some.inj hq' ▸ hq,(decide_eq_true hwkc).symm,?_⟩
      rw [receiveEntry_back (entryOf idx d) w r hwkc,Option.map_some,
        ← receiveFrame_answer (hd q hq) hholds hback hwkc]
      exact ⟨hused.wkc,hused.valid,hused.iomap,hused.dcTime⟩
    · refine ⟨none,fun q hq => (by cases hq),(decide_eq_false hwkc).symm,?_⟩
      rw [receiveEntry_lost (entryOf idx d) w r hwkc]
      exact ⟨h.wkc,h.valid,h.iomap,h.dcTime⟩

/-- The loop of `ecx_receive_processdata_group` on the port does what that on the replies does. -/
theorem receiveEntries_follows {txbuflength : Nat → Nat} {expected : Nat → Packet → Prop}
    (hx : Expects txbuflength expected) (waits : Nat → Wait)
    (hline : ∀ k,∀ a ∈ (waits k).polls,∀ q ∈ a.primary,∃ idx,expected idx q)
    {outs : List (Nat × Sent)} {ds : List Datagram}
    (hd : List.Forall₂ (fun out d => ∀ q,expected out.1 q → FrameOf d q) outs ds)
    (k : Nat) (r : Received) (c : Context) (run : ReceiveRun) (hred : c.port.redport=none)
    (htx : c.port.txbuflength=txbuflength) (hstack : c.port.stack.Expecting expected)
    (h : Follows mem time r c run) :
    let entries := List.zipWith (fun out d => entryOf out.1 d) outs ds
    ∃ back : List (Option Packet),
      back.map Option.isSome=(c.port.outcomes waits entries k).map Outcome.returned ∧
      List.Forall₂ (fun out b => ∀ q,b=some q → expected out.1 q) outs back ∧
      Follows mem time (Context.receiveEntries waits entries k r c).1
        (Context.receiveEntries waits entries k r c).2
        (receiveProcessdata (answers ds back) run) := by
  induction hd generalizing k r c run with
  | nil => exact ⟨[],rfl,.nil,h⟩
  | @cons out d outs ds hfirst hrest ih =>
    obtain ⟨⟨hred',htx',hstack'⟩,b,hb,hsome,hround⟩ := receiveEntry_follows hx (waits k) (hline k)
      hfirst hred htx hstack h
    obtain ⟨back,hreturned,hback,hfollows⟩ := ih (k+1) _ _ _ hred' htx' hstack' hround
    have hport : (c.receiveEntry (entryOf out.1 d) (waits k) r).2.port=
        (c.port.waitinframe out.1 (waits k).polls (waits k).resend).port.setbufstat out.1 .empty :=
      receiveEntry_port (entryOf out.1 d) (waits k) r
    rw [hport] at hreturned
    refine ⟨b::back,?_,.cons hb hback,hfollows⟩
    simp only [List.map_cons,List.zipWith_cons_cons]
    rw [hsome,hreturned]
    rfl

end Receiving

section Unread

variable {txbuflength : Nat → Nat} {expected : Nat → Packet → Prop} {s : Stack} {idx j : Nat}
variable {q : Packet}

def Stack.Waits (s : Stack) (idx : Nat) : Prop := s.rxbufstat idx=.rcvd ∨ s.rxbufstat idx=.tx

/-- A packet for an index has come in: it is in the socket, or one is in the buffer. -/
def Stack.Holds (s : Stack) (idx : Nat) (q : Packet) : Prop :=
  s.rxbufstat idx=.rcvd ∨ s.rxbufstat idx=.tx ∧ q ∈ s.socket

theorem Stack.Holds.of_stat {s' : Stack} (h : s.Holds j q)
    (hstat : s'.rxbufstat j=s.rxbufstat j) (hmem : q ∈ s.socket → q ∈ s'.socket) :
    s'.Holds j q := by
  rcases h with h|⟨h,hq⟩
  · exact .inl (hstat.trans h)
  · exact .inr ⟨hstat.trans h,hmem hq⟩

theorem Stack.Waits.arrive (h : s.Waits j) {packets : List Packet}
    (hq : s.Holds j q ∨ q ∈ packets) : (s.arrive packets).Holds j q := by
  rcases h with h|h
  · exact .inl h
  · refine .inr ⟨h,?_⟩
    rcases hq with (hq|⟨-,hq⟩)|hq
    · rw [h] at hq
      cases hq
    · exact List.mem_append_left packets hq
    · exact List.mem_append_right s.socket hq

/-- One call of `ecx_inframe` that does not return the frame of an index. -/
structure Passes (idx j : Nat) (q : Packet) (s s' : Stack) : Prop where
  waits : s'.Waits j
  holds : s.Holds j q → s'.Holds j q
  own : j=idx → s'.rxbufstat j=.tx

theorem inframe_passes (hx : Expects txbuflength expected) (h : s.Expecting expected)
    (hj : j < ecMaxBuf) (hq : expected j q) (hw : s.Waits j)
    (hcase : j≠idx ∨ (s.inframe txbuflength idx).1 ≤ ecNoFrame) :
    Passes idx j q s (s.inframe txbuflength idx).2 := by
  by_cases hrcvd : idx < ecMaxBuf ∧ s.rxbufstat idx=.rcvd
  · rw [Stack.inframe,if_pos hrcvd] at hcase ⊢
    have hne : j≠idx := hcase.resolve_right (Int.not_le.mpr (leWord_back _ _))
    have hstat : (s.mark idx .complete).rxbufstat j=s.rxbufstat j := Stack.mark_other hne _
    refine ⟨?_,fun hholds => hholds.of_stat hstat id,fun heq => absurd heq hne⟩
    rw [Stack.Waits,hstat]
    exact hw
  · -- an index that is waited for, and has not come in, is out
    have hown : j=idx → s.rxbufstat j=.tx := by
      intro heq
      refine hw.resolve_left fun hstat => hrcvd ?_
      rw [← heq]
      exact ⟨hj,hstat⟩
    cases hsocket : s.socket with
    | nil =>
      have hnone : (s.inframe txbuflength idx).2=s := by
        rw [Stack.inframe,if_neg hrcvd,Stack.recvpkt,hsocket]
      rw [hnone]
      exact ⟨hw,id,hown⟩
    | cons p rest =>
      obtain ⟨k,hk⟩ := h.socket p (by rw [hsocket]; exact List.mem_cons_self)
      rw [inframe_reads (hx.own k p hk) hsocket hrcvd] at hcase ⊢
      have hmem : j≠k → q ∈ s.socket → q ∈ rest := by
        intro hne hq'
        rw [hsocket] at hq'
        refine (List.mem_cons.mp hq').resolve_left fun heq => hne ?_
        rw [← (hx.own j q hq).index,← (hx.own k p hk).index,heq]
      by_cases heq : k=idx
      · rw [if_pos heq] at hcase ⊢
        have hne : j≠idx := hcase.resolve_right (Int.not_le.mpr (leWord_back _ _))
        have hstat : ((s.afterRead p rest).store txbuflength idx .complete).rxbufstat j=
            s.rxbufstat j := Stack.store_other txbuflength hne _
        refine ⟨?_,fun hholds => hholds.of_stat hstat (hmem (heq ▸ hne)),fun h' => absurd h' hne⟩
        rw [Stack.Waits,hstat]
        exact hw
      · rw [if_neg heq]
        by_cases htx : k < ecMaxBuf ∧ s.rxbufstat k=.tx
        · rw [if_pos htx]
          by_cases hjk : j=k
          · have hin : ((s.afterRead p rest).store txbuflength k .rcvd).rxbufstat j=.rcvd := by
              rw [hjk]
              exact Function.update_self k _ _
            exact ⟨.inl hin,fun _ => .inl hin,fun h' => absurd (hjk.symm.trans h') heq⟩
          · have hstat : ((s.afterRead p rest).store txbuflength k .rcvd).rxbufstat j=
                s.rxbufstat j := Stack.store_other txbuflength hjk _
            refine ⟨?_,fun hholds => hholds.of_stat hstat (hmem hjk),
              fun h' => hstat.trans (hown h')⟩
            rw [Stack.Waits,hstat]
            exact hw
        · rw [if_neg htx]
          refine ⟨hw,?_,hown⟩
          intro hholds
          rcases hholds with hin|⟨hout,hq'⟩
          · exact .inl hin
          · refine .inr ⟨hout,hmem ?_ hq'⟩
            intro hjk
            exact htx ⟨hjk ▸ hj,hjk ▸ hout⟩

/-- A wait that does not return the frame of an index. -/
theorem waitLoopSingle_passes (hx : Expects txbuflength expected) (idx : Nat)
    (polls : List Arrivals) (prim : Int × Stack) (h : prim.2.Expecting expected)
    (hprim : prim.1 ≤ ecNoFrame)
    (hp : ∀ a ∈ polls,∀ q ∈ a.primary,∃ idx,expected idx q) (hj : j < ecMaxBuf)
    (hq : expected j q) (hw : prim.2.Waits j)
    (hcase : j≠idx ∨ (waitLoopSingle txbuflength idx polls prim).1 ≤ ecNoFrame) :
    (waitLoopSingle txbuflength idx polls prim).2.Waits j ∧
      (prim.2.Holds j q ∨ q ∈ heardIn txbuflength idx polls prim →
        (waitLoopSingle txbuflength idx polls prim).2.Holds j q) ∧
      (j=idx → polls≠[] ∨ prim.2.rxbufstat j=.tx →
        (waitLoopSingle txbuflength idx polls prim).2.rxbufstat j=.tx) := by
  induction polls generalizing prim with
  | nil =>
    refine ⟨hw,?_,?_⟩
    · intro hcame
      exact hcame.resolve_right List.not_mem_nil
    · intro _ hstat
      exact hstat.resolve_left (fun hne => hne rfl)
  | cons a rest ih =>
    obtain ⟨ha,hrest⟩ := List.forall_mem_cons.mp hp
    have hpoll : (prim.2.arrive a.primary).poll txbuflength idx prim.1=
        (prim.2.arrive a.primary).inframe txbuflength idx := by
      rw [Stack.poll,if_pos hprim]
    have harrived := h.arrive ha
    rw [waitLoopSingle] at hcase ⊢
    rw [heardIn]
    simp only [hpoll] at hcase ⊢
    by_cases hback : ((prim.2.arrive a.primary).inframe txbuflength idx).1 ≤ ecNoFrame
    · rw [if_pos hback] at hcase
      simp only [if_pos hback]
      have hpasses := inframe_passes hx harrived hj hq hw (.inr hback)
      obtain ⟨hwaits,hholds,hown⟩ := ih _ (inframe_expecting hx idx harrived).1 hback hrest
        hpasses.waits hcase
      refine ⟨hwaits,?_,fun heq _ => hown heq (.inr (hpasses.own heq))⟩
      intro hcame
      apply hholds
      rcases hcame with hcame|hcame
      · exact .inl (hpasses.holds (hw.arrive (.inl hcame)))
      · rcases List.mem_append.mp hcame with hcame|hcame
        · exact .inl (hpasses.holds (hw.arrive (.inr hcame)))
        · exact .inr hcame
    · rw [if_neg hback] at hcase
      simp only [if_neg hback]
      have hne : j≠idx := hcase.resolve_right hback
      have hpasses := inframe_passes hx harrived hj hq hw (.inl hne)
      refine ⟨hpasses.waits,?_,fun heq => absurd heq hne⟩
      intro hcame
      rw [List.append_nil] at hcame
      exact hpasses.holds (hw.arrive hcame)

/-- When a wait returns no frame, none that has come in for its index has been read. -/
theorem outcomes_unread (hx : Expects txbuflength expected) (waits : Nat → Wait)
    (hline : ∀ k,∀ a ∈ (waits k).polls,∀ q ∈ a.primary,∃ idx,expected idx q)
    (hpolls : ∀ k,(waits k).polls≠[]) (entries : List Entry)
    (hnodup : (entries.map Entry.idx).Nodup) (k : Nat) (p : Port) (hred : p.redport=none)
    (htx : p.txbuflength=txbuflength) (hstack : p.stack.Expecting expected) {m : Nat} {e : Entry}
    {o : Outcome} (he : entries[m]?=some e) (ho : (p.outcomes waits entries k)[m]?=some o)
    (hidx : e.idx < ecMaxBuf) (hq : expected e.idx q) (hw : p.stack.Waits e.idx)
    (hlost : o.returned=false)
    (hcame : p.stack.Holds e.idx q ∨
      ∃ n,∃ o' : Outcome,n ≤ m ∧ (p.outcomes waits entries k)[n]?=some o' ∧ q ∈ o'.heard) :
    q ∈ o.unread := by
  induction entries generalizing k p m with
  | nil => cases he
  | cons first rest ih =>
    rw [List.map_cons,List.nodup_cons] at hnodup
    have hsingle := waitinframe_single hred first.idx (waits k).polls (waits k).resend
    have hloop := waitLoopSingle_passes hx first.idx (waits k).polls
      (ecNoFrame,p.stack) hstack (Int.le_refl _) (hline k) hidx hq hw
    rw [← htx] at hloop
    have hheard : q ∈ (p.outcome first.idx (waits k)).heard →
        q ∈ heardIn p.txbuflength first.idx (waits k).polls (ecNoFrame,p.stack) := id
    cases m with
    | zero =>
      cases he
      cases ho
      have hnone : ¬(p.waitinframe e.idx (waits k).polls (waits k).resend).wkc>ecNoFrame :=
        of_decide_eq_false hlost
      rw [hsingle] at hnone
      obtain ⟨-,hholds,hown⟩ := hloop (.inr (Int.not_lt.mp hnone))
      have hin := hholds (hcame.imp id (by
        rintro ⟨n,o',hn,ho',hq'⟩
        rw [Nat.le_zero.mp hn] at ho'
        cases ho'
        exact hheard hq'))
      have hstat := hown rfl (.inl (hpolls k))
      change q ∈ (p.waitinframe e.idx (waits k).polls (waits k).resend).port.stack.socket
      rw [hsingle]
      rcases hin with hin|⟨-,hin⟩
      · rw [hstat] at hin
        cases hin
      · exact hin
    | succ m =>
      have he' : rest[m]?=some e := he
      have hne : e.idx≠first.idx := by
        intro heq
        apply hnodup.1
        rw [← heq]
        exact List.mem_map_of_mem (List.mem_of_getElem? he')
      obtain ⟨hwaits,hholds,-⟩ := hloop (.inl hne)
      have hexpecting := (waitLoopSingle_expecting hx first.idx (waits k).polls
        (ecNoFrame,p.stack) hstack (fun hback => absurd hback (Int.lt_irrefl _)) (hline k)).1
      rw [← htx] at hexpecting
      have hport : ((p.waitinframe first.idx (waits k).polls (waits k).resend).port.setbufstat
          first.idx .empty).stack=
          ((waitLoopSingle p.txbuflength first.idx (waits k).polls (ecNoFrame,p.stack)).2.mark
            first.idx .empty) := by
        rw [hsingle]
        rfl
      have hstat : ∀ s : Stack,(s.mark first.idx .empty).rxbufstat e.idx=s.rxbufstat e.idx :=
        fun s => Stack.mark_other hne _
      refine ih hnodup.2 (k+1) _ ?_ ?_ ?_ he' ho ?_ ?_
      · rw [hsingle,Port.setbufstat]
        simp only [hred,Option.map_none]
      · rw [hsingle]
        exact htx
      · rw [hport]
        exact hexpecting.mark (by decide)
      · rw [hport,Stack.Waits,hstat]
        exact hwaits
      · rw [hport]
        rcases hcame with hcame|⟨n,o',hn,ho',hq'⟩
        · exact .inl ((hholds (.inl hcame)).of_stat (hstat _) id)
        · cases n with
          | zero =>
            cases ho'
            exact .inl ((hholds (.inr (hheard hq'))).of_stat (hstat _) id)
          | succ n => exact .inr ⟨n,o',Nat.le_of_succ_le_succ hn,ho',hq'⟩

end Unread

section Cycle

/-- A packet answers a frame of the cycle: it is that frame, as the slaves have passed it on. -/
structure Answers (outs : List (Nat × Sent)) (idx : Nat) (q : Packet) : Prop where
  sent : ∃ out ∈ outs,out.1=idx ∧ ∃ packet,out.2.primary=some packet ∧ Keeps packet q
  fits : q.length ≤ ecBufsize

def Arrives (waits : Nat → Wait) (q : Packet) : Prop := ∃ k,∃ a ∈ (waits k).polls,q ∈ a.primary

/-- The line brings frames of the cycle. Any of them may be lost, or come in another order. -/
structure Line (outs : List (Nat × Sent)) (waits : Nat → Wait) : Prop where
  rounds : ∀ k,(waits k).polls≠[]
  answers : ∀ q,Arrives waits q → ∃ idx,Answers outs idx q

/-- Nothing is in use: no buffer, no entry of the index stack, and no frame in the socket. The
transmit buffers have their ethernet headers. -/
structure Context.AtRest (c : Context) : Prop where
  redport : c.port.redport=none
  empty : ∀ idx,idx < ecMaxBuf → c.port.stack.rxbufstat idx=.empty
  socket : c.port.stack.socket=[]
  etype : ∀ idx,idx < ecMaxBuf → netWord (c.port.txbuf idx) etypeOffset=ethPEcat
  lastidx : c.port.lastidx < ecMaxBuf
  idxstack : c.idxstack=[]

/-- The packets that come back: each answers its frame. One that does not come back has not come in,
or is still in the socket when the timer of its wait expires. -/
structure Back (outs : List (Nat × Sent)) (waits : Nat → Wait) (outcomes : List Outcome)
    (back : List (Option Packet)) : Prop where
  length : back.length=outs.length
  answer : ∀ k : Nat,∀ out : Nat × Sent,∀ q,outs[k]?=some out → back[k]?=some (some q) →
    Answers outs out.1 q ∧ Arrives waits q
  lost : ∀ k : Nat,∀ out : Nat × Sent,∀ o : Outcome,∀ q,outs[k]?=some out → back[k]?=some none →
    outcomes[k]?=some o → Answers outs out.1 q →
    (∃ n : Nat,∃ o' : Outcome,n ≤ k ∧ outcomes[n]?=some o' ∧ q ∈ o'.heard) → q ∈ o.unread

def backFrames (ds : List Datagram) (back : List (Option Packet)) : List (Datagram × Packet) :=
  (ds.zip back).filterMap fun f => f.2.map (f.1,·)

def returnedWkc (fs : List (Datagram × Packet)) : Int :=
  if fs=[] then ecNoFrame
  else (fs.map fun f => (firstWkc f.1 f.2 : Int)*(if f.1.command=.lwr then 2 else 1)).sum

/-- What `ecx_receive_processdata_group` makes of them. -/
structure Recombined (mem : IoMemory) (time : UInt64) (ds : List Datagram)
    (back : List (Option Packet)) (r : Int × Context) : Prop where
  wkc : r.1=returnedWkc (backFrames ds back)
  noFrame : r.1=ecNoFrame ↔ backFrames ds back=[]
  clock : ∀ f ∈ backFrames ds back,f.1.dc=true → r.2.dcTime=clockTime f.1 f.2
  clockKept : (∀ f ∈ backFrames ds back,f.1.dc=false) → r.2.dcTime=time
  stored : ∀ f ∈ backFrames ds back,f.1.command≠.lwr → ∀ k,k < f.1.length →
    r.2.iomap (f.1.dest+k)=(segmentOf f.1 f.2).getD k 0
  lost : ∀ d,(d,none) ∈ ds.zip back → d.command≠.lwr → ∀ k,k < d.length →
    r.2.iomap (d.dest+k)=mem (d.dest+k)
  other : ∀ x,(∀ f ∈ backFrames ds back,f.1.command≠.lwr →
    x < f.1.dest ∨ f.1.dest+f.1.length ≤ x) → r.2.iomap x=mem x

variable {ds : List Datagram} {back : List (Option Packet)}

theorem backFrames_mem {f : Datagram × Packet} (h : f ∈ backFrames ds back) :
    (f.1,some f.2) ∈ ds.zip back := by
  obtain ⟨⟨d,b⟩,hmem,hf⟩ := List.mem_filterMap.mp h
  obtain ⟨q,hq,rfl⟩ := Option.map_eq_some_iff.mp hf
  simp only at hq
  rw [hq] at hmem
  exact hmem

theorem firstWkc_toNat (d : Datagram) (q : Packet) :
    (UInt16.ofNat (firstWkc d q)).toNat=firstWkc d q := by
  rw [UInt16.toNat_ofNat']
  exact Nat.mod_eq_of_lt (leWord_lt _ _)

theorem answerOf_back (d : Datagram) (q : Packet) : (answerOf d q).wkc>ecNoFrame :=
  Int.lt_of_lt_of_le (show ecNoFrame < 0 by decide) (Int.natCast_nonneg _)

theorem cameBack_answers (ds : List Datagram) (back : List (Option Packet)) :
    Mapping.cameBack (answers ds back)=(backFrames ds back).map fun f => (f.1,answerOf f.1 f.2) := by
  rw [Mapping.cameBack,answers,List.filterMap_map,backFrames,List.map_filterMap]
  congr 1
  funext f
  obtain ⟨d,b⟩ := f
  cases b with
  | none => rfl
  | some q =>
    simp only [Function.comp,Option.map_some,Option.filter_some,decide_eq_true (answerOf_back d q)]
    rfl

theorem frameCounts_answers (fs : List (Datagram × Packet)) :
    Mapping.frameCounts (fs.map fun f => (f.1,answerOf f.1 f.2))=
      (fs.map fun f => (firstWkc f.1 f.2 : Int)*(if f.1.command=.lwr then 2 else 1)).sum := by
  induction fs with
  | nil => rfl
  | cons f rest ih =>
    rw [List.map_cons,List.map_cons,List.sum_cons,Mapping.frameCounts,ih,Mapping.frameCount]
    simp only [answerOf]
    rw [firstWkc_toNat,ite_self]

theorem ownCounter_answers (fs : List (Datagram × Packet)) :
    Mapping.ownCounter (fs.map fun f => (f.1,answerOf f.1 f.2))=returnedWkc fs := by
  rw [Mapping.ownCounter,returnedWkc,frameCounts_answers]
  cases fs with
  | nil => rfl
  | cons f rest => rfl

theorem returnedWkc_noFrame (fs : List (Datagram × Packet)) :
    returnedWkc fs=ecNoFrame ↔ fs=[] := by
  rw [returnedWkc,← frameCounts_answers]
  split_ifs with hnil
  · exact ⟨fun _ => hnil,fun _ => rfl⟩
  · refine ⟨fun h => ?_,fun h => absurd h hnil⟩
    have hback : ∀ x ∈ fs.map fun f => (f.1,answerOf f.1 f.2),x.2.wkc>ecNoFrame := by
      intro x hx
      obtain ⟨f,-,rfl⟩ := List.mem_map.mp hx
      exact answerOf_back f.1 f.2
    have hnonneg := Mapping.frameCounts_nonneg hback
    rw [h] at hnonneg
    exact absurd hnonneg (by decide)

theorem answers_fst (h : back.length=ds.length) : (answers ds back).map Prod.fst=ds := by
  rw [answers,List.map_map]
  exact List.map_fst_zip (Nat.le_of_eq h.symm)

theorem answers_tail (hdc : ∀ d ∈ ds.tail,d.dc=false) (back : List (Option Packet)) :
    ∀ f ∈ (answers ds back).tail,f.1.dc=false := by
  intro f hf
  cases ds with
  | nil => cases hf
  | cons d ds =>
    cases back with
    | nil => cases hf
    | cons b back =>
      obtain ⟨⟨d',b'⟩,hmem,rfl⟩ := List.mem_map.mp (show f ∈ answers ds back from hf)
      exact hdc d' (List.of_mem_zip hmem).1

theorem lost_apart (hapart : Mapping.Apart ds) (hlen : back.length=ds.length) {d : Datagram}
    (hd : (d,none) ∈ ds.zip back) {f : Datagram × Packet} (hf : f ∈ backFrames ds back)
    (hread : d.command≠.lwr) (hread' : f.1.command≠.lwr) :
    d.dest+d.length ≤ f.1.dest ∨ f.1.dest+f.1.length ≤ d.dest := by
  let disjoint : Datagram × Option Packet → Datagram × Option Packet → Prop := fun x y =>
    x.2=none → y.2≠none → x.1.command≠.lwr → y.1.command≠.lwr →
      x.1.dest+x.1.length ≤ y.1.dest ∨ y.1.dest+y.1.length ≤ x.1.dest
  have hzip : (ds.zip back).Pairwise fun x y => x.1.command≠.lwr → y.1.command≠.lwr →
      x.1.dest+x.1.length ≤ y.1.dest := by
    rw [← List.map_fst_zip (Nat.le_of_eq hlen.symm)] at hapart
    exact List.pairwise_map.mp hapart
  have hforward : (ds.zip back).Pairwise disjoint :=
    hzip.imp fun h _ _ hx hy => .inl (h hx hy)
  have hbackward : (ds.zip back).Pairwise (flip disjoint) :=
    hzip.imp fun h _ _ hy hx => .inr (h hx hy)
  exact List.Pairwise.forall_of_forall_of_flip (fun x _ hnone hsome => absurd hnone hsome) hforward
    hbackward hd (backFrames_mem hf) rfl (Option.some_ne_none _) hread hread'

theorem answers_time (hdc : ∀ d ∈ ds.tail,d.dc=false) (hlen : back.length=ds.length)
    (time : UInt64) :
    (∀ f ∈ backFrames ds back,f.1.dc=true →
      (receiveProcessdata (answers ds back) receiveStart).dcTime.getD time=clockTime f.1 f.2) ∧
    ((∀ f ∈ backFrames ds back,f.1.dc=false) →
      (receiveProcessdata (answers ds back) receiveStart).dcTime.getD time=time) := by
  cases ds with
  | nil => exact ⟨fun f hf => absurd hf List.not_mem_nil,fun _ => rfl⟩
  | cons d ds =>
    cases back with
    | nil => cases hlen
    | cons b back =>
      have hrest : ∀ f ∈ answers ds back,f.1.dc=false :=
        answers_tail hdc (b::back)
      have htime := Mapping.received_time d (b.map (answerOf d)) hrest
      change (receiveProcessdata (answers (d::ds) (b::back)) receiveStart).dcTime=_ at htime
      rw [htime]
      constructor
      · intro f hf hclock
        rcases List.mem_cons.mp (backFrames_mem hf) with heq|hmem
        · obtain ⟨rfl,rfl⟩ := Prod.mk.inj heq
          rw [if_pos hclock,Option.map_some,Option.filter_some,
            decide_eq_true (answerOf_back f.1 f.2)]
          rfl
        · rw [hdc f.1 (List.of_mem_zip hmem).1] at hclock
          cases hclock
      · intro hall
        split_ifs with hclock
        · cases b with
          | none => rfl
          | some q =>
            have hfalse := hall (d,q) (List.mem_filterMap.mpr ⟨(d,some q),List.mem_cons_self,rfl⟩)
            rw [hclock] at hfalse
            cases hfalse
        · rfl

theorem answers_recombined (hapart : Mapping.Apart ds) (hdc : ∀ d ∈ ds.tail,d.dc=false)
    (hlen : back.length=ds.length) {mem : IoMemory} {time : UInt64} {r : Received} {c : Context}
    (h : Follows mem time r c (receiveProcessdata (answers ds back) receiveStart))
    (idxstack : List Entry) :
    Recombined mem time ds back
      (if r.valid=true then r.wkc else ecNoFrame,{ c with idxstack := idxstack }) := by
  have hresult : (if r.valid=true then r.wkc else ecNoFrame)=returnedWkc (backFrames ds back) := by
    have hlost := Mapping.received_lost (answers_tail hdc back)
    rw [cameBack_answers,ownCounter_answers,Mapping.ReceiveRun.result,← h.valid,← h.wkc] at hlost
    exact hlost
  obtain ⟨hclock,hnoclock⟩ := answers_time hdc hlen time
  rw [← h.dcTime] at hclock hnoclock
  obtain ⟨hstored,hother⟩ := Mapping.received_lost_iomap
    (show Mapping.Apart ((answers ds back).map Prod.fst) by rw [answers_fst hlen]; exact hapart) mem
  rw [cameBack_answers,← h.iomap] at hstored
  rw [cameBack_answers,← h.iomap] at hother
  have hkept : ∀ x,(∀ f ∈ backFrames ds back,f.1.command≠.lwr →
      x < f.1.dest ∨ f.1.dest+f.1.length ≤ x) → c.iomap x=mem x := by
    intro x hx
    apply hother
    intro f hf
    obtain ⟨f',hf',rfl⟩ := List.mem_map.mp hf
    exact hx f' hf'
  refine ⟨hresult,?_,hclock,hnoclock,?_,?_,hkept⟩
  · simp only [hresult]
    exact returnedWkc_noFrame _
  · intro f hf
    exact hstored (f.1,answerOf f.1 f.2) (List.mem_map_of_mem hf)
  · intro d hd hread k hk
    apply hkept
    intro f hf hread'
    have := lost_apart hapart hlen hd hf hread hread'
    omega

end Cycle

section Answering

variable {outs : List (Nat × Sent)} {ds : List Datagram} {p : Port}

theorem Answers.outgoing {idx : Nat} {q : Packet} (h : Answers outs idx q)
    (hout : List.Forall₂ (Outgoing p) outs ds) :
    ∃ out ∈ outs,∃ d ∈ ds,Outgoing p out d ∧ out.1=idx ∧
      ∃ packet,out.2.primary=some packet ∧ Keeps packet q := by
  obtain ⟨out,hmem,hidx,packet,hpacket,hkeeps⟩ := h.sent
  obtain ⟨k,hk,hget⟩ := List.mem_iff_getElem.mp hmem
  have hkd : k < ds.length := hout.length_eq ▸ hk
  refine ⟨out,hmem,ds[k],List.getElem_mem hkd,?_,hidx,packet,hpacket,hkeeps⟩
  rw [← hget]
  exact hout.get hk hkd

theorem entries_idx (h : outs.length=ds.length) :
    (List.zipWith (fun out d => entryOf out.1 d) outs ds).map Entry.idx=outs.map Prod.fst := by
  induction outs generalizing ds with
  | nil => rfl
  | cons out outs ih =>
    cases ds with
    | nil => cases h
    | cons d ds =>
      rw [List.zipWith_cons_cons,List.map_cons,List.map_cons,ih (Nat.succ.inj h)]
      rfl

theorem datagram_long (d : Datagram) : indexOffset < d.txbuflength := by
  have hset : setupDatagram d.length=28+d.length := rfl
  have hadd : 20 ≤ addDatagram (setupDatagram d.length) 8 := by
    rw [addDatagram,Mapping.ecHeadersize,Mapping.ecElengthsize,Mapping.ecWkcsize]
    omega
  rw [Datagram.txbuflength,indexOffset]
  split_ifs <;> omega

theorem answers_expects (hout : List.Forall₂ (Outgoing p) outs ds) :
    Expects p.txbuflength (Answers outs) := by
  constructor
  · intro idx q hq
    obtain ⟨out,-,d,-,ho,hidx,packet,hpacket,hkeeps⟩ := hq.outgoing hout
    have hlen := ho.length packet hpacket
    have hown : Own idx packet := by
      refine ⟨ho.etype packet hpacket,(ho.index packet hpacket).trans hidx,?_,?_⟩
      · rw [hlen]
        exact datagram_long d
      · rw [← hkeeps.length]
        exact hq.fits
    exact hkeeps.own hown
  · intro idx q hq
    obtain ⟨out,-,d,-,ho,hidx,packet,hpacket,hkeeps⟩ := hq.outgoing hout
    rw [hkeeps.length,ho.length packet hpacket,← ho.txbuflength,hidx]

theorem answers_frameOf (hnodup : (outs.map Prod.fst).Nodup)
    (hshort : ∀ d ∈ ds,d.length ≤ ecMaxLrwData) (hout : List.Forall₂ (Outgoing p) outs ds) :
    List.Forall₂ (fun out d => ∀ q,Answers outs out.1 q → FrameOf d q) outs ds := by
  apply List.forall₂_of_length_eq_of_get hout.length_eq
  intro k hk hkd q hq
  have ho := hout.get hk hkd
  obtain ⟨out,hmem,hidx,packet,hpacket,hkeeps⟩ := hq.sent
  have hsame : out=outs[k] := List.inj_on_of_nodup_map hnodup hmem (List.getElem_mem hk) hidx
  rw [hsame] at hpacket
  refine ⟨hkeeps.length.trans (ho.length packet hpacket),hshort _ (List.getElem_mem hkd),?_,?_⟩
  · rw [hkeeps.header _ (by decide) (by decide)]
    exact ho.command packet hpacket
  · intro hdc
    rw [leWord,hkeeps.header _ (by decide) (by decide),hkeeps.header _ (by decide) (by decide)]
    exact ho.elength packet hpacket hdc

end Answering

section Exchange

variable {ctx ctx' : Mapping.Context} {group size : Nat}

/-- A cycle of datagrams that are sent, and answered by the line as far as it does. -/
theorem cycle_recombined {c : Context} (hc : c.AtRest) {ds : List Datagram}
    (hshort : ∀ d ∈ ds,d.length ≤ ecMaxLrwData) (hapart : Mapping.Apart ds)
    (hdc : ∀ d ∈ ds.tail,d.dc=false) (hlen : ds.length ≤ ecMaxBuf) (configadr : Nat)
    (sends : Nat → Bool × Bool) (waits : Nat → Wait)
    (hline : Line (Context.sendGroup configadr sends ds 0 c).1 waits) :
    let out := Context.sendGroup configadr sends ds 0 c
    ∃ back,Back out.1 waits (out.2.port.outcomes waits out.2.idxstack 0) back ∧
      Recombined c.iomap c.dcTime ds back (out.2.receiveGroup waits) := by
  have hindices : ∀ idx ∈ nextIndices c.port.lastidx ds.length,idx < ecMaxBuf := by
    intro idx hidx
    obtain ⟨k,hk,rfl⟩ := List.mem_map.mp hidx
    have hk' := List.mem_range.mp hk
    exact ringIndex_lt (ringNext_lt hc.lastidx) (by omega)
  have hsent := sendGroup_sends configadr sends ds 0 c hc.redport hshort hc.lastidx
    (fun idx hidx => hc.empty idx (hindices idx hidx)) hc.etype (by
      rw [hc.idxstack,List.length_nil,Nat.zero_add]
      exact hlen)
  generalize hout : Context.sendGroup configadr sends ds 0 c=out at hsent hline
  obtain ⟨outs,c'⟩ := out
  simp only at hsent hline ⊢
  have hnodup : (outs.map Prod.fst).Nodup := by
    rw [hsent.indices]
    exact nextIndices_nodup hc.lastidx hlen
  have hx := answers_expects hsent.outgoing
  have hstack : ∀ expected,c'.port.stack.Expecting expected := by
    intro expected
    constructor
    · intro q hq
      rw [hsent.socket,hc.socket] at hq
      cases hq
    · intro idx hidx hstat
      have hold := hsent.rcvd idx hstat
      rw [hc.empty idx hidx] at hold
      cases hold
  have hentries : c'.idxstack=List.zipWith (fun out d => entryOf out.1 d) outs ds := by
    rw [hsent.idxstack,hc.idxstack,List.nil_append]
  have hlines : ∀ k,∀ a ∈ (waits k).polls,∀ q ∈ a.primary,
      ∃ idx,Answers outs idx q ∧ Arrives waits q := by
    intro k a ha q hq
    have harrives : Arrives waits q := ⟨k,a,ha,hq⟩
    obtain ⟨idx,hidx⟩ := hline.answers q harrives
    exact ⟨idx,hidx,harrives⟩
  have hxa : Expects c'.port.txbuflength fun idx q => Answers outs idx q ∧ Arrives waits q :=
    ⟨fun idx q h => hx.own idx q h.1,fun idx q h => hx.length idx q h.1⟩
  have hstart : Follows c.iomap c.dcTime ⟨0,false⟩ c' receiveStart :=
    ⟨rfl,rfl,hsent.iomap,hsent.dcTime⟩
  obtain ⟨back,hreturned,hback,hfollows⟩ := receiveEntries_follows hxa waits hlines
    ((answers_frameOf hnodup hshort hsent.outgoing).imp fun _ _ h q hq => h q hq.1) 0 ⟨0,false⟩ c'
    receiveStart hsent.redport rfl (hstack _) hstart
  rw [← hentries] at hreturned hfollows
  have hcount : outs.length=ds.length := hsent.outgoing.length_eq
  have hdistinct : (c'.idxstack.map Entry.idx).Nodup := by
    rw [hentries,entries_idx hcount]
    exact hnodup
  refine ⟨back,⟨hback.length_eq.symm,?_,?_⟩,?_⟩
  · intro k out q hout hq
    obtain ⟨hk,rfl⟩ := List.getElem?_eq_some_iff.mp hout
    obtain ⟨hk',hq⟩ := List.getElem?_eq_some_iff.mp hq
    exact hback.get hk hk' q hq
  · intro k out o q hout hnone ho hq hheard
    obtain ⟨hk,hget⟩ := List.getElem?_eq_some_iff.mp hout
    have hmem : out ∈ outs := List.mem_of_getElem? hout
    have hprimary : out.2.primary≠none := by
      obtain ⟨out',hmem',hidx,packet,hpacket,-⟩ := hq.sent
      rw [← List.inj_on_of_nodup_map hnodup hmem' hmem hidx,hpacket]
      exact Option.some_ne_none packet
    have hkd : k < ds.length := hcount ▸ hk
    have hentry : c'.idxstack[k]?=some (entryOf out.1 ds[k]) := by
      rw [hentries,List.getElem?_zipWith,hout,List.getElem?_eq_getElem hkd]
    have hlost : o.returned=false := by
      have hsame := congrArg (·[k]?) hreturned
      simp only [List.getElem?_map,hnone,ho,Option.map_some,Option.some.injEq] at hsame
      exact hsame.symm
    have hknown : out.1 < ecMaxBuf := by
      rw [← hget]
      exact (hsent.outgoing.get hk hkd).known
    exact outcomes_unread hx waits (fun k a ha q hq => hline.answers q ⟨k,a,ha,hq⟩) hline.rounds
      c'.idxstack hdistinct 0 c'.port hsent.redport rfl (hstack _) hentry ho hknown hq
      (.inr (hsent.waiting out hmem hprimary)) hlost (.inr hheard)
  · have hrecombined := answers_recombined hapart hdc
      (hback.length_eq.symm.trans hcount) hfollows []
    exact hrecombined

/-- Sending a mapped group and receiving it, where any of the frames may be lost. -/
theorem processdata_recombined (hfresh : ctx.Fresh group)
    (h : Mapping.configMapGroup ctx group=some (ctx',size)) (hasdc : Bool) (blockLRW configadr : Nat)
    {c : Context} (hc : c.AtRest) (sends : Nat → Bool × Bool) (waits : Nat → Wait) :
    ∃ wkc ds mem,Mapping.sendProcessdata ctx'.overlappedMode
        { ctx'.group with hasdc := hasdc, blockLRW := blockLRW } c.iomap=some (wkc,ds,mem) ∧
      let out := Context.sendGroup configadr sends ds 0 { c with iomap := mem }
      (ds.length ≤ ecMaxBuf → Line out.1 waits →
        ∃ back,Back out.1 waits (out.2.port.outcomes waits out.2.idxstack 0) back ∧
          Recombined mem c.dcTime ds back (out.2.receiveGroup waits)) := by
  obtain ⟨wkc,ds,mem,hsends,hshort,hapart,hdc⟩ := Mapping.mapped_sends hfresh h hasdc blockLRW c.iomap
  have hrest : ({ c with iomap := mem } : Context).AtRest :=
    ⟨hc.redport,hc.empty,hc.socket,hc.etype,hc.lastidx,hc.idxstack⟩
  exact ⟨wkc,ds,mem,hsends,fun hlen hline =>
    cycle_recombined hrest hshort hapart hdc hlen configadr sends waits hline⟩

/-- A context whose indices begin with 0. -/
def restContext : Context where
  port :=
    { stack := ⟨fun _ => .empty,fun _ _ => 0,fun _ => 0,fun _ => 0,[]⟩
      redport := none
      txbuf := fun _ i => if i=12 then 0x88 else if i=13 then 0xA4 else 0
      txbuflength := fun _ => 0
      txbuf2 := fun _ => 0
      txbuflength2 := 0
      lastidx := 15 }
  idxstack := []
  iomap := fun _ => 0
  dcTime := 0

theorem restContext_atRest : restContext.AtRest :=
  ⟨rfl,fun _ _ => rfl,rfl,
    fun _ _ => show (0x88 : UInt8).toNat*256+(0xA4 : UInt8).toNat=ethPEcat by decide,by decide,rfl⟩

def echo (outs : List (Nat × Sent)) : Nat → Wait := fun _ =>
  ⟨⟨outs.filterMap fun out => out.2.primary,[]⟩::outs.map fun _ => ⟨[],[]⟩,fun _ => ⟨true,[],[]⟩⟩

theorem echo_line {outs : List (Nat × Sent)}
    (h : ∀ out ∈ outs,∀ q,out.2.primary=some q → q.length ≤ ecBufsize) : Line outs (echo outs) := by
  refine ⟨fun _ => List.cons_ne_nil _ _,?_⟩
  rintro q ⟨k,a,ha,hq⟩
  rcases List.mem_cons.mp ha with rfl|ha
  · obtain ⟨out,hout,hpacket⟩ := List.mem_filterMap.mp hq
    exact ⟨out.1,⟨out,hout,rfl,q,hpacket,Keeps.refl q⟩,h out hout q hpacket⟩
  · obtain ⟨out,-,rfl⟩ := List.mem_map.mp ha
    cases hq

/-- A group with a mailbox and the clocks: the frame comes back with the working counter it left
with. -/
theorem mailbox_frames_recombined :
    ∃ ctx' size,Mapping.configMapGroup (freshContext [mailboxSlave 0] 0 false false) 0=
        some (ctx',size) ∧
      ∃ wkc ds mem,Mapping.sendProcessdata ctx'.overlappedMode
          { ctx'.group with hasdc := true, blockLRW := 0 } restContext.iomap=some (wkc,ds,mem) ∧
        let out := Context.sendGroup 0 (fun _ => (true,true)) ds 0 { restContext with iomap := mem }
        (out.2.receiveGroup (echo out.1)).1=0 ∧
          ∃ back,Back out.1 (echo out.1)
              (out.2.port.outcomes (echo out.1) out.2.idxstack 0) back ∧
            Recombined mem 0 ds back (out.2.receiveGroup (echo out.1)) := by
  have hfresh : (freshContext [mailboxSlave 0] 0 false false).Fresh 0 :=
    Mapping.freshContext_fresh _ _ (by decide) (by decide) (by decide)
      (by simpa using Mapping.mailboxSlave_fresh 0)
  have hmapped : (Mapping.configMapGroup (freshContext [mailboxSlave 0] 0 false false) 0).any
      (fun r => (Mapping.sendProcessdata r.1.overlappedMode
        { r.1.group with hasdc := true, blockLRW := 0 } restContext.iomap).any (fun sent =>
          let out := Context.sendGroup 0 (fun _ => (true,true)) sent.2.1 0
            { restContext with iomap := sent.2.2 }
          decide (sent.2.1.length ≤ ecMaxBuf ∧ (out.2.receiveGroup (echo out.1)).1=0 ∧
            ∀ x ∈ out.1,∀ q ∈ x.2.primary,q.length ≤ ecBufsize)))=true := by
    decide +kernel
  obtain ⟨⟨ctx',size⟩,h,hrun⟩ := (Option.any_eq_true _ _).mp hmapped
  obtain ⟨⟨wkc,ds,mem⟩,hsent,hrun⟩ := (Option.any_eq_true _ _).mp hrun
  obtain ⟨hlen,hresult,hfits⟩ := of_decide_eq_true hrun
  obtain ⟨wkc',ds',mem',hsent',hall⟩ := processdata_recombined hfresh h true 0 0 restContext_atRest
    (fun _ => (true,true)) (echo (Context.sendGroup 0 (fun _ => (true,true)) ds 0
      { restContext with iomap := mem }).1)
  cases hsent.symm.trans hsent'
  exact ⟨ctx',size,h,wkc,ds,mem,hsent,hresult,hall hlen (echo_line hfits)⟩

end Exchange

end EtherCATMaster.Nicdrv
