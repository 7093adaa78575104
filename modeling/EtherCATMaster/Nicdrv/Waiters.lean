import EtherCATMaster.Framework.Run
import EtherCATMaster.Nicdrv.Inframe

namespace EtherCATMaster.Nicdrv

open EtherCATMaster.Framework
open EtherCATMaster.Mapping (ecMaxBuf ecNoFrame ecBufsize ethHeadersize writeBytes readBytes
  readBytes_length)

/-- A thread in `ecx_waitinframe`, or behind it. -/
inductive Waiter where
  | idle
  | waiting (idx : Nat) (stage : Stage)
  | done (idx : Nat) (wkc : Int)
  deriving DecidableEq, Repr

/-- A single NIC: the frames that are on the line, those that have arrived, and the threads. -/
structure Receiving where
  lane : Lane
  mutex : Option Nat
  net : List Frame
  arrived : List Frame
  threads : Nat → Waiter

/-- The `k`-th frame on the line arrives, as slaves have altered it; or a thread takes a step. The
loop of the thread ends behind it if the timer has expired. -/
inductive Event where
  | arrive (k : Nat) (body : List UInt8)
  | run (t : Nat) (expired : Bool)
  deriving DecidableEq, Repr

/-- The waiting loop behind a step: it ends with the working counter of a frame, or with the timer. -/
def Waiter.behind (idx : Nat) (expired : Bool) : Stage → Waiter
  | .returned wkc =>
      if ecNoFrame < wkc ∨ expired=true then .done idx wkc else .waiting idx .check
  | stage => .waiting idx stage

def Receiving.step (txbuflength : Nat → Nat) (s : Receiving) : Event → Receiving
  | .arrive k body =>
      match s.net[k]? with
      | none => s
      | some f =>
          { s with
            net := s.net.eraseIdx k
            arrived := s.arrived++[f.altered body]
            lane := { s.lane with socket := s.lane.socket++[f.altered body] } }
  | .run t expired =>
      match s.threads t with
      | .waiting idx stage =>
          let r := inframeStep txbuflength t idx s.lane s.mutex stage
          { s with
            lane := r.1
            mutex := r.2.1
            threads := Function.update s.threads t (.behind idx expired r.2.2) }
      | _ => s

/-- The index that a thread waits for. -/
def Waiter.index : Waiter → Option Nat
  | .idle => none
  | .waiting idx _ => some idx
  | .done idx _ => some idx

def Waiter.locked : Waiter → Bool
  | .waiting _ stage => stage.locked
  | _ => false

def Waiter.hand : Waiter → List Frame
  | .waiting _ stage => stage.hand
  | _ => []

/-- The frame that the owner of `rx_mutex` has read. -/
def Receiving.hand (s : Receiving) : List Frame :=
  match s.mutex with
  | none => []
  | some t => (s.threads t).hand

/-- How many frames have an index. -/
def tally (fs : List Frame) (i : Nat) : Nat := fs.countP fun f => decide (f.index=i)

/-- How many frames with an index are on the line, in the socket or read and not yet handed over. -/
def Receiving.underway (s : Receiving) (i : Nat) : Nat :=
  tally s.net i+tally s.lane.socket i+tally s.hand i

/-- A frame as it is sent: its length is that of the transmit buffer, and the working counter that of
its last datagram. -/
structure Frame.Good (txbuflength : Nat → Nat) (f : Frame) : Prop where
  own : Own f.index f.bytes
  known : f.index < ecMaxBuf
  length : f.bytes.length=txbuflength f.index
  elength : leWord (payload f.bytes) 0%0x1000+2+ethHeadersize=f.bytes.length

def Frame.In (f : Frame) (b : Buffer) : Prop :=
  ∀ k,k < f.bytes.length-ethHeadersize → b k=payload f.bytes k

def Frame.Read (f : Frame) (b : Buffer) : Prop :=
  ∀ k,k < f.bytes.length → b k=packetBuffer f.bytes k

/-- A frame that has arrived for an index is in the buffer of the index. -/
structure Receiving.Holds (s : Receiving) (i : Nat) (f : Frame) : Prop where
  arrived : f ∈ s.arrived
  index : f.index=i
  contents : f.In (s.lane.rxbuf i)

def Receiving.Delivered (s : Receiving) (i : Nat) (wkc : Int) : Prop :=
  ∃ f,s.Holds i f ∧ wkc=bufferWkc (payload f.bytes)

/-- The frame of an index is under way, or in the buffer. -/
def Receiving.Place (s : Receiving) (i : Nat) : Prop :=
  s.lane.rxbufstat i=.tx ∧ s.underway i=1 ∨
    (s.lane.rxbufstat i=.rcvd ∨ s.lane.rxbufstat i=.complete) ∧ s.underway i=0 ∧ ∃ f,s.Holds i f

/-- What a thread knows where it is. -/
def Receiving.Fact (s : Receiving) (i : Nat) : Stage → Prop
  | .check => s.lane.rxbufstat i≠.complete
  | .pick _ => s.lane.rxbufstat i=.rcvd
  | .mark _ wkc => s.lane.rxbufstat i=.rcvd ∧ s.Delivered i wkc
  | .lock => s.lane.rxbufstat i≠.complete
  | .recheck => s.lane.rxbufstat i≠.complete
  | .recv => s.lane.rxbufstat i=.tx
  | .got f => s.lane.rxbufstat i=.tx ∧ f ∈ s.arrived ∧ f.Read s.lane.tempbuf
  | .copyOwn f => f ∈ s.arrived ∧ f.index=i ∧ f.Read s.lane.tempbuf
  | .completeOwn f wkc => s.Holds i f ∧ wkc=bufferWkc (payload f.bytes)
  | .sourceOwn wkc => s.lane.rxbufstat i=.complete ∧ s.Delivered i wkc
  | .copyOther f j =>
      s.lane.rxbufstat i=.tx ∧ f ∈ s.arrived ∧ f.index=j ∧ j≠i ∧ f.Read s.lane.tempbuf
  | .receivedOther f j => s.lane.rxbufstat i=.tx ∧ j≠i ∧ s.Holds j f
  | .sourceOther _ => s.lane.rxbufstat i≠.complete
  | .unlock wkc =>
      s.lane.rxbufstat i=.complete ∧ s.Delivered i wkc ∨
        wkc ≤ ecNoFrame ∧ s.lane.rxbufstat i≠.complete
  | .returned _ => False

def Receiving.Knows (s : Receiving) : Waiter → Prop
  | .idle => True
  | .waiting i stage => s.Fact i stage
  | .done i wkc => ecNoFrame < wkc → s.lane.rxbufstat i=.complete ∧ s.Delivered i wkc

/-- Where the frames and the threads are at any time: `n` threads, no two of them with one index, wait
for the frames. -/
structure Flying (txbuflength : Nat → Nat) (frames : List Frame) (n : Nat) (s : Receiving) :
    Prop where
  good : ∀ f ∈ frames,f.Good txbuflength
  owner : ∀ t,(s.threads t).locked=true ↔ s.mutex=some t
  single : ∀ t u i,(s.threads t).index=some i → (s.threads u).index=some i → t=u
  known : ∀ t i,(s.threads t).index=some i → ∃ f ∈ frames,f.index=i
  bound : ∀ t,n ≤ t → s.threads t=.idle
  net : ∀ f ∈ s.net,f ∈ frames
  arrived : ∀ f ∈ s.arrived,∃ g ∈ frames,∃ body,f=g.altered body
  read : ∀ f ∈ s.lane.socket++s.hand,f ∈ s.arrived
  place : ∀ f ∈ frames,s.Place f.index
  knows : ∀ t,s.Knows (s.threads t)

section Frames

variable {txbuflength : Nat → Nat} {f : Frame}

@[simp] theorem tally_nil (i : Nat) : tally [] i=0 := rfl

@[simp] theorem tally_append (fs gs : List Frame) (i : Nat) :
    tally (fs++gs) i=tally fs i+tally gs i := List.countP_append

@[simp] theorem tally_cons (fs : List Frame) (i : Nat) :
    tally (f::fs) i=tally fs i+if f.index=i then 1 else 0 := by
  rw [tally,List.countP_cons]
  simp only [decide_eq_true_eq]
  rfl

theorem tally_eraseIdx {fs : List Frame} {k : Nat} (h : fs[k]?=some f) (i : Nat) :
    tally fs i=tally (fs.eraseIdx k) i+if f.index=i then 1 else 0 := by
  obtain ⟨hk,rfl⟩ := List.getElem?_eq_some_iff.mp h
  rw [← tally_cons]
  exact ((List.getElem_cons_eraseIdx_perm hk).countP_eq _).symm

theorem Frame.Good.altered (h : f.Good txbuflength) (body : List UInt8) :
    (f.altered body).Good txbuflength := by
  have hkeeps := f.altered_keeps body h.own.long
  have hindex := f.altered_index body h.own.long
  refine ⟨?_,?_,?_,?_⟩
  · rw [hindex]
    exact hkeeps.own h.own
  · rw [hindex]
    exact h.known
  · rw [hindex,hkeeps.length]
    exact h.length
  · have hword : leWord (payload (f.altered body).bytes) 0=leWord (payload f.bytes) 0 := by
      rw [leWord,leWord,payload,payload,hkeeps.header _ (by decide) (by decide),
        hkeeps.header _ (by decide) (by decide)]
      rfl
    rw [hword,hkeeps.length]
    exact h.elength

theorem Frame.Good.payload_long (h : f.Good txbuflength) : 2 ≤ f.bytes.length-ethHeadersize := by
  have := h.own.long
  rw [indexOffset] at this
  rw [ethHeadersize]
  omega

theorem Frame.In.word {b : Buffer} (h : f.In b) {l : Nat}
    (hl : l+1 < f.bytes.length-ethHeadersize) : leWord b l=leWord (payload f.bytes) l := by
  rw [leWord,leWord,h l (by omega),h (l+1) hl]

theorem Frame.In.wkc {b : Buffer} (h : f.In b) (hgood : f.Good txbuflength) :
    (leWord b (leWord (payload f.bytes) 0%0x1000) : Int)=bufferWkc (payload f.bytes) := by
  have helength := hgood.elength
  have hlong := hgood.payload_long
  rw [bufferWkc,h.word (by omega)]

theorem Frame.In.bufferWkc {b : Buffer} (h : f.In b) (hgood : f.Good txbuflength) :
    Nicdrv.bufferWkc b=Nicdrv.bufferWkc (payload f.bytes) := by
  have hlong := hgood.payload_long
  rw [← h.wkc hgood,Nicdrv.bufferWkc,h.word (l := 0) (by omega)]

theorem Frame.Read.put {b buf : Buffer} (h : f.Read b) (hgood : f.Good txbuflength) :
    f.In (writeBytes buf 0 (readBytes b ethHeadersize (txbuflength f.index-ethHeadersize))) := by
  intro k hk
  have hlength := hgood.length
  rw [writeBytes,readBytes_length,if_pos ⟨Nat.zero_le k,by omega⟩,Nat.sub_zero,
    readBytes_get _ _ _ (by omega)]
  exact h _ (by omega)

theorem Frame.Read.elength {b : Buffer} (h : f.Read b) (hgood : f.Good txbuflength) :
    leWord b ethHeadersize=leWord (payload f.bytes) 0 := by
  have hlong := hgood.payload_long
  rw [leWord,leWord,h _ (by omega),h _ (by omega)]
  rfl

theorem Frame.Read.etype {b : Buffer} (h : f.Read b) (hgood : f.Good txbuflength) :
    netWord b etypeOffset=ethPEcat := by
  have hlong := hgood.own.long
  rw [indexOffset] at hlong
  refine (netWord_congr ?_ ?_).trans hgood.own.etype
  · exact h _ (by rw [etypeOffset]; omega)
  · exact h _ (by rw [etypeOffset]; omega)

theorem Frame.Read.index {b : Buffer} (h : f.Read b) (hgood : f.Good txbuflength) :
    (b indexOffset).toNat=f.index := by
  rw [h _ hgood.own.long]
  rfl

theorem read_recv (hgood : f.Good txbuflength) (b : Buffer) :
    f.Read (writeBytes b 0 (f.bytes.take ecBufsize)) := by
  intro k hk
  rw [List.take_of_length_le hgood.own.fits]
  exact writeBytes_zero b f.bytes hk

theorem Frame.In.data {b : Buffer} (h : f.In b) (hgood : f.Good txbuflength) :
    readBytes b 0 (txbuflength f.index-ethHeadersize)=f.bytes.drop ethHeadersize := by
  rw [← hgood.length]
  exact (payload_contents hgood.elength h).2

end Frames

section Turns

variable {txbuflength : Nat → Nat} {frames : List Frame} {n t i : Nat} {s : Receiving}

/-- What a thread with index `i` does to the buffers of the others. -/
structure Aside (i : Nat) (l l' : Lane) : Prop where
  stat : ∀ j,j≠i → l'.rxbufstat j=l.rxbufstat j ∨ l.rxbufstat j=.tx ∧ l'.rxbufstat j=.rcvd
  rxbuf : ∀ j,j≠i → l.rxbufstat j≠.tx → l'.rxbuf j=l.rxbuf j

/-- What it does without `rx_mutex`. -/
structure Apart (i : Nat) (l l' : Lane) : Prop where
  stat : ∀ j,j≠i → l'.rxbufstat j=l.rxbufstat j
  rxbuf : l'.rxbuf=l.rxbuf
  tempbuf : l'.tempbuf=l.tempbuf

def Receiving.turn (s : Receiving) (t : Nat) (lane : Lane) (mutex : Option Nat) (w : Waiter) :
    Receiving :=
  { s with lane := lane, mutex := mutex, threads := Function.update s.threads t w }

theorem Receiving.step_run (expired : Bool) {stage : Stage} (ht : s.threads t=.waiting i stage) :
    s.step txbuflength (.run t expired)=
      s.turn t (inframeStep txbuflength t i s.lane s.mutex stage).1
        (inframeStep txbuflength t i s.lane s.mutex stage).2.1
        (.behind i expired (inframeStep txbuflength t i s.lane s.mutex stage).2.2) := by
  rw [Receiving.step,ht]
  rfl

theorem Receiving.turn_self (s : Receiving) (t : Nat) (lane : Lane) (mutex : Option Nat)
    (w : Waiter) : (s.turn t lane mutex w).threads t=w := Function.update_self ..

theorem Receiving.turn_other (s : Receiving) (lane : Lane) (mutex : Option Nat) (w : Waiter)
    {u : Nat} (hu : u≠t) : (s.turn t lane mutex w).threads u=s.threads u :=
  Function.update_of_ne hu ..

theorem Receiving.turn_hand (s : Receiving) (lane : Lane) (w : Waiter) :
    (s.turn t lane (some t) w).hand=w.hand := congrArg Waiter.hand (s.turn_self t lane (some t) w)

theorem Receiving.turn_hand_other (s : Receiving) (lane : Lane) (w : Waiter) {u : Nat}
    (hu : u≠t) : (s.turn t lane (some u) w).hand=(s.threads u).hand :=
  congrArg Waiter.hand (s.turn_other lane (some u) w hu)

/-- How a step changes `rx_mutex`. -/
inductive Locking (t : Nat) : Option Nat → Option Nat → Waiter → Waiter → Prop
  | same {mutex : Option Nat} {v w : Waiter} (hsame : w.locked=v.locked) : Locking t mutex mutex v w
  | lock {v w : Waiter} (hv : v.locked=false) (hw : w.locked=true) : Locking t none (some t) v w
  | unlock {v w : Waiter} (hv : v.locked=true) (hw : w.locked=false) : Locking t (some t) none v w

theorem Waiter.hand_unlocked {w : Waiter} (h : w.locked=false) : w.hand=[] := by
  cases w with
  | idle => rfl
  | done idx wkc => rfl
  | waiting idx stage =>
    cases stage with
    | check => rfl
    | pick locked => rfl
    | mark locked wkc => rfl
    | lock => rfl
    | returned rval => rfl
    | _ => cases h

theorem Locking.owner {mutex mutex' : Option Nat} {w : Waiter} (h : Flying txbuflength frames n s)
    (hl : Locking t mutex mutex' (s.threads t) w) (hmutex : s.mutex=mutex) (lane : Lane) (u : Nat) :
    ((s.turn t lane mutex' w).threads u).locked=true ↔ mutex'=some u := by
  by_cases hu : u=t
  · subst hu
    rw [s.turn_self]
    cases hl with
    | same hsame =>
      rw [hsame,← hmutex]
      exact h.owner u
    | lock hv hw => exact iff_of_true hw rfl
    | unlock hv hw =>
      rw [hw]
      exact iff_of_false (by decide) (by intro hc; cases hc)
  · rw [s.turn_other _ _ _ hu,h.owner u,hmutex]
    cases hl with
    | same hsame => exact Iff.rfl
    | lock hv hw => exact iff_of_false (by intro hc; cases hc) (fun hc => hu (Option.some.inj hc).symm)
    | unlock hv hw =>
      exact iff_of_false (fun hc => hu (Option.some.inj hc).symm) (by intro hc; cases hc)

/-- The frame that is read is in the hand of the thread, or it stays where it is. -/
theorem Locking.hand {mutex mutex' : Option Nat} {w : Waiter} (h : Flying txbuflength frames n s)
    (hl : Locking t mutex mutex' (s.threads t) w) (hmutex : s.mutex=mutex) (lane : Lane) :
    (s.turn t lane mutex' w).hand=s.hand ∧ (s.threads t).hand=[] ∧ w.hand=[] ∨
      s.hand=(s.threads t).hand ∧ (s.turn t lane mutex' w).hand=w.hand := by
  cases hl with
  | lock hv hw =>
    refine .inr ⟨?_,?_⟩
    · rw [Waiter.hand_unlocked hv,Receiving.hand,hmutex]
    · exact s.turn_hand lane w
  | unlock hv hw =>
    refine .inr ⟨?_,?_⟩
    · rw [Receiving.hand,hmutex]
    · rw [Waiter.hand_unlocked hw]
      rfl
  | same hsame =>
    cases hlock : (s.threads t).locked with
    | true =>
      have hown : mutex=some t := by
        rw [← hmutex]
        exact (h.owner t).mp hlock
      subst hown
      exact .inr ⟨by rw [Receiving.hand,hmutex],s.turn_hand lane w⟩
    | false =>
      refine .inl ⟨?_,Waiter.hand_unlocked hlock,Waiter.hand_unlocked (hsame.trans hlock)⟩
      cases hu : mutex with
      | none =>
        have hnone : s.hand=[] := by rw [Receiving.hand,hmutex,hu]
        rw [hnone]
        rfl
      | some u =>
        have hne : u≠t := by
          intro hc
          rw [hu,hc] at hmutex
          rw [(h.owner t).mpr hmutex] at hlock
          cases hlock
        rw [s.turn_hand_other lane w hne,Receiving.hand,hmutex,hu]

theorem Receiving.Holds.turn {lane : Lane} {mutex : Option Nat} {w : Waiter} {j : Nat} {f : Frame}
    (h : s.Holds j f) (hbuf : lane.rxbuf j=s.lane.rxbuf j) : (s.turn t lane mutex w).Holds j f :=
  ⟨h.arrived,h.index,by rw [Receiving.turn,hbuf]; exact h.contents⟩

theorem Receiving.Delivered.turn {lane : Lane} {mutex : Option Nat} {w : Waiter} {j : Nat}
    {wkc : Int} (h : s.Delivered j wkc) (hbuf : lane.rxbuf j=s.lane.rxbuf j) :
    (s.turn t lane mutex w).Delivered j wkc := by
  obtain ⟨f,hf,hwkc⟩ := h
  exact ⟨f,hf.turn hbuf,hwkc⟩

theorem Aside.kept {l l' : Lane} (h : Aside i l l') {j : Nat} (hj : j≠i) (hstat : l.rxbufstat j≠.tx) :
    l'.rxbufstat j=l.rxbufstat j := (h.stat j hj).resolve_right (fun hc => hstat hc.1)

theorem Aside.incomplete {l l' : Lane} (h : Aside i l l') {j : Nat} (hj : j≠i)
    (hstat : l.rxbufstat j≠.complete) : l'.rxbufstat j≠.complete := by
  rcases h.stat j hj with heq|⟨-,hrcvd⟩
  · rw [heq]
    exact hstat
  · rw [hrcvd]
    decide

/-- What another thread knows is not disturbed. -/
theorem Receiving.Knows.aside {lane : Lane} {mutex : Option Nat} {w v : Waiter} {j : Nat}
    (hidx : v.index=some j) (hj : j≠i) (haside : Aside i s.lane lane)
    (hapart : v.locked=true → Apart i s.lane lane) (h : s.Knows v) :
    (s.turn t lane mutex w).Knows v := by
  have hrcvd : s.lane.rxbufstat j=.rcvd → lane.rxbufstat j=.rcvd ∧ lane.rxbuf j=s.lane.rxbuf j := by
    intro hstat
    have htx : s.lane.rxbufstat j≠.tx := by rw [hstat]; decide
    exact ⟨(haside.kept hj htx).trans hstat,haside.rxbuf j hj htx⟩
  have hcomplete : s.lane.rxbufstat j=.complete →
      lane.rxbufstat j=.complete ∧ lane.rxbuf j=s.lane.rxbuf j := by
    intro hstat
    have htx : s.lane.rxbufstat j≠.tx := by rw [hstat]; decide
    exact ⟨(haside.kept hj htx).trans hstat,haside.rxbuf j hj htx⟩
  cases v with
  | idle => trivial
  | done idx wkc =>
    cases hidx
    intro hback
    obtain ⟨hstat,hdel⟩ := h hback
    exact ⟨(hcomplete hstat).1,hdel.turn (hcomplete hstat).2⟩
  | waiting idx stage =>
    cases hidx
    cases stage with
    | check => exact haside.incomplete hj h
    | pick locked => exact (hrcvd h).1
    | mark locked wkc => exact ⟨(hrcvd h.1).1,h.2.turn (hrcvd h.1).2⟩
    | lock => exact haside.incomplete hj h
    | recheck => exact haside.incomplete hj h
    | recv => exact ((hapart rfl).stat j hj).trans h
    | got f =>
      have ha := hapart rfl
      refine ⟨(ha.stat j hj).trans h.1,h.2.1,?_⟩
      rw [Receiving.turn,ha.tempbuf]
      exact h.2.2
    | copyOwn f =>
      refine ⟨h.1,h.2.1,?_⟩
      rw [Receiving.turn,(hapart rfl).tempbuf]
      exact h.2.2
    | completeOwn f wkc => exact ⟨h.1.turn (congrFun (hapart rfl).rxbuf j),h.2⟩
    | sourceOwn wkc => exact ⟨(hcomplete h.1).1,h.2.turn (hcomplete h.1).2⟩
    | copyOther f k =>
      have ha := hapart rfl
      refine ⟨(ha.stat j hj).trans h.1,h.2.1,h.2.2.1,h.2.2.2.1,?_⟩
      rw [Receiving.turn,ha.tempbuf]
      exact h.2.2.2.2
    | receivedOther f k =>
      have ha := hapart rfl
      exact ⟨(ha.stat j hj).trans h.1,h.2.1,h.2.2.turn (congrFun ha.rxbuf k)⟩
    | sourceOther k => exact haside.incomplete hj h
    | unlock wkc =>
      rcases h with ⟨hstat,hdel⟩|⟨hlow,hstat⟩
      · exact .inl ⟨(hcomplete hstat).1,hdel.turn (hcomplete hstat).2⟩
      · exact .inr ⟨hlow,haside.incomplete hj hstat⟩
    | returned wkc => exact h.elim

theorem Locking.underway {mutex : Option Nat} {w : Waiter} (h : Flying txbuflength frames n s)
    (hl : Locking t s.mutex mutex (s.threads t) w) (lane : Lane) (j : Nat) :
    (s.turn t lane mutex w).underway j+(tally s.lane.socket j+tally (s.threads t).hand j)=
      s.underway j+(tally lane.socket j+tally w.hand j) := by
  have hturn : (s.turn t lane mutex w).underway j=
      tally s.net j+tally lane.socket j+tally (s.turn t lane mutex w).hand j := rfl
  rw [hturn,Receiving.underway]
  rcases hl.hand h rfl lane with ⟨hsame,hv,hw⟩|⟨hv,hw⟩
  · rw [hsame,hv,hw]
    omega
  · rw [hv,hw]
    omega

theorem Receiving.Place.turn {lane : Lane} {mutex : Option Nat} {w : Waiter} {j : Nat}
    (h : s.Place j) (hunder : (s.turn t lane mutex w).underway j=s.underway j)
    (hstat : lane.rxbufstat j=s.lane.rxbufstat j)
    (hbuf : s.lane.rxbufstat j≠.tx → lane.rxbuf j=s.lane.rxbuf j) :
    (s.turn t lane mutex w).Place j := by
  rcases h with ⟨htx,hone⟩|⟨hback,hnone,f,hf⟩
  · exact .inl ⟨hstat.trans htx,hunder.trans hone⟩
  · refine .inr ⟨?_,hunder.trans hnone,f,hf.turn (hbuf ?_)⟩
    · exact hback.imp hstat.trans hstat.trans
    · rcases hback with hc|hc
      · rw [hc]
        decide
      · rw [hc]
        decide

theorem Receiving.Place.tx {j : Nat} (h : s.Place j) (hunder : s.underway j≠0) :
    s.lane.rxbufstat j=.tx := by
  rcases h with ⟨htx,-⟩|⟨-,hnone,-⟩
  · exact htx
  · exact absurd hnone hunder

/-- A step of a thread, from what it does to the frames and to the others. -/
theorem Flying.turn {stage : Stage} {lane : Lane} {mutex : Option Nat} {w : Waiter}
    (h : Flying txbuflength frames n s) (ht : s.threads t=.waiting i stage)
    (hw : w.index=some i) (hl : Locking t s.mutex mutex (s.threads t) w)
    (haside : Aside i s.lane lane) (hapart : stage.locked=false → Apart i s.lane lane)
    (hread : ∀ f ∈ lane.socket++w.hand,f ∈ s.arrived)
    (hplace : ∀ f ∈ frames,(s.turn t lane mutex w).Place f.index)
    (hknows : (s.turn t lane mutex w).Knows w) :
    Flying txbuflength frames n (s.turn t lane mutex w) := by
  have hindex : ∀ u,((s.turn t lane mutex w).threads u).index=(s.threads u).index := by
    intro u
    by_cases hu : u=t
    · rw [hu,s.turn_self,hw,ht]
      rfl
    · rw [s.turn_other _ _ _ hu]
  refine ⟨h.good,hl.owner h rfl lane,?_,?_,?_,h.net,h.arrived,?_,hplace,?_⟩
  · intro u v j hu hv
    rw [hindex] at hu hv
    exact h.single u v j hu hv
  · intro u j hu
    rw [hindex] at hu
    exact h.known u j hu
  · intro u hu
    have hidle := h.bound u hu
    have hne : u≠t := by
      intro hc
      rw [hc,ht] at hidle
      cases hidle
    rw [s.turn_other _ _ _ hne]
    exact hidle
  · intro f hf
    rcases List.mem_append.mp hf with hsocket|hhand
    · exact hread f (List.mem_append_left _ hsocket)
    · rcases hl.hand h rfl lane with ⟨hsame,-,-⟩|⟨-,hhand'⟩
      · rw [hsame] at hhand
        exact h.read f (List.mem_append_right _ hhand)
      · rw [hhand'] at hhand
        exact hread f (List.mem_append_right _ hhand)
  · intro u
    by_cases hu : u=t
    · rw [hu,s.turn_self]
      exact hknows
    · rw [s.turn_other _ _ _ hu]
      cases hidx : (s.threads u).index with
      | none =>
        cases hv : s.threads u with
        | idle => trivial
        | waiting idx stage' => rw [hv] at hidx; cases hidx
        | done idx wkc => rw [hv] at hidx; cases hidx
      | some j =>
        have hj : j≠i := by
          intro hc
          exact hu (h.single u t i (by rw [hidx,hc]) (by rw [ht]; rfl))
        apply Receiving.Knows.aside hidx hj haside _ (h.knows u)
        intro hlock
        apply hapart
        cases hstage : stage.locked with
        | false => rfl
        | true =>
          have howner := (h.owner t).mp (by rw [ht]; exact hstage)
          rw [(h.owner u).mp hlock] at howner
          exact absurd (Option.some.inj howner) hu

theorem Flying.quiet {stage : Stage} {lane : Lane} {mutex : Option Nat} {w : Waiter}
    (h : Flying txbuflength frames n s) (ht : s.threads t=.waiting i stage)
    (hw : w.index=some i) (hl : Locking t s.mutex mutex (s.threads t) w)
    (hstat : lane.rxbufstat=s.lane.rxbufstat) (hbuf : lane.rxbuf=s.lane.rxbuf)
    (htemp : lane.tempbuf=s.lane.tempbuf) (hsocket : lane.socket=s.lane.socket)
    (hhand : w.hand=stage.hand) (hknows : (s.turn t lane mutex w).Knows w) :
    Flying txbuflength frames n (s.turn t lane mutex w) := by
  have hthread : (s.threads t).hand=stage.hand := by rw [ht]; rfl
  refine h.turn ht hw hl ⟨?_,?_⟩ ?_ ?_ ?_ hknows
  · intro j _
    rw [hstat]
    exact .inl rfl
  · intro j _ _
    rw [hbuf]
  · intro _
    exact ⟨fun j _ => congrFun hstat j,hbuf,htemp⟩
  · intro f hf
    rw [hsocket,hhand,← hthread] at hf
    rcases List.mem_append.mp hf with hin|hin
    · exact h.read f (List.mem_append_left _ hin)
    · rcases hl.hand h rfl lane with ⟨-,hnone,-⟩|⟨hsame,-⟩
      · rw [hnone] at hin
        cases hin
      · rw [← hsame] at hin
        exact h.read f (List.mem_append_right _ hin)
  · intro f hf
    apply (h.place f hf).turn _ (congrFun hstat _) (fun _ => congrFun hbuf _)
    have hunder := hl.underway h lane f.index
    rw [hsocket,hhand,hthread] at hunder
    omega

theorem Lane.mark_socket (l : Lane) (j : Nat) (bufstat : BufStat) :
    (l.mark j bufstat).socket=l.socket := rfl

theorem Lane.put_socket (l : Lane) (j request : Nat) :
    (l.put txbuflength j request).socket=l.socket := rfl

theorem Flying.fact {stage : Stage} (h : Flying txbuflength frames n s)
    (ht : s.threads t=.waiting i stage) : s.Fact i stage := by
  have hknows := h.knows t
  rw [ht] at hknows
  exact hknows

theorem Flying.own_place {stage : Stage} (h : Flying txbuflength frames n s)
    (ht : s.threads t=.waiting i stage) : s.Place i := by
  obtain ⟨f,hf,hindex⟩ := h.known t i (by rw [ht]; rfl)
  rw [← hindex]
  exact h.place f hf

theorem Flying.arrived_good (h : Flying txbuflength frames n s) {f : Frame} (hf : f ∈ s.arrived) :
    f.Good txbuflength ∧ s.Place f.index := by
  obtain ⟨g,hg,body,rfl⟩ := h.arrived f hf
  have hgood := h.good g hg
  refine ⟨hgood.altered body,?_⟩
  rw [g.altered_index body hgood.own.long]
  exact h.place g hg

theorem Flying.in_hand {stage : Stage} {f : Frame} (h : Flying txbuflength frames n s)
    (ht : s.threads t=.waiting i stage) (hlock : stage.locked=true) (hhand : stage.hand=[f]) :
    f ∈ s.arrived ∧ s.lane.rxbufstat f.index=.tx := by
  have howner := (h.owner t).mp (by rw [ht]; exact hlock)
  have hs : s.hand=[f] := by
    rw [Receiving.hand,howner,← hhand]
    simp only [ht]
    rfl
  have hf := h.read f (List.mem_append_right _ (by rw [hs]; exact List.mem_singleton_self f))
  refine ⟨hf,(h.arrived_good hf).2.tx ?_⟩
  rw [Receiving.underway,hs,tally_cons,if_pos rfl]
  omega

theorem Flying.put {stage next : Stage} {f : Frame} (h : Flying txbuflength frames n s)
    (ht : s.threads t=.waiting i stage) (hlock : stage.locked=true) (hlock' : next.locked=true)
    (hhand : stage.hand=[f]) (hhand' : next.hand=[f])
    (hknows : (s.turn t (s.lane.put txbuflength f.index f.request) s.mutex
      (.waiting i next)).Fact i next) :
    Flying txbuflength frames n
      (s.turn t (s.lane.put txbuflength f.index f.request) s.mutex (.waiting i next)) := by
  obtain ⟨hf,htx⟩ := h.in_hand ht hlock hhand
  have hl : Locking t s.mutex s.mutex (s.threads t) (.waiting i next) :=
    .same (by rw [ht]; exact hlock'.trans hlock.symm)
  have hbuf : ∀ j,s.lane.rxbufstat j≠.tx →
      (s.lane.put txbuflength f.index f.request).rxbuf j=s.lane.rxbuf j := by
    intro j hj
    apply Function.update_of_ne
    intro hc
    rw [hc] at hj
    exact hj htx
  refine h.turn ht rfl hl ⟨fun j _ => .inl rfl,fun j _ => hbuf j⟩ ?_ ?_ ?_ hknows
  · intro hunlocked
    rw [hlock] at hunlocked
    cases hunlocked
  · intro g hg
    rcases List.mem_append.mp hg with hin|hin
    · exact h.read g (List.mem_append_left _ hin)
    · rw [Waiter.hand,hhand',List.mem_singleton] at hin
      rw [hin]
      exact hf
  · intro g hg
    refine (h.place g hg).turn ?_ ?_ (hbuf _)
    · have hunder := hl.underway h (s.lane.put txbuflength f.index f.request) g.index
      rw [ht,Waiter.hand,Waiter.hand,hhand,hhand',Lane.put_socket] at hunder
      omega
    · rfl

/-- The frame in the hand of a thread is marked in its buffer. -/
theorem Flying.store {stage next : Stage} {f : Frame} {bufstat : BufStat}
    (h : Flying txbuflength frames n s) (ht : s.threads t=.waiting i stage)
    (hlock : stage.locked=true) (hlock' : next.locked=true) (hhand : stage.hand=[f])
    (hhand' : next.hand=[]) (hholds : s.Holds f.index f)
    (hstat : bufstat=.complete ∧ f.index=i ∨ bufstat=.rcvd)
    (hknows : (s.turn t (s.lane.mark f.index bufstat) s.mutex (.waiting i next)).Fact i next) :
    Flying txbuflength frames n
      (s.turn t (s.lane.mark f.index bufstat) s.mutex (.waiting i next)) := by
  obtain ⟨hf,htx⟩ := h.in_hand ht hlock hhand
  have hl : Locking t s.mutex s.mutex (s.threads t) (.waiting i next) :=
    .same (by rw [ht]; exact hlock'.trans hlock.symm)
  have hother : ∀ j,j≠f.index →
      (s.lane.mark f.index bufstat).rxbufstat j=s.lane.rxbufstat j :=
    fun j hj => Function.update_of_ne hj ..
  have hself : (s.lane.mark f.index bufstat).rxbufstat f.index=bufstat := Function.update_self ..
  refine h.turn ht rfl hl ⟨?_,fun j _ _ => rfl⟩ ?_ ?_ ?_ hknows
  · intro j hj
    by_cases hjf : j=f.index
    · rcases hstat with ⟨-,hi⟩|hrcvd
      · exact absurd (hjf.trans hi) hj
      · rw [hjf,hself]
        exact .inr ⟨htx,hrcvd⟩
    · exact .inl (hother j hjf)
  · intro hunlocked
    rw [hlock] at hunlocked
    cases hunlocked
  · intro g hg
    rw [Waiter.hand,hhand',List.append_nil] at hg
    exact h.read g (List.mem_append_left _ hg)
  · intro g hg
    have hunder := hl.underway h (s.lane.mark f.index bufstat) g.index
    rw [ht,Waiter.hand,Waiter.hand,hhand,hhand',Lane.mark_socket,tally_cons,tally_nil] at hunder
    have hplace := h.place g hg
    by_cases hgf : f.index=g.index
    · rw [if_pos hgf] at hunder
      rw [← hgf] at hplace hunder ⊢
      rcases hplace with ⟨-,hone⟩|⟨hback,-⟩
      · refine .inr ⟨?_,by omega,f,hholds.turn rfl⟩
        rcases hstat with ⟨hcomplete,-⟩|hrcvd
        · exact .inr (hself.trans hcomplete)
        · exact .inl (hself.trans hrcvd)
      · rw [htx] at hback
        rcases hback with hc|hc <;> cases hc
    · rw [if_neg hgf] at hunder
      exact hplace.turn (by omega) (hother _ (Ne.symm hgf)) (fun _ => rfl)

theorem Flying.complete {locked : Bool} {wkc : Int} {w : Waiter}
    (h : Flying txbuflength frames n s) (ht : s.threads t=.waiting i (.mark locked wkc))
    (hw : w.index=some i) (hl : w.locked=locked) (hhand : w.hand=[])
    (hknows : (s.turn t (s.lane.mark i .complete) s.mutex w).Knows w) :
    Flying txbuflength frames n (s.turn t (s.lane.mark i .complete) s.mutex w) := by
  obtain ⟨hrcvd,-⟩ := h.fact ht
  have hl' : Locking t s.mutex s.mutex (s.threads t) w := .same (by rw [ht]; exact hl)
  have hother : ∀ j,j≠i → (s.lane.mark i .complete).rxbufstat j=s.lane.rxbufstat j :=
    fun j hj => Function.update_of_ne hj ..
  refine h.turn ht hw hl' ⟨fun j hj => .inl (hother j hj),fun j _ _ => rfl⟩ ?_ ?_ ?_ hknows
  · exact fun _ => ⟨hother,rfl,rfl⟩
  · intro g hg
    rw [hhand,List.append_nil] at hg
    exact h.read g (List.mem_append_left _ hg)
  · intro g hg
    have hunder := hl'.underway h (s.lane.mark i .complete) g.index
    have hmark : (Stage.mark locked wkc).hand=[] := rfl
    rw [ht,hhand,Waiter.hand,hmark,tally_nil,Lane.mark_socket] at hunder
    have hplace := h.place g hg
    by_cases hgi : g.index=i
    · rw [hgi] at hplace hunder ⊢
      rcases hplace with ⟨htx,-⟩|⟨-,hnone,f,hf⟩
      · rw [hrcvd] at htx
        cases htx
      · exact .inr ⟨.inr (Function.update_self ..),by omega,f,hf.turn rfl⟩
    · exact hplace.turn (by omega) (hother _ hgi) (fun _ => rfl)

theorem Flying.recv {f : Frame} {rest : List Frame} (h : Flying txbuflength frames n s)
    (ht : s.threads t=.waiting i .recv) (hsocket : s.lane.socket=f::rest) :
    Flying txbuflength frames n (s.turn t { s.lane with
      tempbuf := writeBytes s.lane.tempbuf 0 (f.bytes.take ecBufsize), socket := rest } s.mutex
      (.waiting i (.got f))) := by
  have hf : f ∈ s.arrived := h.read f (by rw [hsocket]; exact List.mem_cons_self)
  have hl : Locking t s.mutex s.mutex (s.threads t) (.waiting i (.got f)) :=
    .same (by rw [ht]; rfl)
  refine h.turn ht rfl hl ⟨fun j _ => .inl rfl,fun j _ _ => rfl⟩ ?_ ?_ ?_ ?_
  · intro hunlocked
    cases hunlocked
  · intro g hg
    rcases List.mem_append.mp hg with hin|hin
    · exact h.read g (List.mem_append_left _ (by rw [hsocket]; exact List.mem_cons_of_mem _ hin))
    · rw [List.mem_singleton.mp hin]
      exact hf
  · intro g hg
    refine (h.place g hg).turn ?_ ?_ (fun _ => rfl)
    · have hunder := hl.underway h { s.lane with
        tempbuf := writeBytes s.lane.tempbuf 0 (f.bytes.take ecBufsize), socket := rest } g.index
      have hrecv : Stage.recv.hand=[] := rfl
      have hgot : (Stage.got f).hand=[f] := rfl
      rw [ht,hsocket,Waiter.hand,Waiter.hand,hrecv,hgot,tally_cons,tally_cons,tally_nil] at hunder
      change _=_+(tally rest g.index+_) at hunder
      omega
    · rfl
  · exact ⟨h.fact ht,hf,read_recv (h.arrived_good hf).1 _⟩

theorem Waiter.behind_index (i : Nat) (expired : Bool) (stage : Stage) :
    (Waiter.behind i expired stage).index=some i := by
  cases stage with
  | returned wkc =>
    rw [Waiter.behind]
    split_ifs <;> rfl
  | _ => rfl

theorem Waiter.behind_returned (i : Nat) (expired : Bool) (wkc : Int) :
    (Waiter.behind i expired (.returned wkc)).locked=false ∧
      (Waiter.behind i expired (.returned wkc)).hand=[] := by
  rw [Waiter.behind]
  split_ifs <;> exact ⟨rfl,rfl⟩

theorem Receiving.Knows.behind {expired : Bool} {wkc : Int}
    (h : s.lane.rxbufstat i=.complete ∧ s.Delivered i wkc ∨
      wkc ≤ ecNoFrame ∧ s.lane.rxbufstat i≠.complete) :
    s.Knows (.behind i expired (.returned wkc)) := by
  rw [Waiter.behind]
  split_ifs with hend
  · intro hback
    rcases h with hdone|⟨hlow,-⟩
    · exact hdone
    · exact absurd hback (Int.not_lt.mpr hlow)
  · rcases h with ⟨-,f,-,hwkc⟩|⟨-,hstat⟩
    · exact absurd (.inl (by rw [hwkc]; exact leWord_back _ _)) hend
    · exact hstat

theorem Flying.hold {stage : Stage} (ht : s.threads t=.waiting i stage) {w : Waiter}
    (hw : w.locked=stage.locked) : Locking t s.mutex s.mutex (s.threads t) w :=
  .same (by rw [ht]; exact hw)

theorem Flying.run_mark {locked : Bool} {wkc : Int} (h : Flying txbuflength frames n s)
    (ht : s.threads t=.waiting i (.mark locked wkc)) (expired : Bool) :
    Flying txbuflength frames n (s.step txbuflength (.run t expired)) := by
  rw [s.step_run expired ht]
  have hfact := h.fact ht
  have hstat : (s.lane.mark i .complete).rxbufstat i=.complete := Function.update_self ..
  cases locked with
  | true => exact h.complete ht rfl rfl rfl (.inl ⟨hstat,hfact.2.turn rfl⟩)
  | false =>
    obtain ⟨hlock,hhand⟩ := Waiter.behind_returned i expired wkc
    refine h.complete ht (Waiter.behind_index ..) hlock hhand ?_
    exact Receiving.Knows.behind (.inl ⟨hstat,hfact.2.turn rfl⟩)

theorem Flying.run_recheck (h : Flying txbuflength frames n s)
    (ht : s.threads t=.waiting i .recheck) (expired : Bool) :
    Flying txbuflength frames n (s.step txbuflength (.run t expired)) := by
  rw [s.step_run expired ht]
  have hfact := h.fact ht
  simp only [inframeStep]
  split_ifs with hrcvd
  · exact h.quiet ht rfl (Flying.hold ht rfl) rfl rfl rfl rfl rfl hrcvd.2
  · refine h.quiet ht rfl (Flying.hold ht rfl) rfl rfl rfl rfl rfl ?_
    obtain ⟨f,hf,hindex⟩ := h.known t i (by rw [ht]; rfl)
    have hknown := (h.good f hf).known
    rw [hindex] at hknown
    rcases h.own_place ht with ⟨htx,-⟩|⟨hback|hback,-⟩
    · exact htx
    · exact absurd ⟨hknown,hback⟩ hrcvd
    · exact absurd hback hfact

theorem Flying.run_recv (h : Flying txbuflength frames n s)
    (ht : s.threads t=.waiting i .recv) (expired : Bool) :
    Flying txbuflength frames n (s.step txbuflength (.run t expired)) := by
  rw [s.step_run expired ht]
  have htx : s.lane.rxbufstat i=.tx := h.fact ht
  cases hsocket : s.lane.socket with
  | nil =>
    simp only [inframeStep,hsocket]
    refine h.quiet ht rfl (Flying.hold ht rfl) rfl rfl rfl rfl rfl (.inr ⟨le_refl _,?_⟩)
    rw [Receiving.turn,htx]
    decide
  | cons f rest =>
    have hf : f ∈ s.arrived := h.read f (by rw [hsocket]; exact List.mem_cons_self)
    have hne : f.bytes≠[] := by
      intro hnil
      have hlong := (h.arrived_good hf).1.own.long
      rw [hnil] at hlong
      cases hlong
    simp only [inframeStep,hsocket,if_neg hne]
    exact h.recv ht hsocket

theorem Flying.run_got {f : Frame} (h : Flying txbuflength frames n s)
    (ht : s.threads t=.waiting i (.got f)) (expired : Bool) :
    Flying txbuflength frames n (s.step txbuflength (.run t expired)) := by
  rw [s.step_run expired ht]
  obtain ⟨htx,hf,hread⟩ := h.fact ht
  obtain ⟨hgood,-⟩ := h.arrived_good hf
  have hstat := (h.in_hand ht rfl rfl).2
  simp only [inframeStep,if_pos (hread.etype hgood),hread.index hgood]
  split_ifs with hown hwaited
  · exact h.quiet ht rfl (Flying.hold ht rfl) rfl rfl rfl rfl rfl ⟨hf,hown,hread⟩
  · exact h.quiet ht rfl (Flying.hold ht rfl) rfl rfl rfl rfl rfl ⟨htx,hf,rfl,hown,hread⟩
  · exact absurd ⟨hgood.known,hstat⟩ hwaited

theorem Flying.run_copyOwn {f : Frame} (h : Flying txbuflength frames n s)
    (ht : s.threads t=.waiting i (.copyOwn f)) (expired : Bool) :
    Flying txbuflength frames n (s.step txbuflength (.run t expired)) := by
  rw [s.step_run expired ht]
  obtain ⟨hf,rfl,hread⟩ := h.fact ht
  obtain ⟨hgood,-⟩ := h.arrived_good hf
  have hin : f.In ((s.lane.put txbuflength f.index f.request).rxbuf f.index) := by
    rw [Lane.put]
    simp only [Function.update_self]
    exact hread.put hgood
  refine h.put ht rfl rfl rfl rfl ⟨⟨hf,rfl,hin⟩,?_⟩
  change (leWord _ (leWord s.lane.tempbuf ethHeadersize%0x1000) : Int)=_
  rw [hread.elength hgood]
  exact hin.wkc hgood

theorem Flying.run_copyOther {f : Frame} {j : Nat} (h : Flying txbuflength frames n s)
    (ht : s.threads t=.waiting i (.copyOther f j)) (expired : Bool) :
    Flying txbuflength frames n (s.step txbuflength (.run t expired)) := by
  rw [s.step_run expired ht]
  obtain ⟨htx,hf,rfl,hne,hread⟩ := h.fact ht
  obtain ⟨hgood,-⟩ := h.arrived_good hf
  refine h.put ht rfl rfl rfl rfl ⟨htx,hne,hf,rfl,?_⟩
  change f.In (Function.update s.lane.rxbuf f.index _ f.index)
  rw [Function.update_self]
  exact hread.put hgood

theorem Flying.run_receivedOther {f : Frame} {j : Nat} (h : Flying txbuflength frames n s)
    (ht : s.threads t=.waiting i (.receivedOther f j)) (expired : Bool) :
    Flying txbuflength frames n (s.step txbuflength (.run t expired)) := by
  rw [s.step_run expired ht]
  obtain ⟨htx,hne,hholds⟩ := h.fact ht
  obtain rfl := hholds.index
  refine h.store ht rfl rfl rfl rfl hholds (.inr rfl) ?_
  change Function.update s.lane.rxbufstat f.index BufStat.rcvd i≠.complete
  rw [Function.update_of_ne hne.symm,htx]
  decide

/-- A step of a thread keeps the frames and what the threads know. -/
theorem Flying.run {stage : Stage} (h : Flying txbuflength frames n s)
    (ht : s.threads t=.waiting i stage) (expired : Bool) :
    Flying txbuflength frames n (s.step txbuflength (.run t expired)) := by
  cases stage with
  | mark locked wkc => exact h.run_mark ht expired
  | recheck => exact h.run_recheck ht expired
  | recv => exact h.run_recv ht expired
  | got f => exact h.run_got ht expired
  | copyOwn f => exact h.run_copyOwn ht expired
  | copyOther f j => exact h.run_copyOther ht expired
  | receivedOther f j => exact h.run_receivedOther ht expired
  | returned wkc => exact (h.fact ht).elim
  | check =>
    rw [s.step_run expired ht]
    simp only [inframeStep]
    split_ifs with hrcvd
    · exact h.quiet ht rfl (Flying.hold ht rfl) rfl rfl rfl rfl rfl hrcvd.2
    · exact h.quiet ht rfl (Flying.hold ht rfl) rfl rfl rfl rfl rfl (h.fact ht)
  | pick locked =>
    have hfact := h.fact ht
    rw [s.step_run expired ht]
    apply h.quiet ht rfl (Flying.hold ht rfl) rfl rfl rfl rfl rfl
    rcases h.own_place ht with ⟨htx,-⟩|⟨-,-,f,hf⟩
    · rw [hfact] at htx
      cases htx
    · exact ⟨hfact,f,hf.turn rfl,hf.contents.bufferWkc (h.arrived_good hf.arrived).1⟩
  | lock =>
    rw [s.step_run expired ht]
    simp only [inframeStep]
    split_ifs with hfree
    · refine h.quiet ht rfl ?_ rfl rfl rfl rfl rfl (h.fact ht)
      rw [hfree]
      exact .lock (by rw [ht]; rfl) rfl
    · exact h.quiet ht rfl (Flying.hold ht rfl) rfl rfl rfl rfl rfl (h.fact ht)
  | completeOwn f wkc =>
    rw [s.step_run expired ht]
    obtain ⟨hholds,hwkc⟩ := h.fact ht
    obtain rfl := hholds.index
    refine h.store ht rfl rfl rfl rfl hholds (.inl ⟨rfl,rfl⟩) ?_
    exact ⟨Function.update_self ..,f,hholds.turn rfl,hwkc⟩
  | sourceOwn wkc =>
    rw [s.step_run expired ht]
    refine h.quiet ht rfl (Flying.hold ht rfl) rfl rfl rfl rfl rfl (.inl ⟨(h.fact ht).1,?_⟩)
    exact (h.fact ht).2.turn rfl
  | sourceOther j =>
    rw [s.step_run expired ht]
    exact h.quiet ht rfl (Flying.hold ht rfl) rfl rfl rfl rfl rfl (.inr ⟨by decide,h.fact ht⟩)
  | unlock wkc =>
    rw [s.step_run expired ht]
    obtain ⟨hlock,hhand⟩ := Waiter.behind_returned i expired wkc
    refine h.quiet ht (Waiter.behind_index ..) ?_ rfl rfl rfl rfl hhand ?_
    · rw [(h.owner t).mp (by rw [ht]; rfl)]
      exact .unlock (by rw [ht]; rfl) hlock
    · apply Receiving.Knows.behind
      exact (h.fact ht).imp (fun hdone => ⟨hdone.1,hdone.2.turn rfl⟩) id

end Turns

end EtherCATMaster.Nicdrv
