import EtherCATMaster.Framework.Run
import EtherCATMaster.Nicdrv.Inframe
import EtherCATMaster.Nicdrv.ProcessFrames

namespace EtherCATMaster.Nicdrv

open EtherCATMaster.Framework
open EtherCATMaster.Mapping (ecMaxBuf ecNoFrame ecBufsize ethHeadersize writeBytes readBytes
  setupDatagram)

/-- The sockets of a redundant port. -/
inductive Side where
  | primary
  | secondary
  deriving DecidableEq, Repr

/-- Where a thread is between `ecx_getindex` and `ecx_setbufstat` with `EC_BUF_EMPTY`. In `inframe`
it is in the waiting loop, or with `again` in the loop behind a frame that was sent again; `wkc` and
`wkc2` are the results for the two sockets so far. -/
inductive Phase where
  | idle
  | lockIndex
  | search (idx cnt : Nat)
  | alloc (idx : Nat)
  | allocRed (idx : Nat)
  | last (idx : Nat)
  | unlockIndex (idx : Nat)
  | taken (idx : Nat)
  | source (idx : Nat)
  | tx (idx : Nat)
  | send (idx : Nat)
  | failed (idx : Nat)
  | lockTx (idx : Nat)
  | dummy (idx : Nat)
  | txRed (idx : Nat)
  | sendRed (idx : Nat)
  | failedRed (idx : Nat)
  | unlockTx (idx : Nat)
  | inframe (side : Side) (idx : Nat) (wkc wkc2 : Int) (again : Bool) (stage : Stage)
  | reroute (idx : Nat) (wkc wkc2 : Int)
  | copyTx (idx : Nat) (wkc : Int)
  | txAgain (idx : Nat) (wkc : Int)
  | sendAgain (idx : Nat) (wkc : Int)
  | failedAgain (idx : Nat) (wkc : Int)
  | copyBack (idx : Nat) (wkc : Int)
  | done (idx : Nat) (wkc : Int)
  | empty (idx : Nat)
  | emptyRed (idx : Nat)
  deriving DecidableEq, Repr

/-- A thread with the number of its request. `unsent` says that its last frame did not go out of the
primary socket. -/
structure Thread where
  phase : Phase
  request : Nat
  unsent : Bool
  deriving DecidableEq, Repr

/-- The port that all threads share. -/
structure Shared where
  lane : Side → Lane
  redundant : Bool
  txbuf : Nat → Buffer
  txbuflength : Nat → Nat
  txbuf2 : Buffer
  txbuflength2 : Nat
  lastidx : Nat
  getindexMutex : Option Nat
  txMutex : Option Nat
  rxMutex : Option Nat
  net : List Frame
  requests : Nat
  threads : Nat → Thread

/-- What a step of a thread does not decide itself: the result of `send`, whether the timer of a loop
has expired, whether `ecx_srconfirm` tries again, and the datagram of a new frame. -/
structure Choice where
  sent : Bool
  expired : Bool
  again : Bool
  com : UInt8
  adp : Nat
  ado : Nat
  data : List UInt8
  deriving DecidableEq, Repr

/-- A thread takes a step; the `k`-th frame on the line arrives at a socket, as slaves have altered it;
or it gets lost. -/
inductive PortEvent where
  | run (t : Nat) (c : Choice)
  | arrive (side : Side) (k : Nat) (body : List UInt8)
  | lose (k : Nat)
  deriving DecidableEq, Repr

/-- Thread `t` goes on with a phase. -/
def Shared.goto (s : Shared) (t : Nat) (phase : Phase) : Shared :=
  { s with threads := Function.update s.threads t { s.threads t with phase := phase } }

def Shared.setUnsent (s : Shared) (t : Nat) (unsent : Bool) : Shared :=
  { s with threads := Function.update s.threads t { s.threads t with unsent := unsent } }

def Shared.setLane (s : Shared) (side : Side) (l : Lane) : Shared :=
  { s with lane := Function.update s.lane side l }

def Shared.mark (s : Shared) (side : Side) (idx : Nat) (bufstat : BufStat) : Shared :=
  s.setLane side ((s.lane side).mark idx bufstat)

def Shared.transmit (s : Shared) (t : Nat) (bytes : Packet) : Shared :=
  { s with net := s.net++[⟨(s.threads t).request,bytes⟩] }

/-- The next round of the waiting loop, which a socket with its frame in is left out of. -/
def nextRound (redundant : Bool) (idx : Nat) (wkc wkc2 : Int) (expired : Bool) : Phase :=
  if (wkc ≤ ecNoFrame ∨ wkc2 ≤ ecNoFrame) ∧ expired=false then
    if wkc ≤ ecNoFrame then .inframe .primary idx wkc wkc2 false .check
    else .inframe .secondary idx wkc wkc2 false .check
  else if redundant=true then .reroute idx wkc wkc2
  else .done idx wkc

/-- What follows a call of `ecx_inframe` with a result. -/
def behindInframe (redundant : Bool) (side : Side) (idx : Nat) (wkc wkc2 : Int) (again : Bool)
    (expired : Bool) (rval : Int) : Phase :=
  if again=true then
    if rval ≤ ecNoFrame ∧ expired=false then .inframe .secondary idx wkc rval true .check
    else if ecNoFrame < rval then .copyBack idx rval
    else .done idx wkc
  else match side with
    | .primary =>
        if redundant=true ∧ wkc2 ≤ ecNoFrame then .inframe .secondary idx rval wkc2 false .check
        else nextRound redundant idx rval wkc2 expired
    | .secondary => nextRound redundant idx wkc rval expired

/-- The phase behind a step in `ecx_inframe`. -/
def behindStep (redundant : Bool) (side : Side) (idx : Nat) (wkc wkc2 : Int) (again : Bool)
    (expired : Bool) : Stage → Phase
  | .returned rval => behindInframe redundant side idx wkc wkc2 again expired rval
  | stage => .inframe side idx wkc wkc2 again stage

/-- The decision tree of `ecx_waitinframe_red`. -/
def Shared.route (s : Shared) (idx : Nat) (wkc wkc2 : Int) : Phase :=
  let primrx := if wkc>ecNoFrame then (s.lane .primary).rxsa idx else 0
  let secrx := if wkc2>ecNoFrame then (s.lane .secondary).rxsa idx else 0
  if primrx=rxSec ∧ secrx=rxPrim then .copyBack idx wkc2
  else if primrx=rxPrim ∧ secrx=rxSec then .copyTx idx wkc
  else if primrx=0 ∧ secrx=rxSec then .txAgain idx wkc
  else .done idx wkc

def Shared.copySecondary (s : Shared) (idx : Nat) : Shared :=
  let prim := s.lane .primary
  let sec := s.lane .secondary
  s.setLane .primary { prim with
    rxbuf := Function.update prim.rxbuf idx (writeBytes (prim.rxbuf idx) 0
      (readBytes (sec.rxbuf idx) 0 (s.txbuflength idx-ethHeadersize)))
    origin := Function.update prim.origin idx (sec.origin idx) }

/-- A step of a thread. -/
def Shared.act (s : Shared) (t : Nat) (c : Choice) : Shared :=
  match (s.threads t).phase with
  -- `ecx_getindex`
  | .idle => s.goto t .lockIndex
  | .lockIndex =>
      if s.getindexMutex=none then
        { s with getindexMutex := some t }.goto t (.search (ringNext ecMaxBuf s.lastidx) 0)
      else s
  | .search idx cnt =>
      if (s.lane .primary).rxbufstat idx≠.empty ∧ cnt < ecMaxBuf then
        s.goto t (.search (ringNext ecMaxBuf idx) (cnt+1))
      else s.goto t (.alloc idx)
  | .alloc idx =>
      let s := s.mark .primary idx .alloc
      { s with
        requests := s.requests+1
        threads := Function.update s.threads t
          ⟨if s.redundant=true then .allocRed idx else .last idx,s.requests,false⟩ }
  | .allocRed idx => (s.mark .secondary idx .alloc).goto t (.last idx)
  | .last idx => { s with lastidx := idx }.goto t (.unlockIndex idx)
  | .unlockIndex idx => { s with getindexMutex := none }.goto t (.taken idx)
  -- `ecx_setupdatagram`
  | .taken idx =>
      { s with
        txbuf := Function.update s.txbuf idx
          (setupFrame (s.txbuf idx) c.com (UInt8.ofNat idx) c.adp c.ado c.data.length c.data)
        txbuflength := Function.update s.txbuflength idx (setupDatagram c.data.length) }.goto t
          (.source idx)
  -- `ecx_outframe_red`
  | .source idx =>
      { s with
        txbuf := Function.update s.txbuf idx
          (writeBytes (s.txbuf idx) sa1Offset (netBytes rxPrim)) }.goto t (.tx idx)
  | .tx idx => ((s.mark .primary idx .tx).setUnsent t false).goto t (.send idx)
  | .send idx =>
      if c.sent=true then
        (s.transmit t (readBytes (s.txbuf idx) 0 (s.txbuflength idx))).goto t
          (if s.redundant=true then .lockTx idx
            else .inframe .primary idx ecNoFrame 0 false .check)
      else s.goto t (.failed idx)
  | .failed idx =>
      ((s.mark .primary idx .empty).setUnsent t true).goto t
        (if s.redundant=true then .lockTx idx
          else .inframe .primary idx ecNoFrame 0 false .check)
  | .lockTx idx => if s.txMutex=none then { s with txMutex := some t }.goto t (.dummy idx) else s
  | .dummy idx =>
      { s with
        txbuf2 := writeBytes (writeBytes s.txbuf2 indexOffset [UInt8.ofNat idx]) sa1Offset
          (netBytes rxSec) }.goto t (.txRed idx)
  | .txRed idx => (s.mark .secondary idx .tx).goto t (.sendRed idx)
  | .sendRed idx =>
      if c.sent=true then
        (s.transmit t (readBytes s.txbuf2 0 s.txbuflength2)).goto t (.unlockTx idx)
      else s.goto t (.failedRed idx)
  | .failedRed idx => (s.mark .secondary idx .empty).goto t (.unlockTx idx)
  | .unlockTx idx =>
      { s with txMutex := none }.goto t
        (.inframe .primary idx ecNoFrame ecNoFrame false .check)
  -- `ecx_waitinframe_red`
  | .inframe side idx wkc wkc2 again stage =>
      let r := inframeStep s.txbuflength t idx (s.lane side) s.rxMutex stage
      ({ s with rxMutex := r.2.1 }.setLane side r.1).goto t
        (behindStep s.redundant side idx wkc wkc2 again c.expired r.2.2)
  | .reroute idx wkc wkc2 => s.goto t (s.route idx wkc wkc2)
  | .copyTx idx wkc =>
      { s with
        txbuf := Function.update s.txbuf idx (writeBytes (s.txbuf idx) ethHeadersize
          (readBytes ((s.lane .primary).rxbuf idx) 0 (s.txbuflength idx-ethHeadersize))) }.goto t
        (.txAgain idx wkc)
  | .txAgain idx wkc => (s.mark .secondary idx .tx).goto t (.sendAgain idx wkc)
  | .sendAgain idx wkc =>
      if c.sent=true then
        (s.transmit t (readBytes (s.txbuf idx) 0 (s.txbuflength idx))).goto t
          (.inframe .secondary idx wkc ecNoFrame true .check)
      else s.goto t (.failedAgain idx wkc)
  | .failedAgain idx wkc =>
      (s.mark .secondary idx .empty).goto t (.inframe .secondary idx wkc ecNoFrame true .check)
  | .copyBack idx wkc => (s.copySecondary idx).goto t (.done idx wkc)
  -- `ecx_srconfirm` sends the frame again when it has not come back
  | .done idx wkc =>
      if wkc ≤ ecNoFrame ∧ c.again=true then s.goto t (.source idx) else s.goto t (.empty idx)
  -- `ecx_setbufstat`
  | .empty idx =>
      (s.mark .primary idx .empty).goto t (if s.redundant=true then .emptyRed idx else .idle)
  | .emptyRed idx => (s.mark .secondary idx .empty).goto t .idle

def Shared.step (s : Shared) : PortEvent → Shared
  | .run t c => s.act t c
  | .arrive side k body =>
      match s.net[k]? with
      | none => s
      | some f =>
          { s with net := s.net.eraseIdx k }.setLane side { s.lane side with
            socket := (s.lane side).socket++[f.altered body] }
  | .lose k => { s with net := s.net.eraseIdx k }

/-- The index that a thread has taken and not released. -/
def Phase.held : Phase → Option Nat
  | .idle => none
  | .lockIndex => none
  | .search _ _ => none
  | .alloc _ => none
  | .allocRed idx => some idx
  | .last idx => some idx
  | .unlockIndex idx => some idx
  | .taken idx => some idx
  | .source idx => some idx
  | .tx idx => some idx
  | .send idx => some idx
  | .failed idx => some idx
  | .lockTx idx => some idx
  | .dummy idx => some idx
  | .txRed idx => some idx
  | .sendRed idx => some idx
  | .failedRed idx => some idx
  | .unlockTx idx => some idx
  | .inframe _ idx _ _ _ _ => some idx
  | .reroute idx _ _ => some idx
  | .copyTx idx _ => some idx
  | .txAgain idx _ => some idx
  | .sendAgain idx _ => some idx
  | .failedAgain idx _ => some idx
  | .copyBack idx _ => some idx
  | .done idx _ => some idx
  | .empty idx => some idx
  | .emptyRed _ => none

def Shared.held (s : Shared) (t : Nat) : Option Nat := (s.threads t).phase.held

/-- A port as `ecx_setupnic` leaves it, before the first request. A redundant port has its dummy
frame. -/
structure Shared.Start (s : Shared) : Prop where
  threads : ∀ t,(s.threads t).phase=.idle
  empty : ∀ side idx,(s.lane side).rxbufstat idx=.empty
  socket : ∀ side,(s.lane side).socket=[]
  net : s.net=[]
  getindexMutex : s.getindexMutex=none
  txMutex : s.txMutex=none
  rxMutex : s.rxMutex=none
  dummy : s.redundant=true → indexOffset < s.txbuflength2

end EtherCATMaster.Nicdrv
