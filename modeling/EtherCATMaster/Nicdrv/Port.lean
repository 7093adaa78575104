import EtherCATMaster.Framework.ByteStream
import EtherCATMaster.Framework.Ring
import EtherCATMaster.Mapping.Frames

namespace EtherCATMaster.Nicdrv

open EtherCATMaster.Framework
open EtherCATMaster.Mapping (ecMaxBuf ecNoFrame ecBufsize ethHeadersize writeBytes readBytes)

/-- `ec_bufstate` -/
inductive BufStat where
  | empty
  | alloc
  | tx
  | rcvd
  | complete
  deriving DecidableEq, Repr

/-- A frame on the line, with its ethernet header. -/
abbrev Packet := List UInt8

/-- `ec_bufT` -/
abbrev Buffer := Nat → UInt8

def ecOtherFrame : Int := -2

def ethPEcat : Nat := 0x88A4

/-- The second words of `priMAC` and `secMAC`. -/
def rxPrim : Nat := 0x0101
def rxSec : Nat := 0x0404

/-- Places in a frame: `sa1` and `etype` of the ethernet header, `index` of the first datagram. -/
def sa1Offset : Nat := 8
def etypeOffset : Nat := 12
def indexOffset : Nat := 17

/-- A word in network order, as `ntohs` reads it. -/
def netWord (b : Buffer) (offset : Nat) : Nat := (b offset).toNat*256+(b (offset+1)).toNat

def netBytes (n : Nat) : List UInt8 := (leBytes 2 n).reverse

/-- A word as slaves store it. -/
def leWord (b : Buffer) (offset : Nat) : Nat := (b offset).toNat+256*(b (offset+1)).toNat

/-- `ec_stackT` -/
structure Stack where
  rxbufstat : Nat → BufStat
  rxbuf : Nat → Buffer
  rxsa : Nat → Nat
  tempbuf : Buffer
  socket : List Packet

/-- `ecx_portt`. Without `redport` the port is not redundant. The transmit buffers are those of
both stacks. -/
structure Port where
  stack : Stack
  redport : Option Stack
  txbuf : Nat → Buffer
  txbuflength : Nat → Nat
  txbuf2 : Buffer
  txbuflength2 : Nat
  lastidx : Nat

def Stack.mark (s : Stack) (idx : Nat) (bufstat : BufStat) : Stack :=
  { s with rxbufstat := Function.update s.rxbufstat idx bufstat }

/-- `ecx_setbufstat` -/
def Port.setbufstat (p : Port) (idx : Nat) (bufstat : BufStat) : Port :=
  { p with stack := p.stack.mark idx bufstat, redport := p.redport.map (·.mark idx bufstat) }

/-- The search of `ecx_getindex`, with the number of steps that are left. It ends with an index that
is not empty where there is none. -/
def search (rxbufstat : Nat → BufStat) : Nat → Nat → Nat
  | idx,0 => idx
  | idx,cnt+1 =>
      if rxbufstat idx≠.empty then search rxbufstat (ringNext ecMaxBuf idx) cnt else idx

/-- `ecx_getindex` -/
def Port.getindex (p : Port) : Nat × Port :=
  let idx := search p.stack.rxbufstat (ringNext ecMaxBuf p.lastidx) ecMaxBuf
  (idx,{ p.setbufstat idx .alloc with lastidx := idx })

/-- What `ecx_outframe` does to the buffer, with the result of `send`. -/
def Stack.transmitted (s : Stack) (idx : Nat) (sent : Bool) : Stack :=
  s.mark idx (if sent=true then .tx else .empty)

/-- The frame that `ecx_outframe` sends. -/
def Port.frame (p : Port) (idx : Nat) : Packet := readBytes (p.txbuf idx) 0 (p.txbuflength idx)

/-- The frame with its `sa1` set, as it is sent from the primary socket. -/
def Port.primaryFrame (p : Port) (idx : Nat) : Buffer :=
  writeBytes (p.txbuf idx) sa1Offset (netBytes rxPrim)

def Port.dummyFrame (p : Port) (idx : Nat) : Buffer :=
  writeBytes (writeBytes p.txbuf2 indexOffset [UInt8.ofNat idx]) sa1Offset (netBytes rxSec)

/-- What goes out of the two sockets. -/
structure Sent where
  primary : Option Packet
  secondary : Option Packet

/-- `ecx_outframe_red`, with the results of the two calls of `send`. -/
def Port.outframeRed (p : Port) (idx : Nat) (sent sent2 : Bool) : Sent × Port :=
  let frame := p.primaryFrame idx
  let packet := if sent=true then some (readBytes frame 0 (p.txbuflength idx)) else none
  let p := { p with
    txbuf := Function.update p.txbuf idx frame
    stack := p.stack.transmitted idx sent }
  match p.redport with
  | none => (⟨packet,none⟩,p)
  | some red =>
      let dummy := p.dummyFrame idx
      (⟨packet,if sent2=true then some (readBytes dummy 0 p.txbuflength2) else none⟩,
        { p with txbuf2 := dummy, redport := some (red.transmitted idx sent2) })

/-- `ecx_recvpkt`: the frame lies over what the temporary buffer had before. -/
def Stack.recvpkt (s : Stack) : Bool × Stack :=
  match s.socket with
  | [] => (false,s)
  | packet::rest =>
      (decide (packet≠[]),
        { s with tempbuf := writeBytes s.tempbuf 0 (packet.take ecBufsize), socket := rest })

def bufferWkc (rxbuf : Buffer) : Int := leWord rxbuf (leWord rxbuf 0%0x1000)

/-- The frame in the temporary buffer is put in the buffer of an index, less its header. -/
def Stack.store (txbuflength : Nat → Nat) (s : Stack) (idx : Nat) (bufstat : BufStat) : Stack :=
  { s with
    rxbuf := Function.update s.rxbuf idx
      (writeBytes (s.rxbuf idx) 0 (readBytes s.tempbuf ethHeadersize (txbuflength idx-ethHeadersize)))
    rxbufstat := Function.update s.rxbufstat idx bufstat
    rxsa := Function.update s.rxsa idx (netWord s.tempbuf sa1Offset) }

/-- `ecx_inframe`, undisturbed: the state of the buffer, read with and without the mutex, is one. -/
def Stack.inframe (txbuflength : Nat → Nat) (s : Stack) (idx : Nat) : Int × Stack :=
  if idx<ecMaxBuf ∧ s.rxbufstat idx=.rcvd then (bufferWkc (s.rxbuf idx),s.mark idx .complete)
  else match s.recvpkt with
    | (false,s) => (ecNoFrame,s)
    | (true,s) =>
        if netWord s.tempbuf etypeOffset=ethPEcat then
          let l := leWord s.tempbuf ethHeadersize%0x1000
          let idxf := (s.tempbuf indexOffset).toNat
          if idxf=idx then
            let s := s.store txbuflength idx .complete
            (leWord (s.rxbuf idx) l,s)
          else if idxf<ecMaxBuf ∧ s.rxbufstat idxf=.tx then
            (ecOtherFrame,s.store txbuflength idxf .rcvd)
          else (ecOtherFrame,s)
        else (ecOtherFrame,s)

/-- Frames that arrive on the two sockets before a call of `ppoll` returns. -/
structure Arrivals where
  primary : List Packet
  secondary : List Packet

def Stack.arrive (s : Stack) (packets : List Packet) : Stack :=
  { s with socket := s.socket++packets }

def Stack.poll (txbuflength : Nat → Nat) (s : Stack) (idx : Nat) (wkc : Int) : Int × Stack :=
  if wkc ≤ ecNoFrame then s.inframe txbuflength idx else (wkc,s)

/-- The waiting loop of `ecx_waitinframe_red`, with what arrives before each of its rounds: it ends
when both frames are in, or with the timer. -/
def waitLoop (txbuflength : Nat → Nat) (idx : Nat) :
    List Arrivals → Int × Stack → Int × Stack → (Int × Stack) × (Int × Stack)
  | [],prim,sec => (prim,sec)
  | a::rest,prim,sec =>
      let prim := (prim.2.arrive a.primary).poll txbuflength idx prim.1
      let sec := (sec.2.arrive a.secondary).poll txbuflength idx sec.1
      if prim.1 ≤ ecNoFrame ∨ sec.1 ≤ ecNoFrame then waitLoop txbuflength idx rest prim sec
      else (prim,sec)

def waitLoopSingle (txbuflength : Nat → Nat) (idx : Nat) :
    List Arrivals → Int × Stack → Int × Stack
  | [],prim => prim
  | a::rest,prim =>
      let prim := (prim.2.arrive a.primary).poll txbuflength idx prim.1
      if prim.1 ≤ ecNoFrame then waitLoopSingle txbuflength idx rest prim else prim

/-- What comes of a frame that is sent again: the result of `send`, and what arrives before each
round of the loop behind it, which has one round at least. -/
structure Resent where
  sent : Bool
  first : List Packet
  later : List (List Packet)

def retrieve (txbuflength : Nat → Nat) (idx : Nat) :
    List Packet → List (List Packet) → Stack → Int × Stack
  | packets,[],s => (s.arrive packets).inframe txbuflength idx
  | packets,next::later,s =>
      let r := (s.arrive packets).inframe txbuflength idx
      if r.1 ≤ ecNoFrame then retrieve txbuflength idx next later r.2 else r

def Port.copySecondary (p : Port) (red : Stack) (idx : Nat) : Port :=
  { p with
    stack := { p.stack with rxbuf := Function.update p.stack.rxbuf idx (writeBytes
      (p.stack.rxbuf idx) 0 (readBytes (red.rxbuf idx) 0 (p.txbuflength idx-ethHeadersize))) }
    redport := some red }

/-- The result of a wait, and the frame that was sent again for it. -/
structure Waited where
  wkc : Int
  resent : Option Packet
  port : Port

/-- The frame in the transmit buffer goes out of the secondary socket. What comes of it is given by
`resend`. -/
def Port.sendAgain (p : Port) (red : Stack) (idx : Nat) (wkc : Int)
    (resend : Packet → Resent) : Waited :=
  let answer := resend (p.frame idx)
  let resent := if answer.sent=true then some (p.frame idx) else none
  let r := retrieve p.txbuflength idx answer.first answer.later (red.transmitted idx answer.sent)
  if r.1>ecNoFrame then ⟨r.1,resent,p.copySecondary r.2 idx⟩
  else ⟨wkc,resent,{ p with redport := some r.2 }⟩

def Port.copyReceived (p : Port) (idx : Nat) : Port :=
  { p with txbuf := Function.update p.txbuf idx (writeBytes (p.txbuf idx) ethHeadersize
      (readBytes (p.stack.rxbuf idx) 0 (p.txbuflength idx-ethHeadersize))) }

/-- The decision tree of `ecx_waitinframe_red`. -/
def Port.reroute (p : Port) (red : Stack) (idx : Nat) (wkc wkc2 : Int)
    (resend : Packet → Resent) : Waited :=
  let primrx := if wkc>ecNoFrame then p.stack.rxsa idx else 0
  let secrx := if wkc2>ecNoFrame then red.rxsa idx else 0
  -- normal situation in redundant mode
  if primrx=rxSec ∧ secrx=rxPrim then ⟨wkc2,none,p.copySecondary red idx⟩
  else if primrx=0 ∧ secrx=rxSec ∨ primrx=rxPrim ∧ secrx=rxSec then
    (if primrx=rxPrim ∧ secrx=rxSec then p.copyReceived idx else p).sendAgain red idx wkc resend
  else ⟨wkc,none,{ p with redport := some red }⟩

/-- `ecx_waitinframe` -/
def Port.waitinframe (p : Port) (idx : Nat) (polls : List Arrivals)
    (resend : Packet → Resent) : Waited :=
  match p.redport with
  | none =>
      let r := waitLoopSingle p.txbuflength idx polls (ecNoFrame,p.stack)
      ⟨r.1,none,{ p with stack := r.2 }⟩
  | some red =>
      let r := waitLoop p.txbuflength idx polls (ecNoFrame,p.stack) (ecNoFrame,red)
      { p with stack := r.1.2 }.reroute r.2.2 idx r.1.1 r.2.1 resend

end EtherCATMaster.Nicdrv
