import EtherCATMaster.Nicdrv.Redundancy

namespace EtherCATMaster.Nicdrv

open EtherCATMaster.Framework
open EtherCATMaster.Mapping (ecMaxBuf ecNoFrame ecBufsize ethHeadersize writeBytes readBytes)

/-- A frame with the request it was sent for, which is not in the frame. -/
structure Frame where
  request : Nat
  bytes : Packet
  deriving DecidableEq, Repr

/-- The index of a frame. -/
def Frame.index (f : Frame) : Nat := (packetBuffer f.bytes indexOffset).toNat

def Frame.altered (f : Frame) (body : List UInt8) : Frame :=
  { f with bytes := (List.range f.bytes.length).map fun i =>
      if i ≤ indexOffset then packetBuffer f.bytes i else packetBuffer body (i-indexOffset-1) }

/-- A stack that threads share. `origin` is the request of the frame in a buffer. -/
structure Lane where
  rxbufstat : Nat → BufStat
  rxbuf : Nat → Buffer
  rxsa : Nat → Nat
  tempbuf : Buffer
  socket : List Frame
  origin : Nat → Option Nat

def Lane.mark (l : Lane) (idx : Nat) (bufstat : BufStat) : Lane :=
  { l with rxbufstat := Function.update l.rxbufstat idx bufstat }

/-- The frame in the temporary buffer is put in the buffer of an index, less its header. -/
def Lane.put (txbuflength : Nat → Nat) (l : Lane) (idx request : Nat) : Lane :=
  { l with
    rxbuf := Function.update l.rxbuf idx
      (writeBytes (l.rxbuf idx) 0 (readBytes l.tempbuf ethHeadersize (txbuflength idx-ethHeadersize)))
    origin := Function.update l.origin idx (some request) }

def Lane.source (l : Lane) (idx : Nat) : Lane :=
  { l with rxsa := Function.update l.rxsa idx (netWord l.tempbuf sa1Offset) }

/-- Where a thread is in `ecx_inframe`. Between `lock` and `unlock` it has `rx_mutex`. The frames are
those that it has read from the socket. -/
inductive Stage where
  | check
  | pick (locked : Bool)
  | mark (locked : Bool) (wkc : Int)
  | lock
  | recheck
  | recv
  | got (f : Frame)
  | copyOwn (f : Frame)
  | completeOwn (f : Frame) (wkc : Int)
  | sourceOwn (wkc : Int)
  | copyOther (f : Frame) (idxf : Nat)
  | receivedOther (f : Frame) (idxf : Nat)
  | sourceOther (idxf : Nat)
  | unlock (rval : Int)
  | returned (rval : Int)
  deriving DecidableEq, Repr

/-- The thread has `rx_mutex`. -/
def Stage.locked : Stage → Bool
  | .check => false
  | .pick locked => locked
  | .mark locked _ => locked
  | .lock => false
  | .returned _ => false
  | _ => true

def Stage.hand : Stage → List Frame
  | .got f => [f]
  | .copyOwn f => [f]
  | .completeOwn f _ => [f]
  | .copyOther f _ => [f]
  | .receivedOther f _ => [f]
  | _ => []

/-- One step of thread `t` in `ecx_inframe`: the stack, the owner of `rx_mutex`, and the stage behind
it. Every step makes one access to what the threads share. -/
def inframeStep (txbuflength : Nat → Nat) (t idx : Nat) (l : Lane) (mutex : Option Nat) :
    Stage → Lane × Option Nat × Stage
  | .check =>
      (l,mutex,if idx < ecMaxBuf ∧ l.rxbufstat idx=.rcvd then .pick false else .lock)
  | .pick locked => (l,mutex,.mark locked (bufferWkc (l.rxbuf idx)))
  | .mark locked wkc =>
      (l.mark idx .complete,mutex,if locked=true then .unlock wkc else .returned wkc)
  | .lock => if mutex=none then (l,some t,.recheck) else (l,mutex,.lock)
  | .recheck =>
      (l,mutex,if idx < ecMaxBuf ∧ l.rxbufstat idx=.rcvd then .pick true else .recv)
  | .recv =>
      match l.socket with
      | [] => (l,mutex,.unlock ecNoFrame)
      | f::rest =>
          ({ l with
              tempbuf := writeBytes l.tempbuf 0 (f.bytes.take ecBufsize), socket := rest },mutex,
            if f.bytes=[] then .unlock ecNoFrame else .got f)
  | .got f =>
      let idxf := (l.tempbuf indexOffset).toNat
      (l,mutex,if netWord l.tempbuf etypeOffset=ethPEcat then
          if idxf=idx then .copyOwn f
          else if idxf < ecMaxBuf ∧ l.rxbufstat idxf=.tx then .copyOther f idxf
          else .unlock ecOtherFrame
        else .unlock ecOtherFrame)
  | .copyOwn f =>
      let l := l.put txbuflength idx f.request
      (l,mutex,.completeOwn f (leWord (l.rxbuf idx) (leWord l.tempbuf ethHeadersize%0x1000)))
  | .completeOwn _ wkc => (l.mark idx .complete,mutex,.sourceOwn wkc)
  | .sourceOwn wkc => (l.source idx,mutex,.unlock wkc)
  | .copyOther f idxf => (l.put txbuflength idxf f.request,mutex,.receivedOther f idxf)
  | .receivedOther _ idxf => (l.mark idxf .rcvd,mutex,.sourceOther idxf)
  | .sourceOther idxf => (l.source idxf,mutex,.unlock ecOtherFrame)
  | .unlock rval => (l,none,.returned rval)
  | .returned rval => (l,mutex,.returned rval)

section Frames

theorem packetBuffer_map (n : Nat) (g : Nat → UInt8) {i : Nat} (h : i < n) :
    packetBuffer ((List.range n).map g) i=g i := by
  rw [packetBuffer,List.getD_eq_getElem?_getD,List.getElem?_map,List.getElem?_range h]
  rfl

theorem Frame.altered_keeps (f : Frame) (body : List UInt8) (hlong : indexOffset < f.bytes.length) :
    Keeps f.bytes (f.altered body).bytes := by
  refine ⟨?_,?_⟩
  · rw [Frame.altered,List.length_map,List.length_range]
  · intro i _ hi
    rw [Frame.altered,packetBuffer_map _ _ (by omega),if_pos hi]

theorem Frame.altered_index (f : Frame) (body : List UInt8)
    (hlong : indexOffset < f.bytes.length) : (f.altered body).index=f.index := by
  rw [Frame.index,(f.altered_keeps body hlong).header _ (by decide) (le_refl _)]
  rfl

end Frames

end EtherCATMaster.Nicdrv
