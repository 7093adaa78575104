import EtherCATMaster.Mapping.MapGroup
import Mathlib.Algebra.Ring.Nat

namespace EtherCATMaster.Mapping

/-- Frame buffers of a port, and entries of the index stack. -/
def ecMaxBuf : Nat := 16

def ecNoFrame : Int := -1

/-- The IO map, by the offset from its beginning. -/
abbrev IoMemory := Nat → UInt8

/-- `memcpy` and `memset`. -/
def writeBytes (mem : IoMemory) (dest : Nat) (bytes : List UInt8) : IoMemory := fun a =>
  if dest ≤ a ∧ a<dest+bytes.length then bytes.getD (a-dest) 0 else mem a

def readBytes (mem : IoMemory) (data n : Nat) : List UInt8 :=
  (List.range n).map (fun i => mem (data+i))

theorem readBytes_length (mem : IoMemory) (data n : Nat) : (readBytes mem data n).length=n := by
  rw [readBytes,List.length_map,List.length_range]

/-- The place of a pointer in the IO map. A pointer made from `NULL` has none. -/
def Pointer.offset : Pointer → Option Nat
  | .ioMap offset => some offset
  | .null _ => none

inductive Command where
  | lrd
  | lwr
  | lrw
  deriving DecidableEq, Repr

/-- A datagram of a cycle: what is sent, and the entry of the index stack for it. -/
structure Datagram where
  command : Command
  logAdr : Nat
  length : Nat
  data : Nat
  dest : Nat
  dc : Bool
  deriving DecidableEq, Repr

/-- `ecx_clearmbxstatus` -/
def clearMbxStatus (g : Group) (mem : IoMemory) : Option IoMemory :=
  if g.mbxstatus≠.null 0 ∧ g.mbxstatuslength≠0 then do
    let offset ← g.mbxstatus.offset
    some (writeBytes mem offset (List.replicate g.mbxstatuslength 0))
  else some mem

/-- The loop over the segments: it ends with them, or where nothing is left. `moved` is added to the
pointer that is pushed. -/
def sendSegments (command : Command) (moved : Nat) :
    List Nat → Int → Nat → Nat → List Datagram
  | [],_,_,_ => []
  | sublength::rest,length,logAdr,data =>
      ⟨command,logAdr,sublength,data,data+moved,false⟩::
        (if length-sublength≠0 then
          sendSegments command moved rest (length-sublength) (logAdr+sublength) (data+sublength)
        else [])

/-- Lengths are handed on as `uint16`. -/
def shorten (n : Nat) : Nat := n%2^16

def readSegments (g : Group) : List Nat :=
  match g.iosegment.drop g.isegment with
  | [] => []
  | first::rest => shorten (first+2^16-g.ioffset)::rest.map shorten

/-- The loop for LWR: what is sent ends with the outputs. -/
def sendOutputs : List Nat → Int → Nat → Nat → List Datagram
  | [],_,_,_ => []
  | segment::rest,length,logAdr,data =>
      let sublength := if length-shorten segment<0 then shorten length.toNat else shorten segment
      ⟨.lwr,logAdr,sublength,data,data,false⟩::
        (if length-sublength≠0 then
          sendOutputs rest (length-sublength) (logAdr+sublength) (data+sublength)
        else [])

def withDc (hasdc : Bool) : List Datagram → List Datagram
  | [] => []
  | d::rest => { d with dc := hasdc }::rest

/-- `length` and `iomapinputoffset` of the LRW datagrams. -/
def frameLength (overlapped : Bool) (g : Group) : Nat :=
  (if overlapped=true then max g.obytes g.ibytes else g.obytes+g.ibytes)+g.mbxstatuslength

/-- The datagrams that `ecx_send_processdata_group` sends. -/
def groupDatagrams (overlapped : Bool) (g : Group) : Option (List Datagram) :=
  if frameLength overlapped g=0 then some []
  else if g.blockLRW≠0 then do
    let reads ← if g.ibytes≠0 then do
        let data ← g.inputs.offset
        some (sendSegments .lrd 0 (readSegments g) g.ibytes (g.logstartaddr+g.obytes) data)
      else some []
    let writes ← if g.obytes≠0 then do
        let data ← g.outputs.offset
        some (sendOutputs g.iosegment g.obytes g.logstartaddr data)
      else some []
    some (withDc g.hasdc (reads++writes))
  else do
    let data ← if g.obytes≠0 then g.outputs.offset else g.inputs.offset
    let moved := if overlapped=true ∧ g.obytes≠0 then g.obytes else 0
    some (withDc g.hasdc (sendSegments .lrw moved (g.iosegment.map shorten)
      (frameLength overlapped g) g.logstartaddr data))

/-- `ecx_send_processdata_group`: whether there is anything to transmit, the datagrams, and the IO
map with the mailbox status cleared. -/
def sendProcessdata (overlapped : Bool) (g : Group) (mem : IoMemory) :
    Option (Int × List Datagram × IoMemory) := do
  let mem ← clearMbxStatus g mem
  let datagrams ← groupDatagrams overlapped g
  some (if frameLength overlapped g=0 then 0 else 1,datagrams,mem)

def pushed (datagrams : List Datagram) : List Datagram := datagrams.take ecMaxBuf

/-- A frame that has come back: the result of `ecx_waitinframe`, the data, and with distributed
clocks the working counter of the first datagram and the time. -/
structure Reply where
  wkc : Int
  bytes : List UInt8
  leWkc : UInt16
  dcTime : UInt64

/-- What the receiving loop has so far: the working counter, whether a frame has arrived, the time,
and what it has copied to the IO map. -/
structure ReceiveRun where
  wkc : Int
  valid : Bool
  dcTime : Option UInt64
  copies : List (Nat × List UInt8)

/-- One frame of `ecx_receive_processdata_group`. -/
def receiveFrame (r : ReceiveRun) (d : Datagram) (reply : Option Reply) : ReceiveRun :=
  match reply with
  | none => r
  | some reply =>
      if reply.wkc>ecNoFrame then
        let copies := if d.command=.lwr then r.copies
          else r.copies++[(d.dest,readBytes (reply.bytes.getD · 0) 0 d.length)]
        -- outputs count twice, as they do with LRW
        let factor : Int := if d.command=.lwr then 2 else 1
        if d.dc=true then ⟨reply.leWkc.toNat*factor,true,some reply.dcTime,copies⟩
        else ⟨r.wkc+reply.wkc*factor,true,r.dcTime,copies⟩
      else r

/-- `ecx_receive_processdata_group`, with what comes back for each entry of the index stack. -/
def receiveProcessdata : List (Datagram × Option Reply) → ReceiveRun → ReceiveRun
  | [],r => r
  | f::rest,r => receiveProcessdata rest (receiveFrame r f.1 f.2)

def receiveStart : ReceiveRun := ⟨0,false,none,[]⟩

/-- The working counter that is returned. -/
def ReceiveRun.result (r : ReceiveRun) : Int := if r.valid=true then r.wkc else ecNoFrame

/-- The IO map after the copies. -/
def copied (mem : IoMemory) (copies : List (Nat × List UInt8)) : IoMemory :=
  copies.foldl (fun mem c => writeBytes mem c.1 c.2) mem

end EtherCATMaster.Mapping
