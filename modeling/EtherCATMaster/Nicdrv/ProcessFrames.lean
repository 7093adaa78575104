import EtherCATMaster.Nicdrv.Port

namespace EtherCATMaster.Nicdrv

open EtherCATMaster.Framework
open EtherCATMaster.Mapping (ecMaxBuf ecNoFrame ethHeadersize ecHeadersize ecWkcsize writeBytes
  readBytes setupDatagram addDatagram shorten Datagram IoMemory)

/-- `EC_CMD_LRD`, `EC_CMD_LWR` and `EC_CMD_LRW` -/
def commandCode : Mapping.Command → UInt8
  | .lrd => 10
  | .lwr => 11
  | .lrw => 12

/-- `EC_CMD_FRMW` -/
def frmwCode : UInt8 := 14

def ecEcatType : Nat := 0x1000
def ecDatagramFollows : Nat := 2^15
def ectRegDcSysTime : Nat := 0x0910

/-- `EC_CMDOFFSET` -/
def cmdOffset : Nat := 2

def readCodes : List UInt8 := [0,1,4,7,10]

/-- `ecx_writedatagramdata`: there is nothing to write for the commands that read. -/
def datagramData (com : UInt8) (length : Nat) (data : List UInt8) : List UInt8 :=
  if com ∈ readCodes then List.replicate length 0 else data.take length

/-- `ecx_setupdatagram`. The interrupt field stays as it is. -/
def setupFrame (frame : Buffer) (com idx : UInt8) (adp ado length : Nat) (data : List UInt8) :
    Buffer :=
  let header := leBytes 2 (ecEcatType+ecHeadersize+length)++[com,idx]++leBytes 2 adp++
    leBytes 2 ado++leBytes 2 length
  let frame := writeBytes frame ethHeadersize header
  let frame := writeBytes frame (ethHeadersize+ecHeadersize) (datagramData com length data)
  writeBytes frame (ethHeadersize+ecHeadersize+length) [0,0]

/-- `ecx_adddatagram` with the last datagram of a frame. -/
def addToFrame (frame : Buffer) (prevlength : Nat) (com idx : UInt8) (adp ado length : Nat)
    (data : List UInt8) : Buffer :=
  let frame := writeBytes frame ethHeadersize
    (leBytes 2 (leWord frame ethHeadersize+ecHeadersize+length))
  let dlength := ethHeadersize+8
  let frame := writeBytes frame dlength (leBytes 2 (leWord frame dlength ||| ecDatagramFollows))
  let frame := writeBytes frame prevlength
    ([com,idx]++leBytes 2 adp++leBytes 2 ado++leBytes 2 length)
  let frame := writeBytes frame (prevlength+10) (datagramData com length data)
  writeBytes frame (prevlength+10+length) [0,0]

/-- An entry of `ec_idxstackT`. -/
structure Entry where
  idx : Nat
  data : Nat
  length : Nat
  dcoffset : Nat
  deriving DecidableEq, Repr

/-- The part of `ecx_contextt` that process data goes through. -/
structure Context where
  port : Port
  idxstack : List Entry
  iomap : IoMemory
  dcTime : UInt64

/-- `ecx_pushindex` -/
def pushindex (idxstack : List Entry) (e : Entry) : List Entry :=
  if idxstack.length<ecMaxBuf then idxstack++[e] else idxstack

/-- The frame of a datagram in the transmit buffer of its index, and the offset of the time in it.
`configadr` is that of the reference clock of the group. -/
def Context.fillFrame (c : Context) (configadr : Nat) (idx : Nat) (d : Datagram) : Port × Nat :=
  let frame := setupFrame (c.port.txbuf idx) (commandCode d.command) (UInt8.ofNat idx)
    (d.logAdr%2^16) (d.logAdr/2^16%2^16) d.length (readBytes c.iomap d.data d.length)
  let txbuflength := setupDatagram d.length
  if d.dc=true then
    let prevlength := shorten txbuflength
    ({ c.port with
        txbuf := Function.update c.port.txbuf idx (addToFrame frame prevlength frmwCode
          (UInt8.ofNat idx) configadr ectRegDcSysTime 8 (leBytes 8 c.dcTime.toNat))
        txbuflength := Function.update c.port.txbuflength idx (addDatagram txbuflength 8) },
      shorten (prevlength+10-ethHeadersize))
  else
    ({ c.port with
        txbuf := Function.update c.port.txbuf idx frame
        txbuflength := Function.update c.port.txbuflength idx txbuflength },0)

/-- One round of the loops of `ecx_send_processdata_group`, with the results of `send` on the two
sockets: the index that is taken, and what is sent. -/
def Context.sendFrame (c : Context) (configadr : Nat) (d : Datagram) (sent : Bool × Bool) :
    Nat × Sent × Context :=
  let (idx,port) := c.port.getindex
  let (port,dco) := { c with port := port }.fillFrame configadr idx d
  let (out,port) := port.outframeRed idx sent.1 sent.2
  (idx,out,{ c with port := port, idxstack := pushindex c.idxstack ⟨idx,d.dest,d.length,dco⟩ })

/-- `ecx_send_processdata_group`, for the datagrams of the group. -/
def Context.sendGroup (configadr : Nat) (sends : Nat → Bool × Bool) :
    List Datagram → Nat → Context → List (Nat × Sent) × Context
  | [],_,c => ([],c)
  | d::rest,k,c =>
      let (idx,out,c) := c.sendFrame configadr d (sends k)
      let (outs,c) := Context.sendGroup configadr sends rest (k+1) c
      ((idx,out)::outs,c)

/-- What comes in while the master waits for a frame. -/
structure Wait where
  polls : List Arrivals
  resend : Packet → Resent

/-- What the receiving loop has so far: the working counter, and whether a frame has arrived. -/
structure Received where
  wkc : Int
  valid : Bool

def readWord64 (b : Buffer) (offset : Nat) : UInt64 :=
  UInt64.ofNat (leValue (readBytes b offset 8))

/-- What a frame that has come in is used for. -/
def Context.useFrame (c : Context) (e : Entry) (wkc2 : Int) (r : Received) : Received × Context :=
  let rxbuf := c.port.stack.rxbuf e.idx
  let leWkc : Int := leWord rxbuf (ecHeadersize+e.length)
  let dcTime := if e.dcoffset>0 then readWord64 rxbuf e.dcoffset else c.dcTime
  if rxbuf cmdOffset=commandCode .lrd ∨ rxbuf cmdOffset=commandCode .lrw then
    (⟨if e.dcoffset>0 then leWkc else r.wkc+wkc2,true⟩,
      { c with
        iomap := writeBytes c.iomap e.data (readBytes rxbuf ecHeadersize e.length)
        dcTime := dcTime })
  else if rxbuf cmdOffset=commandCode .lwr then
    -- outputs count twice, as they do with LRW
    (⟨if e.dcoffset>0 then leWkc*2 else r.wkc+wkc2*2,true⟩,{ c with dcTime := dcTime })
  else (r,c)

/-- One round of the loop of `ecx_receive_processdata_group`. -/
def Context.receiveEntry (c : Context) (e : Entry) (w : Wait) (r : Received) :
    Received × Context :=
  let waited := c.port.waitinframe e.idx w.polls w.resend
  let c := { c with port := waited.port }
  let (r,c) := if waited.wkc>ecNoFrame then c.useFrame e waited.wkc r else (r,c)
  (r,{ c with port := c.port.setbufstat e.idx .empty })

def Context.receiveEntries (waits : Nat → Wait) :
    List Entry → Nat → Received → Context → Received × Context
  | [],_,r,c => (r,c)
  | e::rest,k,r,c =>
      let (r,c) := c.receiveEntry e (waits k) r
      Context.receiveEntries waits rest (k+1) r c

/-- `ecx_receive_processdata_group`. It goes through the index stack, whatever the group. -/
def Context.receiveGroup (c : Context) (waits : Nat → Wait) : Int × Context :=
  let (r,c') := Context.receiveEntries waits c.idxstack 0 ⟨0,false⟩ c
  (if r.valid=true then r.wkc else ecNoFrame,{ c' with idxstack := [] })

end EtherCATMaster.Nicdrv
