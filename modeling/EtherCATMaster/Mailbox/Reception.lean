import EtherCATMaster.Mailbox.Link
import EtherCATMaster.Framework.Run

namespace EtherCATMaster.Mailbox

open EtherCATMaster.Framework

def ectMbxtAoe : UInt8 := 1
def ectMbxtVoe : UInt8 := 0x0f

/-- The protocols that have a place for a received mailbox in `ec_slavet`. -/
inductive MbxProtocol where
  | coe
  | soe
  | eoe
  | foe
  | voe
  | aoe
  deriving DecidableEq, Repr

/-- Where `ecx_mbxinhandler` puts a mailbox by its type. Errors, emergencies and unknown types have
no place. -/
def protocolOf (mbx : List UInt8) : Option MbxProtocol :=
  if mbxType mbx=ectMbxtErr then none
  else if mbxType mbx=ectMbxtCoe then if coeService mbx=1 then none else some .coe
  else if mbxType mbx=ectMbxtSoe then some .soe
  else if mbxType mbx=ectMbxtEoe then some .eoe
  else if mbxType mbx=ectMbxtFoe then some .foe
  else if mbxType mbx=ectMbxtVoe then some .voe
  else if mbxType mbx=ectMbxtAoe then some .aoe
  else none

def handledError (mbx : List UInt8) : Option MbxError :=
  if mbxType mbx=ectMbxtErr then some (.mailbox (get16 mbx 8))
  else if mbxType mbx=ectMbxtCoe ∧ coeService mbx=1 then
    some (.emergency (get16 mbx 8) (byteAt mbx 10) (byteAt mbx 11) (get16 mbx 12) (get16 mbx 14))
  else none

/-- `EOE_FRAG_DATA` -/
def isFragment (mbx : List UInt8) : Prop := protocolOf mbx=some .eoe ∧ get16 mbx 6 &&& 0xf=0

instance isFragment.decidable (mbx : List UInt8) : Decidable (isFragment mbx) :=
  inferInstanceAs (Decidable (_ ∧ _))

/-- The pointer to a received mailbox: NULL, `EC_MBXINENABLE`, or a mailbox. -/
inductive MbxPtr where
  | null
  | enable
  | mbx (bytes : List UInt8)
  deriving DecidableEq, Repr

/-- `coembxin`, `coembxinfull` and `coembxoverrun`, and the like for the other protocols. -/
structure MbxSlot where
  mbxin : MbxPtr
  full : Bool
  overrun : UInt32

def MbxSlot.overran (slot : MbxSlot) : MbxSlot := { slot with overrun := slot.overrun+1 }

def MbxSlot.store (slot : MbxSlot) (mbx : List UInt8) : MbxSlot :=
  if slot.mbxin≠.null ∧ slot.full=false then { slot with mbxin := .mbx mbx, full := true }
  else slot.overran

/-- What the record of a slave has for the handler. -/
structure SlaveItem where
  mbxRl : UInt16
  cyclic : Bool
  islost : Bool
  mbxrmpstate : Nat
  mbxinstateex : UInt16
  slots : MbxProtocol → MbxSlot

/-- A mailbox of the slave, with its number. -/
structure Mail where
  number : Nat
  bytes : List UInt8

/-- The slave's end: all mailboxes it has made, those still to come, the one that waits to be read,
the one that was read last, and its repeat request and acknowledge bits. `handed` tells how far the
master has got them. -/
structure Outbox where
  produced : List Mail
  queue : List Mail
  waiting : Option Mail
  last : Option Mail
  req : Bool
  ack : Bool
  handed : Nat

/-- The status and activate registers of the slave's SM1 in one word, and its control register. -/
def Outbox.smStatex (o : Outbox) : UInt16 :=
  (if o.waiting.isSome=true then 0x0008 else 0x0000) ||| (if o.req=true then 0x0300 else 0x0100)

def Outbox.smContr (o : Outbox) : UInt8 := if o.ack=true then 0x02 else 0x00

/-- `HI_BYTE`, and the repeat bit in it. -/
def hiByte (w : UInt16) : UInt8 := (w >>> 8).toUInt8

def repeatBit (w : UInt16) : Bool := decide (hiByte w &&& 0x02≠0)

def Outbox.produce (o : Outbox) (mbx : List UInt8) : Outbox :=
  { o with
    produced := o.produced++[⟨o.produced.length,mbx⟩]
    queue := o.queue++[⟨o.produced.length,mbx⟩] }

/-- The slave serves a repeat request: the mailbox that was read last goes in again, before any
other. -/
def Outbox.serveRepeat (o : Outbox) : Outbox :=
  match o.last with
  | some mail =>
      { o with queue := o.waiting.toList++o.queue, waiting := some mail, last := none, ack := o.req }
  | none => { o with ack := o.req }

def Outbox.load (o : Outbox) : Outbox :=
  match o.waiting,o.queue with
  | none,mail::rest => { o with waiting := some mail, queue := rest }
  | _,_ => o

def Outbox.work (o : Outbox) : Outbox := if o.req=o.ack then o.load else o.serveRepeat

/-- How a datagram fares. -/
inductive Passage where
  | arrives
  | requestLost
  | replyLost
  deriving DecidableEq, Repr

def Outbox.read (o : Outbox) (passage : Passage) : Option (List UInt8) × Outbox :=
  match o.waiting,passage with
  | some mail,.arrives =>
      (some mail.bytes,{ o with
        waiting := none, last := some mail, handed := max o.handed (mail.number+1) })
  | some mail,.replyLost => (none,{ o with waiting := none, last := some mail })
  | _,_ => (none,o)

/-- What decides one visit of the handler: the fate of its datagram, whether the pool has a mailbox,
whether the EoE hook takes a fragment, and what an unset variable holds. -/
structure Visit where
  passage : Passage
  pool : Bool
  hooked : Bool
  unset : UInt16

/-- A slave of the group as it stands: its record, its byte of `mbxstatus`, the byte that the frame
under way has of it, the slave's end, and what came of its mailboxes. -/
structure Station where
  item : SlaveItem
  status : UInt8
  sampled : Option UInt8
  box : Outbox
  returned : MbxProtocol → List MbxPtr
  hooked : List (List UInt8)
  errors : List MbxError

/-- The robust mailbox protocol: read the status, write it back with the repeat request toggled,
and wait for the acknowledge. -/
def Station.rmp (s : Station) (v : Visit) : Station :=
  match s.item.mbxrmpstate with
  | 1 =>
      if v.passage=.arrives then
        { s with item.mbxinstateex := s.box.smStatex ^^^ 0x0200, item.mbxrmpstate := 2 }
      else { s with item.mbxinstateex := v.unset }
  | 2 =>
      match v.passage with
      | .arrives =>
          { s with box.req := repeatBit s.item.mbxinstateex, item.mbxrmpstate := 3 }
      | .replyLost => { s with box.req := repeatBit s.item.mbxinstateex }
      | .requestLost => s
  | 3 =>
      if v.passage=.arrives ∧
          s.box.smContr &&& 0x02=hiByte s.item.mbxinstateex &&& 0x02 then
        { s with item.mbxrmpstate := 0 }
      else s
  | _ => s

def Station.updateSlot (s : Station) (p : MbxProtocol) (slot : MbxSlot) : Station :=
  { s with item.slots := Function.update s.item.slots p slot }

/-- What is done with a mailbox that was read. A fragment that the hook has taken is counted as
overrun as well. -/
def Station.sort (s : Station) (v : Visit) (mbx : List UInt8) : Station :=
  match protocolOf mbx with
  | none => { s with errors := (handledError mbx).toList++s.errors }
  | some p =>
      if isFragment mbx ∧ v.hooked=true then
        { s.updateSlot p (s.item.slots p).overran with hooked := s.hooked++[mbx] }
      else s.updateSlot p ((s.item.slots p).store mbx)

def Station.readMailbox (s : Station) (v : Visit) : Station :=
  match s.box.read v.passage with
  | (some mbx,box) => { s with box := box }.sort v mbx
  | (none,box) => { s with box := box, item.mbxrmpstate := 1 }

/-- The handler at one slave, and whether that counts against its limit. -/
def Station.visit (s : Station) (v : Visit) : Bool × Station :=
  if s.item.cyclic=true then
    if s.item.mbxrmpstate≠0 then
      if s.item.islost=true then (false,{ s with item.mbxrmpstate := 0 })
      else (true,s.rmp v)
    else if s.status &&& 0x08>0 ∧ 0 < s.item.mbxRl.toNat ∧ v.pool=true then
      (true,s.readMailbox v)
    else (false,s)
  else (false,s)

/-- The group: its slaves by their place in `mbxstatuslookup`. -/
structure Reception where
  stations : Nat → Station
  lastmbxpos : Nat

def Reception.update (r : Reception) (i : Nat) (s : Station) : Reception :=
  { r with stations := Function.update r.stations i s }

/-- The loop of `ecx_mbxinhandler` over the places that are left; `limitcnt` counts the work. -/
def inHandlerLoop (limit : Int) (visits : Nat → Visit) : List Nat → Int → Reception → Int × Reception
  | [],limitcnt,r => (limitcnt,r)
  | i::rest,limitcnt,r =>
      let visited := (r.stations i).visit (visits i)
      let r' := { r.update i visited.2 with lastmbxpos := i }
      if visited.1=true then
        if limitcnt+1 ≥ limit then (limitcnt+1,r')
        else inHandlerLoop limit visits rest (limitcnt+1) r'
      else inHandlerLoop limit visits rest limitcnt r'

/-- The places in the order of a call: from the one after the last, around once. -/
def handlerOrder (n last : Nat) : List Nat :=
  (List.range n).map fun cnt => if last+1+cnt ≥ n then last+1+cnt-n else last+1+cnt

/-- `ecx_mbxinhandler` for a group with `n` slaves in it. -/
def mbxInHandler (n : Nat) (limit : Int) (visits : Nat → Visit) (r : Reception) : Int × Reception :=
  inHandlerLoop limit visits (handlerOrder n r.lastmbxpos) 0 r

/-- The order in which `ecx_mbxreceive` looks for a mailbox. -/
def receiveOrder : List MbxProtocol := [.coe,.soe,.foe,.eoe]

/-- One turn of the cyclic branch of `ecx_mbxreceive`. -/
def Station.mbxReceive (s : Station) : Option MbxPtr × Station :=
  match receiveOrder.find? (fun p => (s.item.slots p).full) with
  | none => (none,s)
  | some p =>
      (some (s.item.slots p).mbxin,
        { s.updateSlot p { s.item.slots p with mbxin := .enable, full := false } with
          returned := Function.update s.returned p (s.returned p++[(s.item.slots p).mbxin]) })

/-- What happens in the system: a slave makes a mailbox or tends its SM1, a frame with process data
is sent, passes a slave and arrives, the two functions are called, and the application marks a
slave as lost or found. -/
inductive ReceptionStep where
  | produce (i : Nat) (mbx : List UInt8)
  | work (i : Nat)
  | send
  | pass (i : Nat)
  | arrive
  | inhandler (limit : Int) (visits : Nat → Visit)
  | mbxreceive (i : Nat)
  | setLost (i : Nat) (islost : Bool)

/-- `ecx_clearmbxstatus`, in `ecx_send_processdata_group`. -/
def Station.clearStatus (s : Station) : Station := { s with status := 0, sampled := none }

def Station.sample (s : Station) : Station := { s with sampled := some s.box.smStatex.toUInt8 }

/-- `ecx_receive_processdata_group` as far as the status byte goes. -/
def Station.takeStatus (s : Station) : Station :=
  { s with status := s.sampled.getD s.status, sampled := none }

def receptionStep (n : Nat) (r : Reception) : ReceptionStep → Reception
  | .produce i mbx => r.update i { r.stations i with box := (r.stations i).box.produce mbx }
  | .work i => r.update i { r.stations i with box := (r.stations i).box.work }
  | .send => { r with stations := fun i => (r.stations i).clearStatus }
  | .pass i => r.update i (r.stations i).sample
  | .arrive => { r with stations := fun i => (r.stations i).takeStatus }
  | .inhandler limit visits => (mbxInHandler n limit visits r).2
  | .mbxreceive i => r.update i (r.stations i).mbxReceive.2
  | .setLost i islost => r.update i { r.stations i with item.islost := islost }

/-- A slave with nothing to send, for which the mailboxes of some protocols are enabled. -/
def Station.start (mbxRl : UInt16) (enabled : MbxProtocol → Bool) : Station where
  item := {
    mbxRl := mbxRl
    cyclic := true
    islost := false
    mbxrmpstate := 0
    mbxinstateex := 0
    slots := fun p => ⟨if enabled p=true then .enable else .null,false,0⟩ }
  status := 0
  sampled := none
  box := ⟨[],[],none,none,false,false,0⟩
  returned := fun _ => []
  hooked := []
  errors := []

def Reception.start (mbxRl : Nat → UInt16) (enabled : Nat → MbxProtocol → Bool) : Reception :=
  ⟨fun i => Station.start (mbxRl i) (enabled i),0⟩

end EtherCATMaster.Mailbox
