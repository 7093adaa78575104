import EtherCATMaster.Mailbox.Pool
import EtherCATMaster.Framework.Run

namespace EtherCATMaster.Mailbox

open EtherCATMaster.Framework

/-- Values of `EC_MBXQUEUESTATE`. -/
inductive QueueState where
  | none
  | req
  | fail
  | done
  deriving DecidableEq, Repr

/-- `ec_mbxqueuet`. A ticket of -1 is `none`. The number of the message in a slot is what the
proofs follow; the code does not have it. -/
structure MbxQueue where
  listhead : Nat
  listtail : Nat
  listcount : Nat
  mbx : Nat → Option Nat
  mbxstate : Nat → QueueState
  mbxremove : Nat → Bool
  mbxticket : Nat → Option Nat
  mbxslave : Nat → UInt16
  message : Nat → Nat

def initMbxQueue : MbxQueue where
  listhead := 0
  listtail := 0
  listcount := 0
  mbx := fun _ => none
  mbxstate := fun _ => .none
  mbxremove := fun _ => false
  mbxticket := fun _ => none
  mbxslave := fun _ => 0
  message := fun _ => 0

/-- The first unused ticket, or `EC_MBXPOOLSIZE` where the search runs off the end. -/
def freeTicket (q : MbxQueue) : Nat :=
  ((List.range mbxPoolSize).find? fun t => (q.mbxticket t).isNone).getD mbxPoolSize

def mbxAddQueue (q : MbxQueue) (slave : UInt16) (mbx message : Nat) : Option Nat × MbxQueue :=
  if q.listcount < mbxPoolSize then
    let ticketloc := q.listhead
    let ticket := freeTicket q
    (some ticket,
      { q with
        mbxticket := Function.update q.mbxticket ticket (some ticketloc)
        mbxslave := Function.update q.mbxslave ticketloc slave
        mbx := Function.update q.mbx ticketloc (some mbx)
        listhead := ringNext mbxPoolSize q.listhead
        mbxremove := Function.update q.mbxremove ticketloc false
        mbxstate := Function.update q.mbxstate ticketloc .req
        listcount := q.listcount+1
        message := Function.update q.message ticketloc message })
  else (none,q)

def MbxQueue.mark (q : MbxQueue) (ticket loc : Nat) : MbxQueue :=
  { q with
    mbxremove := Function.update q.mbxremove loc true
    mbxticket := Function.update q.mbxticket ticket none }

def mbxDoneQueue (q : MbxQueue) (ticket : Nat) : Bool × MbxQueue :=
  match q.mbxticket ticket with
  | some loc => if q.mbxstate loc=.done then (true,q.mark ticket loc) else (false,q)
  | none => (false,q)

def mbxExpireQueue (q : MbxQueue) (ticket : Nat) : Bool × MbxQueue :=
  match q.mbxticket ticket with
  | some loc => if q.mbxstate loc≠.none then (true,q.mark ticket loc) else (false,q)
  | none => (false,q)

/-- Moves the entry of the tail to the head. The slot it leaves keeps its contents. -/
def MbxQueue.moved (q : MbxQueue) (ticket : Nat) : MbxQueue :=
  { q with
    mbxticket := Function.update q.mbxticket ticket (some q.listhead)
    mbxremove := Function.update q.mbxremove q.listhead (q.mbxremove q.listtail)
    mbxstate := Function.update q.mbxstate q.listhead (q.mbxstate q.listtail)
    mbxslave := Function.update q.mbxslave q.listhead (q.mbxslave q.listtail)
    mbx := Function.update q.mbx q.listhead (q.mbx q.listtail)
    message := Function.update q.message q.listhead (q.message q.listtail)
    listhead := ringNext mbxPoolSize q.listhead
    listtail := ringNext mbxPoolSize q.listtail }

def ticketOf (q : MbxQueue) (loc : Nat) : Option Nat :=
  (List.range mbxPoolSize).find? fun t => q.mbxticket t=some loc

def mbxRotateQueue (q : MbxQueue) (ticketloc : Nat) : MbxQueue :=
  if q.listhead≠q.listtail then
    match ticketOf q ticketloc with
    | some ticket => q.moved ticket
    | none => q
  else q

def mbxDropQueue (q : MbxQueue) (ticketloc : Nat) : Option Nat × MbxQueue :=
  (q.mbx ticketloc,
    { q with
      mbxstate := Function.update q.mbxstate ticketloc .none
      mbxremove := Function.update q.mbxremove ticketloc false
      mbxslave := Function.update q.mbxslave ticketloc 0
      mbx := Function.update q.mbx ticketloc none
      listtail := ringNext mbxPoolSize q.listtail
      listcount := q.listcount-1 })

/-- A caller of `ecx_mbxsend` on a slave with the cyclic handler: it holds a mailbox, or waits
with a ticket. -/
inductive SenderPc where
  | idle
  | holding (mbx : Nat)
  | waiting (ticket message : Nat)
  deriving DecidableEq, Repr

/-- Local variables of `ecx_mbxouthandler`. -/
structure HandlerFrame where
  limit : Int
  limitcnt : Int
  listcount : Nat
  deriving DecidableEq, Repr

/-- `ecx_mbxouthandler` between its locked bodies: at the head of the loop, before the rotation,
before it reads the removal mark, before it drops the slot, and with the mailbox it dropped. -/
inductive HandlerPc where
  | idle
  | loop (f : HandlerFrame)
  | rotating (ticketloc : Nat) (f : HandlerFrame)
  | checking (ticketloc : Nat) (f : HandlerFrame)
  | dropping (ticketloc : Nat) (f : HandlerFrame)
  | releasing (mbx : Nat) (f : HandlerFrame)
  deriving DecidableEq, Repr

/-- The transmit side of a group. Messages are numbered as they are queued; `expired` are those
whose send has returned because its timer expired. -/
structure TxSys where
  pool : MbxPool
  queue : MbxQueue
  senders : Nat → SenderPc
  handler : HandlerPc
  messages : Nat
  expired : List Nat

def txInit : TxSys := ⟨initMbxPool,initMbxQueue,fun _ => .idle,.idle,0,[]⟩

/-- Steps of the senders, by number, and of the handler. `expire` is the end of a wait by its
timer, `giveUp` the end of a send that found the queue full. A handler step is told whether the
slave is in PRE_OP or above and whether the write reaches it. -/
inductive TxEvent where
  | get (i : Nat)
  | add (i : Nat) (slave : UInt16)
  | poll (i : Nat)
  | expire (i : Nat)
  | giveUp (i : Nat)
  | call (limit : Int)
  | handler (preop sent : Bool)
  deriving DecidableEq, Repr

def TxSys.setSender (s : TxSys) (i : Nat) (pc : SenderPc) : TxSys :=
  { s with senders := Function.update s.senders i pc }

/-- The unlocked part that writes the entry of the tail to the slave. -/
def writeTail (s : TxSys) (loc : Nat) (sent : Bool) : TxSys :=
  if sent=true then
    { s with
      queue := { s.queue with
        mbxstate := Function.update s.queue.mbxstate loc .done
        mbx := Function.update s.queue.mbx loc none }
      pool := match s.queue.mbx loc with
        | some mbx => dropMbx s.pool mbx
        | none => s.pool }
  else
    { s with queue := { s.queue with
        mbxstate := Function.update s.queue.mbxstate loc .fail } }

/-- The head of the handler's loop, up to the rotation. -/
def visitTail (s : TxSys) (f : HandlerFrame) (preop sent : Bool) : TxSys :=
  let loc := s.queue.listtail
  let f := { f with listcount := f.listcount-1 }
  match s.queue.mbxstate loc with
  | .none => { s with handler := .checking loc f }
  | .done => { s with handler := .rotating loc f }
  | _ =>
      let f := { f with limitcnt := f.limitcnt+1 }
      if preop=true then { writeTail s loc sent with handler := .rotating loc f }
      else { s with handler := .rotating loc f }

def handlerStep (s : TxSys) (preop sent : Bool) : TxSys :=
  match s.handler with
  | .idle => s
  | .loop f =>
      if f.limitcnt ≤ f.limit ∧ f.listcount≠0 then visitTail s f preop sent
      else { s with handler := .idle }
  | .rotating loc f =>
      { s with queue := mbxRotateQueue s.queue loc, handler := .checking loc f }
  | .checking loc f =>
      if s.queue.mbxremove loc=true then { s with handler := .dropping loc f }
      else { s with handler := .loop f }
  | .dropping loc f =>
      match mbxDropQueue s.queue loc with
      | (some mbx,queue) => { s with queue := queue, handler := .releasing mbx f }
      | (none,queue) => { s with queue := queue, handler := .loop f }
  | .releasing mbx f => { s with pool := dropMbx s.pool mbx, handler := .loop f }

/-- One step; a step that its thread cannot take changes nothing. -/
def txStep (s : TxSys) : TxEvent → TxSys
  | .get i =>
      match s.senders i,getMbx s.pool with
      | .idle,(some mbx,pool) => { s.setSender i (.holding mbx) with pool := pool }
      | _,_ => s
  | .add i slave =>
      match s.senders i with
      | .holding mbx =>
          match mbxAddQueue s.queue slave mbx s.messages with
          | (some ticket,queue) =>
              { s.setSender i (.waiting ticket s.messages) with
                queue := queue
                messages := s.messages+1 }
          | (none,_) => s
      | _ => s
  | .poll i =>
      match s.senders i with
      | .waiting ticket _ =>
          match mbxDoneQueue s.queue ticket with
          | (true,queue) => { s.setSender i .idle with queue := queue }
          | (false,_) => s
      | _ => s
  | .expire i =>
      match s.senders i with
      | .waiting ticket message =>
          { s.setSender i .idle with
            queue := (mbxExpireQueue s.queue ticket).2
            expired := message::s.expired }
      | _ => s
  | .giveUp i =>
      match s.senders i with
      | .holding mbx => { s.setSender i .idle with pool := dropMbx s.pool mbx }
      | _ => s
  | .call limit =>
      match s.handler with
      | .idle => { s with handler := .loop ⟨limit,0,s.queue.listcount⟩ }
      | _ => s
  | .handler preop sent => handlerStep s preop sent

/-- The message that a step starts to write to its slave. -/
def transmits (s : TxSys) : TxEvent → Option Nat
  | .handler preop _ =>
      match s.handler with
      | .loop f =>
          if f.limitcnt ≤ f.limit ∧ f.listcount≠0 ∧ preop=true ∧
              (s.queue.mbxstate s.queue.listtail=.req ∨
                s.queue.mbxstate s.queue.listtail=.fail) then
            some (s.queue.message s.queue.listtail)
          else none
      | _ => none
  | _ => none

/-- The slot lies in the ring segment of `listcount` slots from `listtail` on. -/
def MbxQueue.InSegment (q : MbxQueue) (i : Nat) : Prop :=
  ringOffset mbxPoolSize q.listtail i<q.listcount

def MbxQueue.Occupied (q : MbxQueue) (i : Nat) : Prop :=
  (∃ t,q.mbxticket t=some i) ∨ q.mbxremove i=true

/-- Who may own a mailbox. A mailbox in the slot of a slave is with the caller that last had
it. -/
inductive Owner where
  | free
  | slot (i : Nat)
  | caller (j : Nat)
  | handler
  deriving DecidableEq, Repr

def Owns (s : TxSys) (m : Nat) : Owner → Prop
  | .free => m ∈ s.pool.free
  | .slot i => i < mbxPoolSize ∧ s.queue.InSegment i ∧ s.queue.mbx i=some m
  | .caller j => s.senders j=.holding m
  | .handler => ∃ f,s.handler=.releasing m f

/-- What the queue and the pool promise in a state. -/
structure QueueLaw (s : TxSys) : Prop where
  segment : ∀ i < mbxPoolSize,s.queue.Occupied i ↔ s.queue.InSegment i
  queued : ∀ t i,s.queue.mbxticket t=some i →
    t < mbxPoolSize ∧ i < mbxPoolSize ∧ s.queue.InSegment i ∧ s.queue.mbxremove i=false
  ticket : ∀ i < mbxPoolSize,s.queue.InSegment i → s.queue.mbxremove i=false →
    ∃! t,s.queue.mbxticket t=some i
  once : s.pool.free.Nodup
  owner : ∀ m < mbxPoolSize,∃! o,Owns s m o

/-- The step indexes the arrays of the queue inside their bounds. -/
def InBounds (s : TxSys) : TxEvent → Prop
  | .add i _ => ∀ mbx,s.senders i=.holding mbx → s.queue.listcount < mbxPoolSize →
      freeTicket s.queue < mbxPoolSize ∧ s.queue.listhead < mbxPoolSize
  | .poll i => ∀ ticket message,s.senders i=.waiting ticket message →
      ∃ loc,s.queue.mbxticket ticket=some loc ∧ loc < mbxPoolSize
  | .expire i => ∀ ticket message,s.senders i=.waiting ticket message →
      ∃ loc,s.queue.mbxticket ticket=some loc ∧ loc < mbxPoolSize
  | .handler _ _ => match s.handler with
      | .loop _ => s.queue.listtail < mbxPoolSize
      | .rotating loc _ =>
          s.queue.listhead < mbxPoolSize ∧ s.queue.listtail < mbxPoolSize ∧ loc < mbxPoolSize
      | .checking loc _ => loc < mbxPoolSize
      | .dropping loc _ => loc < mbxPoolSize
      | _ => True
  | _ => True

def HandlerPc.MarkAtTail (q : MbxQueue) : HandlerPc → Prop
  | .checking loc _ => q.mbxremove loc=true → loc=q.listtail
  | _ => True

/-- The handler finds a removal mark only in a slot that is still the tail: no new entry has
taken the slot it has just rotated away and expired there. -/
def MarkAtTail (s : TxSys) : TxEvent → Prop
  | .handler _ _ => s.handler.MarkAtTail s.queue
  | _ => True

instance HandlerPc.MarkAtTail.decidable (q : MbxQueue) : ∀ pc : HandlerPc,
    Decidable (pc.MarkAtTail q)
  | .checking loc _ => inferInstanceAs (Decidable (q.mbxremove loc=true → loc=q.listtail))
  | .idle => isTrue trivial
  | .loop _ => isTrue trivial
  | .rotating _ _ => isTrue trivial
  | .dropping _ _ => isTrue trivial
  | .releasing _ _ => isTrue trivial

instance MarkAtTail.decidable (s : TxSys) : ∀ e,Decidable (MarkAtTail s e)
  | .handler _ _ => inferInstanceAs (Decidable (s.handler.MarkAtTail s.queue))
  | .get _ => isTrue trivial
  | .add _ _ => isTrue trivial
  | .poll _ => isTrue trivial
  | .expire _ => isTrue trivial
  | .giveUp _ => isTrue trivial
  | .call _ => isTrue trivial

end EtherCATMaster.Mailbox
