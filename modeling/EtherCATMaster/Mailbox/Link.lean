import EtherCATMaster.Mailbox.Pool
import EtherCATMaster.Framework.ByteStream
import EtherCATMaster.Framework.Program

namespace EtherCATMaster.Mailbox

open EtherCATMaster.Framework

/-- `EC_MAXMBX`, as the build sets it. A mailbox buffer has one byte more. -/
def ecMaxMbx : Nat := 1486

/-- `EC_TIMEOUT` -/
def ecTimeout : Int := -5

/-- Results below zero: the negated values of `ec_err_type`. -/
def errPacketError : Int := -3
def errFoeError : Int := -5
def errFoeBuf2Small : Int := -6
def errFoePacketNumber : Int := -7
def errMbxError : Int := -9
def errFoeFileNotFound : Int := -10
def errEoeInvalidRxData : Int := -11

/-- Values of `ec_mbxt`. -/
def ectMbxtErr : UInt8 := 0
def ectMbxtEoe : UInt8 := 2
def ectMbxtCoe : UInt8 := 3
def ectMbxtFoe : UInt8 := 4
def ectMbxtSoe : UInt8 := 5

/-- What the calls of `ecx_pusherror` are given. -/
inductive MbxError where
  | packet (index : UInt16) (subindex : UInt8) (code : UInt16)
  | sdo (index : UInt16) (subindex : UInt8) (abortCode : UInt32)
  | sdoInfo (index : UInt16) (subindex : UInt8) (abortCode : UInt32)
  | soe (idn code : UInt16)
  | mailbox (detail : UInt16)
  | emergency (errorCode : UInt16) (errorReg b1 : UInt8) (w1 w2 : UInt16)
  deriving DecidableEq, Repr

/-- Where a call can stop: it uses a NULL mailbox, hands a negative length to `memcpy`, divides by
zero, or has not returned in the rounds it was given. -/
inductive Halt where
  | nullPointer
  | badLength
  | divByZero
  | unfinished
  deriving DecidableEq, Repr

/-- What the record of the slave says during a call. -/
structure SlaveCfg where
  slave : UInt16
  mbxL : UInt16
  mbxRl : UInt16
  preop : Bool

/-- One read of the slave's mailbox: its working counter, the bytes it brings, and whether the EoE
hook would take them. -/
structure Attempt where
  wkc : Int
  bytes : List UInt8
  hooked : Bool

/-- One call of `ecx_mbxreceive` as the slave and the timer decide it: no mailbox is reported
before the timer expires, or one is and reads are made until it expires. -/
inductive Reading where
  | silent (wkc : Int)
  | full (first : Attempt) (rest : List Attempt)

/-- One step of another user of the pool, who names the mailboxes he has drawn by number. -/
inductive Move where
  | draw
  | fill (k : Nat) (bytes : List UInt8)
  | release (k : Nat)

/-- The slave, the line and the other users of the pool, over a state of their own. `write` is one
write of a mailbox to the slave and answers with its working counter, `empty` a call of
`ecx_mbxempty`. -/
structure Port (σ : Type) where
  write : σ → List UInt8 → Int × σ
  empty : σ → Bool × σ
  mailbox : σ → Reading × σ
  others : σ → List Move × σ

/-- The context as the mailbox services see it: the pool with its buffers, the mailboxes that
other users have drawn, the mailbox counters of the slaves, the number of the last EoE frame and the
errors that were pushed, the last one first. -/
structure Client (σ : Type) where
  pool : MbxPool
  buffers : Nat → List UInt8
  held : List Nat
  mbxCnt : UInt16 → UInt8
  txframeno : UInt8
  errors : List MbxError
  env : σ

abbrev MbxM (σ : Type) := Program Halt (Client σ)

/-- The value of one byte, and a copy of `n` bytes from an offset on. -/
def byteAt (mbx : List UInt8) (offset : Nat) : UInt8 := mbx.getD offset 0

def bytesAt (mbx : List UInt8) (offset n : Nat) : List UInt8 :=
  (mbx.drop offset++List.replicate n 0).take n

def overwrite (old bytes : List UInt8) : List UInt8 := bytes++old.drop bytes.length

variable {σ : Type}

/-- The context after start-up. -/
def Client.start (env : σ) : Client σ :=
  ⟨initMbxPool,fun _ => List.replicate (ecMaxMbx+1) 0,[],fun _ => 0,0,[],env⟩

def Client.store (c : Client σ) (m : Nat) (bytes : List UInt8) : Client σ :=
  { c with buffers := Function.update c.buffers m (overwrite (c.buffers m) bytes) }

def Client.move (c : Client σ) : Move → Client σ
  | .draw =>
      match getMbx c.pool with
      | (some m,pool) => { c with pool := pool, held := m::c.held }
      | (none,_) => c
  | .fill k bytes =>
      match c.held[k]? with
      | some m => c.store m bytes
      | none => c
  | .release k =>
      match c.held[k]? with
      | some m => { c with pool := dropMbx c.pool m, held := c.held.eraseIdx k }
      | none => c

def Client.interfere (port : Port σ) (c : Client σ) : Client σ :=
  (port.others c.env).1.foldl Client.move { c with env := (port.others c.env).2 }

variable (port : Port σ) (cfg : SlaveCfg)

def getMbxM : MbxM σ (Option Nat) := fun c =>
  let c := c.interfere port
  let got := getMbx c.pool
  .ok (got.1,{ c with pool := got.2 })

def dropMbxM (m : Nat) : MbxM σ Unit := fun c =>
  let c := c.interfere port
  .ok ((),{ c with pool := dropMbx c.pool m })

/-- `if (MbxIn) ecx_dropmbx(context, MbxIn)` -/
def dropMbxIn (mbx : Option Nat) : MbxM σ Unit :=
  match mbx with
  | some m => dropMbxM port m
  | none => pure ()

def peek (m : Nat) : MbxM σ (List UInt8) := fun c =>
  let c := c.interfere port
  .ok (c.buffers m,c)

def pushError (e : MbxError) : MbxM σ Unit := fun c => .ok ((),{ c with errors := e::c.errors })

/-- `ec_nextmbxcnt` on the counter of the slave. -/
def nextMbxCnt : MbxM σ UInt8 := fun c =>
  let cnt := if c.mbxCnt cfg.slave+1>7 then 1 else c.mbxCnt cfg.slave+1
  .ok (cnt,{ c with mbxCnt := Function.update c.mbxCnt cfg.slave cnt })

/-- `ec_clearmbx` on a mailbox of the caller. -/
def clearMbx (m : Nat) : MbxM σ Unit := fun c => .ok ((),c.store m (List.replicate ecMaxMbx 0))

def fillMbx (m : Nat) (bytes : List UInt8) : MbxM σ Unit := fun c => .ok ((),c.store m bytes)

def content (m : Nat) : MbxM σ (List UInt8) := fun c => .ok (c.buffers m,c)

def writeSlave (bytes : List UInt8) : MbxM σ Int := fun c =>
  .ok ((port.write c.env bytes).1,{ c with env := (port.write c.env bytes).2 })

def mbxEmpty : MbxM σ Bool := fun c =>
  .ok ((port.empty c.env).1,{ c with env := (port.empty c.env).2 })

def askMailbox : MbxM σ Reading := fun c =>
  .ok ((port.mailbox c.env).1,{ c with env := (port.mailbox c.env).2 })

/-- The write of a mailbox to the slave, and a second one where the first has failed and the
mailbox of the slave has come free. -/
def writeMailbox (m : Nat) : MbxM σ Int :=
  if 0 < cfg.mbxL.toNat ∧ cfg.mbxL.toNat ≤ ecMaxMbx ∧ cfg.preop=true then do
    let mbx ← content m
    let wkc ← writeSlave port (mbx.take cfg.mbxL.toNat)
    if wkc ≤ 0 then do
      let empty ← mbxEmpty port
      if empty=true then do
        let wkc ← writeSlave port (mbx.take cfg.mbxL.toNat)
        pure (max wkc 0)
      else pure (max wkc 0)
    else pure wkc
  else pure 0

/-- The direct branch of `ecx_mbxsend`: the mailbox goes back to the pool in any case. -/
def mbxSend (m : Nat) : MbxM σ Int := do
  let wkc ← writeMailbox port cfg m
  dropMbxM port m
  pure wkc

/-- What `ecx_mbxreceive` leaves with its caller: the result, and the mailbox with its contents. -/
structure Received where
  wkc : Int
  mbx : Option Nat
  data : List UInt8

def Received.none (wkc : Int) : Received := ⟨wkc,Option.none,[]⟩

/-- The mailbox type of a frame, `mbxtype & 0x0f`. -/
def mbxType (mbx : List UInt8) : UInt8 := byteAt mbx 5 &&& 0x0f

/-- The CoE service of a frame, `CANOpen >> 12`. -/
def coeService (mbx : List UInt8) : UInt16 := get16 mbx 6 >>> 12

/-- Mailboxes that `ecx_mbxreceive` deals with itself: errors, emergencies and the fragments the
EoE hook takes. -/
def handledInReceive (mbx : List UInt8) (hooked : Bool) : Bool :=
  mbxType mbx=ectMbxtErr || (mbxType mbx=ectMbxtCoe && coeService mbx=1) ||
    (mbxType mbx=ectMbxtEoe && get16 mbx 6 &&& 0xf=0 && hooked)

def reportHandled (mbx : List UInt8) : MbxM σ Unit :=
  if mbxType mbx=ectMbxtErr then pushError (.mailbox (get16 mbx 8))
  else if mbxType mbx=ectMbxtCoe then
    pushError (.emergency (get16 mbx 8) (byteAt mbx 10) (byteAt mbx 11) (get16 mbx 12)
      (get16 mbx 14))
  else pure ()

/-- One read into the mailbox at hand. Returns the working counter, the mailbox still at hand and
what goes to the caller. -/
def readAttempt (mbxin : Option Nat) (a : Attempt) : MbxM σ (Option Nat × Received) :=
  if a.wkc ≤ 0 then pure (mbxin,Received.none a.wkc)
  else
    match mbxin with
    | none => throw .nullPointer
    | some m => do
        fillMbx m (a.bytes.take cfg.mbxRl.toNat)
        let mbx ← content m
        if handledInReceive mbx a.hooked=true then do
          reportHandled mbx
          dropMbxM port m
          pure (none,Received.none 0)
        else pure (none,⟨a.wkc,some m,mbx⟩)

/-- The reads until one succeeds or the timer has expired. -/
def readLoop (mbxin : Option Nat) : List Attempt → MbxM σ Received
  | [] => pure (Received.none 0)
  | a::rest => do
      let r ← readAttempt port cfg mbxin a
      if r.2.wkc ≤ 0 ∧ rest≠[] then readLoop r.1 rest
      else do
        dropMbxIn port r.1
        pure r.2

/-- The direct branch of `ecx_mbxreceive`. -/
def mbxReceive : MbxM σ Received :=
  if 0 < cfg.mbxRl.toNat ∧ cfg.mbxRl.toNat ≤ ecMaxMbx then do
    let reading ← askMailbox port
    match reading with
    | .silent wkc => pure (Received.none (if wkc>0 then ecTimeout else wkc))
    | .full first rest => do
        let mbxin ← getMbxM port
        readLoop port cfg mbxin (first::rest)
  else pure (Received.none 0)

/-- A slave that answers each write with the same mailbox. The state says whether one waits. -/
def answering (answer : List UInt8) : Port Bool where
  write := fun _ _ => (1,true)
  empty := fun waiting => (true,waiting)
  mailbox := fun waiting => (if waiting then .full ⟨1,answer,false⟩ [] else .silent 0,false)
  others := fun waiting => ([],waiting)

/-- Slaves with mailboxes of 128 and of 20 bytes. -/
def cfg128 : SlaveCfg := ⟨1,128,128,true⟩

def cfg20 : SlaveCfg := ⟨1,20,20,true⟩

end EtherCATMaster.Mailbox
