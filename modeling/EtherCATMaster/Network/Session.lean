import EtherCATMaster.Network.Framing
import EtherCATMaster.Framework.Run

namespace EtherCATMaster.Network

open EtherCATMaster.Framework

/-- Values of `ECAT_NetMessageType` that a session uses. -/
def msgStatus : UInt16 := 3
def msgCommand : UInt16 := 4
def msgSdoRead : UInt16 := 5
def msgSdoReadReply : UInt16 := 6
def msgSdoWrite : UInt16 := 7
def msgSdoWriteReply : UInt16 := 8
def msgError : UInt16 := 100

def netStatusSize : Nat := 17224
def sdoReplySize : Nat := 264

/-- `sizeof(payload)` of `handle_client`. -/
def serverCapacity : UInt32 := 1024

/-- All fields of `ECAT_NetCommand`, in order. -/
structure WireCommand where
  command : UInt32
  slaveIndex : UInt32
  targetPosition : UInt32
  targetVelocity : UInt32
  velocity : UInt32
  acceleration : UInt32
  deceleration : UInt32
  mode : UInt32
  homingMethod : UInt32
  searchSpeed : UInt32
  latchSpeed : UInt32
  commandFlags : UInt32
  profileType : UInt32
  jerkRatioPermille : UInt32
  deriving DecidableEq, Repr

/-- The zeroed command of `rt_poll_status`. -/
def WireCommand.zero : WireCommand := ⟨0,0,0,0,0,0,0,0,0,0,0,0,0,0⟩

def WireCommand.bytes (c : WireCommand) : List UInt8 :=
  ([c.command,c.slaveIndex,c.targetPosition,c.targetVelocity,c.velocity,c.acceleration,
    c.deceleration,c.mode,c.homingMethod,c.searchSpeed,c.latchSpeed,c.commandFlags,c.profileType,
    c.jerkRatioPermille].map le32).flatten

/-- `data` in a zeroed field of `n` bytes. -/
def zeroPadded (n : Nat) (data : List UInt8) : List UInt8 := (data++List.replicate n 0).take n

/-- `ECAT_NetSdoRequest`. -/
def sdoRequestBytes (slaveIndex : UInt32) (index : UInt16) (subindex : UInt8) (size : UInt32)
    (data : List UInt8) : List UInt8 :=
  le32 slaveIndex++(le16 index++([subindex,0]++(le32 size++zeroPadded 256 data)))

/-- A call of the DLL that exchanges a message. The data of an SDO write is the bytes its pointer
and size denote. -/
inductive Call where
  | sendMotionCommand (command : WireCommand)
  | pollStatus
  | readSdo (slaveIndex : UInt32) (index : UInt16) (subindex : UInt8) (dataNull : Bool)
      (dataCapacity : Int32)
  | writeSdo (slaveIndex : UInt32) (index : UInt16) (subindex : UInt8)
      (data : Option (List UInt8))
  deriving DecidableEq, Repr

inductive Result where
  | ok
  | error
  | invalidArgument
  | notOpen
  deriving DecidableEq, Repr

/-- Type and payload of the request, unless the arguments are refused. -/
def Call.request : Call → Option (UInt16 × List UInt8)
  | .sendMotionCommand command => some (msgCommand,command.bytes)
  | .pollStatus => some (msgCommand,WireCommand.zero.bytes)
  | .readSdo slaveIndex index subindex dataNull dataCapacity =>
      if dataNull=true ∨ dataCapacity ≤ 0 then none
      else some (msgSdoRead,
        sdoRequestBytes slaveIndex index subindex dataCapacity.toUInt32 [])
  | .writeSdo _ _ _ none => none
  | .writeSdo slaveIndex index subindex (some data) =>
      if data.length=0 ∨ data.length>256 then none
      else some (msgSdoWrite,
        sdoRequestBytes slaveIndex index subindex (UInt32.ofNat data.length) data)

def Call.replyType : Call → UInt16
  | .sendMotionCommand _ => msgStatus
  | .pollStatus => msgStatus
  | .readSdo _ _ _ _ _ => msgSdoReadReply
  | .writeSdo _ _ _ _ => msgSdoWriteReply

/-- `sizeof` of the structure that receives the reply. -/
def Call.replySize : Call → Nat
  | .sendMotionCommand _ => netStatusSize
  | .pollStatus => netStatusSize
  | .readSdo _ _ _ _ _ => sdoReplySize
  | .writeSdo _ _ _ _ => sdoReplySize

def Call.isSdo : Call → Bool
  | .readSdo _ _ _ _ _ => true
  | .writeSdo _ _ _ _ => true
  | _ => false

/-- `rt_poll_status` alone closes the socket when it fails. -/
def Call.closesOnFailure : Call → Bool
  | .pollStatus => true
  | _ => false

/-- The verdict on a complete reply: its type, and the `result` field of an SDO reply. Bytes that
a short reply leaves unwritten are taken as zero. The sequence number is not looked at. -/
def Call.verdict (c : Call) (header : NetHeader) (payload : List UInt8) : Result :=
  if header.type≠c.replyType then .error
  else if c.isSdo=true ∧ get32 payload 0≠0 then .error
  else .ok

/-- A byte with the number of the request it was sent for. The code does not see the number. -/
abbrev Tagged := UInt8 × Nat

def tag (number : Nat) (bytes : List UInt8) : List Tagged := bytes.map fun b => (b,number)

def untag (bytes : List Tagged) : List UInt8 := bytes.map Prod.fst

/-- The client under `rt_lock`: idle, or in one of the two receive loops with the bytes read. -/
inductive ClientPc where
  | idle
  | header (call : Call) (number : Nat) (got : List Tagged)
  | payload (call : Call) (number : Nat) (head : List Tagged) (header : NetHeader)
      (got : List Tagged)

/-- A connection after the greeting: the two ends and the bytes under way. -/
structure Session where
  socketOpen : Bool
  rtSequence : UInt32
  requests : Nat
  client : ClientPc
  toServer : List Tagged
  serverOpen : Bool
  responseSequence : UInt32
  toClient : List Tagged

/-- A call that returned, with the bytes it took for its reply. -/
structure Completion where
  call : Call
  number : Nat
  result : Result
  used : List Tagged

/-- A call is made; the server serves a message, with what it fills the reply with; a receive
brings some bytes; a receive times out. Bytes under way may be late for any of them. -/
inductive Event where
  | call (c : Call)
  | serve (content : Nat → UInt8)
  | arrive (n : Nat)
  | timeout

def sessionInit (rtSequence : UInt32) : Session :=
  ⟨true,rtSequence,0,.idle,[],true,1,[]⟩

def frameBytes (type : UInt16) (sequence : UInt32) (payload : List UInt8) : List UInt8 :=
  NetHeader.bytes ⟨netMagic,netVersion,type,UInt32.ofNat payload.length,sequence⟩++payload

/-- A structure of `size` bytes as the server fills it. -/
def filled (content : Nat → UInt8) (size : Nat) : List UInt8 := (List.range size).map content

def unsupportedError : List UInt8 :=
  le32 0xffffffff++zeroPadded 256 "Unsupported message type.".toUTF8.toList

/-- The branch of `handle_client` for one message: type, sequence and payload of the reply, and
the response counter. -/
def serverReply (header : NetHeader) (responseSequence : UInt32) (content : Nat → UInt8) :
    UInt16 × UInt32 × List UInt8 × UInt32 :=
  if header.type=msgCommand then
    (msgStatus,responseSequence+1,filled content netStatusSize,responseSequence+1)
  else if header.type=msgSdoRead then
    (msgSdoReadReply,header.sequence,filled content sdoReplySize,responseSequence)
  else if header.type=msgSdoWrite then
    (msgSdoWriteReply,header.sequence,filled content sdoReplySize,responseSequence)
  else (msgError,header.sequence,unsupportedError,responseSequence)

/-- The stream holds a whole message, or a header that is refused: `recv_message` returns. -/
def serverReady (bytes : List UInt8) : Prop :=
  netHeaderSize ≤ bytes.length ∧
    ((NetHeader.ofBytes (bytes.take netHeaderSize)).Accepted serverCapacity →
      (NetHeader.ofBytes (bytes.take netHeaderSize)).size.toNat ≤ bytes.length-netHeaderSize)

instance (bytes : List UInt8) : Decidable (serverReady bytes) :=
  inferInstanceAs (Decidable (_ ∧ _))

/-- One round of the loop of `handle_client`, once `recv_message` returns. A message that is
refused ends the loop. -/
def serve (s : Session) (content : Nat → UInt8) : Session :=
  if s.serverOpen=true ∧ serverReady (untag s.toServer) then
    match recvMessage (fun _ => 1024) ⟨0,untag s.toServer⟩ serverCapacity with
    | (none,_) => { s with serverOpen := false }
    | (some (header,_),sock) =>
        let reply := serverReply header s.responseSequence content
        { s with
          toServer := s.toServer.drop sock.pos
          responseSequence := reply.2.2.2
          toClient := s.toClient++
            tag (s.toServer.headI.2) (frameBytes reply.1 reply.2.1 reply.2.2.1) }
  else s

def finish (s : Session) (call : Call) (number : Nat) (result : Result) (used : List Tagged) :
    Session × Option Completion :=
  ({ s with
      client := .idle
      socketOpen := s.socketOpen && (result=.ok || !call.closesOnFailure) },
    some ⟨call,number,result,used⟩)

/-- A call up to its request on the wire. -/
def beginCall (s : Session) (call : Call) : Session × Option Completion :=
  match call.request with
  | none => (s,some ⟨call,s.requests,.invalidArgument,[]⟩)
  | some (type,payload) =>
      if s.socketOpen=true then
        ({ s with
            rtSequence := s.rtSequence+1
            requests := s.requests+1
            toServer := s.toServer++tag s.requests (frameBytes type (s.rtSequence+1) payload)
            client := .header call s.requests [] },none)
      else (s,some ⟨call,s.requests,.notOpen,[]⟩)

/-- Bytes that a receive of at most `want` bytes brings. -/
def arrived (s : Session) (n want : Nat) : Nat := min (max 1 n) (min want s.toClient.length)

/-- A receive of the header returns. -/
def arriveHeader (s : Session) (n : Nat) (call : Call) (number : Nat) (got : List Tagged) :
    Session × Option Completion :=
  let k := arrived s n (netHeaderSize-got.length)
  let got := got++s.toClient.take k
  let s := { s with toClient := s.toClient.drop k }
  if got.length<netHeaderSize then ({ s with client := .header call number got },none)
  else
    let header := NetHeader.ofBytes (untag got)
    if header.Accepted (UInt32.ofNat call.replySize) then
      if header.size>0 then ({ s with client := .payload call number got header [] },none)
      else finish s call number (call.verdict header []) got
    else finish s call number .error got

/-- A receive of the payload returns. -/
def arrivePayload (s : Session) (n : Nat) (call : Call) (number : Nat) (head : List Tagged)
    (header : NetHeader) (got : List Tagged) : Session × Option Completion :=
  let k := arrived s n (header.size.toNat-got.length)
  let got := got++s.toClient.take k
  let s := { s with toClient := s.toClient.drop k }
  if got.length<header.size.toNat then
    ({ s with client := .payload call number head header got },none)
  else finish s call number (call.verdict header (untag got)) (head++got)

/-- One step of the session, and the call that returns with it. A receive waits while no byte has
come; a call waits while another holds the lock. -/
def advance (s : Session) : Event → Session × Option Completion
  | .call call =>
      match s.client with
      | .idle => beginCall s call
      | _ => (s,none)
  | .serve content => (serve s content,none)
  | .arrive n =>
      match s.client with
      | .idle => (s,none)
      | .header call number got => arriveHeader s n call number got
      | .payload call number head header got => arrivePayload s n call number head header got
  | .timeout =>
      match s.client with
      | .idle => (s,none)
      | .header call number got => finish s call number .error got
      | .payload call number head _ got => finish s call number .error (head++got)

def step (s : Session) (e : Event) : Session := (advance s e).1

def Completion.Matched (c : Completion) : Prop :=
  c.used≠[] ∧ ∀ b ∈ c.used,b.2=c.number

instance (c : Completion) : Decidable c.Matched := inferInstanceAs (Decidable (_ ∧ _))

/-- A call that returns ECAT_OK in this step used its own reply. -/
def RepliesMatched (s : Session) (e : Event) : Prop :=
  ∀ c ∈ (advance s e).2,c.result=.ok → c.Matched

instance (s : Session) (e : Event) : Decidable (RepliesMatched s e) :=
  inferInstanceAs (Decidable (∀ c ∈ (advance s e).2,_))

/-- A request goes out only when every earlier one is answered and its reply read. -/
def NothingOutstanding (s : Session) : Event → Prop
  | .call call => s.socketOpen=true → call.request≠none → s.toServer=[] ∧ s.toClient=[]
  | _ => True

instance (s : Session) : ∀ e,Decidable (NothingOutstanding s e)
  | .call _ => inferInstanceAs (Decidable (_ → _ → _))
  | .serve _ => isTrue trivial
  | .arrive _ => isTrue trivial
  | .timeout => isTrue trivial

def Own (number : Nat) (bytes : List Tagged) : Prop := ∀ b ∈ bytes,b.2=number

theorem own_tag (number : Nat) (bytes : List UInt8) : Own number (tag number bytes) := by
  intro b hb
  obtain ⟨x,-,rfl⟩ := List.mem_map.mp hb
  rfl

theorem own_append {number : Nat} {xs ys : List Tagged} :
    Own number (xs++ys) ↔ Own number xs ∧ Own number ys := by
  simp only [Own,List.forall_mem_append]

theorem own_take {number : Nat} {xs : List Tagged} (h : Own number xs) (k : Nat) :
    Own number (xs.take k) := fun b hb => h b (List.mem_of_mem_take hb)

theorem own_drop {number : Nat} {xs : List Tagged} (h : Own number xs) (k : Nat) :
    Own number (xs.drop k) := fun b hb => h b (List.mem_of_mem_drop hb)

/-- While a call waits, everything under way is for its request: the request itself, or its reply
and what is left of it. -/
def InStep (s : Session) : Prop :=
  match s.client with
  | .idle => True
  | .header _ number got => Own number got ∧ Own number s.toServer ∧ Own number s.toClient
  | .payload _ number head _ got =>
      Own number (head++got) ∧ head≠[] ∧ Own number s.toServer ∧ Own number s.toClient

theorem serve_client (s : Session) (content : Nat → UInt8) :
    (serve s content).client=s.client := by
  simp only [serve]
  split_ifs
  · split <;> rfl
  · rfl

theorem serve_own {s : Session} {number : Nat} (hs : Own number s.toServer)
    (hc : Own number s.toClient) (content : Nat → UInt8) :
    Own number (serve s content).toServer ∧ Own number (serve s content).toClient := by
  simp only [serve]
  split_ifs with hready
  · have hpos : 0 < s.toServer.length := by
      have h := hready.2.1
      simp only [untag,List.length_map,netHeaderSize] at h
      omega
    have htag : s.toServer.headI.2=number := by
      obtain ⟨b,rest,hb⟩ := List.exists_cons_of_length_pos hpos
      rw [hb]
      exact hs b (by rw [hb]; exact List.mem_cons_self ..)
    split
    · exact ⟨hs,hc⟩
    · refine ⟨own_drop hs _,own_append.mpr ⟨hc,?_⟩⟩
      rw [htag]
      exact own_tag number _
  · exact ⟨hs,hc⟩

theorem inStep_finish (s : Session) (call : Call) (number : Nat) (result : Result)
    (used : List Tagged) : InStep (finish s call number result used).1 := trivial

theorem inStep_serve {s : Session} (h : InStep s) (content : Nat → UInt8) :
    InStep (serve s content) := by
  have hcl := serve_client s content
  simp only [InStep] at h ⊢
  rw [hcl]
  cases hp : s.client with
  | idle => trivial
  | header call number got =>
    rw [hp] at h
    exact ⟨h.1,serve_own h.2.1 h.2.2 content⟩
  | payload call number head header got =>
    rw [hp] at h
    exact ⟨h.1,h.2.1,serve_own h.2.2.1 h.2.2.2 content⟩

theorem inStep_beginCall {s : Session} (call : Call)
    (hn : s.socketOpen=true → call.request≠none → s.toServer=[] ∧ s.toClient=[]) (h : InStep s) :
    InStep (beginCall s call).1 := by
  simp only [beginCall]
  split
  · exact h
  · rename_i type payload hr
    split_ifs with hopen
    · obtain ⟨hserver,hclient⟩ := hn hopen (by rw [hr]; exact fun h => by cases h)
      refine ⟨fun b hb => absurd hb List.not_mem_nil,?_,?_⟩
      · change Own s.requests (s.toServer++_)
        rw [hserver,List.nil_append]
        exact own_tag _ _
      · change Own s.requests s.toClient
        rw [hclient]
        exact fun b hb => absurd hb List.not_mem_nil
    · exact h

theorem beginCall_not_ok (s : Session) (call : Call) :
    ∀ c ∈ (beginCall s call).2,c.result≠.ok := by
  intro c hc
  simp only [beginCall] at hc
  split at hc
  · cases hc
    exact fun h => by cases h
  · split_ifs at hc
    · cases hc
    · cases hc
      exact fun h => by cases h

theorem finish_matched {s : Session} {call : Call} {number : Nat} {result : Result}
    {used : List Tagged} (hne : used≠[]) (hown : Own number used) :
    ∀ c ∈ (finish s call number result used).2,c.result=.ok → c.Matched := by
  intro c hc _
  cases hc
  exact ⟨hne,hown⟩

theorem finish_error {s : Session} {call : Call} {number : Nat} {used : List Tagged} :
    ∀ c ∈ (finish s call number .error used).2,c.result=.ok → c.Matched := by
  intro c hc hok
  cases hc
  cases hok

theorem arriveHeader_inStep {s : Session} {number : Nat} {got : List Tagged} (n : Nat) (call : Call)
    (hgot : Own number got) (hs : Own number s.toServer) (hc : Own number s.toClient) :
    InStep (arriveHeader s n call number got).1 ∧
      ∀ c ∈ (arriveHeader s n call number got).2,c.result=.ok → c.Matched := by
  have hall : Own number (got++s.toClient.take (arrived s n (netHeaderSize-got.length))) :=
    own_append.mpr ⟨hgot,own_take hc _⟩
  simp only [arriveHeader]
  split_ifs with hlt hacc hsize
  · exact ⟨⟨hall,hs,own_drop hc _⟩,fun c hc' => by cases hc'⟩
  all_goals
    have hne : got++s.toClient.take (arrived s n (netHeaderSize-got.length))≠[] := by
      intro h
      rw [h] at hlt
      exact hlt (by decide)
  · exact ⟨⟨by rw [List.append_nil]; exact hall,hne,hs,own_drop hc _⟩,fun c hc' => by cases hc'⟩
  · exact ⟨inStep_finish _ _ _ _ _,finish_matched hne hall⟩
  · exact ⟨inStep_finish _ _ _ _ _,finish_error⟩

theorem arrivePayload_inStep {s : Session} {number : Nat} {head got : List Tagged} (n : Nat)
    (call : Call) (header : NetHeader) (hown : Own number (head++got)) (hne : head≠[])
    (hs : Own number s.toServer) (hc : Own number s.toClient) :
    InStep (arrivePayload s n call number head header got).1 ∧
      ∀ c ∈ (arrivePayload s n call number head header got).2,c.result=.ok → c.Matched := by
  have hall : Own number
      (head++(got++s.toClient.take (arrived s n (header.size.toNat-got.length)))) := by
    rw [← List.append_assoc]
    exact own_append.mpr ⟨hown,own_take hc _⟩
  simp only [arrivePayload]
  split_ifs with hlt
  · exact ⟨⟨hall,hne,hs,own_drop hc _⟩,fun c hc' => by cases hc'⟩
  · exact ⟨inStep_finish _ _ _ _ _,finish_matched (by simp [hne]) hall⟩

/-- A step keeps the session in step and matches the reply of a call that returns. -/
theorem inStep_step {s : Session} {e : Event} (h : InStep s) (hn : NothingOutstanding s e) :
    InStep (step s e) ∧ RepliesMatched s e := by
  simp only [step,RepliesMatched]
  cases e with
  | call call =>
    cases hp : s.client with
    | idle =>
      simp only [advance,hp]
      refine ⟨inStep_beginCall call hn h,?_⟩
      exact fun c hc hok => absurd hok (beginCall_not_ok s call c hc)
    | header other number got =>
      simp only [advance,hp]
      exact ⟨h,fun c hc => by cases hc⟩
    | payload other number head header got =>
      simp only [advance,hp]
      exact ⟨h,fun c hc => by cases hc⟩
  | serve content => exact ⟨inStep_serve h content,fun c hc => by cases hc⟩
  | arrive n =>
    cases hp : s.client with
    | idle =>
      simp only [advance,hp]
      exact ⟨h,fun c hc => by cases hc⟩
    | header call number got =>
      simp only [InStep,hp] at h
      simp only [advance,hp]
      exact arriveHeader_inStep n call h.1 h.2.1 h.2.2
    | payload call number head header got =>
      simp only [InStep,hp] at h
      simp only [advance,hp]
      exact arrivePayload_inStep n call header h.1 h.2.1 h.2.2.1 h.2.2.2
  | timeout =>
    cases hp : s.client with
    | idle =>
      simp only [advance,hp]
      exact ⟨h,fun c hc => by cases hc⟩
    | header call number got =>
      simp only [advance,hp]
      exact ⟨inStep_finish _ _ _ _ _,finish_error⟩
    | payload call number head header got =>
      simp only [advance,hp]
      exact ⟨inStep_finish _ _ _ _ _,finish_error⟩

/-- As long as no request goes out while an earlier one is unanswered or its reply unread, every
call that returns ECAT_OK used the reply to its own request. -/
theorem replies_matched_when_settled (rtSequence : UInt32) (es : List Event)
    (hes : Along step NothingOutstanding (sessionInit rtSequence) es) :
    Along step RepliesMatched (sessionInit rtSequence) es :=
  along_of_invariant (I := InStep) (fun _ _ h hc => (inStep_step h hc).1)
    (fun _ _ h hc => (inStep_step h hc).2) trivial hes

/-- SDO reads of two objects. The first times out, and its reply comes in time for the second. -/
def lateReplyRun : List Event :=
  [.call (.readSdo 1 0x6041 0 false 4),.timeout,.call (.readSdo 1 0x6064 0 false 4),
    .serve (fun _ => 0),.arrive 16,.arrive 264]

/-- The second read returns ECAT_OK with the value of the first object. -/
theorem late_reply_taken_for_next :
    ¬∀ (rtSequence : UInt32) (es : List Event),
      Along step RepliesMatched (sessionInit rtSequence) es := by
  intro h
  exact absurd (h 1 lateReplyRun) (by decide +kernel)

/-- The same reads with the first reply in time, in pieces. -/
def timelyReplyRun : List Event :=
  [.call (.readSdo 1 0x6041 0 false 4),.serve (fun _ => 0),.arrive 3,.arrive 20,.arrive 264,
    .call (.readSdo 1 0x6064 0 false 4),.serve (fun _ => 0),.arrive 16,.arrive 264]

theorem timely_replies_matched :
    Along step NothingOutstanding (sessionInit 1) timelyReplyRun ∧
    Occurs step (fun s e => (advance s e).2.any (fun c => c.result=.ok && c.number=1)=true)
      (sessionInit 1) timelyReplyRun ∧
    Along step RepliesMatched (sessionInit 1) timelyReplyRun := by
  have hes : Along step NothingOutstanding (sessionInit 1) timelyReplyRun := by decide +kernel
  exact ⟨hes,by decide +kernel,replies_matched_when_settled 1 timelyReplyRun hes⟩

end EtherCATMaster.Network
