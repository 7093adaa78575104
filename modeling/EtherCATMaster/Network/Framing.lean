import EtherCATMaster.Framework.ByteStream

namespace EtherCATMaster.Network

open EtherCATMaster.Framework

def netMagic : UInt32 := 0x54414345

def netVersion : UInt16 := 1

structure NetHeader where
  magic : UInt32
  version : UInt16
  type : UInt16
  size : UInt32
  sequence : UInt32
  deriving DecidableEq, Repr

/-- `sizeof(ECAT_NetHeader)`: the fields leave no padding. -/
def netHeaderSize : Nat := 16

/-- The header in memory, on the little endian machines of both sides. -/
def NetHeader.bytes (h : NetHeader) : List UInt8 :=
  le32 h.magic++(le16 h.version++(le16 h.type++(le32 h.size++le32 h.sequence)))

def NetHeader.ofBytes (bytes : List UInt8) : NetHeader :=
  ⟨get32 bytes 0,get16 bytes 4,get16 bytes 6,get32 bytes 8,get32 bytes 12⟩

@[simp] theorem NetHeader.bytes_length (h : NetHeader) : h.bytes.length=netHeaderSize := by
  simp [NetHeader.bytes,netHeaderSize]

theorem NetHeader.ofBytes_bytes (h : NetHeader) : NetHeader.ofBytes h.bytes=h := by
  have hmagic : get32 h.bytes 0=h.magic := get32_le32 [] h.magic _
  have hversion : get16 h.bytes 4=h.version := by
    have := get16_le16 (le32 h.magic) h.version (le16 h.type++(le32 h.size++le32 h.sequence))
    simpa [NetHeader.bytes] using this
  have htype : get16 h.bytes 6=h.type := by
    have := get16_le16 (le32 h.magic++le16 h.version) h.type (le32 h.size++le32 h.sequence)
    simpa [NetHeader.bytes] using this
  have hsize : get32 h.bytes 8=h.size := by
    have := get32_le32 (le32 h.magic++(le16 h.version++le16 h.type)) h.size (le32 h.sequence)
    simpa [NetHeader.bytes] using this
  have hsequence : get32 h.bytes 12=h.sequence := by
    have := get32_le32 (le32 h.magic++(le16 h.version++(le16 h.type++le32 h.size))) h.sequence []
    simpa [NetHeader.bytes] using this
  simp only [NetHeader.ofBytes,hmagic,hversion,htype,hsize,hsequence]

/-- What both receivers test before they read a payload. -/
def NetHeader.Accepted (h : NetHeader) (capacity : UInt32) : Prop :=
  h.magic=netMagic ∧ h.version=netVersion ∧ h.size ≤ capacity

instance (h : NetHeader) (capacity : UInt32) : Decidable (h.Accepted capacity) :=
  inferInstanceAs (Decidable (_ ∧ _))

/-- A send or recv of the server: the length is a `size_t`. The other end and the network take or
bring at most `chop pos` bytes at this point of the stream, and at least one. -/
def socketPiece (chop : Nat → Nat) (pos _want : Nat) : Nat := max 1 (chop pos)

/-- `(int)` of a length, as the sockets of the DLL take it. -/
def intLength (want : Nat) : Int := (BitVec.ofNat 32 want).toInt

def rtSocketPiece (chop : Nat → Nat) (pos want : Nat) : Nat :=
  if intLength want ≤ 0 then 0 else max 1 (chop pos)

theorem socketPiece_hands (chop : Nat → Nat) (size : Nat) : Hands (socketPiece chop) size := by
  intro pos want _ _
  exact Nat.lt_of_lt_of_le Nat.one_pos (Nat.le_max_left _ _)

theorem rtSocketPiece_hands (chop : Nat → Nat) (size : Nat) (h : size<2^31) :
    Hands (rtSocketPiece chop) size := by
  intro pos want hpos hle
  have hi : intLength want=want := by
    simp only [intLength]
    rw [BitVec.toInt_eq_toNat_bmod,BitVec.toNat_ofNat,Nat.mod_eq_of_lt (by omega)]
    exact Int.bmod_eq_of_le (by omega) (by omega)
  rw [rtSocketPiece,if_neg (by rw [hi]; omega)]
  exact Nat.lt_of_lt_of_le Nat.one_pos (Nat.le_max_left _ _)

/-- The socket that a sender writes to, as the bytes written so far, and the environment. -/
def sendAll (chop : Nat → Nat) (out data : List UInt8) : Option (List UInt8) :=
  scatter (socketPiece chop) data data.length 0 out

def rtSendAll (chop : Nat → Nat) (out data : List UInt8) : Option (List UInt8) :=
  scatter (rtSocketPiece chop) data data.length 0 out

def recvAll (chop : Nat → Nat) (sock : Inlet UInt8) (size : Nat) :
    Option (List UInt8) × Inlet UInt8 :=
  gather (socketPiece chop) size size [] sock

def rtRecvAll (chop : Nat → Nat) (sock : Inlet UInt8) (size : Nat) :
    Option (List UInt8) × Inlet UInt8 :=
  gather (rtSocketPiece chop) size size [] sock

/-- A payload argument: a null pointer, or a pointer to `size` bytes. -/
structure Payload where
  pointer : Option (List UInt8)
  size : UInt32
  sized : ∀ bytes,pointer=some bytes → bytes.length=size.toNat

/-- Both senders: a header, then the payload if there is one. -/
def sendMessageWith (send : List UInt8 → List UInt8 → Option (List UInt8)) (out : List UInt8)
    (type : UInt16) (sequence : UInt32) (payload : Payload) : Option (List UInt8) :=
  let header : NetHeader := ⟨netMagic,netVersion,type,payload.size,sequence⟩
  match send out header.bytes with
  | none => none
  | some out =>
      match payload.pointer with
      | some bytes => if payload.size>0 then send out bytes else some out
      | none => some out

def sendMessage (chop : Nat → Nat) (out : List UInt8) (type : UInt16) (sequence : UInt32)
    (payload : Payload) : Option (List UInt8) :=
  sendMessageWith (sendAll chop) out type sequence payload

/-- The sender of the DLL numbers its messages itself. Returns the counter and the bytes. -/
def rtSendMessageLocked (chop : Nat → Nat) (rtSequence : UInt32) (out : List UInt8)
    (type : UInt16) (payload : Payload) : UInt32 × Option (List UInt8) :=
  (rtSequence+1,sendMessageWith (rtSendAll chop) out type (rtSequence+1) payload)

/-- Both receivers: a header, its tests, then the payload. `filled` tells whether the payload
buffer is filled. -/
def recvMessageWith (recv : Inlet UInt8 → Nat → Option (List UInt8) × Inlet UInt8)
    (sock : Inlet UInt8) (filled : Bool) (capacity : UInt32) :
    Option (NetHeader × List UInt8) × Inlet UInt8 :=
  match recv sock netHeaderSize with
  | (none,sock) => (none,sock)
  | (some bytes,sock) =>
      let header := NetHeader.ofBytes bytes
      if header.Accepted capacity then
        if header.size>0 ∧ filled=true then
          match recv sock header.size.toNat with
          | (none,sock) => (none,sock)
          | (some payload,sock) => (some (header,payload),sock)
        else (some (header,[]),sock)
      else (none,sock)

def recvMessage (chop : Nat → Nat) (sock : Inlet UInt8) (capacity : UInt32) :
    Option (NetHeader × List UInt8) × Inlet UInt8 :=
  recvMessageWith (recvAll chop) sock true capacity

/-- The receiver of the DLL on an open socket; `filled` is a payload pointer that is not null. -/
def rtRecvMessageLocked (chop : Nat → Nat) (sock : Inlet UInt8) (filled : Bool)
    (capacity : UInt32) : Option (NetHeader × List UInt8) × Inlet UInt8 :=
  recvMessageWith (rtRecvAll chop) sock filled capacity

theorem sendAll_eq (chop : Nat → Nat) (out data : List UInt8) :
    sendAll chop out data=some (out++data) :=
  scatter_eq (socketPiece_hands chop _) data.length 0 out (Nat.le_refl _)

theorem rtSendAll_eq (chop : Nat → Nat) (out data : List UInt8) (h : data.length<2^31) :
    rtSendAll chop out data=some (out++data) :=
  scatter_eq (rtSocketPiece_hands chop _ h) data.length 0 out (Nat.le_refl _)

/-- A receive loop on this size: it takes the next bytes of any stream that holds them. -/
def Receives (recv : Inlet UInt8 → Nat → Option (List UInt8) × Inlet UInt8) (size : Nat) : Prop :=
  ∀ (pos : Nat) (data rest : List UInt8),data.length=size →
    recv ⟨pos,data++rest⟩ size=(some data,⟨pos+size,rest⟩)

theorem receives_of_hands {piece : Nat → Nat → Nat} {size : Nat} (h : Hands piece size) :
    Receives (fun sock size => gather piece size size [] sock) size := by
  intro pos data rest hlen
  have hg := gather_eq h size [] ⟨pos,data++rest⟩ (Nat.le_refl _) (Nat.zero_le _)
    (by simp only [List.length_nil,List.length_append]; omega)
  refine hg.trans ?_
  simp only [List.length_nil,Nat.sub_zero,List.nil_append,Prod.mk.injEq,Option.some.injEq,
    Inlet.mk.injEq,true_and]
  exact ⟨List.take_left' hlen,List.drop_left' hlen⟩

theorem recvAll_receives (chop : Nat → Nat) (size : Nat) : Receives (recvAll chop) size :=
  receives_of_hands (socketPiece_hands chop size)

theorem rtRecvAll_receives (chop : Nat → Nat) (size : Nat) (h : size<2^31) :
    Receives (rtRecvAll chop) size :=
  receives_of_hands (rtSocketPiece_hands chop size h)

/-- A message as the sender of the server is called: a null payload has no size. -/
structure NetMessage where
  type : UInt16
  sequence : UInt32
  payload : Payload
  given : payload.pointer=none → payload.size=0

def NetMessage.data (m : NetMessage) : List UInt8 := m.payload.pointer.getD []

def NetMessage.header (m : NetMessage) : NetHeader :=
  ⟨netMagic,netVersion,m.type,m.payload.size,m.sequence⟩

/-- The message on the wire. -/
def NetMessage.frame (m : NetMessage) : List UInt8 := m.header.bytes++m.data

theorem NetMessage.data_length (m : NetMessage) : m.data.length=m.payload.size.toNat := by
  cases hp : m.payload.pointer with
  | none =>
    rw [NetMessage.data,hp,m.given hp]
    rfl
  | some bytes =>
    rw [NetMessage.data,hp]
    exact m.payload.sized bytes hp

theorem sendMessageWith_eq {send : List UInt8 → List UInt8 → Option (List UInt8)}
    (m : NetMessage) (hheader : ∀ out,send out m.header.bytes=some (out++m.header.bytes))
    (hdata : ∀ out,send out m.data=some (out++m.data)) (out : List UInt8) :
    sendMessageWith send out m.type m.sequence m.payload=some (out++m.frame) := by
  have hlen := m.data_length
  have hh := hheader out
  simp only [NetMessage.header] at hh
  simp only [sendMessageWith,hh,NetMessage.frame]
  cases hp : m.payload.pointer with
  | none =>
    have hd : m.data=[] := by rw [NetMessage.data,hp]; rfl
    simp only [hd,List.append_nil]
    rfl
  | some bytes =>
    have hd : m.data=bytes := by rw [NetMessage.data,hp]; rfl
    by_cases hs : m.payload.size>0
    · have h2 := hdata (out++m.header.bytes)
      rw [hd] at h2
      simp only [if_pos hs]
      rw [hd,← List.append_assoc]
      exact h2
    · have hz : bytes=[] := by
        rw [← List.length_eq_zero_iff,← hd,hlen]
        have : ¬0 < m.payload.size.toNat := hs
        omega
      simp only [if_neg hs]
      rw [hd,hz,List.append_nil]
      rfl

theorem sendMessage_eq (chop : Nat → Nat) (m : NetMessage) (out : List UInt8) :
    sendMessage chop out m.type m.sequence m.payload=some (out++m.frame) :=
  sendMessageWith_eq m (fun _ => sendAll_eq chop _ _) (fun _ => sendAll_eq chop _ _) out

theorem rtSendMessageLocked_eq (chop : Nat → Nat) (m : NetMessage) (out : List UInt8)
    (h : m.payload.size.toNat<2^31) (rtSequence : UInt32) (hseq : m.sequence=rtSequence+1) :
    rtSendMessageLocked chop rtSequence out m.type m.payload=
      (rtSequence+1,some (out++m.frame)) := by
  rw [rtSendMessageLocked,← hseq]
  refine congrArg (Prod.mk _) (sendMessageWith_eq m ?_ ?_ out)
  · exact fun _ => rtSendAll_eq chop _ _ (by rw [NetHeader.bytes_length]; decide)
  · exact fun _ => rtSendAll_eq chop _ _ (by rw [m.data_length]; exact h)

theorem recvMessageWith_frame {recv : Inlet UInt8 → Nat → Option (List UInt8) × Inlet UInt8}
    (m : NetMessage) {capacity : UInt32} (hcap : m.payload.size ≤ capacity)
    (hheader : Receives recv netHeaderSize) (hdata : Receives recv m.payload.size.toNat)
    (pos : Nat) (rest : List UInt8) :
    recvMessageWith recv ⟨pos,m.frame++rest⟩ true capacity=
      (some (m.header,m.data),⟨pos+m.frame.length,rest⟩) := by
  have hlen := m.data_length
  have h1 := hheader pos m.header.bytes (m.data++rest) m.header.bytes_length
  have hacc : m.header.Accepted capacity := ⟨rfl,rfl,hcap⟩
  rw [NetMessage.frame,List.append_assoc]
  simp only [recvMessageWith,h1,NetHeader.ofBytes_bytes,if_pos hacc]
  by_cases hs : m.header.size>0
  · have h2 := hdata (pos+netHeaderSize) m.data rest hlen
    have h2' : recv ⟨pos+netHeaderSize,m.data++rest⟩ m.header.size.toNat=
      (some m.data,⟨pos+netHeaderSize+m.payload.size.toNat,rest⟩) := h2
    simp only [if_pos (And.intro hs trivial),h2',List.length_append,NetHeader.bytes_length,hlen,
      Nat.add_assoc]
  · have hz : m.data=[] := by
      rw [← List.length_eq_zero_iff,hlen]
      have : ¬0 < m.payload.size.toNat := hs
      omega
    have hn : ¬(m.header.size>0 ∧ True) := fun h => hs h.1
    simp only [hz,List.append_nil,List.nil_append,NetHeader.bytes_length]
    exact if_neg hn

theorem recvMessageWith_refused {recv : Inlet UInt8 → Nat → Option (List UInt8) × Inlet UInt8}
    (h : NetHeader) {capacity : UInt32} (hbad : ¬h.Accepted capacity)
    (hheader : Receives recv netHeaderSize) (pos : Nat) (filled : Bool) (rest : List UInt8) :
    recvMessageWith recv ⟨pos,h.bytes++rest⟩ filled capacity=
      (none,⟨pos+netHeaderSize,rest⟩) := by
  have h1 := hheader pos h.bytes rest h.bytes_length
  simp only [recvMessageWith,h1,NetHeader.ofBytes_bytes,if_neg hbad]

/-- `send_message` for each message of a list. -/
def sendMessages (chop : Nat → Nat) : List NetMessage → List UInt8 → Option (List UInt8)
  | [],out => some out
  | m::ms,out =>
      match sendMessage chop out m.type m.sequence m.payload with
      | none => none
      | some out => sendMessages chop ms out

/-- A receiver called again and again. -/
def recvMessages (recv : Inlet UInt8 → Option (NetHeader × List UInt8) × Inlet UInt8) :
    Nat → Inlet UInt8 → Option (List (NetHeader × List UInt8)) × Inlet UInt8
  | 0,sock => (some [],sock)
  | n+1,sock =>
      match recv sock with
      | (none,sock) => (none,sock)
      | (some message,sock) =>
          match recvMessages recv n sock with
          | (none,sock) => (none,sock)
          | (some messages,sock) => (some (message::messages),sock)

/-- What goes over the wire for a list of messages. -/
def frames (ms : List NetMessage) : List UInt8 := (ms.map NetMessage.frame).flatten

theorem sendMessages_eq (chop : Nat → Nat) (ms : List NetMessage) (out : List UInt8) :
    sendMessages chop ms out=some (out++frames ms) := by
  induction ms generalizing out with
  | nil => simp [sendMessages,frames]
  | cons m ms ih =>
    simp only [sendMessages,sendMessage_eq,ih]
    simp [frames]

theorem recvMessages_frames
    (recv : Inlet UInt8 → Option (NetHeader × List UInt8) × Inlet UInt8) (ms : List NetMessage)
    (hrecv : ∀ m ∈ ms,∀ (pos : Nat) (rest : List UInt8),
      recv ⟨pos,m.frame++rest⟩=(some (m.header,m.data),⟨pos+m.frame.length,rest⟩))
    (pos : Nat) (rest : List UInt8) :
    recvMessages recv ms.length ⟨pos,frames ms++rest⟩=
      (some (ms.map fun m => (m.header,m.data)),⟨pos+(frames ms).length,rest⟩) := by
  induction ms generalizing pos with
  | nil => simp [recvMessages,frames]
  | cons m ms ih =>
    have hsplit : frames (m::ms)++rest=m.frame++(frames ms++rest) := by simp [frames]
    have hlen : (frames (m::ms)).length=m.frame.length+(frames ms).length := by simp [frames]
    have h1 := hrecv m (List.mem_cons_self ..) pos (frames ms++rest)
    have h2 := ih (fun x hx => hrecv x (List.mem_cons_of_mem _ hx)) (pos+m.frame.length)
    simp only [List.length_cons,recvMessages,hsplit,h1,h2,List.map_cons,hlen,Nat.add_assoc]

theorem payload_length_lt {m : NetMessage} {capacity : UInt32} (h : m.payload.size ≤ capacity)
    (hcap : capacity.toNat<2^31) : m.payload.size.toNat<2^31 :=
  Nat.lt_of_le_of_lt (UInt32.le_iff_toNat_le.mp h) hcap

/-- Whatever `send_message` is given arrives as it was sent, however both ends chop the stream,
at the receiver of the server and at that of the DLL; a header that is not accepted is refused
with everything after it still unread; and the sender of the DLL puts the same bytes on the wire
as `send_message` does. The DLL passes lengths as `int`; its callers hand over structures of a
fixed size far below the range. -/
theorem messages_round_trip (capacity : UInt32) (chopSend chopRecv : Nat → Nat) :
    (∀ (ms : List NetMessage),(∀ m ∈ ms,m.payload.size ≤ capacity) →
      ∃ wire,sendMessages chopSend ms []=some wire ∧
        recvMessages (fun sock => recvMessage chopRecv sock capacity) ms.length ⟨0,wire⟩=
          (some (ms.map fun m => (m.header,m.data)),⟨wire.length,[]⟩) ∧
        (capacity.toNat<2^31 →
          recvMessages (fun sock => rtRecvMessageLocked chopRecv sock true capacity) ms.length
            ⟨0,wire⟩=(some (ms.map fun m => (m.header,m.data)),⟨wire.length,[]⟩))) ∧
    (∀ (h : NetHeader) (pos : Nat) (rest : List UInt8),¬h.Accepted capacity →
      recvMessage chopRecv ⟨pos,h.bytes++rest⟩ capacity=(none,⟨pos+netHeaderSize,rest⟩) ∧
      ∀ filled,rtRecvMessageLocked chopRecv ⟨pos,h.bytes++rest⟩ filled capacity=
        (none,⟨pos+netHeaderSize,rest⟩)) ∧
    (∀ (m : NetMessage) (out : List UInt8) (rtSequence : UInt32),
      m.payload.size.toNat<2^31 → m.sequence=rtSequence+1 →
      rtSendMessageLocked chopSend rtSequence out m.type m.payload=
        (rtSequence+1,sendMessage chopSend out m.type m.sequence m.payload)) := by
  refine ⟨fun ms hms => ⟨frames ms,?_,?_,fun hcap => ?_⟩,fun h pos rest hbad => ⟨?_,?_⟩,?_⟩
  · simpa using sendMessages_eq chopSend ms []
  · have hr := recvMessages_frames (fun sock => recvMessage chopRecv sock capacity) ms
      (fun m hm pos rest => recvMessageWith_frame m (hms m hm) (recvAll_receives chopRecv _)
        (recvAll_receives chopRecv _) pos rest) 0 []
    simpa using hr
  · have hr := recvMessages_frames
      (fun sock => rtRecvMessageLocked chopRecv sock true capacity) ms
      (fun m hm pos rest => recvMessageWith_frame m (hms m hm)
        (rtRecvAll_receives chopRecv _ (by decide))
        (rtRecvAll_receives chopRecv _ (payload_length_lt (hms m hm) hcap)) pos rest) 0 []
    simpa using hr
  · exact recvMessageWith_refused h hbad (recvAll_receives chopRecv _) pos true rest
  · intro filled
    exact recvMessageWith_refused h hbad (rtRecvAll_receives chopRecv _ (by decide)) pos filled rest
  · intro m out rtSequence hsize hseq
    rw [rtSendMessageLocked_eq chopSend m out hsize rtSequence hseq,sendMessage_eq]

/-- A command of four bytes and a message without payload. -/
def sampleMessages : List NetMessage :=
  [⟨4,1,⟨some [1,2,3,4],4,fun _ h => by cases h; rfl⟩,fun h => by cases h⟩,
    ⟨3,2,⟨none,0,fun _ h => by cases h⟩,fun _ => rfl⟩]

theorem sample_messages_arrive :
    ∃ wire,sendMessages (fun _ => 3) sampleMessages []=some wire ∧
      recvMessages (fun sock => recvMessage (fun pos => pos%5) sock 1024) 2 ⟨0,wire⟩=
        (some [(⟨netMagic,netVersion,4,4,1⟩,[1,2,3,4]),(⟨netMagic,netVersion,3,0,2⟩,[])],
          ⟨wire.length,[]⟩) ∧
      recvMessages (fun sock => rtRecvMessageLocked (fun pos => pos%5) sock true 1024) 2 ⟨0,wire⟩=
        (some [(⟨netMagic,netVersion,4,4,1⟩,[1,2,3,4]),(⟨netMagic,netVersion,3,0,2⟩,[])],
          ⟨wire.length,[]⟩) ∧
      recvMessage (fun pos => pos%5) ⟨0,NetHeader.bytes ⟨netMagic,2,4,4,1⟩++[1,2,3,4]⟩ 1024=
        (none,⟨16,[1,2,3,4]⟩) := by
  obtain ⟨hlist,hbad,-⟩ := messages_round_trip 1024 (fun _ => 3) (fun pos => pos%5)
  obtain ⟨wire,hsend,hserver,hdll⟩ := hlist sampleMessages (by
    intro m hm
    simp only [sampleMessages,List.mem_cons,List.not_mem_nil,or_false] at hm
    rcases hm with rfl|rfl <;> decide)
  exact ⟨wire,hsend,hserver,hdll (by decide),
    (hbad ⟨netMagic,2,4,4,1⟩ 0 [1,2,3,4] (by decide)).1⟩

end EtherCATMaster.Network
