import EtherCATMaster.Nicdrv.Port

namespace EtherCATMaster.Nicdrv

open EtherCATMaster.Framework
open EtherCATMaster.Mapping (ecMaxBuf ecNoFrame ecBufsize ethHeadersize writeBytes readBytes)

/-- A stack, with the number of bytes that have been received of the frame in each buffer. -/
structure TrackedStack extends Stack where
  held : Nat → Nat

/-- What `ecx_inframe` does with the bytes of a frame: it copies them from behind the ethernet header
to a receive buffer, and it reads a working counter in one. The last number tells how many bytes have
been received there. -/
inductive FrameAccess where
  | copy (idx length received : Nat)
  | wkc (idx place received : Nat)
  deriving DecidableEq, Repr

/-- The access keeps to its buffers, and to what has been received. -/
def FrameAccess.InBounds : FrameAccess → Prop
  | .copy idx length received =>
      idx<ecMaxBuf ∧ ethHeadersize+length ≤ ecBufsize ∧ ethHeadersize+length ≤ received
  | .wkc idx place received => idx<ecMaxBuf ∧ place+2 ≤ ecBufsize ∧ place+2 ≤ received

/-- The length of a copy in `size_t`, which wraps for a frame that is shorter than its header. -/
def copyLength (txbuflength : Nat) : Nat :=
  if ethHeadersize ≤ txbuflength then txbuflength-ethHeadersize
  else 2^64-(ethHeadersize-txbuflength)

def wkcPlace (rxbuf : Buffer) : Nat := leWord rxbuf 0%0x1000

def TrackedStack.pick (s : TrackedStack) (idx : Nat) : (Int × Stack) × List FrameAccess :=
  ((bufferWkc (s.rxbuf idx),s.mark idx .complete),[.wkc idx (wkcPlace (s.rxbuf idx)) (s.held idx)])

/-- `ecx_inframe` with its accesses. Another thread may have changed the stack before this one gets
`rx_mutex`: `s` is the stack before, `locked` the stack behind. -/
def tracedInframe (txbuflength : Nat → Nat) (s locked : TrackedStack) (idx : Nat) :
    (Int × Stack) × List FrameAccess :=
  if idx<ecMaxBuf ∧ s.rxbufstat idx=.rcvd then s.pick idx
  else if idx<ecMaxBuf ∧ locked.rxbufstat idx=.rcvd then locked.pick idx
  else match locked.recvpkt with
    | (false,t) => ((ecNoFrame,t),[])
    | (true,t) =>
        let received := min (locked.socket.headD []).length ecBufsize
        if netWord t.tempbuf etypeOffset=ethPEcat then
          let l := leWord t.tempbuf ethHeadersize%0x1000
          let idxf := (t.tempbuf indexOffset).toNat
          if idxf=idx then
            let t := t.store txbuflength idx .complete
            ((leWord (t.rxbuf idx) l,t),
              [.copy idx (copyLength (txbuflength idx)) received,
                .wkc idx l (min (copyLength (txbuflength idx)) (received-ethHeadersize))])
          else if idxf<ecMaxBuf ∧ t.rxbufstat idxf=.tx then
            ((ecOtherFrame,t.store txbuflength idxf .rcvd),
              [.copy idxf (copyLength (txbuflength idxf)) received])
          else ((ecOtherFrame,t),[])
        else ((ecOtherFrame,t),[])

/-- Undisturbed, the traced function is `ecx_inframe`. -/
theorem tracedInframe_result (txbuflength : Nat → Nat) (s : TrackedStack) (idx : Nat) :
    (tracedInframe txbuflength s s idx).1=s.inframe txbuflength idx := by
  rw [tracedInframe,Stack.inframe]
  by_cases hrcvd : idx<ecMaxBuf ∧ s.rxbufstat idx=.rcvd
  · rw [if_pos hrcvd,if_pos hrcvd]
    rfl
  · rw [if_neg hrcvd,if_neg hrcvd,if_neg hrcvd]
    obtain ⟨got,t⟩ := s.recvpkt
    cases got with
    | false => rfl
    | true =>
      dsimp only
      split_ifs <;> rfl

def TrackedStack.StoredFits (s : TrackedStack) (idx : Nat) : Prop :=
  wkcPlace (s.rxbuf idx)+2 ≤ min ecBufsize (s.held idx)

def SentReceived (txbuflength received : Nat) : Prop :=
  ethHeadersize ≤ txbuflength ∧ txbuflength ≤ received

/-- A received frame fits what was sent for its index, and has its working counter there. -/
def TrackedStack.ReceivedFits (txbuflength : Nat → Nat) (locked : TrackedStack) (idx : Nat) : Prop :=
  let t := locked.recvpkt.2
  let received := min (locked.socket.headD []).length ecBufsize
  let l := leWord t.tempbuf ethHeadersize%0x1000
  let idxf := (t.tempbuf indexOffset).toNat
  locked.recvpkt.1=true → netWord t.tempbuf etypeOffset=ethPEcat →
    (idxf=idx → idx<ecMaxBuf ∧ SentReceived (txbuflength idx) received ∧
      ethHeadersize+l+2 ≤ txbuflength idx) ∧
    (idxf≠idx → idxf<ecMaxBuf → t.rxbufstat idxf=.tx → SentReceived (txbuflength idxf) received)

/-- The sizes fit on the way that the call takes. -/
def FrameFits (txbuflength : Nat → Nat) (s locked : TrackedStack) (idx : Nat) : Prop :=
  if idx<ecMaxBuf ∧ s.rxbufstat idx=.rcvd then s.StoredFits idx
  else if idx<ecMaxBuf ∧ locked.rxbufstat idx=.rcvd then locked.StoredFits idx
  else locked.ReceivedFits txbuflength idx

theorem pick_inBounds_iff {s : TrackedStack} {idx : Nat} (hidx : idx<ecMaxBuf) :
    (∀ a ∈ (s.pick idx).2,a.InBounds) ↔ s.StoredFits idx := by
  rw [TrackedStack.pick,List.forall_mem_singleton,FrameAccess.InBounds,TrackedStack.StoredFits]
  omega

theorem copy_inBounds_iff (idx txbuflength : Nat) {received : Nat} (hrecv : received ≤ ecBufsize) :
    (FrameAccess.copy idx (copyLength txbuflength) received).InBounds ↔
      idx<ecMaxBuf ∧ SentReceived txbuflength received := by
  rw [FrameAccess.InBounds,SentReceived,copyLength]
  have hbuf : ecBufsize=1518 := rfl
  have hheader : ethHeadersize=14 := rfl
  split_ifs <;> omega

theorem own_inBounds_iff (idx l txbuflength : Nat) {received : Nat}
    (hrecv : received ≤ ecBufsize) :
    ((FrameAccess.copy idx (copyLength txbuflength) received).InBounds ∧
      (FrameAccess.wkc idx l (min (copyLength txbuflength) (received-ethHeadersize))).InBounds) ↔
      idx<ecMaxBuf ∧ SentReceived txbuflength received ∧ ethHeadersize+l+2 ≤ txbuflength := by
  rw [copy_inBounds_iff idx txbuflength hrecv,FrameAccess.InBounds,SentReceived,copyLength]
  have hbuf : ecBufsize=1518 := rfl
  have hheader : ethHeadersize=14 := rfl
  split_ifs <;> omega

/-- Copies and reads of working counters keep to the buffers and to what has been received, if and
only if the sizes fit. -/
theorem inframe_inBounds_iff (txbuflength : Nat → Nat) (s locked : TrackedStack) (idx : Nat) :
    (∀ a ∈ (tracedInframe txbuflength s locked idx).2,a.InBounds) ↔
      FrameFits txbuflength s locked idx := by
  rw [tracedInframe,FrameFits]
  by_cases hrcvd : idx<ecMaxBuf ∧ s.rxbufstat idx=.rcvd
  · rw [if_pos hrcvd,if_pos hrcvd]
    exact pick_inBounds_iff hrcvd.1
  rw [if_neg hrcvd,if_neg hrcvd]
  by_cases hrecheck : idx<ecMaxBuf ∧ locked.rxbufstat idx=.rcvd
  · rw [if_pos hrecheck,if_pos hrecheck]
    exact pick_inBounds_iff hrecheck.1
  rw [if_neg hrecheck,if_neg hrecheck,TrackedStack.ReceivedFits]
  have hrecv : min (locked.socket.headD []).length ecBufsize ≤ ecBufsize := Nat.min_le_right _ _
  generalize min (locked.socket.headD []).length ecBufsize=received at hrecv
  obtain ⟨got,t⟩ := locked.recvpkt
  cases got with
  | false => exact iff_of_true (fun a ha => absurd ha List.not_mem_nil) (fun h => nomatch h)
  | true =>
    dsimp only
    by_cases htype : netWord t.tempbuf etypeOffset=ethPEcat
    · rw [if_pos htype]
      by_cases hown : (t.tempbuf indexOffset).toNat=idx
      · rw [if_pos hown,List.forall_mem_cons,List.forall_mem_singleton,
          own_inBounds_iff idx _ _ hrecv]
        exact ⟨fun h _ _ => ⟨fun _ => h,fun hne => absurd hown hne⟩,
          fun h => (h rfl htype).1 hown⟩
      · rw [if_neg hown]
        by_cases hwaited : (t.tempbuf indexOffset).toNat<ecMaxBuf ∧
            t.rxbufstat (t.tempbuf indexOffset).toNat=.tx
        · rw [if_pos hwaited,List.forall_mem_singleton,copy_inBounds_iff _ _ hrecv]
          exact ⟨fun h _ _ => ⟨fun heq => absurd heq hown,fun _ _ _ => h.2⟩,
            fun h => ⟨hwaited.1,(h rfl htype).2 hown hwaited.1 hwaited.2⟩⟩
        · rw [if_neg hwaited]
          exact iff_of_true (fun a ha => absurd ha List.not_mem_nil)
            (fun _ _ => ⟨fun heq => absurd heq hown,fun _ hlt htx => absurd ⟨hlt,htx⟩ hwaited⟩)
    · rw [if_neg htype]
      exact iff_of_true (fun a ha => absurd ha List.not_mem_nil) (fun _ h => absurd h htype)

def longLengthFrame : Packet :=
  List.replicate 12 0++([0x88,0xa4,0xff,0x1f,0x04,0x00]++List.replicate 42 0)

/-- A stack whose request with index 0 is on its way. -/
def waitingStack : TrackedStack where
  rxbufstat := fun idx => if idx=0 then .tx else .empty
  rxbuf := fun _ _ => 0
  rxsa := fun _ => 0
  tempbuf := fun _ => 0
  socket := [longLengthFrame]
  held := fun _ => 0

/-- The working counter is read behind the end of the buffer. -/
theorem longLengthFrame_outOfBounds :
    ¬∀ a ∈ (tracedInframe (fun _ => 60) waitingStack waitingStack 0).2,a.InBounds := by
  intro h
  have hwkc := h (.wkc 0 4095 46) (by decide)
  exact absurd hwkc.2.1 (by decide)

end EtherCATMaster.Nicdrv
