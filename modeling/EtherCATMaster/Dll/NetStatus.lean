import EtherCATMaster.Dll.Transfers
import EtherCATMaster.Network.Framing

namespace EtherCATMaster.Dll

open Framework Network

def ecatMaxPdoCopy : Int := 256
def ecatMaxSlaveName : Nat := 41
def ecatNetMaxPdoCopy : Int := 64
def ecatNetMaxSlaves : Int := 64
def ecMaxSlave : Int := 200
def ecatNetMsgStatus : UInt16 := 3
def ecatNetMsgSdoReadReply : UInt16 := 6

/-- `sizeof(ECAT_NetStatus)`: the runtime part, and 256 bytes for each of 64 slaves. -/
def netStatusSize : UInt32 := 17224

/-- The bytes in the array `data` of a reply. -/
def sdoReplyData : Int := 256

/-- A C string of at most `size-1` characters is copied. -/
def safeCopy (size : Nat) (src : List UInt8) : List UInt8 :=
  (src.takeWhile (· ≠ 0)).take (size-1)

/-- The fields of `ECAT_SlaveInfo` that a status fills. -/
structure SlaveInfo where
  index : Int32
  name : List UInt8
  state : UInt16
  alStatus : UInt16
  vendorId : UInt32
  productCode : UInt32
  revision : UInt32
  serial : UInt32
  outputBytes : UInt32
  inputBytes : UInt32
  hasDc : Int32
  isLost : Int32
  database : Option (List UInt8 × List UInt8)

/-- `InternalSlaveSnapshot` -/
structure SlaveSnapshot where
  info : SlaveInfo
  outputs : List UInt8
  outputSize : Int
  inputs : List UInt8
  inputSize : Int

def blankSnapshot : SlaveSnapshot :=
  ⟨⟨0,[],0,0,0,0,0,0,0,0,0,0,none⟩,[],0,[],0⟩

/-- What the DLL keeps of a status: `status.slave_count` and `slaves`. -/
structure Core where
  slaveCount : Int
  slaves : Nat → SlaveSnapshot

/-- A signed field of a payload. What was not received is zero. -/
def field32 (payload : List UInt8) (offset : Nat) : Int :=
  (get32 payload offset).toInt32.toInt

/-- `runtime.slave_count` -/
def wireSlaveCount (payload : List UInt8) : Int := field32 payload 8

/-- Where the entry of slave `i` begins. -/
def slaveOffset (i : Nat) : Nat := 840+256*i

def wireOutputSize (payload : List UInt8) (i : Nat) : Int := field32 payload (slaveOffset i+120)
def wireInputSize (payload : List UInt8) (i : Nat) : Int := field32 payload (slaveOffset i+124)

/-- The first `len` bytes of an array of a payload. -/
def wireBytes (payload : List UInt8) (offset : Nat) (len : Int) : List UInt8 :=
  (List.range len.toNat).map (fun j => payload.getD (offset+j) 0)

def clampPdoCopy (len : Int) : Int :=
  let len := if len>ecatMaxPdoCopy then ecatMaxPdoCopy else len
  if len>ecatNetMaxPdoCopy then ecatNetMaxPdoCopy else len

def clampSlaveCount (count : Int) : Int :=
  let count := if count>ecatNetMaxSlaves then ecatNetMaxSlaves else count
  if count>ecMaxSlave-1 then ecMaxSlave-1 else count

/-- `db_find_match_threadsafe`: name and file of the device. -/
abbrev DbMatch := UInt32 → UInt32 → UInt32 → Option (List UInt8 × List UInt8)

/-- The entry of a slave is copied; a length that is not positive copies nothing. -/
def applySlave (db : DbMatch) (payload : List UInt8) (i : Nat) : SlaveSnapshot :=
  let base := slaveOffset i
  let outLen := clampPdoCopy (wireOutputSize payload i)
  let inLen := clampPdoCopy (wireInputSize payload i)
  { info :=
      { index := (get32 payload base).toInt32
        name := safeCopy ecatMaxSlaveName (payload.drop (base+4))
        state := get16 payload (base+68)
        alStatus := get16 payload (base+70)
        vendorId := get32 payload (base+72)
        productCode := get32 payload (base+76)
        revision := get32 payload (base+80)
        serial := get32 payload (base+84)
        outputBytes := get32 payload (base+88)
        inputBytes := get32 payload (base+92)
        hasDc := (get32 payload (base+96)).toInt32
        isLost := (get32 payload (base+100)).toInt32
        database := db (get32 payload (base+72)) (get32 payload (base+76))
          (get32 payload (base+80)) }
    outputs := wireBytes payload (base+128) outLen
    outputSize := outLen
    inputs := wireBytes payload (base+192) inLen
    inputSize := inLen }

/-- The number of entries that a status fills. -/
def filled (payload : List UInt8) : Nat := (clampSlaveCount (wireSlaveCount payload)).toNat

/-- `rt_apply_status_locked`. The count is kept as it came. -/
def rtApplyStatus (db : DbMatch) (payload : List UInt8) : Core where
  slaveCount := wireSlaveCount payload
  slaves := fun i => if i<filled payload then applySlave db payload i else blankSnapshot

/-- `rt_recv_status_locked` on an open socket. -/
def rtRecvStatus (db : DbMatch) (chop : Nat → Nat) (sock : Inlet UInt8) (core : Core) :
    Int × Core :=
  match (rtRecvMessageLocked chop sock true netStatusSize).1 with
  | none => (ecatError,core)
  | some (header,payload) =>
      if header.type≠ecatNetMsgStatus then (ecatError,core)
      else (ecatOk,rtApplyStatus db payload)

/-- `ECAT_GetSlaveInfo`: the entry it copies. -/
def getSlaveInfo (core : Core) (slave : Int) : Int × Option Nat :=
  if slave ≤ 0 ∨ slave ≥ ecMaxSlave then (ecatInvalidArgument,none)
  else if slave>core.slaveCount then (ecatInvalidArgument,none)
  else (ecatOk,some (slave-1).toNat)

/-- What a snapshot call hands to its caller: the sizes, and the lengths given to `memcpy`. -/
structure SnapshotResult where
  code : Int
  entry : Option Nat
  outputSize : Int
  inputSize : Int
  outputCopied : Option Int
  inputCopied : Option Int

/-- The length for a buffer: the smaller of size and capacity. A missing buffer is capacity 0. -/
def copyLength (size capacity : Int) : Option Int :=
  if capacity>0 then some (if size<capacity then size else capacity) else none

def getPdoSnapshot (core : Core) (slave outputCapacity inputCapacity : Int) : SnapshotResult :=
  if slave ≤ 0 ∨ slave ≥ ecMaxSlave then ⟨ecatInvalidArgument,none,0,0,none,none⟩
  else if slave>core.slaveCount then ⟨ecatInvalidArgument,none,0,0,none,none⟩
  else
    let entry := (slave-1).toNat
    let snapshot := core.slaves entry
    let outputCopied := copyLength snapshot.outputSize outputCapacity
    let inputCopied := copyLength snapshot.inputSize inputCapacity
    { code := ecatOk
      entry := some entry
      outputSize := outputCopied.getD snapshot.outputSize
      inputSize := inputCopied.getD snapshot.inputSize
      outputCopied := outputCopied
      inputCopied := inputCopied }

/-- What `rt_read_sdo` hands to its caller, and how many bytes of the reply it copies. -/
structure ReadResult where
  code : Int
  size : Option Int
  copied : Int

/-- `rt_read_sdo` with the answer it has received. The reply is not cleared before: what is not
received keeps the bytes of `stack`. -/
def rtReadSdo (stack : List UInt8) (capacity : Int) (answer : Option (NetHeader × List UInt8)) :
    ReadResult :=
  if capacity ≤ 0 then ⟨ecatInvalidArgument,none,0⟩
  else
    match answer with
    | none => ⟨ecatError,none,0⟩
    | some (header,payload) =>
        let reply := payload ++ stack.drop payload.length
        if header.type≠ecatNetMsgSdoReadReply ∨ field32 reply 0≠ecatOk then ⟨ecatError,none,0⟩
        else
          let copy := if field32 reply 4<capacity then field32 reply 4 else capacity
          ⟨ecatOk,some copy,if copy>0 then copy else 0⟩

/-- A length that may be given to `memcpy` for an array of a snapshot. -/
def CopyInRange (copied : Option Int) (capacity : Int) : Prop :=
  ∀ n,copied=some n → 0 ≤ n ∧ n ≤ capacity ∧ n ≤ ecatMaxPdoCopy

/-- What is derived from a status stays in range. -/
structure Core.InRange (core : Core) (payload : List UInt8) : Prop where
  sizes : ∀ i,i<filled payload →
    (0 ≤ (core.slaves i).outputSize ∧ (core.slaves i).outputSize ≤ ecatMaxPdoCopy) ∧
      0 ≤ (core.slaves i).inputSize ∧ (core.slaves i).inputSize ≤ ecatMaxPdoCopy
  copies : ∀ slave outputCapacity inputCapacity,0 < outputCapacity → 0 < inputCapacity →
    CopyInRange (getPdoSnapshot core slave outputCapacity inputCapacity).outputCopied
        outputCapacity ∧
      CopyInRange (getPdoSnapshot core slave outputCapacity inputCapacity).inputCopied
        inputCapacity
  infos : ∀ slave e,(getSlaveInfo core slave).2=some e → e<filled payload
  snapshots : ∀ slave outputCapacity inputCapacity e,
    (getPdoSnapshot core slave outputCapacity inputCapacity).entry=some e → e<filled payload

section Range

variable {db : DbMatch} {payload : List UInt8}

theorem clampPdoCopy_le (len : Int) : clampPdoCopy len ≤ ecatNetMaxPdoCopy := by
  rw [clampPdoCopy]
  split_ifs <;> omega

theorem clampPdoCopy_nonneg {len : Int} : 0 ≤ clampPdoCopy len ↔ 0 ≤ len := by
  have hmax : ecatMaxPdoCopy=256 := rfl
  have hnet : ecatNetMaxPdoCopy=64 := rfl
  rw [clampPdoCopy]
  split_ifs <;> omega

theorem copyLength_inRange {size capacity : Int} (h0 : 0 ≤ size) (hmax : size ≤ ecatMaxPdoCopy) :
    CopyInRange (copyLength size capacity) capacity := by
  intro n hn
  rw [copyLength] at hn
  by_cases hcap : capacity>0
  · rw [if_pos hcap] at hn
    have := Option.some.inj hn
    by_cases hlt : size<capacity
    · rw [if_pos hlt] at this
      omega
    · rw [if_neg hlt] at this
      omega
  · rw [if_neg hcap] at hn
    cases hn

theorem filled_eq (h : wireSlaveCount payload ≤ ecatNetMaxSlaves) :
    filled payload=(wireSlaveCount payload).toNat := by
  have hnet : ecatNetMaxSlaves=64 := rfl
  have hmax : ecMaxSlave=200 := rfl
  rw [filled,clampSlaveCount,if_neg (by omega),if_neg (by omega)]

theorem slaves_filled {i : Nat} (hi : i<filled payload) :
    (rtApplyStatus db payload).slaves i=applySlave db payload i := if_pos hi

theorem slaves_blank {i : Nat} (hi : ¬i<filled payload) :
    (rtApplyStatus db payload).slaves i=blankSnapshot := if_neg hi

theorem accepted_lt (h : wireSlaveCount payload ≤ ecatNetMaxSlaves) {slave : Int}
    (hrange : ¬(slave ≤ 0 ∨ slave ≥ ecMaxSlave)) (hcount : ¬slave>wireSlaveCount payload) :
    (slave-1).toNat<filled payload := by
  rw [filled_eq h]
  omega

theorem status_inRange_iff :
    (rtApplyStatus db payload).InRange payload ↔
      wireSlaveCount payload ≤ ecatNetMaxSlaves ∧
        ∀ i,i<filled payload → 0 ≤ wireOutputSize payload i ∧ 0 ≤ wireInputSize payload i := by
  have hnet : ecatNetMaxSlaves=64 := rfl
  have hmax : ecMaxSlave=200 := rfl
  constructor
  · intro h
    constructor
    · -- one entry more than there are is accepted
      by_contra hcount
      have hinfo : getSlaveInfo (rtApplyStatus db payload) 65=(ecatOk,some 64) := by
        have hover : ¬65>(rtApplyStatus db payload).slaveCount := by
          change ¬65>wireSlaveCount payload
          omega
        rw [getSlaveInfo,if_neg (by decide),if_neg hover]
        rfl
      have hclamp : clampSlaveCount (wireSlaveCount payload)=64 := by
        have hlarge : wireSlaveCount payload>ecatNetMaxSlaves := by omega
        rw [clampSlaveCount,if_pos hlarge]
        rfl
      have hlt := h.infos 65 64 (congrArg Prod.snd hinfo)
      rw [filled,hclamp] at hlt
      exact absurd hlt (by decide)
    · intro i hi
      have hsizes := h.sizes i hi
      rw [slaves_filled hi] at hsizes
      exact ⟨clampPdoCopy_nonneg.mp hsizes.1.1,clampPdoCopy_nonneg.mp hsizes.2.1⟩
  · intro ⟨hcount,hsize⟩
    have hstored : ∀ i,(0 ≤ ((rtApplyStatus db payload).slaves i).outputSize ∧
        ((rtApplyStatus db payload).slaves i).outputSize ≤ ecatMaxPdoCopy) ∧
        0 ≤ ((rtApplyStatus db payload).slaves i).inputSize ∧
        ((rtApplyStatus db payload).slaves i).inputSize ≤ ecatMaxPdoCopy := by
      intro i
      by_cases hi : i<filled payload
      · rw [slaves_filled hi]
        have hle : ecatNetMaxPdoCopy ≤ ecatMaxPdoCopy := by decide
        exact ⟨⟨clampPdoCopy_nonneg.mpr (hsize i hi).1,(clampPdoCopy_le _).trans hle⟩,
          clampPdoCopy_nonneg.mpr (hsize i hi).2,(clampPdoCopy_le _).trans hle⟩
      · rw [slaves_blank hi]
        decide
    refine ⟨fun i _ => hstored i,?_,?_,?_⟩
    · intro slave outputCapacity inputCapacity _ _
      rw [getPdoSnapshot]
      split_ifs
      · exact ⟨nofun,nofun⟩
      · exact ⟨nofun,nofun⟩
      · obtain ⟨hout,hin⟩ := hstored (slave-1).toNat
        exact ⟨copyLength_inRange hout.1 hout.2,copyLength_inRange hin.1 hin.2⟩
    · intro slave e he
      rw [getSlaveInfo] at he
      split_ifs at he with hrange hover
      rw [← Option.some.inj he]
      exact accepted_lt hcount hrange hover
    · intro slave outputCapacity inputCapacity e he
      rw [getPdoSnapshot] at he
      split_ifs at he with hrange hover
      rw [← Option.some.inj he]
      exact accepted_lt hcount hrange hover

/-- A reply that is taken. -/
def ReplyTaken (stack : List UInt8) (header : NetHeader) (payload : List UInt8) : Prop :=
  header.type=ecatNetMsgSdoReadReply ∧ field32 (payload ++ stack.drop payload.length) 0=ecatOk

theorem read_inRange_iff (stack : List UInt8) (header : NetHeader) :
    (∀ capacity,0<capacity →
        (rtReadSdo stack capacity (some (header,payload))).copied ≤ sdoReplyData) ↔
      (ReplyTaken stack header payload →
        field32 (payload ++ stack.drop payload.length) 4 ≤ sdoReplyData) := by
  have hdata : sdoReplyData=256 := rfl
  constructor
  · intro hall htaken
    by_contra hlarge
    have hcopied := hall 257 (by decide)
    rw [rtReadSdo,if_neg (by decide)] at hcopied
    simp only at hcopied
    rw [if_neg (not_or.mpr ⟨not_not.mpr htaken.1,not_not.mpr htaken.2⟩)] at hcopied
    simp only at hcopied
    split_ifs at hcopied <;> omega
  · intro hsize capacity hcap
    rw [rtReadSdo,if_neg (by omega)]
    simp only
    by_cases htaken : ReplyTaken stack header payload
    · have := hsize htaken
      rw [if_neg (not_or.mpr ⟨not_not.mpr htaken.1,not_not.mpr htaken.2⟩)]
      simp only
      split_ifs <;> omega
    · rw [if_pos (by
        rw [ReplyTaken,not_and_or] at htaken
        exact htaken)]
      decide

/-- The sizes stay in range exactly when the server counts no more slaves than a status has, sends
no negative size, and answers with no more than the data of a reply. -/
theorem sizes_in_range_iff (db : DbMatch) (status stack : List UInt8) (header : NetHeader)
    (reply : List UInt8) :
    ((rtApplyStatus db status).InRange status ↔
        wireSlaveCount status ≤ ecatNetMaxSlaves ∧
          ∀ i,i<filled status → 0 ≤ wireOutputSize status i ∧ 0 ≤ wireInputSize status i) ∧
      ((∀ capacity,0<capacity →
          (rtReadSdo stack capacity (some (header,reply))).copied ≤ sdoReplyData) ↔
        (ReplyTaken stack header reply →
          field32 (reply ++ stack.drop reply.length) 4 ≤ sdoReplyData)) :=
  ⟨status_inRange_iff,read_inRange_iff stack header⟩

def negativeStatus : List UInt8 :=
  List.replicate 8 0 ++ (le32 1 ++ (List.replicate 948 0 ++ le32 0xFFFFFFFF))

/-- It is accepted from the network, and a snapshot then copies -1 bytes. -/
theorem negative_size_copied :
    ¬∀ (db : DbMatch) (chop : Nat → Nat) (sock : Inlet UInt8) (core : Core),
      (rtRecvStatus db chop sock core).1=ecatOk →
      ∀ slave outputCapacity inputCapacity,0 < outputCapacity → 0 < inputCapacity →
        CopyInRange (getPdoSnapshot (rtRecvStatus db chop sock core).2 slave outputCapacity
          inputCapacity).outputCopied outputCapacity := by
  intro hall
  have hcopied := hall (fun _ _ _ => none) (fun _ => 1000)
    ⟨0,(NetHeader.mk netMagic netVersion ecatNetMsgStatus 964 1).bytes ++ negativeStatus⟩
    ⟨0,fun _ => blankSnapshot⟩ (by decide +kernel) 1 16 16 (by decide) (by decide) (-1)
    (by decide +kernel)
  exact absurd hcopied.1 (by decide)

end Range

end EtherCATMaster.Dll
