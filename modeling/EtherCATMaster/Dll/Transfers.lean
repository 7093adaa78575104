import EtherCATMaster.Framework.ByteStream

namespace EtherCATMaster.Dll

open Framework

/-- Return codes of the DLL. -/
def ecatOk : Int := 0
def ecatError : Int := -1
def ecatInvalidArgument : Int := -2
def ecatBusy : Int := -3
def ecatNotOpen : Int := -4
def ecatTimeout : Int := -5

/-- The object store of a slave: what each index and subindex holds. -/
abbrev Objects := UInt16 → UInt8 → List UInt8

/-- An SDO download as it reaches the slave, with the objects before it. -/
structure SdoWrite where
  slave : Int
  index : UInt16
  subindex : UInt8
  data : List UInt8
  before : Objects

/-- The part of the DLL and of the bus that SDO transfers go through. -/
structure Session where
  workerRunning : Bool
  slavecount : Nat
  objects : Int → Objects
  log : List SdoWrite

def Session.put (s : Session) (slave : Int) (index : UInt16) (subindex : UInt8)
    (data : List UInt8) : Session :=
  { s with
    objects := fun n i j =>
      if n=slave ∧ i=index ∧ j=subindex then data else s.objects n i j
    log := s.log ++ [⟨slave,index,subindex,data,s.objects slave⟩] }

/-- What a call returns, and the session after it. -/
abbrev Call := Session → Int × Session

/-- `result = return_on_error(f); if (result != 0) return result;` -/
def Call.andThen (f g : Call) : Call := fun s =>
  let r := f s
  if r.1=ecatOk then g r.2 else r

/-- `ECAT_ReadSdo` on the Windows backend. The upload fails when the object does not fit. -/
def readSdo (slave : Int) (index : UInt16) (subindex : UInt8) (capacity : Nat) (s : Session) :
    Int × List UInt8 :=
  if capacity=0 ∨ slave ≤ 0 then (ecatInvalidArgument,[])
  else if ¬s.workerRunning then (ecatNotOpen,[])
  else if slave>s.slavecount then (ecatInvalidArgument,[])
  else if (s.objects slave index subindex).length ≤ capacity then
    (ecatOk,s.objects slave index subindex)
  else (ecatError,[])

/-- `ECAT_WriteSdo` on the Windows backend. -/
def writeSdo (slave : Int) (index : UInt16) (subindex : UInt8) (data : List UInt8) : Call :=
  fun s =>
    if data=[] ∨ slave ≤ 0 then (ecatInvalidArgument,s)
    else if ¬s.workerRunning then (ecatNotOpen,s)
    else if slave>s.slavecount then (ecatInvalidArgument,s)
    else (ecatOk,s.put slave index subindex data)

/-- `read_sdo_u8`, `read_sdo_u16` and `read_sdo_i32` read an object of that many bytes. -/
def readSized (size : Nat) (slave : Int) (index : UInt16) (subindex : UInt8) (s : Session) :
    Int × List UInt8 :=
  let r := readSdo slave index subindex size s
  if r.1≠ecatOk then (r.1,[])
  else if r.2.length < size then (ecatError,[])
  else r

def readSdoU8 (slave : Int) (index : UInt16) (subindex : UInt8) (s : Session) : Int × UInt8 :=
  let r := readSized 1 slave index subindex s
  (r.1,r.2.headD 0)

def readSdoU16 (slave : Int) (index : UInt16) (subindex : UInt8) (s : Session) : Int × UInt16 :=
  let r := readSized 2 slave index subindex s
  (r.1,get16 r.2 0)

def readSdoI32 (slave : Int) (index : UInt16) (subindex : UInt8) (s : Session) : Int × Int32 :=
  let r := readSized 4 slave index subindex s
  (r.1,(get32 r.2 0).toInt32)

def writeSdoI8 (slave : Int) (index : UInt16) (subindex : UInt8) (value : Int8) : Call :=
  writeSdo slave index subindex [value.toUInt8]

def writeSdoU16 (slave : Int) (index : UInt16) (subindex : UInt8) (value : UInt16) : Call :=
  writeSdo slave index subindex (le16 value)

def writeSdoU32 (slave : Int) (index : UInt16) (subindex : UInt8) (value : UInt32) : Call :=
  writeSdo slave index subindex (le32 value)

def writeSdoI32 (slave : Int) (index : UInt16) (subindex : UInt8) (value : Int32) : Call :=
  writeSdoU32 slave index subindex value.toUInt32

/-- A slave of an open session: its transfers succeed. -/
structure Session.Has (s : Session) (slave : Int) : Prop where
  running : s.workerRunning
  positive : 0 < slave
  counted : slave ≤ s.slavecount

section Transfer

variable {s : Session} {slave : Int} {index : UInt16} {subindex : UInt8} {data : List UInt8}

theorem Session.Has.put (h : s.Has slave) : (s.put slave index subindex data).Has slave :=
  ⟨h.running,h.positive,h.counted⟩

theorem writeSdo_ok (h : s.Has slave) (hdata : data≠[]) :
    writeSdo slave index subindex data s=(ecatOk,s.put slave index subindex data) := by
  have hpositive := h.positive
  have hcounted := h.counted
  rw [writeSdo,if_neg (not_or.mpr ⟨hdata,by omega⟩),if_neg (not_not.mpr h.running),
    if_neg (by omega)]

theorem readSized_ok (h : s.Has slave) {size : Nat} (hsize : 0 < size)
    (hlen : (s.objects slave index subindex).length=size) :
    readSized size slave index subindex s=(ecatOk,s.objects slave index subindex) := by
  have hpositive := h.positive
  have hcounted := h.counted
  have hread : readSdo slave index subindex size s=(ecatOk,s.objects slave index subindex) := by
    rw [readSdo,if_neg (by omega),if_neg (not_not.mpr h.running),if_neg (by omega),
      if_pos (Nat.le_of_eq hlen)]
  rw [readSized,hread]
  simp only
  rw [if_neg (not_not.mpr rfl),if_neg (by omega)]

theorem readSized_fails (h : s.Has slave) {size : Nat} (hsize : 0 < size)
    (hlen : (s.objects slave index subindex).length≠size) :
    (readSized size slave index subindex s).1≠ecatOk := by
  have hpositive := h.positive
  have hcounted := h.counted
  by_cases hle : (s.objects slave index subindex).length ≤ size
  · have hread : readSdo slave index subindex size s=
        (ecatOk,s.objects slave index subindex) := by
      rw [readSdo,if_neg (by omega),if_neg (not_not.mpr h.running),if_neg (by omega),if_pos hle]
    rw [readSized,hread]
    simp only
    rw [if_neg (not_not.mpr rfl),if_pos (by omega)]
    decide
  · have hread : readSdo slave index subindex size s=(ecatError,[]) := by
      rw [readSdo,if_neg (by omega),if_neg (not_not.mpr h.running),if_neg (by omega),if_neg hle]
    have herror : ecatError≠ecatOk := by decide
    rw [readSized,hread]
    simp only
    rw [if_pos herror]
    exact herror

theorem Call.andThen_ok {f g : Call} {s' : Session} (h : f s=(ecatOk,s')) :
    f.andThen g s=g s' := by
  rw [Call.andThen,h]
  exact if_pos rfl

end Transfer

end EtherCATMaster.Dll
