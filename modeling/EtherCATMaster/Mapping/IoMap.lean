import Mathlib.Logic.Function.Basic
import Mathlib.Tactic.SplitIfs

namespace EtherCATMaster.Mapping

/-- Sizes of the build: sync managers and FMMUs of a slave, groups, and the logical address space
of a group. -/
def ecMaxSm : Nat := 8
def ecMaxFmmu : Nat := 4
def ecMaxGroup : Nat := 2
def ecLogGroupOffset : Nat := 16

/-- `ECT_REG_SM1STAT` -/
def ectRegSm1Stat : UInt16 := 0x080d

/-- A pointer into the IO map, or one that was made from `NULL`. -/
inductive Pointer where
  | null (offset : Nat)
  | ioMap (offset : Nat)
  deriving DecidableEq, Repr

def Pointer.add : Pointer → Nat → Pointer
  | .null offset,n => .null (offset+n)
  | .ioMap offset,n => .ioMap (offset+n)

/-- A sync manager with its type. -/
structure Sm where
  startAddr : UInt16
  smLength : UInt16
  smType : Nat

/-- An entry of the FMMU table. -/
structure Fmmu where
  logStart : Nat
  logLength : Nat
  logStartbit : Nat
  logEndbit : Nat
  physStart : UInt16
  fmmuType : Nat
  fmmuActive : Nat
  deriving DecidableEq

def Fmmu.zero : Fmmu := ⟨0,0,0,0,0,0,0⟩

/-- A slave as the mapping sees it. -/
structure Slave where
  group : Nat
  mbxL : UInt16
  obits : UInt16
  ibits : UInt16
  obytes : Nat
  ibytes : Nat
  sm : Nat → Sm
  fmmu : Nat → Fmmu
  fmmuUnused : Nat
  outputs : Pointer
  ostartbit : Nat
  inputs : Pointer
  istartbit : Nat
  mbxstatus : Pointer
  blockLRW : Bool

/-- The lengths that `ecx_map_sm` sets: a slave with fewer than eight bits has no bytes. -/
def mapSm (s : Slave) : Slave :=
  { s with
    ibytes := if s.ibits.toNat>7 then (s.ibits.toNat+7)/8 else s.ibytes
    obytes := if s.obits.toNat>7 then (s.obits.toNat+7)/8 else s.obytes }

/-- One direction of the process data of a slave: the type of its sync managers and that of its
FMMUs, and how much there is of it. -/
structure Direction where
  smType : Nat
  fmmuType : Nat
  bits : Nat
  bytes : Nat

def Slave.outputDirection (s : Slave) : Direction := ⟨3,2,s.obits.toNat,s.obytes⟩
def Slave.inputDirection (s : Slave) : Direction := ⟨4,1,s.ibits.toNat,s.ibytes⟩

/-- `while ((SMc < (EC_MAXSM - 1)) && (SMtype[SMc] != type)) SMc++` -/
def skipSm (sm : Nat → Sm) (smType : Nat) : Nat → Nat → Nat
  | 0,smc => smc
  | n+1,smc =>
      if smc < ecMaxSm-1 ∧ (sm smc).smType≠smType then skipSm sm smType n (smc+1) else smc

/-- What the sync managers looked at add up to. -/
structure SmRun where
  smc : Nat
  byteCount : UInt16
  bitCount : Nat
  endAddr : UInt16

def SmRun.take (sm : Nat → Sm) (r : SmRun) (smc : Nat) : SmRun :=
  ⟨smc,r.byteCount+(sm smc).smLength,r.bitCount+(sm smc).smLength.toNat*8,
    (sm smc).startAddr+(sm smc).smLength⟩

/-- The sync managers that follow and whose addresses connect. The one that does not is where the
next FMMU begins. -/
def gatherSm (sm : Nat → Sm) (d : Direction) : Nat → SmRun → SmRun
  | 0,r => r
  | n+1,r =>
      if r.bitCount<d.bits ∧ r.smc < ecMaxSm-1 then
        let smc := skipSm sm d.smType ecMaxSm (r.smc+1)
        if (sm smc).startAddr>r.endAddr then { r with smc := smc }
        else gatherSm sm d n (r.take sm smc)
      else r

/-- Variables of the mapping functions. -/
structure MapRun where
  logAddr : Nat
  bitPos : Nat
  fmmuc : Nat
  fmmuDone : Nat
  sms : SmRun
  fmmu : Nat → Fmmu
  pointer : Pointer
  startbit : Nat

/-- Where the next `bits` of a bit oriented slave end: the byte and bit of the last one, and the
place behind it. -/
def bitRange (logAddr bitPos bits : Nat) : (Nat × Nat) × Nat × Nat :=
  let pos := bitPos+(bits-1)
  let last := if pos>7 then (logAddr+1,pos-8) else (logAddr,pos)
  (last,if last.2+1>7 then (last.1+1,last.2+1-8) else (last.1,last.2+1))

def Fmmu.activate (f : Fmmu) (fmmuType : Nat) : Fmmu :=
  if f.logLength≠0 then { f with fmmuType := fmmuType, fmmuActive := 1 } else f

@[simp] theorem Fmmu.activate_logLength (f : Fmmu) (fmmuType : Nat) :
    (f.activate fmmuType).logLength=f.logLength := by
  rw [Fmmu.activate]
  split_ifs <;> rfl

/-- One FMMU for the next sync managers. `logstartaddr` is that of a group other than 0. -/
def mapFmmu (sm : Nat → Sm) (d : Direction) (logstartaddr : Nat) (r : MapRun) : MapRun :=
  let first := skipSm sm d.smType ecMaxSm r.sms.smc
  let sms := gatherSm sm d ecMaxSm (r.sms.take sm first)
  let physStart := (sm first).startAddr
  let entry := r.fmmu r.fmmuc
  let mapped : Fmmu × Nat × Nat :=
    if d.bytes=0 then
      let range := bitRange r.logAddr r.bitPos d.bits
      (⟨r.logAddr,range.1.1-r.logAddr+1,r.bitPos,range.1.2,physStart,entry.fmmuType,
        entry.fmmuActive⟩,range.2)
    else
      let logAddr := if r.bitPos≠0 then r.logAddr+1 else r.logAddr
      let size := if sms.byteCount.toNat+r.fmmuDone>d.bytes then d.bytes-r.fmmuDone
        else sms.byteCount.toNat
      (⟨logAddr,size,0,7,physStart,entry.fmmuType,entry.fmmuActive⟩,logAddr+size,0)
  let f := mapped.1.activate d.fmmuType
  { logAddr := mapped.2.1
    bitPos := mapped.2.2
    fmmuc := r.fmmuc+1
    fmmuDone := r.fmmuDone+f.logLength
    sms := sms
    fmmu := Function.update r.fmmu r.fmmuc f
    pointer := if r.pointer=.null 0 then .ioMap (f.logStart-logstartaddr) else r.pointer
    startbit := if r.pointer=.null 0 then f.logStartbit else r.startbit }

/-- The loop of the mapping functions. Behind the last FMMU of the slave its table ends. -/
def mapFmmus (sm : Nat → Sm) (d : Direction) (logstartaddr : Nat) : Nat → MapRun → Option MapRun
  | n,r =>
      if r.sms.smc < ecMaxSm ∧ r.fmmuDone<(d.bits+7)/8 then
        match n with
        | 0 => none
        | n+1 =>
            if r.fmmuc < ecMaxFmmu then
              mapFmmus sm d logstartaddr n (mapFmmu sm d logstartaddr r)
            else none
      else some r

def smsStart : SmRun := ⟨0,0,0,0⟩

/-- `pIOmap + LogStart - logstartaddr` for a group, `pIOmap + LogStart` for all of them. -/
def pointerBase (group logstartaddr : Nat) : Nat := if group=0 then 0 else logstartaddr

/-- `ecx_config_create_output_mappings`: the slave, and where its outputs end. -/
def createOutputMappings (group logstartaddr : Nat) (s : Slave) (logAddr bitPos : Nat) :
    Option (Slave × Nat × Nat) := do
  let r ← mapFmmus s.sm s.outputDirection (pointerBase group logstartaddr) ecMaxFmmu
    ⟨logAddr,bitPos,s.fmmuUnused,0,smsStart,s.fmmu,s.outputs,s.ostartbit⟩
  some ({ s with
    fmmu := r.fmmu, fmmuUnused := r.fmmuc, outputs := r.pointer, ostartbit := r.startbit },
    r.logAddr,r.bitPos)

def freeFmmu (fmmu : Nat → Fmmu) : Nat → Nat → Option Nat
  | 0,_ => none
  | n+1,fmmuc =>
      if fmmuc < ecMaxFmmu then
        if (fmmu fmmuc).logStart≠0 then freeFmmu fmmu n (fmmuc+1) else some fmmuc
      else none

/-- `ecx_config_create_input_mappings` -/
def createInputMappings (group logstartaddr : Nat) (s : Slave) (logAddr bitPos : Nat) :
    Option (Slave × Nat × Nat) := do
  let fmmuc ← if s.obits≠0 then freeFmmu s.fmmu (ecMaxFmmu+1) s.fmmuUnused else some s.fmmuUnused
  let r ← mapFmmus s.sm s.inputDirection (pointerBase group logstartaddr) ecMaxFmmu
    ⟨logAddr,bitPos,fmmuc,0,smsStart,s.fmmu,s.inputs,s.istartbit⟩
  some ({ s with
    fmmu := r.fmmu, fmmuUnused := r.fmmuc, inputs := r.pointer, istartbit := r.startbit },
    r.logAddr,r.bitPos)

end EtherCATMaster.Mapping
