import EtherCATMaster.Mapping.IoMap

namespace EtherCATMaster.Mapping

def ecMaxLrwData : Nat := 1486
def ecFirstDcDatagram : Nat := 20
def ecMaxIoSegments : Nat := 64

/-- The process data of a group, cut into datagrams: the entries of `IOsegment` that are closed,
the size of the open one and what it may hold. -/
structure Segmenting where
  iosegment : List Nat
  segmentsize : Nat
  segmentmaxsize : Nat
  deriving DecidableEq, Repr

def Segmenting.start : Segmenting := ⟨[],0,ecMaxLrwData-ecFirstDcDatagram⟩

/-- The open segment is closed in front of data that goes into a datagram but not into this one. -/
def Segmenting.make (g : Segmenting) (diff : Nat) : Segmenting :=
  if g.segmentsize+diff>g.segmentmaxsize ∧ diff ≤ g.segmentmaxsize ∧
      g.iosegment.length < ecMaxIoSegments then
    ⟨g.iosegment++[g.segmentsize],diff,ecMaxLrwData⟩
  else { g with segmentsize := g.segmentsize+diff }

def Segmenting.full (g : Segmenting) : Segmenting :=
  ⟨g.iosegment++[g.segmentmaxsize],g.segmentsize-g.segmentmaxsize,ecMaxLrwData⟩

def Segmenting.spill (g : Segmenting) : Nat → Nat × Segmenting
  | 0 => (0,g)
  | n+1 =>
      if g.segmentsize>g.segmentmaxsize then
        let r := g.full.spill n
        (r.1+1,r.2)
      else (0,g)

def Segmenting.extend (g : Segmenting) (diff : Nat) : Nat × Segmenting :=
  let g := g.make diff
  let r := g.spill (ecMaxIoSegments-g.iosegment.length)
  (if r.2.segmentsize≠0 ∧ diff≠0 then r.1+1 else r.1,r.2)

def Segmenting.pad (g : Segmenting) : Nat × Segmenting :=
  if g.segmentsize+1>g.segmentmaxsize ∧ g.iosegment.length < ecMaxIoSegments then
    (1,⟨g.iosegment++[g.segmentsize],1,ecMaxLrwData⟩)
  else (0,{ g with segmentsize := g.segmentsize+1 })

/-- In overlapped mode the datagrams are counted by what there is of outputs and inputs. -/
def Segmenting.spillOverlap (g : Segmenting) (soLength siLength : Int) :
    Nat → (Nat × Nat) × (Int × Int) × Segmenting
  | 0 => ((0,0),(soLength,siLength),g)
  | n+1 =>
      if g.segmentsize>g.segmentmaxsize then
        let r := g.full.spillOverlap (soLength-g.segmentmaxsize) (siLength-g.segmentmaxsize) n
        ((r.1.1+(if soLength>0 then 1 else 0),r.1.2+(if siLength>0 then 1 else 0)),r.2)
      else ((0,0),(soLength,siLength),g)

def Segmenting.extendOverlap (g : Segmenting) (diff : Nat) (soLength siLength : Int) :
    (Nat × Nat) × Segmenting :=
  let g := g.make diff
  let r := g.spillOverlap soLength siLength (ecMaxIoSegments-g.iosegment.length)
  if r.2.2.segmentsize≠0 ∧ diff≠0 then
    ((r.1.1+(if r.2.1.1>0 then 1 else 0),r.1.2+(if r.2.1.2>0 then 1 else 0)),r.2.2)
  else (r.1,r.2.2)

/-- A mailbox status byte. In the last segment there is no more room for it. -/
def Segmenting.status (g : Segmenting) (diff : Nat) : Segmenting :=
  if g.segmentsize+diff>ecMaxLrwData-ecFirstDcDatagram then
    if g.iosegment.length < ecMaxIoSegments-1 then
      { g with iosegment := g.iosegment++[g.segmentsize], segmentsize := diff }
    else g
  else { g with segmentsize := g.segmentsize+diff }

/-- An entry of `grouplist`. The entries of `IOsegment` are those that count. -/
structure Group where
  logstartaddr : Nat
  obytes : Nat
  outputs : Pointer
  ibytes : Nat
  inputs : Pointer
  hasdc : Bool
  blockLRW : Nat
  nsegments : Nat
  isegment : Nat
  ioffset : Nat
  outputsWKC : Nat
  inputsWKC : Nat
  iosegment : List Nat
  mbxstatus : Pointer
  mbxstatuslength : Nat
  mbxstatuslookup : List Nat

/-- The record of the master in `slavelist`. -/
structure MasterRecord where
  outputs : Pointer
  obytes : Nat
  inputs : Pointer
  ibytes : Nat
  mbxstatus : Pointer

/-- What the mapping works on: the slaves from number 1 on, the group to map, and the record of the
master. -/
structure Context where
  slavelist : List Slave
  group : Group
  master : MasterRecord
  packedMode : Bool
  overlappedMode : Bool

/-- `!group || (group == slavelist[slave].group)` -/
def inGroup (group : Nat) (s : Slave) : Prop := group=0 ∨ group=s.group

instance inGroup.decidable (group : Nat) (s : Slave) : Decidable (inGroup group s) :=
  inferInstanceAs (Decidable (_ ∨ _))

/-- `ecx_config_find_mappings` on slaves whose mappings have been read. -/
def findMappings (group : Nat) (slaves : List Slave) : List Slave :=
  slaves.map (fun s => if inGroup group s then mapSm s else s)

/-- Variables of `ecx_main_config_map_group`, with the working counter of one direction. -/
structure Layout where
  logAddr : Nat
  oLogAddr : Nat
  bitPos : Nat
  seg : Segmenting
  wkc : Nat

def alignByte (packed : Bool) (logAddr bitPos : Nat) : Nat × Nat :=
  if packed=false ∧ bitPos≠0 then (logAddr+1,0) else (logAddr,bitPos)

def Layout.place (packed : Bool) (l : Layout) (logAddr bitPos : Nat) : Layout :=
  let stop := alignByte packed logAddr bitPos
  let r := l.seg.extend (stop.1-l.oLogAddr)
  ⟨stop.1,stop.1,stop.2,r.2,l.wkc+r.1⟩

/-- The loop over the slaves, for one direction. -/
def mapDirection (create : Slave → Nat → Nat → Option (Slave × Nat × Nat)) (bits : Slave → UInt16)
    (packed : Bool) (group : Nat) : List Slave → Layout → Option (List Slave × Layout)
  | [],l => some ([],l)
  | s::rest,l => do
      let r ← if inGroup group s ∧ bits s≠0 then do
          let r ← create s l.logAddr l.bitPos
          some (r.1,l.place packed r.2.1 r.2.2)
        else some (s,l)
      let rs ← mapDirection create bits packed group rest r.2
      some (r.1::rs.1,rs.2)

def Layout.pad (l : Layout) : Layout :=
  if l.bitPos≠0 then
    let r := l.seg.pad
    ⟨l.logAddr+1,l.logAddr+1,0,r.2,l.wkc+r.1⟩
  else l

/-- Variables of the loops over the mailbox status bytes. -/
structure StatusRun where
  logAddr : Nat
  seg : Segmenting
  lookup : List Nat
  length : Nat
  wkc : Nat

/-- `ecx_config_create_mbxstatus_mappings` for slave `no`. -/
def createMbxstatusMappings (no : Nat) (s : Slave) (r : StatusRun) : Slave × StatusRun :=
  if s.mbxL≠0 ∧ s.fmmuUnused < ecMaxFmmu then
    ({ s with
      fmmu := Function.update s.fmmu s.fmmuUnused ⟨r.logAddr,1,0,7,ectRegSm1Stat,1,1⟩
      fmmuUnused := s.fmmuUnused+1
      mbxstatus := .ioMap r.logAddr },
    { r with
      logAddr := r.logAddr+1
      -- the entry at the length counts, whatever was written before
      lookup := r.lookup.take r.length++[no]
      length := r.length+1
      wkc := if s.ibytes=0 then r.wkc+1 else r.wkc })
  else (s,r)

/-- The loop over the mailbox status bytes from slave `no` on; `moved` is added to the pointers. -/
def mapStatus (group moved : Nat) : Nat → List Slave → StatusRun → List Slave × StatusRun
  | _,[],r => ([],r)
  | no,s::rest,r =>
      if inGroup group s then
        let m := createMbxstatusMappings no s r
        let rs := mapStatus group moved (no+1) rest
          { m.2 with seg := r.seg.status (m.2.logAddr-r.logAddr) }
        ({ m.1 with mbxstatus := m.1.mbxstatus.add moved }::rs.1,rs.2)
      else
        let rs := mapStatus group moved (no+1) rest r
        (s::rs.1,rs.2)

/-- The segments as they are left: behind the last entry `IOsegment` ends. -/
def Segmenting.close (g : Segmenting) : Option (List Nat) :=
  if g.iosegment.length < ecMaxIoSegments then some (g.iosegment++[g.segmentsize]) else none

def countBlockLRW (group : Nat) (slaves : List Slave) (blockLRW : Nat) : Nat :=
  blockLRW+(slaves.filter (fun s => decide (inGroup group s) && s.blockLRW)).length

/-- `ecx_main_config_map_group` -/
def mainConfigMapGroup (ctx : Context) (group : Nat) : Option (Context × Nat) :=
  if ctx.slavelist≠[] ∧ group < ecMaxGroup then do
    let start := ctx.group.logstartaddr
    let slaves := findMappings group ctx.slavelist
    let out ← mapDirection (createOutputMappings group start) Slave.obits ctx.packedMode group
      slaves ⟨start,start,0,.start,0⟩
    let l := out.2.pad
    let obytes := l.logAddr-start
    let inp ← mapDirection (createInputMappings group start) Slave.ibits ctx.packedMode group
      out.1 { l with wkc := 0 }
    let li := inp.2.pad
    let _ ← li.seg.close
    let ibytes := li.logAddr-start-obytes
    let st := mapStatus group 0 1 inp.1
      ⟨li.logAddr,li.seg,ctx.group.mbxstatuslookup,ctx.group.mbxstatuslength,li.wkc⟩
    let segments ← st.2.seg.close
    let g : Group := { ctx.group with
      obytes := obytes, outputs := .ioMap 0, ibytes := ibytes, inputs := .ioMap obytes
      blockLRW := countBlockLRW group st.1 ctx.group.blockLRW
      nsegments := segments.length
      isegment := l.seg.iosegment.length
      ioffset := l.seg.segmentsize
      outputsWKC := l.wkc, inputsWKC := st.2.wkc, iosegment := segments
      mbxstatus := .ioMap (obytes+ibytes)
      mbxstatuslength := st.2.logAddr-obytes-ibytes
      mbxstatuslookup := st.2.lookup }
    let masterIbytes := st.2.logAddr-start-obytes
    let master := if group=0 then
        ⟨.ioMap 0,obytes,.ioMap obytes,masterIbytes,.ioMap (obytes+masterIbytes)⟩
      else ctx.master
    some ({ ctx with slavelist := st.1, group := g, master := master },
      g.obytes+g.ibytes+g.mbxstatuslength)
  else some (ctx,0)

/-- Variables of `ecx_config_overlap_map_group`. -/
structure OverlapRun where
  mLogAddr : Nat
  soLogAddr : Nat
  siLogAddr : Nat
  seg : Segmenting
  outputsWKC : Nat
  inputsWKC : Nat

/-- Outputs and inputs of a slave from the same address on, each to a byte. -/
def overlapSlave (group start : Nat) (s : Slave) (logAddr : Nat) :
    Option (Slave × Nat × Nat) := do
  let o ← if s.obits≠0 then do
      let r ← createOutputMappings group start s logAddr 0
      some (r.1,(alignByte false r.2.1 r.2.2).1)
    else some (s,logAddr)
  let i ← if s.ibits≠0 then do
      let r ← createInputMappings group start o.1 logAddr 0
      some (r.1,(alignByte false r.2.1 r.2.2).1)
    else some (o.1,logAddr)
  some (i.1,o.2,i.2)

def overlapSlaves (group start : Nat) : List Slave → OverlapRun → Option (List Slave × OverlapRun)
  | [],r => some ([],r)
  | s::rest,r =>
      if inGroup group s then do
        let m ← overlapSlave group start s r.mLogAddr
        let top := max m.2.2 m.2.1
        let e := r.seg.extendOverlap (top-r.mLogAddr) (m.2.1-r.mLogAddr) (m.2.2-r.mLogAddr)
        let rs ← overlapSlaves group start rest
          ⟨top,m.2.1,m.2.2,e.2,r.outputsWKC+e.1.1,r.inputsWKC+e.1.2⟩
        some (m.1::rs.1,rs.2)
      else do
        let rs ← overlapSlaves group start rest
          { r with soLogAddr := r.mLogAddr, siLogAddr := r.mLogAddr }
        some (s::rs.1,rs.2)

/-- `ecx_config_overlap_map_group` -/
def configOverlapMapGroup (ctx : Context) (group : Nat) : Option (Context × Nat) :=
  if ctx.slavelist≠[] ∧ group < ecMaxGroup then do
    let start := ctx.group.logstartaddr
    let slaves := findMappings group ctx.slavelist
    let io ← overlapSlaves group start slaves ⟨start,start,start,.start,0,0⟩
    let _ ← io.2.seg.close
    let obytes := io.2.soLogAddr-start
    let ibytes := io.2.siLogAddr-start
    let moved := io.1.map (fun s =>
      if inGroup group s ∧ s.ibits≠0 then { s with inputs := s.inputs.add obytes } else s)
    let st := mapStatus group (obytes+ibytes) 1 moved
      ⟨io.2.mLogAddr,io.2.seg,ctx.group.mbxstatuslookup,ctx.group.mbxstatuslength,io.2.inputsWKC⟩
    let segments ← st.2.seg.close
    let g : Group := { ctx.group with
      obytes := obytes, outputs := .ioMap 0, ibytes := ibytes, inputs := .ioMap obytes
      blockLRW := countBlockLRW group st.1 ctx.group.blockLRW
      nsegments := segments.length, isegment := 0, ioffset := 0
      outputsWKC := io.2.outputsWKC, inputsWKC := st.2.wkc, iosegment := segments
      mbxstatus := .ioMap (obytes+ibytes)
      mbxstatuslength := st.2.length
      mbxstatuslookup := st.2.lookup }
    let master := if group=0 then
        ⟨.ioMap 0,obytes,.ioMap obytes,ibytes,.ioMap (obytes+ibytes)⟩
      else ctx.master
    some ({ ctx with slavelist := st.1, group := g, master := master },
      g.obytes+g.ibytes+g.mbxstatuslength)
  else some (ctx,0)

/-- `ecx_config_map_group` -/
def configMapGroup (ctx : Context) (group : Nat) : Option (Context × Nat) :=
  if ctx.overlappedMode=true then configOverlapMapGroup ctx group
  else mainConfigMapGroup ctx group

end EtherCATMaster.Mapping
