import EtherCATMaster.Mapping.Placing
import EtherCATMaster.Mapping.ProcessData

namespace EtherCATMaster.Mapping

def ecMaxSlave : Nat := 200

/-- A slave that has been enumerated and not mapped. -/
structure Slave.Fresh (s : Slave) : Prop where
  obytes : s.obytes=0
  ibytes : s.ibytes=0
  unused : s.fmmuUnused=0
  fmmu : ∀ i,s.fmmu i=Fmmu.zero
  outputs : s.outputs=.null 0
  inputs : s.inputs=.null 0
  mbxstatus : s.mbxstatus=.null 0

/-- A group to be mapped, as `ecx_config_init` leaves it. -/
structure Context.Fresh (ctx : Context) (group : Nat) : Prop where
  slaves : ctx.slavelist≠[]
  count : ctx.slavelist.length < ecMaxSlave
  start : ctx.group.logstartaddr=group*2^ecLogGroupOffset
  known : group < ecMaxGroup
  length : ctx.group.mbxstatuslength=0
  lookup : ctx.group.mbxstatuslookup=[]
  fresh : ∀ s ∈ ctx.slavelist,s.Fresh

/-- The slaves and segments when the process data is mapped and the mailbox status is not. -/
structure Stage where
  slavelist : List Slave
  seg : Segmenting
  obytes : Nat
  ibytes : Nat
  isegment : Nat
  ioffset : Nat
  outputsWKC : Nat
  inputsWKC : Nat

def mainStage (ctx : Context) (group : Nat) : Option Stage := do
  let start := ctx.group.logstartaddr
  let out ← mapDirection (createOutputMappings group start) Slave.obits ctx.packedMode group
    (findMappings group ctx.slavelist) ⟨start,start,0,.start,0⟩
  let l := out.2.pad
  let inp ← mapDirection (createInputMappings group start) Slave.ibits ctx.packedMode group
    out.1 { l with wkc := 0 }
  let li := inp.2.pad
  let _ ← li.seg.close
  some ⟨inp.1,li.seg,l.logAddr-start,li.logAddr-start-(l.logAddr-start),l.seg.iosegment.length,
    l.seg.segmentsize,l.wkc,li.wkc⟩

def overlapStage (ctx : Context) (group : Nat) : Option Stage := do
  let start := ctx.group.logstartaddr
  let io ← overlapSlaves group start (findMappings group ctx.slavelist) ⟨start,start,start,.start,0,0⟩
  let _ ← io.2.seg.close
  let obytes := io.2.soLogAddr-start
  some ⟨io.1.map (fun s =>
      if inGroup group s ∧ s.ibits≠0 then { s with inputs := s.inputs.add obytes } else s),
    io.2.seg,obytes,io.2.siLogAddr-start,0,0,io.2.outputsWKC,io.2.inputsWKC⟩

def stage (ctx : Context) (group : Nat) : Option Stage :=
  if ctx.overlappedMode=true then overlapStage ctx group else mainStage ctx group

def Stage.span (p : Stage) (overlapped : Bool) : Nat :=
  if overlapped=true then max p.obytes p.ibytes else p.obytes+p.ibytes

/-- What a stage has in common with the context it comes from. -/
structure Stage.Sound (p : Stage) (ctx : Context) (group : Nat) : Prop where
  segments : p.seg.Open
  total : p.seg.total=p.span ctx.overlappedMode
  devices : p.slavelist.map Slave.device=(findMappings group ctx.slavelist).map Slave.device
  ready : ∀ s ∈ p.slavelist,inGroup group s → s.Ready
  -- without overlap, or without outputs, every byte of the inputs is that of a slave
  inputs : ctx.overlappedMode=false ∨ p.obytes=0 → ∀ a,ctx.group.logstartaddr+p.obytes ≤ a →
    a<ctx.group.logstartaddr+p.obytes+p.ibytes → ∃ s ∈ p.slavelist,inGroup group s ∧ s.Maps 1 a
  -- where the inputs begin: behind the outputs, or with them
  split : ∃ g : Segmenting,g.Follows p.seg ∧ g.iosegment.length=p.isegment ∧
    g.segmentsize=p.ioffset ∧ g.total=if ctx.overlappedMode=true then 0 else p.obytes

section Freshness

variable {ctx : Context} {group : Nat}

theorem Slave.Fresh.ready {s : Slave} (h : s.Fresh) : (mapSm s).Ready := by
  constructor
  · change (if s.obits.toNat>7 then (s.obits.toNat+7)/8 else s.obytes)=_
    rw [h.obytes]
    rfl
  · change (if s.ibits.toNat>7 then (s.ibits.toNat+7)/8 else s.ibytes)=_
    rw [h.ibytes]
    rfl
  · intro i _
    exact congrArg Fmmu.fmmuActive (h.fmmu i)
  · change s.fmmuUnused ≤ ecMaxFmmu
    rw [h.unused]
    exact Nat.zero_le _

theorem findMappings_mem {P : Slave → Prop} {slaves : List Slave}
    (h : ∀ s ∈ slaves,inGroup group s → P (mapSm s)) :
    ∀ s ∈ findMappings group slaves,inGroup group s → P s := by
  intro s hs hin
  obtain ⟨s0,hs0,rfl⟩ := List.mem_map.mp hs
  by_cases h0 : inGroup group s0
  · rw [if_pos h0]
    exact h s0 hs0 h0
  · rw [if_neg h0] at hin
    exact absurd hin h0

theorem Context.Fresh.ready (h : ctx.Fresh group) :
    ∀ s ∈ findMappings group ctx.slavelist,inGroup group s → s.Ready :=
  findMappings_mem fun s hs _ => (h.fresh s hs).ready

end Freshness

theorem Stage.Sound.unmapped {ctx : Context} {group : Nat} {p : Stage} (hp : p.Sound ctx group)
    (hfresh : ctx.Fresh group) : ∀ s ∈ p.slavelist,s.mbxstatus=.null 0 := by
  intro s hs
  have hdevice : s.device ∈ (findMappings group ctx.slavelist).map Slave.device := by
    rw [← hp.devices]
    exact List.mem_map_of_mem hs
  obtain ⟨s1,hs1,heq⟩ := List.mem_map.mp hdevice
  obtain ⟨s0,hs0,rfl⟩ := List.mem_map.mp hs1
  have hmbx : s.mbxstatus=s0.mbxstatus := by
    rw [show s.mbxstatus=s.device.mbxstatus from rfl,← heq]
    split_ifs <;> rfl
  rw [hmbx]
  exact (hfresh.fresh s0 hs0).mbxstatus

section Main

variable {bits : Slave → UInt16} {fmmuType : Nat} {packed : Bool} {group : Nat}

theorem Placed.devices {base bitPos : Nat} {slaves slaves' : List Slave}
    (h : Placed bits fmmuType packed group base bitPos slaves slaves') :
    slaves'.map Slave.device=slaves.map Slave.device := by
  induction h with
  | nil => rfl
  | skip _ _ s _ _ _ _ ih => rw [List.map_cons,List.map_cons,ih]
  | place _ _ s s' _ _ _ hext _ ih => rw [List.map_cons,List.map_cons,ih,hext.device]

theorem Placed.ready {base bitPos : Nat} {slaves slaves' : List Slave}
    (h : Placed bits fmmuType packed group base bitPos slaves slaves')
    (hready : ∀ s ∈ slaves,inGroup group s → s.Ready) :
    ∀ s ∈ slaves',inGroup group s → s.Ready := by
  induction h with
  | nil => exact hready
  | skip _ _ s rest rest' _ _ ih =>
    intro x hx hin
    rcases List.mem_cons.mp hx with rfl|hx
    · exact hready x List.mem_cons_self hin
    · exact ih (fun y hy => hready y (List.mem_cons_of_mem s hy)) x hx hin
  | place _ _ s s' rest rest' _ hext _ ih =>
    intro x hx hin
    rcases List.mem_cons.mp hx with rfl|hx
    · exact hext.ready
    · exact ih (fun y hy => hready y (List.mem_cons_of_mem s hy)) x hx hin

def padded (r : List Nat × Nat) : List Nat := if r.2≠0 then r.1++[1] else r.1

theorem padded_sum (r : List Nat × Nat) : (padded r).sum=r.1.sum+openByte r.2 := by
  rw [padded,openByte]
  split_ifs
  · rw [List.sum_append,List.sum_singleton]
  · rfl

theorem mapDirection_pad {create : Slave → Nat → Nat → Option (Slave × Nat × Nat)}
    (hcreate : Places create bits fmmuType) {slaves slaves' : List Slave} {l l' : Layout}
    (hready : ∀ s ∈ slaves,inGroup group s → s.Ready) (hpos : l.bitPos=0)
    (hlog : l.oLogAddr=l.logAddr) (hseg : l.seg.Sound)
    (h : mapDirection create bits packed group slaves l=some (slaves',l')) :
    Placed bits fmmuType packed group l.logAddr 0 slaves slaves' ∧
      l'.pad.logAddr=l.logAddr+(padded (pieces bits packed group slaves 0)).sum ∧
      l'.pad.oLogAddr=l'.pad.logAddr ∧ l'.pad.bitPos=0 ∧
      l'.pad.seg=cut l.seg (padded (pieces bits packed group slaves 0)) ∧
      l'.pad.wkc=l.wkc+counted bits packed group slaves 0 l.seg := by
  have hpos' : l.bitPos ≤ 7 := by omega
  obtain ⟨hplaced,hlog',holog',hbit,-,hcut,hwkc⟩ := mapDirection_spec hcreate hready hpos' hlog h
  rw [hpos] at hplaced hlog' hbit hcut hwkc
  have hpad : l'.pad.logAddr=l.logAddr+(padded (pieces bits packed group slaves 0)).sum ∧
      l'.pad.oLogAddr=l'.pad.logAddr ∧ l'.pad.bitPos=0 ∧
      l'.pad.seg=cut l.seg (padded (pieces bits packed group slaves 0)) := by
    rw [Layout.pad,padded,← hbit]
    by_cases hleft : l'.bitPos≠0
    · rw [if_pos hleft,if_pos hleft]
      have hsound := (cut_sound hseg (pieces bits packed group slaves 0).1).1
      refine ⟨?_,rfl,rfl,?_⟩
      · rw [List.sum_append,List.sum_singleton,← Nat.add_assoc,← hlog']
      · rw [← hcut] at hsound
        rw [cut_append,← hcut]
        exact hsound.bounded.pad_eq
    · rw [if_neg hleft,if_neg hleft]
      exact ⟨hlog',holog',not_not.mp hleft,hcut⟩
  exact ⟨hplaced,hpad.1,hpad.2.1,hpad.2.2.1,hpad.2.2.2,hwkc⟩

theorem start_sound : Segmenting.start.Sound := ⟨Segmenting.start_bounded,by decide⟩

/-- Where outputs and inputs have come to lie. -/
structure Stage.Placed (p : Stage) (ctx : Context) (group : Nat) (mid : List Slave) : Prop where
  outputs : Mapping.Placed Slave.obits 2 ctx.packedMode group ctx.group.logstartaddr 0
    (findMappings group ctx.slavelist) mid
  inputs : Mapping.Placed Slave.ibits 1 ctx.packedMode group (ctx.group.logstartaddr+p.obytes) 0
    mid p.slavelist
  obytes : p.obytes=
    (padded (pieces Slave.obits ctx.packedMode group (findMappings group ctx.slavelist) 0)).sum
  ibytes : p.ibytes=(padded (pieces Slave.ibits ctx.packedMode group mid 0)).sum
  seg : p.seg=cut (cut .start
      (padded (pieces Slave.obits ctx.packedMode group (findMappings group ctx.slavelist) 0)))
    (padded (pieces Slave.ibits ctx.packedMode group mid 0))
  isegment : p.isegment=(cut .start (padded (pieces Slave.obits ctx.packedMode group
    (findMappings group ctx.slavelist) 0))).iosegment.length
  ioffset : p.ioffset=(cut .start (padded (pieces Slave.obits ctx.packedMode group
    (findMappings group ctx.slavelist) 0))).segmentsize
  count : p.seg.iosegment.length < ecMaxIoSegments
  outputsWKC : p.outputsWKC=
    counted Slave.obits ctx.packedMode group (findMappings group ctx.slavelist) 0 .start
  inputsWKC : p.inputsWKC=counted Slave.ibits ctx.packedMode group mid 0 (cut .start (padded
    (pieces Slave.obits ctx.packedMode group (findMappings group ctx.slavelist) 0)))

theorem mainStage_placed {ctx : Context} {p : Stage} (hfresh : ctx.Fresh group)
    (h : mainStage ctx group=some p) : ∃ mid,p.Placed ctx group mid := by
  simp only [mainStage] at h
  obtain ⟨out,hout,h⟩ := Option.bind_eq_some_iff.mp h
  obtain ⟨inp,hinp,h⟩ := Option.bind_eq_some_iff.mp h
  obtain ⟨segments,hclose,h⟩ := Option.bind_eq_some_iff.mp h
  cases h
  have hready := hfresh.ready
  obtain ⟨hplaced,hlog,holog,hpos,hseg,hwkc⟩ := mapDirection_pad (outputs_place group _) hready rfl
    rfl start_sound hout
  have hsound := cut_sound start_sound (padded
    (pieces Slave.obits ctx.packedMode group (findMappings group ctx.slavelist) 0))
  rw [← hseg] at hsound
  obtain ⟨hplaced',hlog',-,-,hseg',hwkc'⟩ := mapDirection_pad (inputs_place group _)
    (hplaced.ready hready) (l := { out.2.pad with wkc := 0 }) hpos holog hsound.1 hinp
  simp only at hlog hlog' hseg' hplaced' hwkc hwkc'
  have hobytes : out.2.pad.logAddr-ctx.group.logstartaddr=(padded
      (pieces Slave.obits ctx.packedMode group (findMappings group ctx.slavelist) 0)).sum := by
    omega
  have hcount : inp.2.pad.seg.iosegment.length < ecMaxIoSegments := by
    rw [Segmenting.close] at hclose
    split_ifs at hclose with hlt
    exact hlt
  refine ⟨out.1,hplaced,?_,hobytes,?_,?_,?_,?_,hcount,?_,?_⟩
  · simp only [hobytes]
    rw [← hlog]
    exact hplaced'
  · simp only
    omega
  · simp only
    rw [hseg',hseg]
  · simp only
    rw [hseg]
  · simp only
    rw [hseg]
  · simp only
    rw [hwkc,Nat.zero_add]
  · simp only
    rw [hwkc',Nat.zero_add,hseg]

theorem mainStage_sound {ctx : Context} {p : Stage} (hfresh : ctx.Fresh group)
    (hmode : ctx.overlappedMode=false) (h : mainStage ctx group=some p) : p.Sound ctx group := by
  obtain ⟨mid,hp⟩ := mainStage_placed hfresh h
  have hmode' : ¬ctx.overlappedMode=true := by
    rw [hmode]
    exact Bool.false_ne_true
  have hout := cut_sound start_sound (padded
    (pieces Slave.obits ctx.packedMode group (findMappings group ctx.slavelist) 0))
  obtain ⟨hsound,hfollows,htotal⟩ := cut_sound hout.1
    (padded (pieces Slave.ibits ctx.packedMode group mid 0))
  rw [← hp.seg] at hsound hfollows htotal
  rw [hout.2.2,← hp.obytes,← hp.ibytes] at htotal
  have hzero : Segmenting.start.total=0 := rfl
  refine ⟨hsound.open hp.count,?_,?_,?_,?_,_,hfollows,hp.isegment.symm,hp.ioffset.symm,?_⟩
  · rw [Stage.span,if_neg hmode']
    omega
  · exact hp.inputs.devices.trans hp.outputs.devices
  · exact hp.inputs.ready (hp.outputs.ready hfresh.ready)
  · intro _ a hlow hhigh
    rw [hp.ibytes,padded_sum,← Nat.add_assoc] at hhigh
    exact hp.inputs.covers hlow hhigh
  · rw [if_neg hmode',hout.2.2,hp.obytes]
    omega

end Main

section Overlap

variable {group start : Nat}

def overlapDirection (create : Slave → Nat → Nat → Option (Slave × Nat × Nat))
    (bits : Slave → UInt16) (s : Slave) (logAddr : Nat) : Option (Slave × Nat) :=
  if bits s≠0 then
    (create s logAddr 0).bind (fun r => some (r.1,(alignByte false r.2.1 r.2.2).1))
  else some (s,logAddr)

theorem overlapSlave_eq (s : Slave) (logAddr : Nat) :
    overlapSlave group start s logAddr=
      (overlapDirection (createOutputMappings group start) Slave.obits s logAddr).bind (fun o =>
        (overlapDirection (createInputMappings group start) Slave.ibits o.1 logAddr).bind (fun i =>
          some (i.1,o.2,i.2))) := by
  simp only [overlapSlave,overlapDirection]
  by_cases hout : s.obits≠0
  · rw [if_pos hout,if_pos hout]
    cases hc : createOutputMappings group start s logAddr 0 with
    | none => rfl
    | some r =>
      have hsame : r.1.ibits=s.ibits := by
        obtain ⟨run,-,heq⟩ := Option.bind_eq_some_iff.mp hc
        cases heq
        rfl
      by_cases hin : s.ibits≠0
      · simp only [Option.bind_some,Option.bind_eq_bind,hsame,if_pos hin,Option.bind_assoc]
      · simp only [Option.bind_some,Option.bind_eq_bind,hsame,if_neg hin]
  · rw [if_neg hout,if_neg hout]
    by_cases hin : s.ibits≠0
    · simp only [Option.bind_some,Option.bind_eq_bind,if_pos hin,Option.bind_assoc]
    · simp only [Option.bind_some,Option.bind_eq_bind,if_neg hin]

theorem overlapDirection_spec {create : Slave → Nat → Nat → Option (Slave × Nat × Nat)}
    {bits : Slave → UInt16} {fmmuType : Nat} (hcreate : Places create bits fmmuType)
    {s : Slave} {logAddr : Nat} {r : Slave × Nat} (hs : s.Ready)
    (h : overlapDirection create bits s logAddr=some r) :
    logAddr ≤ r.2 ∧ r.1.device=s.device ∧ r.1.Ready ∧
      ∀ a,logAddr ≤ a → a < r.2 → r.1.Maps fmmuType a := by
  rw [overlapDirection] at h
  by_cases hbits : bits s≠0
  · rw [if_pos hbits] at h
    obtain ⟨c,hc,h⟩ := Option.bind_eq_some_iff.mp h
    cases h
    obtain ⟨s1,logAddr1,bitPos1⟩ := c
    obtain ⟨hlog,hpos,hext⟩ := hcreate _ _ _ _ _ _ hs hbits (Nat.zero_le 7) hc
    have hend : (alignByte false logAddr1 bitPos1).1=
        logAddr+(pieceWidth false (bits s).toNat 0).1 := by
      rw [hlog,hpos,alignByte_add]
      rfl
    obtain ⟨hfirst,hstop⟩ := extent_covers false (bits s).toNat 0
    have hzero : openByte 0=0 := rfl
    refine ⟨by simp only [hend]; omega,hext.device,hext.ready,?_⟩
    intro a hlow hhigh
    simp only [hend] at hhigh
    exact (hext.maps fmmuType a).mpr (.inr ⟨rfl,by omega,by omega⟩)
  · rw [if_neg hbits] at h
    cases h
    refine ⟨Nat.le_refl _,rfl,hs,?_⟩
    intro a hlow hhigh
    simp only at hhigh
    omega

theorem overlapSlave_spec {s s' : Slave} {logAddr o i : Nat} (hs : s.Ready)
    (h : overlapSlave group start s logAddr=some (s',o,i)) :
    logAddr ≤ o ∧ logAddr ≤ i ∧ s'.device=s.device ∧ s'.Ready ∧
      ∀ a,logAddr ≤ a → a < i → s'.Maps 1 a := by
  rw [overlapSlave_eq] at h
  obtain ⟨out,hout,h⟩ := Option.bind_eq_some_iff.mp h
  obtain ⟨inp,hinp,h⟩ := Option.bind_eq_some_iff.mp h
  cases h
  obtain ⟨ho,hdevice,hready,-⟩ := overlapDirection_spec (outputs_place group start) hs hout
  obtain ⟨hi,hdevice',hready',hmaps⟩ := overlapDirection_spec (inputs_place group start) hready hinp
  exact ⟨ho,hi,hdevice'.trans hdevice,hready',hmaps⟩

/-- Addresses in overlapped mode: the next slave begins where the longer direction ends. -/
structure OverlapRun.Sound (r : OverlapRun) (start : Nat) : Prop where
  outputs : start ≤ r.soLogAddr
  inputs : start ≤ r.siLogAddr
  top : r.mLogAddr=max r.siLogAddr r.soLogAddr

theorem overlapSlaves_spec {slaves slaves' : List Slave} {r r' : OverlapRun} (low : Nat)
    (hr : r.Sound low) (hready : ∀ s ∈ slaves,inGroup group s → s.Ready)
    (h : overlapSlaves group start slaves r=some (slaves',r')) :
    r'.Sound low ∧ slaves'.map Slave.device=slaves.map Slave.device ∧
      (∀ s ∈ slaves',inGroup group s → s.Ready) ∧
      (∃ diffs,r'.seg=cut r.seg diffs ∧ r'.mLogAddr=r.mLogAddr+diffs.sum) ∧
      (slaves≠[] → r.mLogAddr ≤ r'.soLogAddr) ∧
      (r.mLogAddr=low → r'.soLogAddr=low → ∀ a,low ≤ a → a < r'.siLogAddr →
        ∃ s ∈ slaves',inGroup group s ∧ s.Maps 1 a) := by
  induction slaves generalizing slaves' r with
  | nil =>
    cases h
    refine ⟨hr,rfl,hready,⟨[],rfl,rfl⟩,fun hne => absurd rfl hne,?_⟩
    intro hm _ a hlow hhigh
    have htop := hr.top
    omega
  | cons s rest ih =>
    have hrest : ∀ x ∈ rest,inGroup group x → x.Ready :=
      fun x hx => hready x (List.mem_cons_of_mem s hx)
    have htop := hr.top
    have hlow := hr.outputs
    rw [overlapSlaves] at h
    by_cases hin : inGroup group s
    · rw [if_pos hin] at h
      obtain ⟨m,hm,h⟩ := Option.bind_eq_some_iff.mp h
      obtain ⟨rs,hrs,h⟩ := Option.bind_eq_some_iff.mp h
      cases h
      obtain ⟨s1,o,i⟩ := m
      obtain ⟨ho,hi,hdevice,hready1,hmaps⟩ := overlapSlave_spec (hready s List.mem_cons_self hin) hm
      obtain ⟨hsound,hdevices,hready',⟨diffs,hseg,hsum⟩,hle,hcovers⟩ := ih
        ⟨by simp only; omega,by simp only; omega,rfl⟩ hrest hrs
      have hso : r.mLogAddr ≤ rs.2.soLogAddr ∧ (rest≠[] → max i o ≤ rs.2.soLogAddr) := by
        cases rest with
        | nil =>
          cases hrs
          exact ⟨ho,fun hne => absurd rfl hne⟩
        | cons next rest =>
          have hmax := hle (List.cons_ne_nil next rest)
          simp only at hmax
          exact ⟨by omega,fun _ => hmax⟩
      refine ⟨hsound,?_,?_,⟨(max i o-r.mLogAddr)::diffs,?_,?_⟩,fun _ => hso.1,?_⟩
      · rw [List.map_cons,List.map_cons,hdevices,hdevice]
      · intro x hx hxin
        rcases List.mem_cons.mp hx with rfl|hx
        · exact hready1
        · exact hready' x hx hxin
      · rw [hseg,Segmenting.extendOverlap_eq]
        rfl
      · rw [hsum,List.sum_cons]
        simp only
        omega
      · intro hm' hlast a hlow' hhigh
        have hin1 : inGroup group s1 := by
          rw [inGroup,show s1.group=s.group from congrArg Device.group hdevice]
          exact hin
        cases rest with
        | nil =>
          cases hrs
          exact ⟨s1,List.mem_cons_self,hin1,hmaps a (by omega) hhigh⟩
        | cons next rest =>
          -- nothing has been placed so far
          have hmax := hso.2 (List.cons_ne_nil next rest)
          obtain ⟨s2,hs2,hs2'⟩ := hcovers (by simp only; omega) hlast a hlow' hhigh
          exact ⟨s2,List.mem_cons_of_mem s1 hs2,hs2'⟩
    · rw [if_neg hin] at h
      obtain ⟨rs,hrs,h⟩ := Option.bind_eq_some_iff.mp h
      cases h
      obtain ⟨hsound,hdevices,hready',hcut,hle,hcovers⟩ := ih
        (r := { r with soLogAddr := r.mLogAddr, siLogAddr := r.mLogAddr })
        ⟨by simp only; omega,by simp only; omega,(max_self _).symm⟩ hrest hrs
      refine ⟨hsound,by rw [List.map_cons,List.map_cons,hdevices],?_,hcut,?_,?_⟩
      · intro x hx hxin
        rcases List.mem_cons.mp hx with rfl|hx
        · exact absurd hxin hin
        · exact hready' x hx hxin
      · intro _
        cases rest with
        | nil =>
          cases hrs
          exact Nat.le_refl _
        | cons next rest => exact hle (List.cons_ne_nil next rest)
      · intro hm' hlast a hlow' hhigh
        obtain ⟨s2,hs2,hs2'⟩ := hcovers hm' hlast a hlow' hhigh
        exact ⟨s2,List.mem_cons_of_mem s hs2,hs2'⟩

theorem overlapStage_sound {ctx : Context} {p : Stage} (hfresh : ctx.Fresh group)
    (hmode : ctx.overlappedMode=true) (h : overlapStage ctx group=some p) :
    p.Sound ctx group := by
  simp only [overlapStage] at h
  obtain ⟨io,hio,h⟩ := Option.bind_eq_some_iff.mp h
  obtain ⟨segments,hclose,h⟩ := Option.bind_eq_some_iff.mp h
  cases h
  obtain ⟨slaves',r'⟩ := io
  obtain ⟨hrun,hdevices,hready,⟨diffs,hseg,hsum⟩,-,hcovers⟩ := overlapSlaves_spec
    (r := ⟨ctx.group.logstartaddr,ctx.group.logstartaddr,ctx.group.logstartaddr,.start,0,0⟩)
    ctx.group.logstartaddr ⟨Nat.le_refl _,Nat.le_refl _,(max_self _).symm⟩ hfresh.ready hio
  obtain ⟨hsound,hfollows,htotal⟩ := cut_sound start_sound diffs
  simp only at hseg hsum hclose
  rw [← hseg] at hsound hfollows htotal
  have hcount : r'.seg.iosegment.length < ecMaxIoSegments := by
    rw [Segmenting.close] at hclose
    split_ifs at hclose with hlt
    exact hlt
  have hzero : Segmenting.start.total=0 := rfl
  have hlow := hrun.outputs
  have hlow' := hrun.inputs
  have htop := hrun.top
  refine ⟨hsound.open hcount,?_,?_,?_,?_,.start,hfollows,rfl,rfl,?_⟩
  · rw [Stage.span,if_pos hmode]
    simp only
    omega
  · rw [← hdevices]
    simp only [List.map_map]
    apply List.map_congr_left
    intro s _
    simp only [Function.comp]
    split_ifs <;> rfl
  · intro s hs hin
    obtain ⟨s1,hs1,rfl⟩ := List.mem_map.mp hs
    by_cases hmoved : inGroup group s1 ∧ s1.ibits≠0
    · rw [if_pos hmoved]
      have h1 := hready s1 hs1 hmoved.1
      exact ⟨h1.obytes,h1.ibytes,h1.idle,h1.room⟩
    · rw [if_neg hmoved] at hin ⊢
      exact hready s1 hs1 hin
  · intro hout a hlow1 hhigh
    rcases hout with hmode'|hout
    · rw [hmode] at hmode'
      cases hmode'
    · simp only at hout hlow1 hhigh
      obtain ⟨s1,hs1,hin,hmaps⟩ := hcovers rfl (by omega) a (by omega) (by omega)
      refine ⟨_,List.mem_map_of_mem hs1,?_⟩
      split_ifs
      · exact ⟨hin,hmaps⟩
      · exact ⟨hin,hmaps⟩
  · rw [if_pos hmode]
    rfl

end Overlap

section Status

def Slave.TakesStatus (group : Nat) (s : Slave) : Prop :=
  inGroup group s ∧ s.mbxL≠0 ∧ s.fmmuUnused < ecMaxFmmu

instance Slave.TakesStatus.decidable (group : Nat) (s : Slave) :
    Decidable (s.TakesStatus group) :=
  inferInstanceAs (Decidable (_ ∧ _))

def statusCount (group : Nat) (slaves : List Slave) : Nat :=
  slaves.countP (fun s => decide (s.TakesStatus group))

def statusDiffs (group : Nat) (slaves : List Slave) : List Nat :=
  (slaves.filter (fun s => decide (inGroup group s))).map
    (fun s => if s.TakesStatus group then 1 else 0)

theorem statusDiffs_le (group : Nat) (slaves : List Slave) :
    ∀ d ∈ statusDiffs group slaves,d ≤ 1 := by
  intro d hd
  obtain ⟨s,-,rfl⟩ := List.mem_map.mp hd
  split_ifs
  · exact Nat.le_refl 1
  · exact Nat.zero_le 1

theorem statusDiffs_sum (group : Nat) (slaves : List Slave) :
    (statusDiffs group slaves).sum=statusCount group slaves := by
  induction slaves with
  | nil => rfl
  | cons s rest ih =>
    rw [statusDiffs,statusCount] at ih ⊢
    by_cases hin : inGroup group s
    · rw [List.filter_cons_of_pos (by exact decide_eq_true hin),List.map_cons,List.sum_cons,ih,
        List.countP_cons,Nat.add_comm]
      simp only [decide_eq_true_eq]
    · have hnot : ¬s.TakesStatus group := fun h => hin h.1
      rw [List.filter_cons_of_neg (by simpa using hin),ih,
        List.countP_cons_of_neg (by simpa using hnot)]

variable {group : Nat}

theorem createMbxstatusMappings_of_takes (no : Nat) {s : Slave} (h : s.TakesStatus group)
    (r : StatusRun) : (createMbxstatusMappings no s r).2.logAddr=r.logAddr+1 ∧
      (createMbxstatusMappings no s r).2.length=r.length+1 ∧
      (createMbxstatusMappings no s r).1.mbxstatus=.ioMap r.logAddr := by
  rw [createMbxstatusMappings,if_pos h.2]
  exact ⟨rfl,rfl,rfl⟩

theorem createMbxstatusMappings_of_not (no : Nat) {s : Slave} (hin : inGroup group s)
    (h : ¬s.TakesStatus group) (r : StatusRun) : createMbxstatusMappings no s r=(s,r) := by
  rw [createMbxstatusMappings,if_neg (fun hc => h ⟨hin,hc⟩)]

theorem mapStatus_run (group moved no : Nat) (slaves : List Slave) (r : StatusRun) :
    (mapStatus group moved no slaves r).2.logAddr=r.logAddr+statusCount group slaves ∧
      (mapStatus group moved no slaves r).2.length=r.length+statusCount group slaves ∧
      (mapStatus group moved no slaves r).2.seg=statusCut r.seg (statusDiffs group slaves) := by
  induction slaves generalizing no r with
  | nil => exact ⟨rfl,rfl,rfl⟩
  | cons s rest ih =>
    rw [statusCount,statusDiffs] at ih ⊢
    by_cases hin : inGroup group s
    · rw [mapStatus,if_pos hin,List.filter_cons_of_pos (by exact decide_eq_true hin),List.map_cons]
      by_cases htakes : s.TakesStatus group
      · obtain ⟨hlog,hlen,-⟩ := createMbxstatusMappings_of_takes no htakes r
        obtain ⟨hlog',hlen',hseg'⟩ := ih (no+1) { (createMbxstatusMappings no s r).2 with
          seg := r.seg.status ((createMbxstatusMappings no s r).2.logAddr-r.logAddr) }
        rw [List.countP_cons_of_pos (by exact decide_eq_true htakes),if_pos htakes]
        simp only [hlog,hlen,Nat.add_sub_cancel_left] at hlog' hlen' hseg' ⊢
        exact ⟨by omega,by omega,hseg'⟩
      · have hsame := createMbxstatusMappings_of_not no hin htakes r
        obtain ⟨hlog',hlen',hseg'⟩ := ih (no+1) { r with seg := r.seg.status (r.logAddr-r.logAddr) }
        rw [List.countP_cons_of_neg (by simpa using htakes),if_neg htakes]
        simp only [hsame,Nat.sub_self] at hlog' hlen' hseg' ⊢
        exact ⟨hlog',hlen',hseg'⟩
    · have hnot : ¬s.TakesStatus group := fun h => hin h.1
      rw [mapStatus,if_neg hin,List.filter_cons_of_neg (by simpa using hin),
        List.countP_cons_of_neg (by simpa using hnot)]
      exact ih (no+1) r

theorem mapStatus_mapped (moved no : Nat) {slaves : List Slave} (r : StatusRun)
    (hnull : ∀ s ∈ slaves,s.mbxstatus=.null 0) :
    (mapStatus group moved no slaves r).1.countP (fun s => s.mbxstatus.offset.isSome)=
      statusCount group slaves := by
  induction slaves generalizing no r with
  | nil => rfl
  | cons s rest ih =>
    have hrest : ∀ x ∈ rest,x.mbxstatus=.null 0 := fun x hx => hnull x (List.mem_cons_of_mem s hx)
    have hs := hnull s List.mem_cons_self
    rw [statusCount] at ih ⊢
    by_cases hin : inGroup group s
    · rw [mapStatus,if_pos hin]
      by_cases htakes : s.TakesStatus group
      · obtain ⟨-,-,hmbx⟩ := createMbxstatusMappings_of_takes no htakes r
        rw [List.countP_cons_of_pos (by simp only [hmbx]; rfl),ih (no+1) _ hrest,
          List.countP_cons_of_pos (by exact decide_eq_true htakes)]
      · have hsame := createMbxstatusMappings_of_not no hin htakes r
        rw [List.countP_cons_of_neg (by simp [hsame,hs,Pointer.add,Pointer.offset]),
          ih (no+1) _ hrest,List.countP_cons_of_neg (by simpa using htakes)]
    · have hnot : ¬s.TakesStatus group := fun h => hin h.1
      rw [mapStatus,if_neg hin,List.countP_cons_of_neg (by simp [hs,Pointer.offset]),
        ih (no+1) r hrest,List.countP_cons_of_neg (by simpa using hnot)]

end Status

section Leaves

/-- The status bytes come behind the process data of a stage. -/
def Stage.status (p : Stage) (ctx : Context) (group : Nat) : List Slave × StatusRun :=
  mapStatus group (if ctx.overlappedMode=true then p.obytes+p.ibytes else 0) 1 p.slavelist
    ⟨ctx.group.logstartaddr+p.span ctx.overlappedMode,p.seg,ctx.group.mbxstatuslookup,
      ctx.group.mbxstatuslength,p.inputsWKC⟩

/-- The entry of the group after a stage and the status bytes. -/
def Stage.group (p : Stage) (ctx : Context) (group : Nat) : Group :=
  let st := p.status ctx group
  { ctx.group with
    obytes := p.obytes, outputs := .ioMap 0, ibytes := p.ibytes, inputs := .ioMap p.obytes
    blockLRW := countBlockLRW group st.1 ctx.group.blockLRW
    nsegments := st.2.seg.iosegment.length+1
    isegment := p.isegment, ioffset := p.ioffset
    outputsWKC := p.outputsWKC, inputsWKC := st.2.wkc
    iosegment := st.2.seg.iosegment++[st.2.seg.segmentsize]
    mbxstatus := .ioMap (p.obytes+p.ibytes)
    mbxstatuslength := if ctx.overlappedMode=true then st.2.length
      else st.2.logAddr-p.obytes-p.ibytes
    mbxstatuslookup := st.2.lookup }

/-- What the mapping returns comes from a stage. -/
structure Stage.Leaves (p : Stage) (ctx ctx' : Context) (group size : Nat) : Prop where
  slavelist : ctx'.slavelist=(p.status ctx group).1
  mode : ctx'.overlappedMode=ctx.overlappedMode
  returned : size=(p.group ctx group).obytes+(p.group ctx group).ibytes+
    (p.group ctx group).mbxstatuslength
  entry : ctx'.group=p.group ctx group

variable {ctx ctx' : Context} {group size : Nat}

theorem Segmenting.close_eq {g : Segmenting} {segments : List Nat} (h : g.close=some segments) :
    segments=g.iosegment++[g.segmentsize] := by
  rw [Segmenting.close] at h
  split_ifs at h
  exact (Option.some.inj h).symm

theorem mainConfigMapGroup_stage (hfresh : ctx.Fresh group) (hmode : ctx.overlappedMode=false)
    (h : mainConfigMapGroup ctx group=some (ctx',size)) :
    ∃ p,mainStage ctx group=some p ∧ p.Leaves ctx ctx' group size := by
  rw [mainConfigMapGroup,if_pos ⟨hfresh.slaves,hfresh.known⟩] at h
  obtain ⟨out,hout,h⟩ := Option.bind_eq_some_iff.mp h
  obtain ⟨inp,hinp,h⟩ := Option.bind_eq_some_iff.mp h
  obtain ⟨_,hclose,h⟩ := Option.bind_eq_some_iff.mp h
  obtain ⟨segments,hsegments,h⟩ := Option.bind_eq_some_iff.mp h
  have hready := hfresh.ready
  obtain ⟨hplaced,hlog,holog,hpos,hseg,-⟩ := mapDirection_pad (outputs_place group _) hready rfl rfl
    start_sound hout
  have hsound := cut_sound start_sound (padded
    (pieces Slave.obits ctx.packedMode group (findMappings group ctx.slavelist) 0))
  rw [← hseg] at hsound
  obtain ⟨-,hlog',-⟩ := mapDirection_pad (inputs_place group _)
    (hplaced.ready hready) (l := { out.2.pad with wkc := 0 }) hpos holog hsound.1 hinp
  obtain ⟨p,hp⟩ : ∃ p : Stage,p=⟨inp.1,inp.2.pad.seg,out.2.pad.logAddr-ctx.group.logstartaddr,
    inp.2.pad.logAddr-ctx.group.logstartaddr-(out.2.pad.logAddr-ctx.group.logstartaddr),
    out.2.pad.seg.iosegment.length,out.2.pad.seg.segmentsize,out.2.pad.wkc,inp.2.pad.wkc⟩ := ⟨_,rfl⟩
  have hmode' : ¬ctx.overlappedMode=true := by
    rw [hmode]
    exact Bool.false_ne_true
  have hspan : ctx.group.logstartaddr+p.span ctx.overlappedMode=inp.2.pad.logAddr := by
    rw [Stage.span,if_neg hmode',hp]
    simp only at hlog hlog' ⊢
    omega
  have hst : p.status ctx group=mapStatus group 0 1 inp.1 ⟨inp.2.pad.logAddr,inp.2.pad.seg,
      ctx.group.mbxstatuslookup,ctx.group.mbxstatuslength,inp.2.pad.wkc⟩ := by
    rw [Stage.status,if_neg hmode',hspan,hp]
  have hentry := Segmenting.close_eq hsegments
  rw [← hst] at hentry
  refine ⟨p,?_,?_⟩
  · simp only [mainStage,hout,Option.bind_some,Option.bind_eq_bind,hinp,hclose,hp]
  · simp only [← hst,hentry] at h
    cases h
    have hgroup : p.group ctx group={ ctx.group with
        obytes := p.obytes, outputs := .ioMap 0, ibytes := p.ibytes, inputs := .ioMap p.obytes
        blockLRW := countBlockLRW group (p.status ctx group).1 ctx.group.blockLRW
        nsegments := ((p.status ctx group).2.seg.iosegment++
          [(p.status ctx group).2.seg.segmentsize]).length
        isegment := p.isegment, ioffset := p.ioffset
        outputsWKC := p.outputsWKC, inputsWKC := (p.status ctx group).2.wkc
        iosegment := (p.status ctx group).2.seg.iosegment++
          [(p.status ctx group).2.seg.segmentsize]
        mbxstatus := .ioMap (p.obytes+p.ibytes)
        mbxstatuslength := (p.status ctx group).2.logAddr-p.obytes-p.ibytes
        mbxstatuslookup := (p.status ctx group).2.lookup } := by
      rw [Stage.group,if_neg hmode',List.length_append]
      rfl
    refine ⟨rfl,rfl,?_,?_⟩
    · rw [hgroup,hp]
    · rw [hgroup,hp]

theorem configOverlapMapGroup_stage (hfresh : ctx.Fresh group) (hmode : ctx.overlappedMode=true)
    (h : configOverlapMapGroup ctx group=some (ctx',size)) :
    ∃ p,overlapStage ctx group=some p ∧ p.Leaves ctx ctx' group size := by
  rw [configOverlapMapGroup,if_pos ⟨hfresh.slaves,hfresh.known⟩] at h
  obtain ⟨io,hio,h⟩ := Option.bind_eq_some_iff.mp h
  obtain ⟨_,hclose,h⟩ := Option.bind_eq_some_iff.mp h
  obtain ⟨segments,hsegments,h⟩ := Option.bind_eq_some_iff.mp h
  obtain ⟨p,hp⟩ : ∃ p : Stage,p=⟨io.1.map (fun s =>
      if inGroup group s ∧ s.ibits≠0 then
        { s with inputs := s.inputs.add (io.2.soLogAddr-ctx.group.logstartaddr) } else s),
    io.2.seg,io.2.soLogAddr-ctx.group.logstartaddr,io.2.siLogAddr-ctx.group.logstartaddr,0,0,
    io.2.outputsWKC,io.2.inputsWKC⟩ := ⟨_,rfl⟩
  have hspan : ctx.group.logstartaddr+p.span ctx.overlappedMode=io.2.mLogAddr := by
    obtain ⟨hrun,-⟩ := overlapSlaves_spec
      (r := ⟨ctx.group.logstartaddr,ctx.group.logstartaddr,ctx.group.logstartaddr,.start,0,0⟩)
      ctx.group.logstartaddr ⟨Nat.le_refl _,Nat.le_refl _,(max_self _).symm⟩
      hfresh.ready hio
    have hlow := hrun.outputs
    have hlow' := hrun.inputs
    rw [Stage.span,if_pos hmode,hrun.top,hp]
    simp only
    omega
  have hst : p.status ctx group=mapStatus group (p.obytes+p.ibytes) 1 p.slavelist
      ⟨io.2.mLogAddr,io.2.seg,ctx.group.mbxstatuslookup,ctx.group.mbxstatuslength,
        io.2.inputsWKC⟩ := by
    rw [Stage.status,if_pos hmode,hspan,hp]
  have hentry := Segmenting.close_eq hsegments
  have hst' := hst
  simp only [hp] at hst'
  rw [← hst',← hp] at hentry
  refine ⟨p,?_,?_⟩
  · simp only [overlapStage,hio,Option.bind_some,Option.bind_eq_bind,hclose,hp]
  · simp only [← hst',← hp,hentry] at h
    cases h
    have hgroup : p.group ctx group={ ctx.group with
        obytes := p.obytes, outputs := .ioMap 0, ibytes := p.ibytes, inputs := .ioMap p.obytes
        blockLRW := countBlockLRW group (p.status ctx group).1 ctx.group.blockLRW
        nsegments := ((p.status ctx group).2.seg.iosegment++
          [(p.status ctx group).2.seg.segmentsize]).length
        isegment := p.isegment, ioffset := p.ioffset
        outputsWKC := p.outputsWKC, inputsWKC := (p.status ctx group).2.wkc
        iosegment := (p.status ctx group).2.seg.iosegment++
          [(p.status ctx group).2.seg.segmentsize]
        mbxstatus := .ioMap (p.obytes+p.ibytes)
        mbxstatuslength := (p.status ctx group).2.length
        mbxstatuslookup := (p.status ctx group).2.lookup } := by
      rw [Stage.group,if_pos hmode,List.length_append]
      rfl
    refine ⟨rfl,rfl,?_,?_⟩
    · rw [hgroup,hp]
    · rw [hgroup,hp]

theorem configMapGroup_stage (hfresh : ctx.Fresh group)
    (h : configMapGroup ctx group=some (ctx',size)) :
    ∃ p,stage ctx group=some p ∧ p.Sound ctx group ∧ p.Leaves ctx ctx' group size := by
  rw [configMapGroup] at h
  by_cases hmode : ctx.overlappedMode=true
  · rw [if_pos hmode] at h
    obtain ⟨p,hp,hleaves⟩ := configOverlapMapGroup_stage hfresh hmode h
    refine ⟨p,?_,overlapStage_sound hfresh hmode hp,hleaves⟩
    rw [stage,if_pos hmode]
    exact hp
  · rw [if_neg hmode] at h
    have hmain := Bool.eq_false_iff.mpr hmode
    obtain ⟨p,hp,hleaves⟩ := mainConfigMapGroup_stage hfresh hmain h
    refine ⟨p,?_,mainStage_sound hfresh hmain hp,hleaves⟩
    rw [stage,if_neg hmode]
    exact hp

end Leaves

/-- A slave with a mailbox and two bytes in each direction. -/
def mailboxSlave (group : Nat) : Slave where
  group := group
  mbxL := 128
  obits := 16
  ibits := 16
  obytes := 0
  ibytes := 0
  sm := fun i =>
    [Sm.mk 0x1000 128 1,Sm.mk 0x1080 128 2,Sm.mk 0x1100 2 3,Sm.mk 0x1180 2 4].getD i ⟨0,0,0⟩
  fmmu := fun _ => .zero
  fmmuUnused := 0
  outputs := .null 0
  ostartbit := 0
  inputs := .null 0
  istartbit := 0
  mbxstatus := .null 0
  blockLRW := false

/-- Slaves before the mapping. -/
def freshContext (slavelist : List Slave) (group : Nat) (packed overlapped : Bool) : Context where
  slavelist := slavelist
  group :=
    { logstartaddr := group*2^ecLogGroupOffset, obytes := 0, outputs := .null 0, ibytes := 0
      inputs := .null 0, hasdc := false, blockLRW := 0, nsegments := 0, isegment := 0
      ioffset := 0, outputsWKC := 0, inputsWKC := 0, iosegment := [], mbxstatus := .null 0
      mbxstatuslength := 0, mbxstatuslookup := [] }
  master := ⟨.null 0,0,.null 0,0,.null 0⟩
  packedMode := packed
  overlappedMode := overlapped

theorem freshContext_fresh {slavelist : List Slave} {group : Nat} (packed overlapped : Bool)
    (hslaves : slavelist≠[]) (hcount : slavelist.length < ecMaxSlave) (hknown : group < ecMaxGroup)
    (hfresh : ∀ s ∈ slavelist,s.Fresh) :
    (freshContext slavelist group packed overlapped).Fresh group :=
  ⟨hslaves,hcount,rfl,hknown,rfl,rfl,hfresh⟩

theorem mailboxSlave_fresh (group : Nat) : (mailboxSlave group).Fresh :=
  ⟨rfl,rfl,rfl,fun _ => rfl,rfl,rfl,rfl⟩

end EtherCATMaster.Mapping
