import EtherCATMaster.Mapping.BitPlaces
import EtherCATMaster.Mapping.Tables

namespace EtherCATMaster.Mapping

/-- How many FMMUs a direction with these bits takes when its sync managers are one run. -/
def fmmusFor (bits : UInt16) : Nat := if bits≠0 then 1 else 0

def Slave.statusBits (s : Slave) : UInt16 := if s.mbxL≠0 then 8 else 0

def Slave.outputEntry (s : Slave) : Fmmu := s.fmmu 0
def Slave.inputEntry (s : Slave) : Fmmu := s.fmmu (fmmusFor s.obits)
def Slave.statusEntry (s : Slave) : Fmmu := s.fmmu (fmmusFor s.obits+fmmusFor s.ibits)

def imageAreas (group : Nat) (slaves : List Slave) : List (Nat × Nat) :=
  areas Slave.obits group (fun s => s.outputEntry.bits) slaves++
    (areas Slave.ibits group (fun s => s.inputEntry.bits) slaves++
      areas Slave.statusBits group (fun s => s.statusEntry.bits) slaves)

/-- A pointer into the IO map and a start bit address the first of some logical bits. -/
def PointsTo (start : Nat) (pointer : Pointer) (startbit : Nat) (r : Nat × Nat) : Prop :=
  ∃ p,pointer=.ioMap p ∧ (start+p)*8+startbit=r.1

def Slave.demand (s : Slave) : Nat × UInt16 × UInt16 × UInt16 := (s.group,s.obits,s.ibits,s.mbxL)

/-- The process data of a mapped group. The areas of outputs, inputs and status bytes lie in this
order, those of each kind in the order of the slaves, within the size of the group. -/
structure Image (ctx ctx' : Context) (group size : Nat) : Prop where
  slaves : ctx'.slavelist.map Slave.demand=ctx.slavelist.map Slave.demand
  ordered : (imageAreas group ctx'.slavelist).Pairwise fun r r' => r.2 ≤ r'.1
  within : ∀ r ∈ imageAreas group ctx'.slavelist,
    ctx'.group.logstartaddr*8 ≤ r.1 ∧ r.2 ≤ (ctx'.group.logstartaddr+size)*8
  outputs : ∀ s ∈ ctx'.slavelist,inGroup group s → s.obits≠0 →
    LiesFor s.obits.toNat s.outputEntry.bits ∧ s.outputEntry.Live 2 s.outputEntry.bits ∧
      PointsTo ctx'.group.logstartaddr s.outputs s.ostartbit s.outputEntry.bits
  inputs : ∀ s ∈ ctx'.slavelist,inGroup group s → s.ibits≠0 →
    LiesFor s.ibits.toNat s.inputEntry.bits ∧ s.inputEntry.Live 1 s.inputEntry.bits ∧
      PointsTo ctx'.group.logstartaddr s.inputs s.istartbit s.inputEntry.bits
  status : ∀ s ∈ ctx'.slavelist,inGroup group s → s.mbxL≠0 →
    LiesFor 8 s.statusEntry.bits ∧ s.statusEntry.Live 1 s.statusEntry.bits ∧
      s.statusEntry.physStart=ectRegSm1Stat
  -- and there are no others
  idle : ∀ s ∈ ctx'.slavelist,inGroup group s → ∀ i,
    fmmusFor s.obits+fmmusFor s.ibits+fmmusFor s.statusBits ≤ i → (s.fmmu i).fmmuActive=0

section Create

variable {group start : Nat} {s : Slave}

def Slave.withFmmu (s : Slave) (f : Fmmu) : Slave :=
  { s with fmmu := Function.update s.fmmu s.fmmuUnused f, fmmuUnused := s.fmmuUnused+1 }

/-- What `pointerBase` makes of an FMMU is recorded with the slave. -/
structure Recorded (base : Nat) (pointer : Pointer) (startbit : Nat) (f : Fmmu) : Prop where
  pointer : pointer=.ioMap (f.logStart-base)
  startbit : startbit=f.logStartbit
  first : f.logStartbit ≤ 7

def OutputsOne (base : Nat) (s s' : Slave) : Prop :=
  ∃ f pointer startbit,s'={ s.withFmmu f with outputs := pointer, ostartbit := startbit } ∧
    Recorded base pointer startbit f ∧ f.Live 2 f.bits

def InputsOne (base : Nat) (s s' : Slave) : Prop :=
  ∃ f pointer startbit,s'={ s.withFmmu f with inputs := pointer, istartbit := startbit } ∧
    Recorded base pointer startbit f ∧ f.Live 1 f.bits

theorem Fmmu.Live.own {f : Fmmu} {fmmuType : Nat} {r : Nat × Nat} (h : f.Live fmmuType r) :
    f.Live fmmuType f.bits := ⟨rfl,h.active,h.type⟩

def MapsOne (create : Slave → Nat → Nat → Option (Slave × Nat × Nat)) (bits : Slave → UInt16)
    (entry : Slave → Fmmu) (ready : Slave → Prop) (done : Slave → Slave → Prop) : Prop :=
  ∀ s logAddr bitPos,ready s → bits s≠0 → bitPos ≤ 7 → ∃ s' logAddr' bitPos',
    create s logAddr bitPos=some (s',logAddr',bitPos') ∧
      (entry s').bits=bitPlace (bits s).toNat (logAddr*8+bitPos) ∧
      logAddr'*8+bitPos'=(bitPlace (bits s).toNat (logAddr*8+bitPos)).2 ∧ bitPos' ≤ 7 ∧
      s'.group=s.group ∧ bits s'=bits s ∧ done s s'

/-- A slave of the group when the loop over the outputs comes to it. -/
structure Slave.OutputsReady (s : Slave) : Prop where
  unmapped : s.Unmapped
  run : OneRun s.sm 3 s.obits.toNat
  pointer : s.outputs=.null 0

theorem outputs_mapsOne (group start : Nat) :
    MapsOne (createOutputMappings group start) Slave.obits Slave.outputEntry Slave.OutputsReady
      (OutputsOne (pointerBase group start)) := by
  intro s logAddr bitPos hs hbits hpos
  have hunused := hs.unmapped.unused
  have hroom : s.fmmuUnused < ecMaxFmmu := by
    rw [hunused]
    decide
  obtain ⟨r',f,hr',hone⟩ := mapFmmus_one (pointerBase group start) (d := s.outputDirection)
    ⟨bits_pos hbits,hs.unmapped.ready.obytes⟩ hs.run (r := s.outputRun logAddr bitPos) rfl rfl
    hroom hpos
  have hfmmu : r'.fmmu=Function.update s.fmmu s.fmmuUnused f := hone.fmmu
  have hpointer : r'.pointer=.ioMap (f.logStart-pointerBase group start) :=
    hone.pointer.trans (if_pos hs.pointer)
  have hstartbit : r'.startbit=f.logStartbit := hone.startbit.trans (if_pos hs.pointer)
  refine ⟨{ s with fmmu := r'.fmmu, fmmuUnused := r'.fmmuc, outputs := r'.pointer,
                   ostartbit := r'.startbit },r'.logAddr,r'.bitPos,?_,?_,hone.stop,hone.bitPos,rfl,
    rfl,f,r'.pointer,r'.startbit,?_,⟨hpointer,hstartbit,hone.first⟩,hone.live.own⟩
  · rw [createOutputMappings]
    exact congrArg (· >>= _) hr'
  · simp only [Slave.outputEntry,hfmmu,hunused,Function.update_self]
    exact hone.live.bits
  · rw [hfmmu,show r'.fmmuc=s.fmmuUnused+1 from hone.fmmuc]
    rfl

/-- A slave of the group when the loop over the inputs comes to it. -/
structure Slave.InputsReady (s : Slave) : Prop where
  left : s.InputsLeft
  unused : s.fmmuUnused=fmmusFor s.obits
  run : OneRun s.sm 4 s.ibits.toNat
  pointer : s.inputs=.null 0

theorem inputs_mapsOne (group start : Nat) :
    MapsOne (createInputMappings group start) Slave.ibits Slave.inputEntry Slave.InputsReady
      (InputsOne (pointerBase group start)) := by
  intro s logAddr bitPos hs hbits hpos
  have hunused := hs.unused
  have hroom : s.fmmuUnused < ecMaxFmmu := by
    rw [hunused,fmmusFor]
    split_ifs <;> decide
  obtain ⟨r',f,hr',hone⟩ := mapFmmus_one (pointerBase group start) (d := s.inputDirection)
    ⟨bits_pos hbits,hs.left.ibytes⟩ hs.run (r := s.inputRun s.fmmuUnused logAddr bitPos) rfl rfl
    hroom hpos
  have hfmmu : r'.fmmu=Function.update s.fmmu s.fmmuUnused f := hone.fmmu
  have hpointer : r'.pointer=.ioMap (f.logStart-pointerBase group start) :=
    hone.pointer.trans (if_pos hs.pointer)
  have hstartbit : r'.startbit=f.logStartbit := hone.startbit.trans (if_pos hs.pointer)
  have hfree : freeFmmu s.fmmu (ecMaxFmmu+1) s.fmmuUnused=some s.fmmuUnused := by
    rw [freeFmmu,if_pos hroom,if_neg (fun hused => hused (hs.left.free _ le_rfl))]
  refine ⟨{ s with fmmu := r'.fmmu, fmmuUnused := r'.fmmuc, inputs := r'.pointer,
                   istartbit := r'.startbit },r'.logAddr,r'.bitPos,?_,?_,hone.stop,hone.bitPos,rfl,
    rfl,f,r'.pointer,r'.startbit,?_,⟨hpointer,hstartbit,hone.first⟩,hone.live.own⟩
  · rw [createInputMappings]
    by_cases hout : s.obits≠0
    · rw [if_pos hout]
      exact (congrArg (· >>= _) hfree).trans (congrArg (· >>= _) hr')
    · rw [if_neg hout]
      exact congrArg (· >>= _) hr'
  · simp only [Slave.inputEntry,hfmmu,hunused,Function.update_self]
    exact hone.live.bits
  · rw [hfmmu,show r'.fmmuc=s.fmmuUnused+1 from hone.fmmuc]
    rfl

end Create

section Loop

variable {create : Slave → Nat → Nat → Option (Slave × Nat × Nat)} {bits : Slave → UInt16}
  {entry : Slave → Fmmu} {ready : Slave → Prop} {done : Slave → Slave → Prop} {packed : Bool}
  {group : Nat}

theorem alignByte_bits (packed : Bool) (logAddr : Nat) {bitPos : Nat} (hpos : bitPos ≤ 7) :
    (alignByte packed logAddr bitPos).1*8+(alignByte packed logAddr bitPos).2=
        (if packed=false then byteBorder (logAddr*8+bitPos) else logAddr*8+bitPos) ∧
      (alignByte packed logAddr bitPos).2 ≤ 7 := by
  rw [alignByte,byteBorder]
  by_cases hmode : packed=false
  · rw [if_pos hmode]
    by_cases hbit : bitPos≠0
    · rw [if_pos ⟨hmode,hbit⟩]
      simp only
      omega
    · rw [if_neg fun h => hbit h.2]
      simp only
      omega
  · rw [if_neg hmode,if_neg fun h => hmode h.1]
    exact ⟨rfl,hpos⟩

theorem mapDirection_follow (packed : Bool) (hcreate : MapsOne create bits entry ready done)
    {slaves : List Slave} {l : Layout} (hready : ∀ s ∈ slaves,inGroup group s → ready s) (hpos : l.bitPos ≤ 7) :
    ∃ slaves' l',mapDirection create bits packed group slaves l=some (slaves',l') ∧
      Follow bits packed group (fun s => (entry s).bits) (l.logAddr*8+l.bitPos) slaves'
        (l'.logAddr*8+l'.bitPos) ∧ l'.bitPos ≤ 7 ∧
      List.Forall₂ (fun s s' => if inGroup group s ∧ bits s≠0 then done s s' else s'=s)
        slaves slaves' := by
  induction slaves generalizing l with
  | nil => exact ⟨[],l,rfl,.nil _,hpos,.nil⟩
  | cons s rest ih =>
    have hrest : ∀ x ∈ rest,inGroup group x → ready x :=
      fun x hx => hready x (List.mem_cons_of_mem s hx)
    by_cases hin : inGroup group s ∧ bits s≠0
    · obtain ⟨s',logAddr',bitPos',hc,hbits,hstop,hpos',hgroup,hsame,hdone⟩ :=
        hcreate s l.logAddr l.bitPos (hready s List.mem_cons_self hin.1) hin.2 hpos
      obtain ⟨halign,hle⟩ := alignByte_bits packed logAddr' hpos'
      obtain ⟨slaves',l',hl',hfollow,hpos'',hall⟩ := ih (l := l.place packed logAddr' bitPos') hrest
        hle
      refine ⟨s'::slaves',l',?_,?_,hpos'',.cons ?_ hall⟩
      · rw [mapDirection,if_pos hin]
        simp only [hc,hl',Option.bind_eq_bind,Option.bind_some]
      · refine .place _ _ _ _ ?_ ?_ ?_
        · rw [inGroup,hgroup,hsame]
          exact hin
        · rw [hbits,hsame]
        · rw [hsame,bitStop,← hstop,← halign]
          exact hfollow
      · rw [if_pos hin]
        exact hdone
    · obtain ⟨slaves',l',hl',hfollow,hpos',hall⟩ := ih (l := l) hrest hpos
      refine ⟨s::slaves',l',?_,.skip _ _ _ _ hin hfollow,hpos',.cons ?_ hall⟩
      · rw [mapDirection,if_neg hin]
        simp only [hl',Option.bind_eq_bind,Option.bind_some]
      · rw [if_neg hin]

theorem pad_bits {l : Layout} (hpos : l.bitPos ≤ 7) :
    l.pad.logAddr*8=byteBorder (l.logAddr*8+l.bitPos) ∧ l.pad.bitPos=0 := by
  rw [Layout.pad,byteBorder]
  by_cases hbit : l.bitPos≠0
  · rw [if_pos hbit]
    exact ⟨by simp only; omega,rfl⟩
  · rw [if_neg hbit]
    exact ⟨by omega,not_not.mp hbit⟩

def StatusOne (s s' : Slave) : Prop :=
  ∃ f pointer,s'={ s.withFmmu f with mbxstatus := pointer } ∧ f.Live 1 f.bits ∧
    f.physStart=ectRegSm1Stat

/-- The loop over the status bytes, for slaves with an FMMU left. -/
theorem mapStatus_follow (moved : Nat) {slaves : List Slave} : ∀ (no : Nat) {r : StatusRun},
    (∀ s ∈ slaves,inGroup group s →
      s.fmmuUnused=fmmusFor s.obits+fmmusFor s.ibits) →
    Follow Slave.statusBits false group (fun s => s.statusEntry.bits) (r.logAddr*8)
        (mapStatus group moved no slaves r).1 ((mapStatus group moved no slaves r).2.logAddr*8) ∧
      List.Forall₂ (fun s s' => if inGroup group s then
          if s.statusBits≠0 then StatusOne s s' else ∃ pointer,s'={ s with mbxstatus := pointer }
        else s'=s) slaves (mapStatus group moved no slaves r).1 := by
  induction slaves with
  | nil => exact fun _ _ _ => ⟨.nil _,.nil⟩
  | cons s rest ih =>
    intro no r hslaves
    have hrest : ∀ x ∈ rest,inGroup group x → x.fmmuUnused=fmmusFor x.obits+fmmusFor x.ibits :=
      fun x hx => hslaves x (List.mem_cons_of_mem s hx)
    by_cases hin : inGroup group s
    · have hunused := hslaves s List.mem_cons_self hin
      have hroom : s.fmmuUnused < ecMaxFmmu := by
        rw [hunused,fmmusFor,fmmusFor]
        split_ifs <;> decide
      rw [mapStatus,if_pos hin]
      by_cases hmbx : s.mbxL≠0
      · have hbits : s.statusBits=8 := if_pos hmbx
        have hwidth : s.statusBits.toNat=8 := by
          rw [hbits]
          rfl
        have hcreate : createMbxstatusMappings no s r=({ s.withFmmu
            ⟨r.logAddr,1,0,7,ectRegSm1Stat,1,1⟩ with mbxstatus := .ioMap r.logAddr },
            (createMbxstatusMappings no s r).2) ∧
            (createMbxstatusMappings no s r).2.logAddr=r.logAddr+1 := by
          rw [createMbxstatusMappings,if_pos ⟨hmbx,hroom⟩]
          exact ⟨rfl,rfl⟩
        obtain ⟨hcreate,hnext⟩ := hcreate
        obtain ⟨hfollow,hall⟩ := ih (no+1) (r := { (createMbxstatusMappings no s r).2 with
          seg := r.seg.status ((createMbxstatusMappings no s r).2.logAddr-r.logAddr) }) hrest
        refine ⟨.place _ _ _ _ ?_ ?_ ?_,.cons ?_ hall⟩
        · rw [hcreate]
          refine ⟨hin,?_⟩
          change s.statusBits≠0
          rw [hbits]
          decide
        · rw [hcreate]
          change _=bitPlace s.statusBits.toNat (r.logAddr*8)
          rw [hwidth,(bitPlace_byte r.logAddr).1]
          simp only [Slave.statusEntry,Slave.withFmmu,hunused,Function.update_self,Fmmu.bits]
          refine Prod.ext rfl ?_
          simp only
          omega
        · rw [hcreate]
          change Follow _ _ _ _ (bitStop false s.statusBits.toNat (r.logAddr*8)) _ _
          rw [hwidth,(bitPlace_byte r.logAddr).2,← hnext]
          exact hfollow
        · rw [if_pos hin,if_pos (by rw [hbits]; decide),hcreate]
          exact ⟨_,_,rfl,⟨rfl,rfl,rfl⟩,rfl⟩
      · have hbits : s.statusBits=0 := if_neg hmbx
        have hcreate : createMbxstatusMappings no s r=(s,r) := by
          rw [createMbxstatusMappings,if_neg fun h => hmbx h.1]
        obtain ⟨hfollow,hall⟩ := ih (no+1)
          (r := { r with seg := r.seg.status (r.logAddr-r.logAddr) }) hrest
        simp only [hcreate]
        refine ⟨.skip _ _ _ _ ?_ hfollow,.cons ?_ hall⟩
        · rintro ⟨-,hsome⟩
          exact hsome hbits
        · rw [if_pos hin,if_neg (not_not.mpr hbits)]
          exact ⟨_,rfl⟩
    · rw [mapStatus,if_neg hin]
      obtain ⟨hfollow,hall⟩ := ih (no+1) (r := r) hrest
      refine ⟨.skip _ _ _ _ (fun h => hin h.1) hfollow,.cons ?_ hall⟩
      rw [if_neg hin]

end Loop

section Stages

variable {group base : Nat} {s s' : Slave}

/-- The outputs of a slave are mapped. -/
structure Slave.OutputsDone (s : Slave) (base : Nat) : Prop where
  recorded : s.obits≠0 → Recorded base s.outputs s.ostartbit s.outputEntry
  live : s.obits≠0 → s.outputEntry.Live 2 s.outputEntry.bits

structure Slave.InputsDone (s : Slave) (base : Nat) : Prop where
  recorded : s.ibits≠0 → Recorded base s.inputs s.istartbit s.inputEntry
  live : s.ibits≠0 → s.inputEntry.Live 1 s.inputEntry.bits

structure Slave.StatusDone (s : Slave) : Prop where
  live : s.mbxL≠0 → s.statusEntry.Live 1 s.statusEntry.bits
  place : s.mbxL≠0 → s.statusEntry.physStart=ectRegSm1Stat

def Slave.IdleFrom (s : Slave) (n : Nat) : Prop := ∀ i,n ≤ i → (s.fmmu i).fmmuActive=0

/-- A slave with one run of sync managers in each direction, before it is mapped. -/
structure Slave.Runs (s : Slave) : Prop where
  unmapped : s.Unmapped
  outputs : s.outputs=.null 0
  inputs : s.inputs=.null 0
  outputRun : OneRun s.sm 3 s.obits.toNat
  inputRun : OneRun s.sm 4 s.ibits.toNat

/-- A slave of the group behind the loop over the outputs. -/
structure Slave.BehindOutputs (s : Slave) (base : Nat) : Prop where
  ready : s.InputsReady
  outputs : s.OutputsDone base
  idle : s.IdleFrom (fmmusFor s.obits)

/-- A slave of the group behind the loop over the inputs. -/
structure Slave.BehindInputs (s : Slave) (base : Nat) : Prop where
  unused : s.fmmuUnused=fmmusFor s.obits+fmmusFor s.ibits
  outputs : s.OutputsDone base
  inputs : s.InputsDone base
  idle : s.IdleFrom (fmmusFor s.obits+fmmusFor s.ibits)

/-- A slave of the group behind the loop over the status bytes. -/
structure Slave.BehindStatus (s : Slave) (base : Nat) : Prop where
  outputs : s.OutputsDone base
  inputs : s.InputsDone base
  status : s.StatusDone
  idle : s.IdleFrom (fmmusFor s.obits+fmmusFor s.ibits+fmmusFor s.statusBits)

theorem fmmusFor_some {bits : UInt16} (h : bits≠0) : fmmusFor bits=1 := if_pos h

theorem fmmusFor_none {bits : UInt16} (h : ¬bits≠0) : fmmusFor bits=0 := if_neg h

theorem Slave.IdleFrom.withFmmu {n : Nat} (h : s.IdleFrom n) (hunused : s.fmmuUnused=n) (f : Fmmu) :
    (s.withFmmu f).IdleFrom (n+1) := by
  intro i hi
  simp only [Slave.withFmmu]
  rw [Function.update_of_ne (by omega)]
  exact h i (by omega)

theorem Slave.Runs.behindOutputs (hs : s.Runs)
    (h : if inGroup group s ∧ s.obits≠0 then OutputsOne base s s' else s'=s)
    (hin : inGroup group s) : s'.BehindOutputs base ∧ s'.demand=s.demand := by
  have hunused := hs.unmapped.unused
  by_cases hbits : s.obits≠0
  · rw [if_pos ⟨hin,hbits⟩] at h
    obtain ⟨f,pointer,startbit,rfl,hrecorded,hlive⟩ := h
    have hone := fmmusFor_some hbits
    have hentry : Function.update s.fmmu s.fmmuUnused f 0=f := by
      rw [hunused,Function.update_self]
    have hidle : s.IdleFrom 0 := fun i _ => hs.unmapped.ready.idle i (by omega)
    refine ⟨⟨⟨⟨hs.unmapped.ready.ibytes,?_⟩,?_,hs.inputRun,hs.inputs⟩,⟨fun _ => ?_,fun _ => ?_⟩,?_⟩,
      rfl⟩
    · intro i hi
      simp only [Slave.withFmmu] at hi ⊢
      rw [Function.update_of_ne (by omega)]
      exact hs.unmapped.free i
    · simp only [Slave.withFmmu,hunused,hone]
    · simp only [Slave.outputEntry,Slave.withFmmu,hentry]
      exact hrecorded
    · simp only [Slave.outputEntry,Slave.withFmmu,hentry]
      exact hlive
    · change (s.withFmmu f).IdleFrom (fmmusFor s.obits)
      rw [hone]
      exact hidle.withFmmu hunused f
  · rw [if_neg fun h => hbits h.2] at h
    subst h
    have hnone := fmmusFor_none hbits
    refine ⟨⟨⟨⟨hs.unmapped.ready.ibytes,fun i _ => hs.unmapped.free i⟩,?_,hs.inputRun,hs.inputs⟩,
      ⟨fun hb => absurd hb hbits,fun hb => absurd hb hbits⟩,?_⟩,rfl⟩
    · rw [hunused,hnone]
    · intro i _
      exact hs.unmapped.ready.idle i (by omega)

theorem Slave.BehindOutputs.behindInputs (hs : s.BehindOutputs base)
    (h : if inGroup group s ∧ s.ibits≠0 then InputsOne base s s' else s'=s)
    (hin : inGroup group s) : s'.BehindInputs base ∧ s'.demand=s.demand ∧
      (s.obits≠0 → s'.outputEntry=s.outputEntry) := by
  have hunused := hs.ready.unused
  by_cases hbits : s.ibits≠0
  · rw [if_pos ⟨hin,hbits⟩] at h
    obtain ⟨f,pointer,startbit,rfl,hrecorded,hlive⟩ := h
    have hone := fmmusFor_some hbits
    have hentry : Function.update s.fmmu s.fmmuUnused f (fmmusFor s.obits)=f := by
      rw [hunused,Function.update_self]
    have hkept : s.obits≠0 → Function.update s.fmmu s.fmmuUnused f 0=s.fmmu 0 := by
      intro hobits
      rw [hunused,fmmusFor_some hobits]
      exact Function.update_of_ne Nat.zero_ne_one _ _
    refine ⟨⟨?_,⟨fun hb => ?_,fun hb => ?_⟩,⟨fun _ => ?_,fun _ => ?_⟩,?_⟩,rfl,hkept⟩
    · simp only [Slave.withFmmu,hunused,hone]
    · simp only [Slave.outputEntry,Slave.withFmmu,hkept hb]
      exact hs.outputs.recorded hb
    · simp only [Slave.outputEntry,Slave.withFmmu,hkept hb]
      exact hs.outputs.live hb
    · simp only [Slave.inputEntry,Slave.withFmmu,hentry]
      exact hrecorded
    · simp only [Slave.inputEntry,Slave.withFmmu,hentry]
      exact hlive
    · change (s.withFmmu f).IdleFrom (fmmusFor s.obits+fmmusFor s.ibits)
      rw [hone]
      exact hs.idle.withFmmu hunused f
  · rw [if_neg fun h => hbits h.2] at h
    subst h
    have hnone : fmmusFor s'.obits+fmmusFor s'.ibits=fmmusFor s'.obits := by
      rw [fmmusFor_none hbits,Nat.add_zero]
    refine ⟨⟨hunused.trans hnone.symm,hs.outputs,
      ⟨fun hb => absurd hb hbits,fun hb => absurd hb hbits⟩,?_⟩,rfl,fun _ => rfl⟩
    rw [hnone]
    exact hs.idle

theorem Slave.BehindInputs.behindStatus (hs : s.BehindInputs base)
    (h : if s.statusBits≠0 then StatusOne s s' else ∃ pointer,s'={ s with mbxstatus := pointer }) :
    s'.BehindStatus base ∧ s'.demand=s.demand ∧ (s.obits≠0 → s'.outputEntry=s.outputEntry) ∧
      (s.ibits≠0 → s'.inputEntry=s.inputEntry) := by
  have hunused := hs.unused
  by_cases hbits : s.statusBits≠0
  · rw [if_pos hbits] at h
    obtain ⟨f,pointer,rfl,hlive,hphys⟩ := h
    have hone := fmmusFor_some hbits
    have hentry : Function.update s.fmmu s.fmmuUnused f (fmmusFor s.obits+fmmusFor s.ibits)=f := by
      rw [hunused,Function.update_self]
    have hout : s.obits≠0 → Function.update s.fmmu s.fmmuUnused f 0=s.fmmu 0 := by
      intro hobits
      rw [hunused,fmmusFor_some hobits]
      exact Function.update_of_ne (by omega) _ _
    have hinp : s.ibits≠0 →
        Function.update s.fmmu s.fmmuUnused f (fmmusFor s.obits)=s.fmmu (fmmusFor s.obits) := by
      intro hibits
      rw [hunused,fmmusFor_some hibits]
      exact Function.update_of_ne (by omega) _ _
    refine ⟨⟨⟨fun hb => ?_,fun hb => ?_⟩,⟨fun hb => ?_,fun hb => ?_⟩,⟨fun _ => ?_,fun _ => ?_⟩,?_⟩,
      rfl,hout,hinp⟩
    · simp only [Slave.outputEntry,Slave.withFmmu,hout hb]
      exact hs.outputs.recorded hb
    · simp only [Slave.outputEntry,Slave.withFmmu,hout hb]
      exact hs.outputs.live hb
    · simp only [Slave.inputEntry,Slave.withFmmu,hinp hb]
      exact hs.inputs.recorded hb
    · simp only [Slave.inputEntry,Slave.withFmmu,hinp hb]
      exact hs.inputs.live hb
    · simp only [Slave.statusEntry,Slave.withFmmu,hentry]
      exact hlive
    · simp only [Slave.statusEntry,Slave.withFmmu,hentry]
      exact hphys
    · change (s.withFmmu f).IdleFrom (fmmusFor s.obits+fmmusFor s.ibits+fmmusFor s.statusBits)
      rw [hone]
      exact hs.idle.withFmmu hunused f
  · rw [if_neg hbits] at h
    obtain ⟨pointer,rfl⟩ := h
    have hnone : ¬s.mbxL≠0 := by
      intro hmbx
      rw [Slave.statusBits,if_pos hmbx] at hbits
      exact hbits (by decide)
    refine ⟨⟨⟨hs.outputs.recorded,hs.outputs.live⟩,⟨hs.inputs.recorded,hs.inputs.live⟩,
      ⟨fun hb => absurd hb hnone,fun hb => absurd hb hnone⟩,?_⟩,rfl,fun _ => rfl,fun _ => rfl⟩
    change s.IdleFrom (fmmusFor s.obits+fmmusFor s.ibits+fmmusFor s.statusBits)
    rw [fmmusFor_none hbits]
    exact hs.idle

end Stages

end EtherCATMaster.Mapping
