import EtherCATMaster.Mapping.FmmuNeed
import EtherCATMaster.Mapping.Packing
import EtherCATMaster.Mapping.Stage

namespace EtherCATMaster.Mapping

def overlapPieces (group : Nat) (slaves : List Slave) : List Nat :=
  (slaves.filter fun s => decide (inGroup group s)).map
    fun s => max ((s.ibits.toNat+7)/8) ((s.obits.toNat+7)/8)

/-- The bytes that are put into segments one after the other, for each slave of the group and for
the bits that are left over. -/
def Context.pieces (ctx : Context) (group : Nat) : List Nat :=
  if ctx.overlappedMode=true then
    overlapPieces group ctx.slavelist
  else padded (Mapping.pieces Slave.obits ctx.packedMode group ctx.slavelist 0)++
    padded (Mapping.pieces Slave.ibits ctx.packedMode group ctx.slavelist 0)

/-- The FMMUs of every slave suffice for it, and the segments for the group. -/
structure TablesSuffice (ctx : Context) (group : Nat) : Prop where
  fmmus : ∀ s ∈ ctx.slavelist,inGroup group s → s.FmmusSuffice
  segments : putPieces ecFirstDcDatagram (ctx.pieces group) ≤ ecMaxIoSegments*ecMaxLrwData

/-- A slave whose lengths are known and whose FMMUs are all free. -/
structure Slave.Unmapped (s : Slave) : Prop where
  ready : s.Ready
  unused : s.fmmuUnused=0
  free : ∀ i,(s.fmmu i).logStart=0

theorem Slave.Fresh.mapSm_unmapped {s : Slave} (h : s.Fresh) : (mapSm s).Unmapped :=
  ⟨h.ready,h.unused,fun i => congrArg Fmmu.logStart (h.fmmu i)⟩

section Create

variable {group start : Nat} {s s' : Slave} {logAddr bitPos : Nat} {stop : Nat × Nat}

theorem bits_pos {bits : UInt16} (h : bits≠0) : 0 < bits.toNat :=
  Nat.pos_of_ne_zero fun hz => h (UInt16.toNat_inj.mp hz)

theorem createOutputMappings_takes (hs : s.Unmapped) (hbits : s.obits≠0)
    (h : createOutputMappings group start s logAddr bitPos=some (s',stop)) :
    s'.ibits=s.ibits ∧ s'.sm=s.sm ∧ s'.ibytes=s.ibytes ∧ s'.fmmuUnused ≤ ecMaxFmmu ∧
      FitsIn s.sm 3 s.obits.toNat s'.fmmuUnused ∧
      ∀ i,s'.fmmuUnused ≤ i → (s'.fmmu i).logStart=0 := by
  obtain ⟨r,hr,heq⟩ := Option.bind_eq_some_iff.mp h
  cases heq
  obtain ⟨k,hk,hfits⟩ := mapFmmus_fitsIn (d := s.outputDirection) ⟨bits_pos hbits,hs.ready.obytes⟩
    rfl rfl hr
  obtain ⟨-,hkept⟩ := mapFmmus_kept hr
  have hcount : r.fmmuc=k := by
    rw [hk]
    simp only [hs.unused,Nat.zero_add]
  refine ⟨rfl,rfl,rfl,mapFmmus_room hs.ready.room hr,?_,fun i hi => ?_⟩
  · simp only [hcount]
    exact hfits
  · exact (congrArg Fmmu.logStart (hkept i hi)).trans (hs.free i)

theorem createOutputMappings_fits (group start : Nat) (hs : s.Unmapped) (hbits : s.obits≠0) {k : Nat}
    (hroom : k ≤ ecMaxFmmu) (hfits : FitsIn s.sm 3 s.obits.toNat k) (logAddr bitPos : Nat) :
    ∃ s' stop,createOutputMappings group start s logAddr bitPos=some (s',stop) ∧
      s'.fmmuUnused ≤ k := by
  have hunused := hs.unused
  obtain ⟨r,hr,hle⟩ := FitsIn.mapFmmus (d := s.outputDirection) (pointerBase group start)
    (r := s.outputRun logAddr bitPos) hfits ⟨bits_pos hbits,hs.ready.obytes⟩ rfl rfl
    (show s.fmmuUnused+k ≤ ecMaxFmmu by omega)
  refine ⟨{ s with fmmu := r.fmmu, fmmuUnused := r.fmmuc, outputs := r.pointer,
                   ostartbit := r.startbit },(r.logAddr,r.bitPos),?_,?_⟩
  · rw [createOutputMappings]
    exact congrArg (· >>= _) hr
  · have hcount : (s.outputRun logAddr bitPos).fmmuc=s.fmmuUnused := rfl
    simp only
    omega

theorem createOutputMappings_iff (group start : Nat) (hs : s.Unmapped) (hbits : s.obits≠0) (logAddr bitPos : Nat) :
    (∃ r,createOutputMappings group start s logAddr bitPos=some r) ↔
      ∃ k,k ≤ ecMaxFmmu ∧ FitsIn s.sm 3 s.obits.toNat k := by
  constructor
  · rintro ⟨⟨s',stop⟩,h⟩
    obtain ⟨-,-,-,hroom,hfits,-⟩ := createOutputMappings_takes hs hbits h
    exact ⟨s'.fmmuUnused,hroom,hfits⟩
  · rintro ⟨k,hroom,hfits⟩
    obtain ⟨s',stop,h,-⟩ := createOutputMappings_fits group start hs hbits
      hroom hfits logAddr bitPos
    exact ⟨(s',stop),h⟩

/-- A slave whose outputs have been mapped, or that has none. -/
structure Slave.InputsLeft (s : Slave) : Prop where
  ibytes : s.ibytes=if s.ibits.toNat>7 then (s.ibits.toNat+7)/8 else 0
  free : ∀ i,s.fmmuUnused ≤ i → (s.fmmu i).logStart=0

theorem createInputMappings_run
    (h : createInputMappings group start s logAddr bitPos=some (s',stop)) :
    ∃ fmmuc,s.fmmuUnused ≤ fmmuc ∧ ∃ r,
      mapFmmus s.sm s.inputDirection (pointerBase group start) ecMaxFmmu
        (s.inputRun fmmuc logAddr bitPos)=some r ∧
      s'={ s with fmmu := r.fmmu, fmmuUnused := r.fmmuc, inputs := r.pointer,
                  istartbit := r.startbit } := by
  simp only [createInputMappings] at h
  by_cases hout : s.obits≠0
  · rw [if_pos hout] at h
    obtain ⟨fmmuc,hfree,h⟩ := Option.bind_eq_some_iff.mp h
    obtain ⟨r,hr,heq⟩ := Option.bind_eq_some_iff.mp h
    cases heq
    exact ⟨fmmuc,(freeFmmu_le hfree).1,r,hr,rfl⟩
  · rw [if_neg hout] at h
    simp only [Option.bind_eq_bind,Option.bind_some] at h
    obtain ⟨r,hr,heq⟩ := Option.bind_eq_some_iff.mp h
    cases heq
    exact ⟨s.fmmuUnused,le_rfl,r,hr,rfl⟩

theorem createInputMappings_takes (hs : s.InputsLeft) (hbits : s.ibits≠0)
    (h : createInputMappings group start s logAddr bitPos=some (s',stop)) :
    s'.fmmuUnused ≤ ecMaxFmmu ∧
      ∃ k,s.fmmuUnused+k ≤ s'.fmmuUnused ∧ FitsIn s.sm 4 s.ibits.toNat k := by
  have hsized : s.inputDirection.Sized := ⟨bits_pos hbits,hs.ibytes⟩
  obtain ⟨fmmuc,hle,r,hr,rfl⟩ := createInputMappings_run h
  obtain ⟨k,hk,hfits⟩ := mapFmmus_fitsIn hsized rfl rfl hr
  have hsome := hsized.some
  have hmore : (s.inputRun fmmuc logAddr bitPos).sms.smc < ecMaxSm ∧
      (s.inputRun fmmuc logAddr bitPos).fmmuDone<(s.inputDirection.bits+7)/8 :=
    ⟨show smsStart.smc < ecMaxSm by decide,show 0<(s.inputDirection.bits+7)/8 by omega⟩
  obtain ⟨-,-,hlt,-⟩ := mapFmmus_step hmore hr
  have hcount : (s.inputRun fmmuc logAddr bitPos).fmmuc=fmmuc := rfl
  refine ⟨mapFmmus_room hlt.le hr,k,?_,hfits⟩
  simp only
  omega

theorem createInputMappings_fits (group start : Nat) (hs : s.InputsLeft) (hbits : s.ibits≠0)
    {k : Nat} (hroom : s.fmmuUnused+k ≤ ecMaxFmmu) (hfits : FitsIn s.sm 4 s.ibits.toNat k)
    (logAddr bitPos : Nat) :
    ∃ s' stop,createInputMappings group start s logAddr bitPos=some (s',stop) ∧
      s'.fmmuUnused ≤ s.fmmuUnused+k := by
  have hsized : s.inputDirection.Sized := ⟨bits_pos hbits,hs.ibytes⟩
  have hpos := hfits.pos (Nat.pos_iff_ne_zero.mp hsized.some)
  obtain ⟨r,hr,hle⟩ := FitsIn.mapFmmus (d := s.inputDirection) (pointerBase group start)
    (r := s.inputRun s.fmmuUnused logAddr bitPos) hfits hsized rfl rfl hroom
  have hfree : freeFmmu s.fmmu (ecMaxFmmu+1) s.fmmuUnused=some s.fmmuUnused := by
    rw [freeFmmu,if_pos (by omega),if_neg (fun hused => hused (hs.free _ le_rfl))]
  refine ⟨{ s with fmmu := r.fmmu, fmmuUnused := r.fmmuc, inputs := r.pointer,
                   istartbit := r.startbit },(r.logAddr,r.bitPos),?_,hle⟩
  rw [createInputMappings]
  by_cases hout : s.obits≠0
  · rw [if_pos hout]
    exact (congrArg (· >>= _) hfree).trans (congrArg (· >>= _) hr)
  · rw [if_neg hout]
    exact congrArg (· >>= _) hr

theorem createInputMappings_iff (group start : Nat) (hs : s.InputsLeft) (hbits : s.ibits≠0)
    (logAddr bitPos : Nat) :
    (∃ r,createInputMappings group start s logAddr bitPos=some r) ↔
      ∃ k,s.fmmuUnused+k ≤ ecMaxFmmu ∧ FitsIn s.sm 4 s.ibits.toNat k := by
  constructor
  · rintro ⟨⟨s',stop⟩,h⟩
    obtain ⟨hroom,k,hk,hfits⟩ := createInputMappings_takes hs hbits h
    exact ⟨k,hk.trans hroom,hfits⟩
  · rintro ⟨k,hroom,hfits⟩
    obtain ⟨s',stop,h,-⟩ := createInputMappings_fits group start hs hbits hroom hfits logAddr bitPos
    exact ⟨(s',stop),h⟩

def OutputsMapped (group start : Nat) (s s' : Slave) : Prop :=
  if s.obits≠0 then
    ∃ logAddr bitPos stop,createOutputMappings group start s logAddr bitPos=some (s',stop)
  else s'=s

theorem OutputsMapped.device (h : OutputsMapped group start s s') : s'.device=s.device := by
  rw [OutputsMapped] at h
  by_cases hbits : s.obits≠0
  · rw [if_pos hbits] at h
    obtain ⟨logAddr,bitPos,stop,h⟩ := h
    obtain ⟨r,-,heq⟩ := Option.bind_eq_some_iff.mp h
    cases heq
    rfl
  · rw [if_neg hbits] at h
    exact congrArg Slave.device h

theorem OutputsMapped.sameGroup (h : OutputsMapped group start s s') : s'.group=s.group :=
  congrArg Device.group h.device

theorem OutputsMapped.inputs (hs : s.Unmapped) (h : OutputsMapped group start s s') :
    s'.ibits=s.ibits ∧ s'.InputsLeft := by
  rw [OutputsMapped] at h
  by_cases hbits : s.obits≠0
  · rw [if_pos hbits] at h
    obtain ⟨logAddr,bitPos,stop,h⟩ := h
    obtain ⟨hibits,-,hibytes,-,-,hfree⟩ := createOutputMappings_takes hs hbits h
    refine ⟨hibits,?_,hfree⟩
    rw [hibytes,hibits]
    exact hs.ready.ibytes
  · rw [if_neg hbits] at h
    exact ⟨congrArg Slave.ibits h,by rw [h]; exact hs.ready.ibytes,fun i _ => by rw [h]; exact hs.free i⟩

theorem OutputsMapped.takes (hs : s.Unmapped) (h : OutputsMapped group start s s') :
    s'.sm=s.sm ∧ s'.fmmuUnused ≤ ecMaxFmmu ∧ FitsIn s.sm 3 s.obits.toNat s'.fmmuUnused ∧
      ∀ k,k ≤ ecMaxFmmu → FitsIn s.sm 3 s.obits.toNat k → s'.fmmuUnused ≤ k := by
  rw [OutputsMapped] at h
  by_cases hbits : s.obits≠0
  · rw [if_pos hbits] at h
    obtain ⟨logAddr,bitPos,stop,h⟩ := h
    obtain ⟨-,hsm,-,hroom,hfits,-⟩ := createOutputMappings_takes hs hbits h
    refine ⟨hsm,hroom,hfits,fun k hk hk' => ?_⟩
    obtain ⟨s1,stop1,h1,hle⟩ := createOutputMappings_fits group start hs
      hbits hk hk' logAddr bitPos
    cases h.symm.trans h1
    exact hle
  · rw [if_neg hbits] at h
    have hzero : s.obits=0 := not_not.mp hbits
    rw [h,hs.unused,hzero]
    exact ⟨rfl,Nat.zero_le _,fitsIn_none _ _,fun k _ _ => Nat.zero_le k⟩

theorem OutputsMapped.suffice_iff (hs : s.Unmapped) (h : OutputsMapped group start s s') :
    (s'.ibits≠0 → ∃ k,s'.fmmuUnused+k ≤ ecMaxFmmu ∧ FitsIn s'.sm 4 s'.ibits.toNat k) ↔
      s.FmmusSuffice := by
  obtain ⟨hibits,-⟩ := h.inputs hs
  obtain ⟨hsm,hroom,hfits,hleast⟩ := h.takes hs
  rw [hsm,hibits]
  constructor
  · intro hinputs
    by_cases hbits : s.ibits≠0
    · obtain ⟨k,hk,hfits'⟩ := hinputs hbits
      exact ⟨_,k,hk,hfits,hfits'⟩
    · rw [not_not] at hbits
      refine ⟨s'.fmmuUnused,0,hroom,hfits,?_⟩
      rw [hbits]
      exact fitsIn_none _ _
  · rintro ⟨outputs,inputs,hsum,houtputs,hinputs⟩ -
    have hle := hleast outputs (by omega) houtputs
    exact ⟨inputs,by omega,hinputs⟩

theorem Slave.FmmusSuffice.outputs (h : s.FmmusSuffice) :
    ∃ k,k ≤ ecMaxFmmu ∧ FitsIn s.sm 3 s.obits.toNat k := by
  obtain ⟨outputs,inputs,hsum,houtputs,-⟩ := h
  exact ⟨outputs,by omega,houtputs⟩

def InputsMapped (group start : Nat) (s s' : Slave) : Prop :=
  if s.ibits≠0 then
    ∃ logAddr bitPos stop,createInputMappings group start s logAddr bitPos=some (s',stop)
  else s'=s

def BothMapped (group start : Nat) (s s' : Slave) : Prop :=
  ∃ s1,OutputsMapped group start s s1 ∧ InputsMapped group start s1 s'

theorem BothMapped.device (h : BothMapped group start s s') : s'.device=s.device := by
  obtain ⟨s1,hout,hin⟩ := h
  refine Eq.trans ?_ hout.device
  rw [InputsMapped] at hin
  by_cases hbits : s1.ibits≠0
  · rw [if_pos hbits] at hin
    obtain ⟨logAddr,bitPos,stop,hin⟩ := hin
    obtain ⟨fmmuc,-,r,-,rfl⟩ := createInputMappings_run hin
    rfl
  · rw [if_neg hbits] at hin
    exact congrArg Slave.device hin

theorem BothMapped.left_iff (hs : s.Unmapped) (h : BothMapped group start s s') :
    s'.fmmuUnused < ecMaxFmmu ↔ s.StatusFmmu := by
  obtain ⟨s1,hout,hin⟩ := h
  obtain ⟨hsm,-,hfits,hleast⟩ := hout.takes hs
  obtain ⟨hibits,hleft⟩ := hout.inputs hs
  rw [InputsMapped] at hin
  by_cases hbits : s1.ibits≠0
  · rw [if_pos hbits] at hin
    obtain ⟨logAddr,bitPos,stop,hin⟩ := hin
    obtain ⟨-,k,hk,hfits'⟩ := createInputMappings_takes hleft hbits hin
    constructor
    · intro hlt
      rw [hsm,hibits] at hfits'
      exact ⟨s1.fmmuUnused,by omega,k,by omega,by omega,hfits,hfits'⟩
    · rintro ⟨outputs,houtputs,inputs,-,hsum,hneed,hneed'⟩
      have hle := hleast outputs houtputs.le hneed
      rw [← hsm,← hibits] at hneed'
      obtain ⟨s2,stop2,h2,hle2⟩ := createInputMappings_fits group start hleft hbits
        (k := inputs) (by omega) hneed' logAddr bitPos
      cases hin.symm.trans h2
      omega
  · rw [if_neg hbits] at hin
    rw [hin]
    rw [not_not,hibits] at hbits
    constructor
    · intro hlt
      refine ⟨s1.fmmuUnused,hlt,0,by decide,hlt,hfits,?_⟩
      rw [hbits]
      exact fitsIn_none _ _
    · rintro ⟨outputs,houtputs,inputs,-,hsum,hneed,-⟩
      have hle := hleast outputs houtputs.le hneed
      omega

/-- A slave of the group with a mailbox, and with an FMMU left for its status. -/
def Slave.HasStatus (group : Nat) (s : Slave) : Prop :=
  inGroup group s ∧ s.mbxL≠0 ∧ s.StatusFmmu

instance Slave.HasStatus.decidable (group : Nat) (s : Slave) : Decidable (s.HasStatus group) :=
  inferInstanceAs (Decidable (_ ∧ _))

/-- A slave of a stage, and as it was before. -/
structure Slave.StagedFrom (group : Nat) (s s' : Slave) : Prop where
  sameGroup : s'.group=s.group
  ibits : s'.ibits=s.ibits
  status : s'.TakesStatus group ↔ s.HasStatus group

theorem BothMapped.staged (hs : s.Unmapped) (h : BothMapped group start s s') :
    s.StagedFrom group s' := by
  have hgroup : s'.group=s.group := congrArg Device.group h.device
  have hmbx : s'.mbxL=s.mbxL := congrArg Device.mbxL h.device
  refine ⟨hgroup,congrArg Device.ibits h.device,?_⟩
  rw [Slave.TakesStatus,Slave.HasStatus,h.left_iff hs,hmbx,inGroup,hgroup]
  rfl

end Create

section Main

variable {group start : Nat} {packed : Bool}

/-- The loop over the slaves goes through exactly if the mapping of each slave does. -/
theorem mapDirection_iff (packed : Bool) {create : Slave → Nat → Nat → Option (Slave × Nat × Nat)}
    {bits : Slave → UInt16} (works : Slave → Prop) {slaves : List Slave}
    (hworks : ∀ s ∈ slaves,inGroup group s → bits s≠0 → ∀ logAddr bitPos,
      (∃ r,create s logAddr bitPos=some r) ↔ works s) (l : Layout) :
    (∃ r,mapDirection create bits packed group slaves l=some r) ↔
      ∀ s ∈ slaves,inGroup group s → bits s≠0 → works s := by
  induction slaves generalizing l with
  | nil => exact ⟨fun _ s hs => absurd hs List.not_mem_nil,fun _ => ⟨_,rfl⟩⟩
  | cons s rest ih =>
    have hrest := ih fun x hx => hworks x (List.mem_cons_of_mem s hx)
    rw [List.forall_mem_cons]
    by_cases hin : inGroup group s ∧ bits s≠0
    · have hs := hworks s List.mem_cons_self hin.1 hin.2 l.logAddr l.bitPos
      constructor
      · rintro ⟨r,hr⟩
        rw [mapDirection,if_pos hin] at hr
        obtain ⟨c,hc,hr⟩ := Option.bind_eq_some_iff.mp hr
        obtain ⟨_,hplace,hr⟩ := Option.bind_eq_some_iff.mp hr
        obtain ⟨rs,hrs,-⟩ := Option.bind_eq_some_iff.mp hr
        exact ⟨fun _ _ => hs.mp ⟨c,hc⟩,(hrest _).mp ⟨rs,hrs⟩⟩
      · rintro ⟨hfirst,hothers⟩
        obtain ⟨c,hc⟩ := hs.mpr (hfirst hin.1 hin.2)
        obtain ⟨rs,hrs⟩ := (hrest (l.place packed c.2.1 c.2.2)).mpr hothers
        refine ⟨(c.1::rs.1,rs.2),?_⟩
        rw [mapDirection,if_pos hin]
        simp only [hc,hrs,Option.bind_eq_bind,Option.bind_some]
    · constructor
      · rintro ⟨r,hr⟩
        rw [mapDirection,if_neg hin] at hr
        simp only [Option.bind_eq_bind,Option.bind_some] at hr
        obtain ⟨rs,hrs,-⟩ := Option.bind_eq_some_iff.mp hr
        exact ⟨fun h1 h2 => absurd ⟨h1,h2⟩ hin,(hrest _).mp ⟨rs,hrs⟩⟩
      · rintro ⟨-,hothers⟩
        obtain ⟨rs,hrs⟩ := (hrest l).mpr hothers
        refine ⟨(s::rs.1,rs.2),?_⟩
        rw [mapDirection,if_neg hin]
        simp only [hrs,Option.bind_eq_bind,Option.bind_some]

theorem mapDirection_all {create : Slave → Nat → Nat → Option (Slave × Nat × Nat)}
    {bits : Slave → UInt16} {R : Slave → Slave → Prop}
    (hmap : ∀ s logAddr bitPos s' stop,bits s≠0 → create s logAddr bitPos=some (s',stop) → R s s')
    (hself : ∀ s,¬bits s≠0 → R s s) {slaves slaves' : List Slave} {l l' : Layout}
    (h : mapDirection create bits packed group slaves l=some (slaves',l')) :
    List.Forall₂ (fun s s' => if inGroup group s then R s s' else s'=s) slaves slaves' := by
  induction slaves generalizing slaves' l with
  | nil =>
    cases h
    exact .nil
  | cons s rest ih =>
    by_cases hin : inGroup group s ∧ bits s≠0
    · rw [mapDirection,if_pos hin] at h
      obtain ⟨c,hc,h⟩ := Option.bind_eq_some_iff.mp h
      obtain ⟨_,hplace,h⟩ := Option.bind_eq_some_iff.mp h
      cases hplace
      obtain ⟨rs,hrs,h⟩ := Option.bind_eq_some_iff.mp h
      cases h
      refine .cons ?_ (ih hrs)
      rw [if_pos hin.1]
      exact hmap _ _ _ _ _ hin.2 hc
    · rw [mapDirection,if_neg hin] at h
      simp only [Option.bind_eq_bind,Option.bind_some] at h
      obtain ⟨rs,hrs,h⟩ := Option.bind_eq_some_iff.mp h
      cases h
      refine .cons ?_ (ih hrs)
      by_cases hgroup : inGroup group s
      · rw [if_pos hgroup]
        exact hself s fun hbits => hin ⟨hgroup,hbits⟩
      · rw [if_neg hgroup]

theorem mapDirection_outputs {slaves slaves' : List Slave} {l l' : Layout}
    (h : mapDirection (createOutputMappings group start) Slave.obits packed group slaves l=
      some (slaves',l')) :
    List.Forall₂ (fun s s' => if inGroup group s then OutputsMapped group start s s' else s'=s)
      slaves slaves' := by
  refine mapDirection_all (fun s logAddr bitPos s' stop hbits hc => ?_) (fun s hbits => ?_) h
  · rw [OutputsMapped,if_pos hbits]
    exact ⟨_,_,_,hc⟩
  · rw [OutputsMapped,if_neg hbits]

theorem mapDirection_inputs {slaves slaves' : List Slave} {l l' : Layout}
    (h : mapDirection (createInputMappings group start) Slave.ibits packed group slaves l=
      some (slaves',l')) :
    List.Forall₂ (fun s s' => if inGroup group s then InputsMapped group start s s' else s'=s)
      slaves slaves' := by
  refine mapDirection_all (fun s logAddr bitPos s' stop hbits hc => ?_) (fun s hbits => ?_) h
  · rw [InputsMapped,if_pos hbits]
    exact ⟨_,_,_,hc⟩
  · rw [InputsMapped,if_neg hbits]

theorem forall₂_through {α : Type} {R S T : α → α → Prop} {xs ys zs : List α}
    (h : List.Forall₂ R xs ys) (h' : List.Forall₂ S ys zs)
    (hthrough : ∀ x y z,R x y → S y z → T x z) : List.Forall₂ T xs zs := by
  induction h generalizing zs with
  | nil =>
    cases h'
    exact .nil
  | cons hxy _ ih =>
    cases h' with
    | cons hyz hrest => exact .cons (hthrough _ _ _ hxy hyz) (ih hrest)

theorem forall_mem_iff {α : Type} {R : α → α → Prop} {P Q : α → Prop} {xs ys : List α}
    (h : List.Forall₂ R xs ys) (hiff : ∀ x ∈ xs,∀ y,R x y → (Q y ↔ P x)) :
    (∀ y ∈ ys,Q y) ↔ ∀ x ∈ xs,P x := by
  induction h with
  | nil => exact ⟨fun _ x hx => absurd hx List.not_mem_nil,fun _ y hy => absurd hy List.not_mem_nil⟩
  | cons hxy hrest ih =>
    rw [List.forall_mem_cons,List.forall_mem_cons,hiff _ List.mem_cons_self _ hxy,
      ih fun x hx => hiff x (List.mem_cons_of_mem _ hx)]

variable {ctx : Context}

theorem Context.Fresh.found (h : ctx.Fresh group) :
    ∀ s ∈ findMappings group ctx.slavelist,inGroup group s → s.Unmapped :=
  findMappings_mem fun s hs _ => (h.fresh s hs).mapSm_unmapped

theorem findMappings_suffice (slaves : List Slave) :
    (∀ s ∈ findMappings group slaves,inGroup group s → s.FmmusSuffice) ↔
      ∀ s ∈ slaves,inGroup group s → s.FmmusSuffice := by
  rw [findMappings,List.forall_mem_map]
  have hsame : ∀ s : Slave,(inGroup group (if inGroup group s then mapSm s else s) →
      (if inGroup group s then mapSm s else s).FmmusSuffice) ↔
        (inGroup group s → s.FmmusSuffice) := by
    intro s
    split_ifs <;> exact Iff.rfl
  simp only [hsame]

theorem findMappings_pieces (bits : Slave → UInt16) (hbits : ∀ s,bits (mapSm s)=bits s)
    (slaves : List Slave) (bitPos : Nat) :
    pieces bits packed group (findMappings group slaves) bitPos=
      pieces bits packed group slaves bitPos := by
  apply pieces_congr
  rw [findMappings,List.map_map]
  apply List.map_congr_left
  intro s _
  simp only [Function.comp]
  split_ifs
  · rw [hbits]
    rfl
  · rfl

theorem mapInputs_iff {slaves slaves' : List Slave} {l l' : Layout}
    (hslaves : ∀ s ∈ slaves,inGroup group s → s.Unmapped)
    (h : mapDirection (createOutputMappings group start) Slave.obits packed group slaves l=
      some (slaves',l')) (m : Layout) :
    (∃ r,mapDirection (createInputMappings group start) Slave.ibits packed group slaves' m=
      some r) ↔ ∀ s ∈ slaves,inGroup group s → s.FmmusSuffice := by
  have hmapped := mapDirection_outputs h
  have hleft : ∀ s' ∈ slaves',inGroup group s' → s'.InputsLeft := by
    refine (forall_mem_iff (P := fun _ => True) hmapped ?_).mpr fun _ _ => trivial
    intro s hs s' hs'
    refine ⟨fun _ => trivial,fun _ hin => ?_⟩
    by_cases hgroup : inGroup group s
    · rw [if_pos hgroup] at hs'
      exact (hs'.inputs (hslaves s hs hgroup)).2
    · rw [if_neg hgroup] at hs'
      rw [hs'] at hin
      exact absurd hin hgroup
  rw [mapDirection_iff packed
    (fun s => ∃ k,s.fmmuUnused+k ≤ ecMaxFmmu ∧ FitsIn s.sm 4 s.ibits.toNat k)
    fun s' hs' hin hbits => createInputMappings_iff group start (hleft s' hs' hin) hbits]
  refine forall_mem_iff hmapped ?_
  intro s hs s' hs'
  by_cases hgroup : inGroup group s
  · rw [if_pos hgroup] at hs'
    have hsame : inGroup group s' := by
      rw [inGroup,hs'.sameGroup]
      exact hgroup
    rw [imp_iff_right hsame,imp_iff_right hgroup]
    exact hs'.suffice_iff (hslaves s hs hgroup)
  · rw [if_neg hgroup] at hs'
    rw [hs']
    exact ⟨fun _ hin => absurd hin hgroup,fun _ hin => absurd hin hgroup⟩

theorem main_segments (hfresh : ctx.Fresh group) (hmode : ctx.overlappedMode=false)
    {out inp : List Slave × Layout}
    (hout : mapDirection (createOutputMappings group ctx.group.logstartaddr) Slave.obits
      ctx.packedMode group (findMappings group ctx.slavelist)
        ⟨ctx.group.logstartaddr,ctx.group.logstartaddr,0,.start,0⟩=some out)
    (hinp : mapDirection (createInputMappings group ctx.group.logstartaddr) Slave.ibits
      ctx.packedMode group out.1 { out.2.pad with wkc := 0 }=some inp) :
    inp.2.pad.seg=cut .start (ctx.pieces group) := by
  have hready := hfresh.ready
  obtain ⟨hplaced,-,holog,hpos,hseg,-⟩ := mapDirection_pad (outputs_place group _) hready rfl
    rfl start_sound hout
  have hsound := cut_sound start_sound (padded
    (pieces Slave.obits ctx.packedMode group (findMappings group ctx.slavelist) 0))
  rw [← hseg] at hsound
  obtain ⟨-,-,-,-,hseg',-⟩ := mapDirection_pad (inputs_place group _)
    (hplaced.ready hready) (l := { out.2.pad with wkc := 0 }) hpos holog hsound.1 hinp
  have hsame : out.1.map (fun s => (s.group,s.ibits))=
      (findMappings group ctx.slavelist).map fun s => (s.group,s.ibits) := by
    have hdevices := congrArg (List.map fun e : Device => (e.group,e.ibits)) hplaced.devices
    rw [List.map_map,List.map_map] at hdevices
    exact hdevices
  rw [pieces_congr hsame,findMappings_pieces _ fun _ => rfl] at hseg'
  rw [findMappings_pieces _ fun _ => rfl] at hseg
  rw [hseg',Context.pieces,hmode,if_neg Bool.false_ne_true,cut_append]
  exact congrArg (cut · _) hseg

theorem mainStage_mapped {p : Stage} (h : mainStage ctx group=some p) :
    List.Forall₂ (fun s s' => if inGroup group s then
      BothMapped group ctx.group.logstartaddr s s' else s'=s)
      (findMappings group ctx.slavelist) p.slavelist := by
  simp only [mainStage] at h
  obtain ⟨out,hout,h⟩ := Option.bind_eq_some_iff.mp h
  obtain ⟨inp,hinp,h⟩ := Option.bind_eq_some_iff.mp h
  obtain ⟨_,-,h⟩ := Option.bind_eq_some_iff.mp h
  cases h
  refine forall₂_through (mapDirection_outputs hout) (mapDirection_inputs hinp) ?_
  intro s s1 s' h1 h'
  by_cases hin : inGroup group s
  · rw [if_pos hin] at h1 ⊢
    have hin1 : inGroup group s1 := by
      rw [inGroup,h1.sameGroup]
      exact hin
    rw [if_pos hin1] at h'
    exact ⟨s1,h1,h'⟩
  · rw [if_neg hin] at h1 ⊢
    rw [h1,if_neg hin] at h'
    exact h'

theorem mainStage_iff (hfresh : ctx.Fresh group) (hmode : ctx.overlappedMode=false) :
    (∃ p,mainStage ctx group=some p) ↔ TablesSuffice ctx group := by
  have hunmapped := hfresh.found
  constructor
  · rintro ⟨p,h⟩
    simp only [mainStage] at h
    obtain ⟨out,hout,h⟩ := Option.bind_eq_some_iff.mp h
    obtain ⟨inp,hinp,h⟩ := Option.bind_eq_some_iff.mp h
    obtain ⟨segments,hclose,-⟩ := Option.bind_eq_some_iff.mp h
    refine ⟨?_,?_⟩
    · exact (findMappings_suffice _).mp ((mapInputs_iff hunmapped hout _).mp ⟨inp,hinp⟩)
    · rw [← cut_count_iff,← main_segments hfresh hmode hout hinp]
      rw [Segmenting.close] at hclose
      split_ifs at hclose with hcount
      exact hcount
  · intro h
    have hfmmus := (findMappings_suffice _).mpr h.fmmus
    obtain ⟨out,hout⟩ := (mapDirection_iff ctx.packedMode
      (fun s => ∃ k,k ≤ ecMaxFmmu ∧ FitsIn s.sm 3 s.obits.toNat k)
      (fun s hs hin hbits => createOutputMappings_iff group ctx.group.logstartaddr
        (hunmapped s hs hin) hbits)
      ⟨ctx.group.logstartaddr,ctx.group.logstartaddr,0,.start,0⟩).mpr
        fun s hs hin _ => (hfmmus s hs hin).outputs
    obtain ⟨inp,hinp⟩ := (mapInputs_iff hunmapped hout { out.2.pad with wkc := 0 }).mpr hfmmus
    have hclose : inp.2.pad.seg.close=
        some (inp.2.pad.seg.iosegment++[inp.2.pad.seg.segmentsize]) := by
      rw [Segmenting.close,if_pos]
      rw [main_segments hfresh hmode hout hinp]
      exact (cut_count_iff _).mpr h.segments
    simp only [mainStage,hout,hinp,hclose,Option.bind_eq_bind,Option.bind_some]
    exact ⟨_,rfl⟩

end Main

section Overlap

variable {group start : Nat} {s s' : Slave} {logAddr : Nat}

theorem pieceWidth_bytes (bits : Nat) : (pieceWidth false bits 0).1=(bits+7)/8 := by
  rw [pieceWidth,alignByte,width]
  by_cases hsmall : bits ≤ 7
  · rw [if_pos hsmall]
    simp only [Nat.zero_add,true_and]
    split_ifs <;> simp only <;> omega
  · rw [if_neg hsmall]
    simp only [ne_eq,not_true_eq_false,and_false,if_false,Nat.zero_add]

theorem overlapDirection_end {create : Slave → Nat → Nat → Option (Slave × Nat × Nat)}
    {bits : Slave → UInt16} {fmmuType : Nat} (hcreate : Places create bits fmmuType)
    {r : Slave × Nat} (hs : s.Ready) (h : overlapDirection create bits s logAddr=some r) :
    r.2=logAddr+((bits s).toNat+7)/8 := by
  rw [overlapDirection] at h
  by_cases hbits : bits s≠0
  · rw [if_pos hbits] at h
    obtain ⟨⟨s1,logAddr1,bitPos1⟩,hc,h⟩ := Option.bind_eq_some_iff.mp h
    cases h
    obtain ⟨hlog,hpos,-⟩ := hcreate _ _ _ _ _ _ hs hbits (Nat.zero_le 7) hc
    rw [← pieceWidth_bytes,hlog,hpos,alignByte_add]
    rfl
  · rw [if_neg hbits] at h
    cases h
    rw [not_not.mp hbits]
    rfl

theorem overlapOutputs_mapped {o : Slave × Nat}
    (h : overlapDirection (createOutputMappings group start) Slave.obits s logAddr=some o) :
    OutputsMapped group start s o.1 := by
  rw [overlapDirection] at h
  rw [OutputsMapped]
  by_cases hbits : s.obits≠0
  · rw [if_pos hbits] at h ⊢
    obtain ⟨c,hc,h⟩ := Option.bind_eq_some_iff.mp h
    cases h
    exact ⟨_,_,_,hc⟩
  · rw [if_neg hbits] at h ⊢
    cases h
    rfl

theorem overlapInputs_mapped {i : Slave × Nat}
    (h : overlapDirection (createInputMappings group start) Slave.ibits s logAddr=some i) :
    InputsMapped group start s i.1 := by
  rw [overlapDirection] at h
  rw [InputsMapped]
  by_cases hbits : s.ibits≠0
  · rw [if_pos hbits] at h ⊢
    obtain ⟨c,hc,h⟩ := Option.bind_eq_some_iff.mp h
    cases h
    exact ⟨_,_,_,hc⟩
  · rw [if_neg hbits] at h ⊢
    cases h
    rfl

theorem overlapOutputs_exists (group start : Nat) (hs : s.Unmapped) (h : s.FmmusSuffice) (logAddr : Nat) :
    ∃ o,overlapDirection (createOutputMappings group start) Slave.obits s logAddr=some o := by
  rw [overlapDirection]
  by_cases hbits : s.obits≠0
  · obtain ⟨c,hc⟩ := (createOutputMappings_iff group start hs hbits logAddr 0).mpr h.outputs
    rw [if_pos hbits,hc,Option.bind_some]
    exact ⟨_,rfl⟩
  · rw [if_neg hbits]
    exact ⟨_,rfl⟩

theorem overlapInputs_iff (group start : Nat) (hs : s.InputsLeft) (logAddr : Nat) :
    (∃ i,overlapDirection (createInputMappings group start) Slave.ibits s logAddr=some i) ↔
      (s.ibits≠0 → ∃ k,s.fmmuUnused+k ≤ ecMaxFmmu ∧ FitsIn s.sm 4 s.ibits.toNat k) := by
  rw [overlapDirection]
  by_cases hbits : s.ibits≠0
  · rw [if_pos hbits,imp_iff_right hbits,
      ← createInputMappings_iff group start hs hbits logAddr 0]
    constructor
    · rintro ⟨i,hi⟩
      obtain ⟨c,hc,-⟩ := Option.bind_eq_some_iff.mp hi
      exact ⟨c,hc⟩
    · rintro ⟨c,hc⟩
      rw [hc,Option.bind_some]
      exact ⟨_,rfl⟩
  · rw [if_neg hbits]
    exact ⟨fun _ hb => absurd hb hbits,fun _ => ⟨_,rfl⟩⟩

theorem overlapSlave_iff (group start : Nat) (hs : s.Unmapped) (logAddr : Nat) :
    (∃ m,overlapSlave group start s logAddr=some m) ↔ s.FmmusSuffice := by
  rw [overlapSlave_eq]
  constructor
  · rintro ⟨m,hm⟩
    obtain ⟨o,ho,hm⟩ := Option.bind_eq_some_iff.mp hm
    obtain ⟨i,hi,-⟩ := Option.bind_eq_some_iff.mp hm
    have hmapped := overlapOutputs_mapped ho
    exact (hmapped.suffice_iff hs).mp
      ((overlapInputs_iff group start (hmapped.inputs hs).2 logAddr).mp ⟨i,hi⟩)
  · intro h
    obtain ⟨o,ho⟩ := overlapOutputs_exists group start hs h logAddr
    have hmapped := overlapOutputs_mapped ho
    obtain ⟨i,hi⟩ := (overlapInputs_iff group start
      (hmapped.inputs hs).2 logAddr).mpr ((hmapped.suffice_iff hs).mpr h)
    refine ⟨(i.1,o.2,i.2),?_⟩
    rw [ho,Option.bind_some,hi,Option.bind_some]

theorem overlapSlave_end {o i : Nat} (hs : s.Unmapped)
    (h : overlapSlave group start s logAddr=some (s',o,i)) :
    o=logAddr+(s.obits.toNat+7)/8 ∧ i=logAddr+(s.ibits.toNat+7)/8 := by
  rw [overlapSlave_eq] at h
  obtain ⟨out,hout,h⟩ := Option.bind_eq_some_iff.mp h
  obtain ⟨inp,hinp,h⟩ := Option.bind_eq_some_iff.mp h
  cases h
  obtain ⟨-,hdevice,hready,-⟩ := overlapDirection_spec (outputs_place group start) hs.ready hout
  have hibits : out.1.ibits=s.ibits := congrArg Device.ibits hdevice
  refine ⟨overlapDirection_end (outputs_place group start) hs.ready hout,?_⟩
  rw [← hibits]
  exact overlapDirection_end (inputs_place group start) hready hinp

theorem overlapSlaves_iff (start : Nat) {slaves : List Slave}
    (hslaves : ∀ s ∈ slaves,inGroup group s → s.Unmapped) (r : OverlapRun) :
    (∃ m,overlapSlaves group start slaves r=some m) ↔
      ∀ s ∈ slaves,inGroup group s → s.FmmusSuffice := by
  induction slaves generalizing r with
  | nil => exact ⟨fun _ s hs => absurd hs List.not_mem_nil,fun _ => ⟨_,rfl⟩⟩
  | cons s rest ih =>
    have hrest := ih fun x hx => hslaves x (List.mem_cons_of_mem s hx)
    rw [List.forall_mem_cons,overlapSlaves]
    by_cases hin : inGroup group s
    · have hs := overlapSlave_iff group start
        (hslaves s List.mem_cons_self hin) r.mLogAddr
      rw [if_pos hin,imp_iff_right hin,← hs]
      constructor
      · rintro ⟨m,hm⟩
        obtain ⟨c,hc,hm⟩ := Option.bind_eq_some_iff.mp hm
        obtain ⟨rs,hrs,-⟩ := Option.bind_eq_some_iff.mp hm
        exact ⟨⟨c,hc⟩,(hrest _).mp ⟨rs,hrs⟩⟩
      · rintro ⟨⟨c,hc⟩,hothers⟩
        choose next hnext using fun run => (hrest run).mpr hothers
        exact ⟨_,Option.bind_eq_some_iff.mpr
          ⟨c,hc,Option.bind_eq_some_iff.mpr ⟨_,hnext _,rfl⟩⟩⟩
    · rw [if_neg hin]
      constructor
      · rintro ⟨m,hm⟩
        obtain ⟨rs,hrs,-⟩ := Option.bind_eq_some_iff.mp hm
        exact ⟨fun h => absurd h hin,(hrest _).mp ⟨rs,hrs⟩⟩
      · rintro ⟨-,hothers⟩
        obtain ⟨rs,hrs⟩ := (hrest { r with soLogAddr := r.mLogAddr, siLogAddr := r.mLogAddr }).mpr
          hothers
        exact ⟨_,Option.bind_eq_some_iff.mpr ⟨rs,hrs,rfl⟩⟩

theorem overlapSlaves_mapped {slaves slaves' : List Slave} {r r' : OverlapRun}
    (h : overlapSlaves group start slaves r=some (slaves',r')) :
    List.Forall₂ (fun s s' => if inGroup group s then BothMapped group start s s' else s'=s)
      slaves slaves' := by
  induction slaves generalizing slaves' r with
  | nil =>
    cases h
    exact .nil
  | cons s rest ih =>
    rw [overlapSlaves] at h
    by_cases hin : inGroup group s
    · rw [if_pos hin] at h
      obtain ⟨m,hm,h⟩ := Option.bind_eq_some_iff.mp h
      obtain ⟨rs,hrs,h⟩ := Option.bind_eq_some_iff.mp h
      cases h
      refine .cons ?_ (ih hrs)
      rw [overlapSlave_eq] at hm
      obtain ⟨o,ho,hm⟩ := Option.bind_eq_some_iff.mp hm
      obtain ⟨i,hi,hm⟩ := Option.bind_eq_some_iff.mp hm
      cases hm
      rw [if_pos hin]
      exact ⟨o.1,overlapOutputs_mapped ho,overlapInputs_mapped hi⟩
    · rw [if_neg hin] at h
      obtain ⟨rs,hrs,h⟩ := Option.bind_eq_some_iff.mp h
      cases h
      refine .cons ?_ (ih hrs)
      rw [if_neg hin]

theorem overlapSlaves_seg {slaves slaves' : List Slave} {r r' : OverlapRun}
    (hslaves : ∀ s ∈ slaves,inGroup group s → s.Unmapped)
    (h : overlapSlaves group start slaves r=some (slaves',r')) :
    r'.seg=cut r.seg (overlapPieces group slaves) := by
  induction slaves generalizing slaves' r with
  | nil =>
    cases h
    rfl
  | cons s rest ih =>
    have hrest : ∀ x ∈ rest,inGroup group x → x.Unmapped :=
      fun x hx => hslaves x (List.mem_cons_of_mem s hx)
    rw [overlapSlaves] at h
    rw [overlapPieces]
    by_cases hin : inGroup group s
    · rw [if_pos hin] at h
      obtain ⟨⟨s1,o,i⟩,hm,h⟩ := Option.bind_eq_some_iff.mp h
      obtain ⟨rs,hrs,h⟩ := Option.bind_eq_some_iff.mp h
      cases h
      obtain ⟨ho,hi⟩ := overlapSlave_end (hslaves s List.mem_cons_self hin) hm
      have hpiece : max i o-r.mLogAddr=max ((s.ibits.toNat+7)/8) ((s.obits.toNat+7)/8) := by omega
      rw [ih hrest hrs,List.filter_cons_of_pos (by exact decide_eq_true hin),List.map_cons]
      simp only [Segmenting.extendOverlap_eq,hpiece]
      rfl
    · rw [if_neg hin] at h
      obtain ⟨rs,hrs,h⟩ := Option.bind_eq_some_iff.mp h
      cases h
      rw [ih hrest hrs,List.filter_cons_of_neg (by simpa using hin)]
      rfl

end Overlap

section Config

variable {ctx : Context} {group : Nat}

theorem findMappings_overlap (group : Nat) (slaves : List Slave) :
    overlapPieces group (findMappings group slaves)=overlapPieces group slaves := by
  rw [overlapPieces,overlapPieces,findMappings,List.filter_map,List.map_map]
  have hsame : ((fun s => decide (inGroup group s)) ∘
      fun s : Slave => if inGroup group s then mapSm s else s)=
        fun s => decide (inGroup group s) := by
    funext s
    simp only [Function.comp]
    split_ifs <;> rfl
  rw [hsame]
  apply List.map_congr_left
  intro s _
  simp only [Function.comp]
  split_ifs <;> rfl

theorem overlapStage_iff (hfresh : ctx.Fresh group) (hmode : ctx.overlappedMode=true) :
    (∃ p,overlapStage ctx group=some p) ↔ TablesSuffice ctx group := by
  have hunmapped := hfresh.found
  have hpieces : overlapPieces group (findMappings group ctx.slavelist)=ctx.pieces group := by
    rw [findMappings_overlap,Context.pieces,if_pos hmode]
  constructor
  · rintro ⟨p,h⟩
    simp only [overlapStage] at h
    obtain ⟨io,hio,h⟩ := Option.bind_eq_some_iff.mp h
    obtain ⟨segments,hclose,-⟩ := Option.bind_eq_some_iff.mp h
    refine ⟨?_,?_⟩
    · exact (findMappings_suffice _).mp ((overlapSlaves_iff _ hunmapped _).mp ⟨io,hio⟩)
    · have hseg := overlapSlaves_seg hunmapped hio
      rw [← cut_count_iff,← hpieces,← hseg]
      rw [Segmenting.close] at hclose
      split_ifs at hclose with hcount
      exact hcount
  · intro h
    obtain ⟨io,hio⟩ := (overlapSlaves_iff ctx.group.logstartaddr hunmapped
      ⟨ctx.group.logstartaddr,ctx.group.logstartaddr,ctx.group.logstartaddr,.start,0,0⟩).mpr
        ((findMappings_suffice _).mpr h.fmmus)
    have hseg := overlapSlaves_seg hunmapped hio
    have hclose : io.2.seg.close=some (io.2.seg.iosegment++[io.2.seg.segmentsize]) := by
      rw [Segmenting.close,if_pos]
      rw [hseg,hpieces]
      exact (cut_count_iff _).mpr h.segments
    simp only [overlapStage,hio,hclose,Option.bind_eq_bind,Option.bind_some]
    exact ⟨_,rfl⟩

theorem staged_all (hfresh : ctx.Fresh group) {slaves : List Slave}
    (h : List.Forall₂ (fun s s' => if inGroup group s then
      BothMapped group ctx.group.logstartaddr s s' else s'=s)
      (findMappings group ctx.slavelist) slaves) :
    List.Forall₂ (Slave.StagedFrom group) ctx.slavelist slaves := by
  have hall := (List.forall₂_and_left _ _).mpr ⟨hfresh.found,h⟩
  rw [findMappings] at hall
  refine (List.forall₂_map_left_iff.mp hall).imp ?_
  rintro s s' ⟨hs,hs'⟩
  by_cases hin : inGroup group s
  · have hfound : inGroup group (mapSm s) := hin
    rw [if_pos hin] at hs hs'
    rw [if_pos hfound] at hs'
    obtain ⟨hgroup,hibits,hstatus⟩ := hs'.staged (hs hfound)
    exact ⟨hgroup,hibits,hstatus⟩
  · rw [if_neg hin,if_neg hin] at hs'
    rw [hs']
    exact ⟨rfl,rfl,fun h => absurd h.1 hin,fun h => absurd h.1 hin⟩

/-- What the slaves of a stage have in common with those before: it is known there which of them will
take a status byte. -/
theorem stage_staged (hfresh : ctx.Fresh group) {p : Stage} (h : stage ctx group=some p) :
    List.Forall₂ (Slave.StagedFrom group) ctx.slavelist p.slavelist := by
  rw [stage] at h
  by_cases hmode : ctx.overlappedMode=true
  · rw [if_pos hmode] at h
    simp only [overlapStage] at h
    obtain ⟨io,hio,h⟩ := Option.bind_eq_some_iff.mp h
    obtain ⟨_,-,h⟩ := Option.bind_eq_some_iff.mp h
    cases h
    refine List.forall₂_map_right_iff.mpr
      ((staged_all hfresh (overlapSlaves_mapped hio)).imp fun s s' hs => ?_)
    split_ifs
    · exact ⟨hs.sameGroup,hs.ibits,hs.status⟩
    · exact hs
  · rw [if_neg hmode] at h
    exact staged_all hfresh (mainStage_mapped h)

theorem stage_seg (hfresh : ctx.Fresh group) {p : Stage} (h : stage ctx group=some p) :
    p.seg=cut .start (ctx.pieces group) := by
  rw [stage] at h
  by_cases hmode : ctx.overlappedMode=true
  · rw [if_pos hmode] at h
    simp only [overlapStage] at h
    obtain ⟨io,hio,h⟩ := Option.bind_eq_some_iff.mp h
    obtain ⟨_,-,h⟩ := Option.bind_eq_some_iff.mp h
    cases h
    rw [Context.pieces,if_pos hmode,← findMappings_overlap]
    exact overlapSlaves_seg hfresh.found hio
  · rw [if_neg hmode] at h
    simp only [mainStage] at h
    obtain ⟨out,hout,h⟩ := Option.bind_eq_some_iff.mp h
    obtain ⟨inp,hinp,h⟩ := Option.bind_eq_some_iff.mp h
    obtain ⟨_,-,h⟩ := Option.bind_eq_some_iff.mp h
    cases h
    exact main_segments hfresh (Bool.eq_false_iff.mpr hmode) hout hinp

/-- The status bytes of a group, by the sync managers and sizes of the slaves. -/
def Context.statusPieces (ctx : Context) (group : Nat) : List Nat :=
  (ctx.slavelist.filter fun s => decide (inGroup group s)).map
    fun s => if s.HasStatus group then 1 else 0

theorem staged_pieces {slaves slaves' : List Slave}
    (h : List.Forall₂ (Slave.StagedFrom group) slaves slaves') : statusDiffs group slaves'=
      (slaves.filter fun s => decide (inGroup group s)).map
        fun s => if s.HasStatus group then 1 else 0 := by
  induction h with
  | nil => rfl
  | cons hs _ ih =>
    rename_i s s' rest rest' _
    rw [statusDiffs] at ih ⊢
    have hgroup : inGroup group s' ↔ inGroup group s := by rw [inGroup,inGroup,hs.sameGroup]
    by_cases hin : inGroup group s
    · rw [List.filter_cons_of_pos (by exact decide_eq_true (hgroup.mpr hin)),
        List.filter_cons_of_pos (by exact decide_eq_true hin),List.map_cons,List.map_cons,ih,
        if_congr hs.status rfl rfl]
    · have hout : ¬inGroup group s' := fun h => hin (hgroup.mp h)
      rw [List.filter_cons_of_neg (by simpa using hout),List.filter_cons_of_neg (by simpa using hin),
        ih]

theorem mapStatus_close (moved no : Nat) (slaves : List Slave) {r : StatusRun} (h : r.seg.Open) :
    ∃ segments,(mapStatus group moved no slaves r).2.seg.close=some segments := by
  obtain ⟨-,-,hseg⟩ := mapStatus_run group moved no slaves r
  have hopen := (statusCut_open h (statusDiffs_le group slaves)).1
  rw [hseg,Segmenting.close,if_pos hopen.count]
  exact ⟨_,rfl⟩

theorem exists_bind {α β : Type} {x : Option α} {f : α → Option β} {a : α} (hx : x=some a)
    (h : ∃ r,f a=some r) : ∃ r,x.bind f=some r := by
  rw [hx]
  exact h

theorem configMapGroup_iff (hfresh : ctx.Fresh group) :
    (∃ r,configMapGroup ctx group=some r) ↔ ∃ p,stage ctx group=some p := by
  constructor
  · rintro ⟨⟨ctx',size⟩,h⟩
    obtain ⟨p,hp,-⟩ := configMapGroup_stage hfresh h
    exact ⟨p,hp⟩
  · rintro ⟨p,hp⟩
    rw [stage] at hp
    rw [configMapGroup]
    by_cases hmode : ctx.overlappedMode=true
    · rw [if_pos hmode] at hp ⊢
      have hopen := (overlapStage_sound hfresh hmode hp).segments
      simp only [overlapStage] at hp
      obtain ⟨io,hio,hp⟩ := Option.bind_eq_some_iff.mp hp
      obtain ⟨_,hclose,hp⟩ := Option.bind_eq_some_iff.mp hp
      cases hp
      rw [configOverlapMapGroup,if_pos ⟨hfresh.slaves,hfresh.known⟩]
      refine exists_bind hio (exists_bind hclose
        (exists_bind (mapStatus_close _ 1 _ ?_).choose_spec ⟨_,rfl⟩))
      exact hopen
    · rw [if_neg hmode] at hp ⊢
      have hopen := (mainStage_sound hfresh (Bool.eq_false_iff.mpr hmode) hp).segments
      simp only [mainStage] at hp
      obtain ⟨out,hout,hp⟩ := Option.bind_eq_some_iff.mp hp
      obtain ⟨inp,hinp,hp⟩ := Option.bind_eq_some_iff.mp hp
      obtain ⟨_,hclose,hp⟩ := Option.bind_eq_some_iff.mp hp
      cases hp
      rw [mainConfigMapGroup,if_pos ⟨hfresh.slaves,hfresh.known⟩]
      refine exists_bind hout (exists_bind hinp (exists_bind hclose
        (exists_bind (mapStatus_close _ 1 _ ?_).choose_spec ⟨_,rfl⟩)))
      exact hopen

/-- No index of the mapping functions lies behind its table: `none` is where one would. -/
def WithinTables (ctx : Context) (group : Nat) : Prop := configMapGroup ctx group≠none

/-- The mapping stays inside its tables exactly if they suffice for the slaves. -/
theorem within_tables_iff (hfresh : ctx.Fresh group) :
    WithinTables ctx group ↔ TablesSuffice ctx group := by
  rw [WithinTables,Option.ne_none_iff_exists',configMapGroup_iff hfresh,stage]
  by_cases hmode : ctx.overlappedMode=true
  · simp only [if_pos hmode]
    exact overlapStage_iff hfresh hmode
  · simp only [if_neg hmode]
    exact mainStage_iff hfresh (Bool.eq_false_iff.mpr hmode)

theorem smSlave_fresh (sms : List Sm) (obits ibits : UInt16) : (smSlave sms obits ibits).Fresh :=
  ⟨rfl,rfl,rfl,fun _ => rfl,rfl,rfl,rfl⟩

/-- Two FMMUs for the outputs and one for the inputs. -/
theorem two_runs_within : WithinTables (freshContext [twoRunsSlave] 0 false false) 0 := by
  have hslave : twoRunsSlave.Fresh := smSlave_fresh _ _ _
  have hfresh : (freshContext [twoRunsSlave] 0 false false).Fresh 0 :=
    freshContext_fresh _ _ (by decide) (by decide) (by decide) (by simpa using hslave)
  refine (within_tables_iff hfresh).mpr ⟨fun s hs _ => ?_,by decide⟩
  obtain rfl := List.mem_singleton.mp hs
  exact ⟨2,1,by decide,by decide,by decide⟩

/-- Outputs in five places: there is no fifth FMMU. -/
def fiveRunsSlave : Slave :=
  smSlave [⟨0x1000,128,1⟩,⟨0x1080,128,2⟩,⟨0x1100,1,3⟩,⟨0x1200,1,3⟩,⟨0x1300,1,3⟩,⟨0x1400,1,3⟩,
    ⟨0x1500,100,3⟩] 832 0

/-- The outputs take all FMMUs: the scan for one for the inputs goes on behind the table. -/
def fourFmmusSlave : Slave :=
  smSlave [⟨0x1000,128,1⟩,⟨0x1080,128,2⟩,⟨0x1100,1,3⟩,⟨0x1200,1,3⟩,⟨0x1300,1,3⟩,⟨0x1400,7,3⟩,
    ⟨0x1600,1,4⟩] 80 8

/-- The most outputs that a slave can have. -/
def largeSlave : Slave := smSlave [⟨0,0,0⟩,⟨0,0,0⟩,⟨0x1000,8191,3⟩] 65528 0

theorem tables_exceeded :
    ¬WithinTables (freshContext [fiveRunsSlave] 0 false false) 0 ∧
      ¬WithinTables (freshContext [fourFmmusSlave] 0 false false) 0 ∧
      ¬WithinTables (freshContext (List.replicate 12 largeSlave) 0 false false) 0 ∧
      ¬∀ ctx group,Context.Fresh ctx group → WithinTables ctx group := by
  have hexceeds : ∀ ctx : Context,(configMapGroup ctx 0).isNone=true → ¬WithinTables ctx 0 :=
    fun ctx hnone hwithin => hwithin (Option.isNone_iff_eq_none.mp hnone)
  have hfive := hexceeds (freshContext [fiveRunsSlave] 0 false false) (by decide +kernel)
  have hfresh : fiveRunsSlave.Fresh := smSlave_fresh _ _ _
  refine ⟨hfive,hexceeds _ (by decide +kernel),hexceeds _ (by decide +kernel),fun hall => ?_⟩
  exact hfive (hall _ 0 (freshContext_fresh _ _ (by decide) (by decide) (by decide)
    (by simpa using hfresh)))

end Config

end EtherCATMaster.Mapping
