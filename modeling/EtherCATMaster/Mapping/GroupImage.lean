import EtherCATMaster.Mapping.Image

namespace EtherCATMaster.Mapping

/-- In either direction, the sync managers of each slave of a group are one run. -/
def OneRuns (ctx : Context) (group : Nat) : Prop :=
  ∀ s ∈ ctx.slavelist,inGroup group s → OneRun s.sm 3 s.obits.toNat ∧ OneRun s.sm 4 s.ibits.toNat

section Lists

variable {R : Slave → Slave → Prop} {P : Slave → Prop} {xs ys : List Slave}

theorem forall_mem_right (h : List.Forall₂ R xs ys) (hright : ∀ x ∈ xs,∀ y,R x y → P y) :
    ∀ y ∈ ys,P y :=
  (forall_mem_iff (P := fun _ => True) h fun x hx y hxy =>
    ⟨fun _ => trivial,fun _ => hright x hx y hxy⟩).mpr fun _ _ => trivial

theorem demands_map (h : List.Forall₂ R xs ys) (hsame : ∀ x y,R x y → y.demand=x.demand) :
    ys.map Slave.demand=xs.map Slave.demand := by
  induction h with
  | nil => rfl
  | cons hxy _ ih => rw [List.map_cons,List.map_cons,ih,hsame _ _ hxy]

theorem inGroup_demand {group : Nat} {s s' : Slave} (h : s'.demand=s.demand) :
    inGroup group s' ↔ inGroup group s := by
  rw [inGroup,inGroup,show s'.group=s.group from congrArg Prod.fst h]

end Lists

section Image

variable {ctx ctx' : Context} {group base : Nat} {slaves slaves' : List Slave}

theorem Context.Fresh.runs (h : ctx.Fresh group) (hruns : OneRuns ctx group) :
    ∀ s ∈ findMappings group ctx.slavelist,inGroup group s → s.Runs := by
  refine findMappings_mem fun s hs hin => ?_
  have hfresh := h.fresh s hs
  obtain ⟨hout,hinp⟩ := hruns s hs hin
  exact ⟨hfresh.mapSm_unmapped,hfresh.outputs,hfresh.inputs,hout,hinp⟩

theorem findMappings_demand (group : Nat) (slaves : List Slave) :
    (findMappings group slaves).map Slave.demand=slaves.map Slave.demand := by
  rw [findMappings,List.map_map]
  apply List.map_congr_left
  intro s _
  simp only [Function.comp]
  split_ifs <;> rfl

theorem all_behind {P : Slave → Prop} {R Q : Slave → Slave → Prop}
    (hslaves : ∀ s ∈ slaves,inGroup group s → P s) (h : List.Forall₂ R slaves slaves')
    (hin : ∀ s s',inGroup group s → P s → R s s' → Q s s')
    (hout : ∀ s s',¬inGroup group s → R s s' → s'=s) (hself : ∀ s,¬inGroup group s → Q s s) :
    List.Forall₂ Q slaves slaves' := by
  refine ((List.forall₂_and_left _ _).mpr ⟨hslaves,h⟩).imp ?_
  rintro s s' ⟨hs,hR⟩
  by_cases hgroup : inGroup group s
  · exact hin s s' hgroup (hs hgroup) hR
  · rw [hout s s' hgroup hR]
    exact hself s hgroup

theorem all_behindOutputs (hslaves : ∀ s ∈ slaves,inGroup group s → s.Runs)
    (h : List.Forall₂
      (fun s s' => if inGroup group s ∧ s.obits≠0 then OutputsOne base s s' else s'=s)
      slaves slaves') :
    List.Forall₂ (fun s s' => s'.demand=s.demand ∧ (inGroup group s → s'.BehindOutputs base))
      slaves slaves' := by
  refine all_behind hslaves h ?_ (fun s s' hgroup h => by rwa [if_neg fun h => hgroup h.1] at h)
    fun s hgroup => ⟨rfl,fun h => absurd h hgroup⟩
  intro s s' hin hs h
  obtain ⟨hbehind,hdemand⟩ := hs.behindOutputs h hin
  exact ⟨hdemand,fun _ => hbehind⟩

theorem all_behindInputs (hslaves : ∀ s ∈ slaves,inGroup group s → s.BehindOutputs base)
    (h : List.Forall₂
      (fun s s' => if inGroup group s ∧ s.ibits≠0 then InputsOne base s s' else s'=s)
      slaves slaves') :
    List.Forall₂ (fun s s' => s'.demand=s.demand ∧ (inGroup group s → s'.BehindInputs base) ∧
      (s.obits≠0 → s'.outputEntry=s.outputEntry)) slaves slaves' := by
  refine all_behind hslaves h ?_ (fun s s' hgroup h => by rwa [if_neg fun h => hgroup h.1] at h)
    fun s hgroup => ⟨rfl,fun h => absurd h hgroup,fun _ => rfl⟩
  intro s s' hin hs h
  obtain ⟨hbehind,hdemand,hkept⟩ := hs.behindInputs h hin
  exact ⟨hdemand,fun _ => hbehind,hkept⟩

theorem all_behindStatus (hslaves : ∀ s ∈ slaves,inGroup group s → s.BehindInputs base)
    (h : List.Forall₂ (fun s s' => if inGroup group s then
        if s.statusBits≠0 then StatusOne s s' else ∃ pointer,s'={ s with mbxstatus := pointer }
      else s'=s) slaves slaves') :
    List.Forall₂ (fun s s' => s'.demand=s.demand ∧ (inGroup group s → s'.BehindStatus base) ∧
      (s.obits≠0 → s'.outputEntry=s.outputEntry) ∧ (s.ibits≠0 → s'.inputEntry=s.inputEntry))
      slaves slaves' := by
  refine all_behind hslaves h ?_ (fun s s' hgroup h => by rwa [if_neg hgroup] at h)
    fun s hgroup => ⟨rfl,fun h => absurd h hgroup,fun _ => rfl,fun _ => rfl⟩
  intro s s' hin hs h
  rw [if_pos hin] at h
  obtain ⟨hbehind,hdemand,hout,hinp⟩ := hs.behindStatus h
  exact ⟨hdemand,fun _ => hbehind,hout,hinp⟩

theorem behind_mem {R : Slave → Slave → Prop} {P : Slave → Prop} (h : List.Forall₂ R slaves slaves')
    (hdemand : ∀ s s',R s s' → s'.demand=s.demand) (hP : ∀ s s',R s s' → inGroup group s → P s') :
    ∀ s ∈ slaves',inGroup group s → P s := by
  refine forall_mem_right h ?_
  intro s _ s' hs' hin
  exact hP s s' hs' ((inGroup_demand (hdemand s s' hs')).mp hin)

theorem mem_areas {bits : Slave → UInt16} {area : Slave → Nat × Nat} {s : Slave} (hs : s ∈ slaves)
    (hin : inGroup group s) (hbits : bits s≠0) : area s ∈ areas bits group area slaves :=
  List.mem_map_of_mem (List.mem_filter.mpr ⟨hs,decide_eq_true ⟨hin,hbits⟩⟩)

theorem Recorded.pointsTo {start startbit : Nat} {pointer : Pointer} {f : Fmmu}
    (h : Recorded (pointerBase group start) pointer startbit f) (hzero : group=0 → start=0)
    (hstart : start*8 ≤ f.bits.1) : PointsTo start pointer startbit f.bits := by
  have hfirst := h.first
  refine ⟨_,h.pointer,?_⟩
  rw [Fmmu.bits] at hstart ⊢
  simp only at hstart ⊢
  rw [h.startbit,pointerBase]
  split_ifs with hgroup
  · have hnull := hzero hgroup
    omega
  · omega

end Image

section Spread

variable {packed : Bool} {group base start outEnd inEnd statusEnd : Nat} {slaves : List Slave}

/-- The areas of a group behind all three loops. Inputs and status bytes begin with a byte. -/
structure Spread (packed : Bool) (group base start outEnd inEnd statusEnd : Nat)
    (slaves : List Slave) : Prop where
  outputs : ∃ stop,Follow Slave.obits packed group (fun s => s.outputEntry.bits) (start*8) slaves
    stop ∧ stop ≤ outEnd*8
  inputs : ∃ stop,Follow Slave.ibits packed group (fun s => s.inputEntry.bits) (outEnd*8) slaves
    stop ∧ stop ≤ inEnd*8
  status : Follow Slave.statusBits false group (fun s => s.statusEntry.bits) (inEnd*8) slaves
    (statusEnd*8)
  behind : ∀ s ∈ slaves,inGroup group s → s.BehindStatus base

theorem Spread.le (h : Spread packed group base start outEnd inEnd statusEnd slaves) :
    start ≤ outEnd ∧ outEnd ≤ inEnd ∧ inEnd ≤ statusEnd := by
  obtain ⟨stop,hout,hstop⟩ := h.outputs
  obtain ⟨stop',hinp,hstop'⟩ := h.inputs
  have hout := hout.le
  have hinp := hinp.le
  have hstatus := h.status.le
  omega

theorem Spread.ordered (h : Spread packed group base start outEnd inEnd statusEnd slaves) :
    (imageAreas group slaves).Pairwise fun r r' => r.2 ≤ r'.1 := by
  obtain ⟨stop,hout,hstop⟩ := h.outputs
  obtain ⟨stop',hinp,hstop'⟩ := h.inputs
  obtain ⟨-,hle,-⟩ := h.le
  rw [imageAreas,List.pairwise_append,List.pairwise_append]
  refine ⟨hout.pairwise,⟨hinp.pairwise,h.status.pairwise,fun r hr r' hr' => ?_⟩,
    fun r hr r' hr' => ?_⟩
  · have hr := hinp.within r hr
    have hr' := h.status.within r' hr'
    omega
  · have hr := hout.within r hr
    rcases List.mem_append.mp hr' with hr'|hr'
    · have hr' := hinp.within r' hr'
      omega
    · have hr' := h.status.within r' hr'
      omega

theorem Spread.within (h : Spread packed group base start outEnd inEnd statusEnd slaves) :
    ∀ r ∈ imageAreas group slaves,start*8 ≤ r.1 ∧ r.2 ≤ statusEnd*8 := by
  obtain ⟨stop,hout,hstop⟩ := h.outputs
  obtain ⟨stop',hinp,hstop'⟩ := h.inputs
  have hle := h.le
  intro r hr
  rw [imageAreas] at hr
  rcases List.mem_append.mp hr with hr|hr
  · have hr := hout.within r hr
    omega
  · rcases List.mem_append.mp hr with hr|hr
    · have hr := hinp.within r hr
      omega
    · have hr := h.status.within r hr
      omega

variable {ctx ctx' : Context} {size : Nat}

theorem Spread.image
    (h : Spread packed group (pointerBase group start) start outEnd inEnd statusEnd ctx'.slavelist)
    (hzero : group=0 → start=0) (hstart : ctx'.group.logstartaddr=start)
    (hsize : statusEnd ≤ start+size)
    (hslaves : ctx'.slavelist.map Slave.demand=ctx.slavelist.map Slave.demand) :
    Image ctx ctx' group size := by
  have hwithin := h.within
  obtain ⟨stop,hout,hstop⟩ := h.outputs
  obtain ⟨stop',hinp,hstop'⟩ := h.inputs
  obtain ⟨hle,-⟩ := h.le
  refine ⟨hslaves,h.ordered,?_,fun s hs hin hbits => ?_,fun s hs hin hbits => ?_,
    fun s hs hin hmbx => ?_,fun s hs hin => (h.behind s hs hin).idle⟩
  · intro r hr
    have hr := hwithin r hr
    omega
  · have hdone := (h.behind s hs hin).outputs
    have hlow := (hout.within _ (mem_areas hs hin hbits)).1
    rw [hstart]
    exact ⟨hout.lies s hs hin hbits,hdone.live hbits,(hdone.recorded hbits).pointsTo hzero hlow⟩
  · have hdone := (h.behind s hs hin).inputs
    have hlow := (hinp.within _ (mem_areas hs hin hbits)).1
    rw [hstart]
    exact ⟨hinp.lies s hs hin hbits,hdone.live hbits,
      (hdone.recorded hbits).pointsTo hzero (by omega)⟩
  · have hdone := (h.behind s hs hin).status
    have hbits : s.statusBits=8 := if_pos hmbx
    have hlies := h.status.lies s hs hin (by rw [hbits]; decide)
    rw [hbits] at hlies
    exact ⟨hlies,hdone.live hmbx,hdone.place hmbx⟩

end Spread

section Main

variable {packed : Bool} {group start : Nat} {slaves slaves₁ slaves₂ : List Slave} {l li : Layout}

theorem demand_parts {s s' : Slave} (h : s'.demand=s.demand) :
    s'.group=s.group ∧ s'.obits=s.obits ∧ s'.ibits=s.ibits := by
  simp only [Slave.demand,Prod.mk.injEq] at h
  exact ⟨h.1,h.2.1,h.2.2.1⟩

/-- The three loops spread the areas of slaves whose sync managers are runs. -/
theorem loops_spread (hslaves : ∀ s ∈ slaves,inGroup group s → s.Runs) {seg : Segmenting}
    (hout : mapDirection (createOutputMappings group start) Slave.obits packed group slaves
      ⟨start,start,0,seg,0⟩=some (slaves₁,l))
    (hinp : mapDirection (createInputMappings group start) Slave.ibits packed group slaves₁
      { l.pad with wkc := 0 }=some (slaves₂,li)) (moved no : Nat) {r : StatusRun}
    (hr : r.logAddr=li.pad.logAddr) :
    Spread packed group (pointerBase group start) start l.pad.logAddr li.pad.logAddr
        (mapStatus group moved no slaves₂ r).2.logAddr (mapStatus group moved no slaves₂ r).1 ∧
      (mapStatus group moved no slaves₂ r).1.map Slave.demand=slaves.map Slave.demand := by
  obtain ⟨_,_,hout',hfollow,hpos,hall⟩ := mapDirection_follow packed (outputs_mapsOne group start)
    (l := ⟨start,start,0,seg,0⟩) (fun s hs hin => ⟨(hslaves s hs hin).unmapped,
      (hslaves s hs hin).outputRun,(hslaves s hs hin).outputs⟩) (Nat.zero_le 7)
  cases hout.symm.trans hout'
  obtain ⟨hborder,hzero⟩ := pad_bits hpos
  have hbehind := all_behindOutputs hslaves hall
  have hsent := behind_mem hbehind (fun _ _ h => h.1) fun _ _ h => h.2
  obtain ⟨_,_,hinp',hfollow',hpos',hall'⟩ := mapDirection_follow packed
    (inputs_mapsOne group start) (l := { l.pad with wkc := 0 })
    (fun s hs hin => (hsent s hs hin).ready) (hzero.trans_le (Nat.zero_le 7))
  cases hinp.symm.trans hinp'
  obtain ⟨hborder',-⟩ := pad_bits hpos'
  have hbehind' := all_behindInputs hsent hall'
  have hread := behind_mem hbehind' (fun _ _ h => h.1) fun _ _ h => h.2.1
  obtain ⟨hstatus,hall''⟩ := mapStatus_follow moved no (r := r)
    fun s hs hin => (hread s hs hin).unused
  have hbehind'' := all_behindStatus hread hall''
  rw [hr] at hstatus
  simp only [hzero,Nat.add_zero] at hfollow hfollow'
  refine ⟨⟨⟨_,(hfollow.congr (hbehind'.imp ?_)).congr (hbehind''.imp ?_),?_⟩,
    ⟨_,hfollow'.congr (hbehind''.imp ?_),?_⟩,hstatus,
    behind_mem hbehind'' (fun _ _ h => h.1) fun _ _ h => h.2.1⟩,?_⟩
  · rintro s s' ⟨hdemand,-,hkept⟩
    obtain ⟨hgroup,hobits,-⟩ := demand_parts hdemand
    exact ⟨hgroup,hobits,fun hbits => congrArg Fmmu.bits (hkept hbits)⟩
  · rintro s s' ⟨hdemand,-,hkept,-⟩
    obtain ⟨hgroup,hobits,-⟩ := demand_parts hdemand
    exact ⟨hgroup,hobits,fun hbits => congrArg Fmmu.bits (hkept hbits)⟩
  · rw [hborder]
    exact le_byteBorder _
  · rintro s s' ⟨hdemand,-,-,hkept⟩
    obtain ⟨hgroup,-,hibits⟩ := demand_parts hdemand
    exact ⟨hgroup,hibits,fun hbits => congrArg Fmmu.bits (hkept hbits)⟩
  · rw [hborder']
    exact le_byteBorder _
  · rw [demands_map hbehind'' fun _ _ h => h.1,demands_map hbehind' fun _ _ h => h.1,
      demands_map hbehind fun _ _ h => h.1]

variable {ctx ctx' : Context} {size : Nat}

theorem mainConfigMapGroup_image (hfresh : ctx.Fresh group) (hruns : OneRuns ctx group)
    (h : mainConfigMapGroup ctx group=some (ctx',size)) : Image ctx ctx' group size := by
  rw [mainConfigMapGroup,if_pos ⟨hfresh.slaves,hfresh.known⟩] at h
  obtain ⟨⟨slaves₁,l⟩,hout,h⟩ := Option.bind_eq_some_iff.mp h
  obtain ⟨⟨slaves₂,li⟩,hinp,h⟩ := Option.bind_eq_some_iff.mp h
  obtain ⟨_,-,h⟩ := Option.bind_eq_some_iff.mp h
  obtain ⟨segments,-,h⟩ := Option.bind_eq_some_iff.mp h
  cases h
  obtain ⟨hspread,hdemand⟩ := loops_spread (hfresh.runs hruns) hout hinp 0 1 (r := ⟨li.pad.logAddr,
    li.pad.seg,ctx.group.mbxstatuslookup,ctx.group.mbxstatuslength,li.pad.wkc⟩) rfl
  obtain ⟨hle,hle',hle''⟩ := hspread.le
  refine hspread.image ?_ rfl ?_ (hdemand.trans (findMappings_demand group ctx.slavelist))
  · intro hgroup
    rw [hfresh.start,hgroup,Nat.zero_mul]
  · simp only
    omega

theorem OneRuns.suffice (hruns : OneRuns ctx group) :
    ∀ s ∈ ctx.slavelist,inGroup group s → s.FmmusSuffice := by
  intro s hs hin
  obtain ⟨hout,hinp⟩ := hruns s hs hin
  refine ⟨_,_,?_,hout.fitsIn,hinp.fitsIn⟩
  split_ifs <;> decide

/-- The areas of a group are laid out as its image exactly if the segments suffice for it. -/
theorem image_iff (hfresh : ctx.Fresh group) (hmode : ctx.overlappedMode=false)
    (hruns : OneRuns ctx group) :
    (∃ ctx' size,configMapGroup ctx group=some (ctx',size) ∧ Image ctx ctx' group size) ↔
      putPieces ecFirstDcDatagram (ctx.pieces group) ≤ ecMaxIoSegments*ecMaxLrwData := by
  have hmode' : ¬ctx.overlappedMode=true := by
    rw [hmode]
    exact Bool.false_ne_true
  have hmapped := configMapGroup_iff hfresh
  rw [stage,if_neg hmode',mainStage_iff hfresh hmode] at hmapped
  constructor
  · rintro ⟨ctx',size,h,-⟩
    exact (hmapped.mp ⟨_,h⟩).segments
  · intro hsegments
    obtain ⟨⟨ctx',size⟩,h⟩ := hmapped.mpr ⟨hruns.suffice,hsegments⟩
    refine ⟨ctx',size,h,?_⟩
    rw [configMapGroup,if_neg hmode'] at h
    exact mainConfigMapGroup_image hfresh hruns h

/-- Three bits of outputs and five of inputs. -/
def bitsSlave : Slave :=
  smSlave [⟨0x1000,128,0⟩,⟨0x1080,128,0⟩,⟨0x1100,1,3⟩,⟨0x1180,1,4⟩] 3 5

theorem bitsSlave_run :
    OneRun bitsSlave.sm 3 bitsSlave.obits.toNat ∧ OneRun bitsSlave.sm 4 bitsSlave.ibits.toNat :=
  ⟨⟨by decide,by decide,by decide⟩,⟨by decide,by decide,by decide⟩⟩

/-- Bits, whole bytes and a status byte, packed. -/
theorem mixed_image : ∃ ctx' size,
    configMapGroup (freshContext [bitsSlave,mailboxSlave 0,bitsSlave] 0 true false) 0=
        some (ctx',size) ∧
      Image (freshContext [bitsSlave,mailboxSlave 0,bitsSlave] 0 true false) ctx' 0 size := by
  have hbits : bitsSlave.Fresh := smSlave_fresh _ _ _
  have hmailbox : OneRun (mailboxSlave 0).sm 3 (mailboxSlave 0).obits.toNat ∧
      OneRun (mailboxSlave 0).sm 4 (mailboxSlave 0).ibits.toNat :=
    ⟨⟨by decide,by decide,by decide⟩,⟨by decide,by decide,by decide⟩⟩
  have hruns : OneRuns (freshContext [bitsSlave,mailboxSlave 0,bitsSlave] 0 true false) 0 := by
    have hall : ∀ s ∈ [bitsSlave,mailboxSlave 0,bitsSlave],
        OneRun s.sm 3 s.obits.toNat ∧ OneRun s.sm 4 s.ibits.toNat := by
      simpa using ⟨bitsSlave_run,hmailbox,bitsSlave_run⟩
    exact fun s hs _ => hall s hs
  refine (image_iff (freshContext_fresh _ _ (by decide) (by decide) (by decide) ?_) rfl hruns).mpr
    (by decide)
  simpa using ⟨hbits,mailboxSlave_fresh 0,hbits⟩

/-- The segments of twelve of the longest slaves go beyond `IOsegment`. -/
theorem image_missing :
    configMapGroup (freshContext (List.replicate 12 largeSlave) 0 false false) 0=none ∧
      ¬∀ ctx group,Context.Fresh ctx group → ctx.overlappedMode=false → OneRuns ctx group →
        ∃ ctx' size,configMapGroup ctx group=some (ctx',size) ∧ Image ctx ctx' group size := by
  have hnone : configMapGroup (freshContext (List.replicate 12 largeSlave) 0 false false) 0=none :=
    Option.isNone_iff_eq_none.mp (by decide +kernel)
  have hlarge : largeSlave.Fresh := smSlave_fresh _ _ _
  have hrun : OneRun largeSlave.sm 3 largeSlave.obits.toNat ∧
      OneRun largeSlave.sm 4 largeSlave.ibits.toNat :=
    ⟨⟨by decide,by decide,by decide⟩,⟨by decide,by decide,by decide⟩⟩
  refine ⟨hnone,fun hall => ?_⟩
  obtain ⟨ctx',size,h,-⟩ := hall (freshContext (List.replicate 12 largeSlave) 0 false false) 0
    (freshContext_fresh _ _ (by decide) (by decide) (by decide)
      fun s hs => (List.eq_of_mem_replicate hs) ▸ hlarge) rfl
    fun s hs _ => (List.eq_of_mem_replicate hs) ▸ hrun
  exact absurd (hnone.symm.trans h) (Option.some_ne_none _).symm

end Main

end EtherCATMaster.Mapping
