import EtherCATMaster.Mapping.Counted
import EtherCATMaster.Mapping.StatusBytes

namespace EtherCATMaster.Mapping

open Framework

section Same

variable {bits : Slave → UInt16} {packed : Bool} {group : Nat}

theorem directionTally_congr (count : Nat → Nat → Segmenting → Nat) (last : Segmenting → Nat)
    {xs ys : List Slave}
    (h : xs.map (fun s => (s.group,bits s))=ys.map (fun s => (s.group,bits s))) (bitPos : Nat)
    (g : Segmenting) : directionTally count last bits packed group xs bitPos g=
      directionTally count last bits packed group ys bitPos g := by
  induction xs generalizing ys bitPos g with
  | nil =>
    cases ys with
    | nil => rfl
    | cons y rest' => cases h
  | cons x rest ih =>
    cases ys with
    | nil => cases h
    | cons y rest' =>
      obtain ⟨hhead,htail⟩ := List.cons.inj h
      obtain ⟨hgroup,hbits⟩ := Prod.mk.inj hhead
      have hin : (inGroup group x ∧ bits x≠0) ↔ (inGroup group y ∧ bits y≠0) := by
        rw [inGroup,inGroup,hgroup,hbits]
      rw [directionTally,directionTally,if_congr hin rfl rfl]
      simp only [hbits,ih htail]

end Same

section Others

variable {bits : Slave → UInt16} {fmmuType : Nat} {packed : Bool} {group base bitPos : Nat}
  {slaves slaves' : List Slave}

theorem Placed.within (h : Placed bits fmmuType packed group base bitPos slaves slaves')
    (hwithin : ∀ s ∈ slaves,s.Within) : ∀ s ∈ slaves',s.Within := by
  induction h with
  | nil => exact hwithin
  | skip _ _ s rest rest' _ _ ih =>
    intro x hx
    rcases List.mem_cons.mp hx with rfl|hx
    · exact hwithin x List.mem_cons_self
    · exact ih (fun y hy => hwithin y (List.mem_cons_of_mem s hy)) x hx
  | place _ _ s s' rest rest' _ hext _ ih =>
    intro x hx
    rcases List.mem_cons.mp hx with rfl|hx
    · exact hext.ready.within
    · exact ih (fun y hy => hwithin y (List.mem_cons_of_mem s hy)) x hx

theorem Placed.hitSum_other (h : Placed bits fmmuType packed group base bitPos slaves slaves')
    (hwithin : ∀ s ∈ slaves,s.Within) {t : Nat} (ht : t≠fmmuType) (segments : List Nat)
    (logAdr : Nat) : hitSum slaves' t segments logAdr=hitSum slaves t segments logAdr := by
  induction h with
  | nil => rfl
  | skip _ _ s rest rest' _ _ ih =>
    rw [hitSum_cons,hitSum_cons,ih (fun y hy => hwithin y (List.mem_cons_of_mem s hy))]
  | place _ _ s s' rest rest' _ hext _ ih =>
    have hsame : ∀ a,s'.Maps t a ↔ s.Maps t a := by
      intro a
      rw [hext.maps]
      constructor
      · rintro (hmaps|⟨heq,-⟩)
        · exact hmaps
        · exact absurd heq ht
      · exact .inl
    rw [hitSum_cons,hitSum_cons,ih (fun y hy => hwithin y (List.mem_cons_of_mem s hy)),
      (hwithin s List.mem_cons_self).hits_congr hext.ready.within _ _ hsame]

theorem Placed.maps_range (h : Placed bits fmmuType packed group base bitPos slaves slaves')
    {s' : Slave} (hs' : s' ∈ slaves') {t a : Nat} (hmaps : s'.Maps t a) :
    (∃ s ∈ slaves,s.Maps t a) ∨ (t=fmmuType ∧ base ≤ a ∧
      a<base+(padded (pieces bits packed group slaves bitPos)).sum) := by
  induction h with
  | nil => cases hs'
  | skip base bitPos s rest rest' hskip _ ih =>
    rw [pieces,if_neg hskip]
    rcases List.mem_cons.mp hs' with rfl|hs'
    · exact .inl ⟨s',List.mem_cons_self,hmaps⟩
    · rcases ih hs' with ⟨x,hx,hmaps⟩|hrange
      · exact .inl ⟨x,List.mem_cons_of_mem s hx,hmaps⟩
      · exact .inr hrange
  | place base bitPos s s1 rest rest' hin hext _ ih =>
    rw [pieces,if_pos hin,padded_cons,List.sum_cons]
    rcases List.mem_cons.mp hs' with rfl|hs'
    · rcases (hext.maps t a).mp hmaps with hmaps|⟨ht,hlow,hhigh⟩
      · exact .inl ⟨s,List.mem_cons_self,hmaps⟩
      · obtain ⟨-,hstop⟩ := extent_covers packed (bits s).toNat bitPos
        have hopen := openByte_le bits packed group rest
          (pieceWidth packed (bits s).toNat bitPos).2
        exact .inr ⟨ht,by omega,by omega⟩
    · rcases ih hs' with ⟨x,hx,hmaps⟩|⟨ht,hlow,hhigh⟩
      · exact .inl ⟨x,List.mem_cons_of_mem s hx,hmaps⟩
      · exact .inr ⟨ht,by omega,by omega⟩

end Others

section Status

/-- The last byte of the inputs of a slave is in the datagram of its status byte. -/
def Slave.Beside (s : Slave) (closed : List Nat) (stop q : Nat) : Prop :=
  s.ibits≠0 ∧ blockOf closed (stop-1)=blockOf closed q

instance Slave.Beside.decidable (s : Slave) (closed : List Nat) (stop q : Nat) :
    Decidable (s.Beside closed stop q) := inferInstanceAs (Decidable (_ ∧ _))

/-- A status byte is counted for every slave without whole bytes of inputs: also when there is no
room for it, and when its datagram is counted for bits of the slave. -/
def statusTwice (g : Segmenting) (s : Slave) (stop q : Nat) : Nat :=
  if s.ibits.toNat ≤ 7 ∧ (g.total ≤ q ∨ s.Beside g.iosegment stop q) then 1 else 0

/-- It is not counted for a slave with whole bytes of inputs, which may be in other datagrams. -/
def statusLeftOut (g : Segmenting) (s : Slave) (stop q : Nat) : Nat :=
  if 7<s.ibits.toNat ∧ q<g.total ∧ ¬s.Beside g.iosegment stop q then 1 else 0

/-- Something counted over the status bytes of a group, of which byte `q` comes next: for each slave
that has one, by its sizes, the end of its inputs and its byte. The inputs go on at byte `x`. -/
def statusTally (count : Slave → Nat → Nat → Nat) (packed : Bool) (group : Nat) :
    List Slave → Nat → Nat → Nat → Nat
  | [],_,_,_ => 0
  | s::rest,x,bitPos,q =>
      let w := if inGroup group s ∧ s.ibits≠0 then pieceWidth packed s.ibits.toNat bitPos
        else (0,bitPos)
      if s.HasStatus group then
        count s (x+w.1+openByte w.2) q+statusTally count packed group rest (x+w.1) w.2 (q+1)
      else statusTally count packed group rest (x+w.1) w.2 q

variable {group start : Nat} {g : Segmenting} {s s' : Slave} {q : Nat}

/-- The FMMU for the status byte adds its datagram, if no inputs are there. -/
theorem Slave.TakesStatus.hits_eq (h : s.TakesStatus group) (hready : s.Ready)
    (hfmmu : s'.fmmu=Function.update s.fmmu s.fmmuUnused (.ofStatus (start+q))) {first stop : Nat}
    (hrange : ∀ a,s.Maps 1 a ↔ start+first ≤ a ∧ a<start+stop) (hstop : stop ≤ q) :
    s'.hits 2 (g.iosegment++[g.segmentsize]) start=s.hits 2 (g.iosegment++[g.segmentsize]) start ∧
      s'.hits 1 (g.iosegment++[g.segmentsize]) start=
        s.hits 1 (g.iosegment++[g.segmentsize]) start+
          if q<g.total ∧ ¬(first < stop ∧ blockOf g.iosegment (stop-1)=blockOf g.iosegment q)
            then 1 else 0 := by
  classical
  have hmaps := hready.maps_ofStatus hfmmu
  have hwithin : s'.Within := by
    intro i hi
    rw [hfmmu,Function.update_of_ne (by have := h.2.2; omega)]
    exact hready.within i hi
  constructor
  · apply hready.within.hits_congr hwithin
    intro a
    rw [hmaps]
    constructor
    · rintro (hmaps|⟨heq,-⟩)
      · exact hmaps
      · cases heq
    · exact .inl
  · have hold := hready.within.hits_eq 1 (g.iosegment++[g.segmentsize]) start
      (P := fun x => s.Maps 1 (start+x)) (fun x => Iff.rfl)
    have hnew := hwithin.hits_eq 1 (g.iosegment++[g.segmentsize]) start
      (P := fun x => s.Maps 1 (start+x) ∨ x=q) (fun x => by rw [hmaps]; simp)
    have hsum : (g.iosegment++[g.segmentsize]).sum=g.total := by
      rw [List.sum_append,List.sum_singleton]
      rfl
    have hbefore : ∀ x,s.Maps 1 (start+x) → first ≤ x ∧ x < stop := by
      intro x hx
      have := (hrange _).mp hx
      omega
    rw [hold,hnew]
    by_cases hq : q<g.total
    · -- of the inputs, the last byte comes nearest to the status byte
      have hsame : (∃ x,s.Maps 1 (start+x) ∧ blockOf (g.iosegment++[g.segmentsize]) x=
          blockOf (g.iosegment++[g.segmentsize]) q) ↔
          first < stop ∧ blockOf g.iosegment (stop-1)=blockOf g.iosegment q := by
        rw [blockOf_last hq]
        constructor
        · rintro ⟨x,hx,heq⟩
          obtain ⟨hlow,hhigh⟩ := hbefore x hx
          rw [blockOf_last (by rw [← Segmenting.total]; omega)] at heq
          have hle := blockOf_mono g.iosegment (show x ≤ stop-1 by omega)
          have hle' := blockOf_mono g.iosegment (show stop-1 ≤ q by omega)
          exact ⟨by omega,by omega⟩
        · rintro ⟨hsome,heq⟩
          refine ⟨stop-1,(hrange _).mpr ⟨by omega,by omega⟩,?_⟩
          rw [blockOf_last (by rw [← Segmenting.total]; omega)]
          exact heq
      rw [touched_insert _ _ (fun x hx => (hbefore x hx).2.trans_le hstop) (by omega),
        if_congr hsame rfl rfl]
      split_ifs <;> simp_all
    · rw [if_neg (fun hc => hq hc.1),Nat.add_zero]
      apply touched_congr
      intro x hx
      exact or_iff_left (by omega)

theorem status_counted (g : Segmenting) (s : Slave) (stop q : Nat) :
    (if s.ibits.toNat ≤ 7 then 1 else 0)+statusLeftOut g s stop q=
      (if q<g.total ∧ ¬s.Beside g.iosegment stop q then 1 else 0)+statusTwice g s stop q := by
  rw [statusLeftOut,statusTwice]
  by_cases hsmall : s.ibits.toNat ≤ 7
  · rw [if_pos hsmall,if_neg (fun h => by have := h.1; omega)]
    by_cases hown : q<g.total ∧ ¬s.Beside g.iosegment stop q
    · rw [if_pos hown,if_neg]
      rintro ⟨-,hno|hbeside⟩
      · exact absurd hown.1 (by omega)
      · exact hown.2 hbeside
    · rw [if_neg hown,if_pos]
      refine ⟨hsmall,?_⟩
      by_contra hneither
      obtain ⟨hq,hbeside⟩ := not_or.mp hneither
      exact hown ⟨by omega,hbeside⟩
  · rw [if_neg hsmall,if_congr (and_iff_right (show 7<s.ibits.toNat by omega)) rfl rfl,
      if_neg (fun h : s.ibits.toNat ≤ 7 ∧ _ => hsmall h.1)]
    omega

/-- What is counted for the status byte of one slave. -/
theorem mapStatus_one (moved no first stop : Nat) {s0 : Slave} (rest : List Slave)
    {r : StatusRun} (hstaged : s0.StagedFrom group s) (hr : r.logAddr=start+q)
    (hready : inGroup group s → s.Ready)
    (hrange : inGroup group s → ∀ a,s.Maps 1 a ↔ start+first ≤ a ∧ a<start+stop)
    (hsome : inGroup group s → (first < stop ↔ s0.ibits≠0)) (hstop : stop ≤ q) :
    ∃ s' next,mapStatus group moved no (s::rest) r=
        (s'::(mapStatus group moved (no+1) rest next).1,
          (mapStatus group moved (no+1) rest next).2) ∧
      next.logAddr=start+(if s0.HasStatus group then q+1 else q) ∧
      s'.hits 2 (g.iosegment++[g.segmentsize]) start=
        s.hits 2 (g.iosegment++[g.segmentsize]) start ∧
      next.wkc+s.hits 1 (g.iosegment++[g.segmentsize]) start+
          (if s0.HasStatus group then statusLeftOut g s0 stop q else 0)=
        r.wkc+s'.hits 1 (g.iosegment++[g.segmentsize]) start+
          if s0.HasStatus group then statusTwice g s0 stop q else 0 := by
  by_cases hin : inGroup group s
  · refine ⟨_,_,by rw [mapStatus,if_pos hin],?_⟩
    by_cases htakes : s.TakesStatus group
    · have hfmmu : Slave.fmmu { (createMbxstatusMappings no s r).1 with
          mbxstatus := (createMbxstatusMappings no s r).1.mbxstatus.add moved }=
          Function.update s.fmmu s.fmmuUnused (.ofStatus (start+q)) := by
        rw [createMbxstatusMappings,if_pos htakes.2,← hr]
        rfl
      obtain ⟨htwo,hone⟩ := htakes.hits_eq (g := g) (hready hin) hfmmu (hrange hin) hstop
      obtain ⟨hlog,-,-⟩ := createMbxstatusMappings_of_takes no htakes r
      have hwkc : (createMbxstatusMappings no s r).2.wkc=
          r.wkc+if s.ibytes=0 then 1 else 0 := by
        rw [createMbxstatusMappings,if_pos htakes.2]
        simp only
        split_ifs <;> rfl
      have hibytes : s.ibytes=0 ↔ s0.ibits.toNat ≤ 7 := by
        rw [(hready hin).ibytes,hstaged.ibits]
        split_ifs <;> omega
      have hhas := hstaged.status.mp htakes
      rw [if_pos hhas,if_pos hhas,if_pos hhas]
      refine ⟨by simp only [hlog,hr,Nat.add_assoc],htwo,?_⟩
      have hbeside : (first < stop ∧ blockOf g.iosegment (stop-1)=blockOf g.iosegment q) ↔
          s0.Beside g.iosegment stop q := and_congr_left fun _ => hsome hin
      have hstatus := status_counted g s0 stop q
      rw [hone,if_congr (and_congr_right fun _ => not_congr hbeside) rfl rfl]
      simp only [hwkc,if_congr hibytes rfl rfl]
      omega
    · have hsame := createMbxstatusMappings_of_not no hin htakes r
      have hhits : ∀ t,Slave.hits { (createMbxstatusMappings no s r).1 with
          mbxstatus := (createMbxstatusMappings no s r).1.mbxstatus.add moved } t
          (g.iosegment++[g.segmentsize]) start=s.hits t (g.iosegment++[g.segmentsize]) start := by
        intro t
        rw [hsame]
        apply Slave.hits_fmmu
        rfl
      have hnot : ¬s0.HasStatus group := fun h => htakes (hstaged.status.mpr h)
      rw [if_neg hnot,if_neg hnot,if_neg hnot,hhits,hhits]
      refine ⟨by simp only [hsame,hr],rfl,?_⟩
      simp only [hsame]
  · have hnot : ¬s0.HasStatus group := fun h => hin (hstaged.status.mpr h).1
    refine ⟨s,r,by rw [mapStatus,if_neg hin],?_⟩
    rw [if_neg hnot,if_neg hnot,if_neg hnot]
    exact ⟨hr,rfl,rfl⟩

variable {packed : Bool} {base bitPos x : Nat}

/-- What is counted for the status bytes behind the inputs. -/
theorem mapStatus_counted (moved no : Nat) {slaves0 mid slaves : List Slave} {r : StatusRun}
    (h : Placed Slave.ibits 1 packed group base bitPos mid slaves) (hbase : base=start+x)
    (hstaged : List.Forall₂ (Slave.StagedFrom group) slaves0 slaves)
    (hr : r.logAddr=start+q) (hready : ∀ s ∈ slaves,inGroup group s → s.Ready)
    (hnone : ∀ s ∈ mid,∀ a,¬s.Maps 1 a)
    (hend : x+(padded (pieces Slave.ibits packed group mid bitPos)).sum ≤ q) :
    hitSum (mapStatus group moved no slaves r).1 2 (g.iosegment++[g.segmentsize]) start=
        hitSum slaves 2 (g.iosegment++[g.segmentsize]) start ∧
      (mapStatus group moved no slaves r).2.wkc+
          hitSum slaves 1 (g.iosegment++[g.segmentsize]) start+
          statusTally (statusLeftOut g) packed group slaves0 x bitPos q=
        r.wkc+hitSum (mapStatus group moved no slaves r).1 1 (g.iosegment++[g.segmentsize]) start+
          statusTally (statusTwice g) packed group slaves0 x bitPos q := by
  induction h generalizing slaves0 no r q x with
  | nil base bitPos =>
    cases hstaged
    exact ⟨rfl,rfl⟩
  | skip base bitPos s rest rest' hskip _ ih =>
    obtain ⟨s0,rest0,hs0,hrest0,rfl⟩ := List.forall₂_cons_right_iff.mp hstaged
    have hskip0 : ¬(inGroup group s0 ∧ s0.ibits≠0) := by
      rw [inGroup,← hs0.sameGroup,← hs0.ibits]
      exact hskip
    rw [pieces,if_neg hskip] at hend
    have hopen := openByte_le Slave.ibits packed group rest bitPos
    obtain ⟨s',next,hmap,hnext,htwo,hone⟩ := mapStatus_one (g := g) moved no
      (x+openByte bitPos) (x+openByte bitPos) rest' hs0 hr (hready s List.mem_cons_self)
      (fun _ a => ⟨fun hmaps => absurd hmaps (hnone s List.mem_cons_self a),fun h => by omega⟩)
      (fun hin => by
        have hzero : ¬s0.ibits≠0 := fun h => hskip0 ⟨by rwa [inGroup,← hs0.sameGroup],h⟩
        simp only [hzero,lt_self_iff_false])
      (by omega)
    obtain ⟨htwo',hone'⟩ := ih (no+1) hbase hrest0 hnext
      (fun y hy => hready y (List.mem_cons_of_mem s hy))
      (fun y hy => hnone y (List.mem_cons_of_mem s hy)) (by split_ifs <;> omega)
    rw [hmap]
    simp only [hitSum_cons,htwo,htwo',statusTally,if_neg hskip0,Nat.add_zero,true_and]
    split_ifs at hone hone' ⊢ <;> omega
  | place base bitPos s s1 rest rest' hin hext _ ih =>
    obtain ⟨s0,rest0,hs0,hrest0,rfl⟩ := List.forall₂_cons_right_iff.mp hstaged
    have hgroup : s1.group=s.group := congrArg Device.group hext.device
    have hibits : s.ibits=s0.ibits := (congrArg Device.ibits hext.device).symm.trans hs0.ibits
    have hin0 : inGroup group s0 ∧ s0.ibits≠0 := by
      rw [inGroup,← hs0.sameGroup,hgroup,← hibits]
      exact hin
    rw [pieces,if_pos hin,padded_cons,List.sum_cons,hibits] at hend
    rw [hibits] at hext ih
    obtain ⟨hfirst,hstop⟩ := extent_covers packed s0.ibits.toNat bitPos
    have hsome := extent_some (toNat_pos hin0.2) bitPos
    have hopen := openByte_le Slave.ibits packed group rest
      (pieceWidth packed s0.ibits.toNat bitPos).2
    obtain ⟨s',next,hmap,hnext,htwo,hone⟩ := mapStatus_one (g := g) moved no
      (x+(extent s0.ibits.toNat bitPos).1)
      (x+(pieceWidth packed s0.ibits.toNat bitPos).1+
        openByte (pieceWidth packed s0.ibits.toNat bitPos).2) rest' hs0 hr
      (hready s1 List.mem_cons_self)
      (fun _ a => by
        rw [hext.maps]
        constructor
        · rintro (hmaps|⟨-,hlow,hhigh⟩)
          · exact absurd hmaps (hnone s List.mem_cons_self a)
          · omega
        · intro h
          exact .inr ⟨rfl,by omega,by omega⟩)
      (fun _ => ⟨fun _ => hin0.2,fun _ => by omega⟩) (by omega)
    obtain ⟨htwo',hone'⟩ := ih (no+1) (x := x+(pieceWidth packed s0.ibits.toNat bitPos).1)
      (by omega) hrest0 hnext (fun y hy => hready y (List.mem_cons_of_mem s1 hy))
      (fun y hy => hnone y (List.mem_cons_of_mem s hy)) (by split_ifs <;> omega)
    rw [hmap]
    simp only [hitSum_cons,htwo,htwo',statusTally,if_pos hin0,true_and]
    split_ifs at hone hone' ⊢ <;> omega

end Status

section Balance

/-- The segments of a group, by the sync managers and sizes of its slaves. -/
def Context.segments (ctx : Context) (group : Nat) : Segmenting :=
  statusCut (cut .start (ctx.pieces group)) (ctx.statusPieces group)

/-- A count over the outputs, the inputs and the status bytes of a group. An output counts twice. -/
def Context.tally (ctx : Context) (group : Nat)
    (direction : (Slave → UInt16) → Bool → Nat → List Slave → Nat → Segmenting → Nat)
    (status : Slave → Nat → Nat → Nat) : Nat :=
  let outputs := padded (Mapping.pieces Slave.obits ctx.packedMode group ctx.slavelist 0)
  2*direction Slave.obits ctx.packedMode group ctx.slavelist 0 .start+
    direction Slave.ibits ctx.packedMode group ctx.slavelist 0 (cut .start outputs)+
    statusTally status ctx.packedMode group ctx.slavelist outputs.sum 0 (ctx.pieces group).sum

def Context.countedTwice (ctx : Context) (group : Nat) : Nat :=
  ctx.tally group (directionTwice (ctx.segments group).iosegment)
    (statusTwice (ctx.segments group))

def Context.leftOut (ctx : Context) (group : Nat) : Nat :=
  ctx.tally group (directionLeftOut (ctx.segments group).iosegment)
    (statusLeftOut (ctx.segments group))

/-- What is counted too often and what is left out is the same. -/
def Balanced (ctx : Context) (group : Nat) : Prop := ctx.countedTwice group=ctx.leftOut group

instance Balanced.decidable (ctx : Context) (group : Nat) : Decidable (Balanced ctx group) :=
  inferInstanceAs (Decidable (_=_))

variable {ctx ctx' : Context} {group size : Nat} {p : Stage}

theorem findMappings_group (group : Nat) (bits : Slave → UInt16) (hbits : ∀ s,bits (mapSm s)=bits s)
    (slaves : List Slave) : (findMappings group slaves).map (fun s => (s.group,bits s))=
      slaves.map (fun s => (s.group,bits s)) := by
  rw [findMappings,List.map_map]
  apply List.map_congr_left
  intro s _
  simp only [Function.comp]
  split_ifs
  · rw [hbits]
    rfl
  · rfl

theorem Context.Fresh.unmapped (h : ctx.Fresh group) :
    ∀ s ∈ findMappings group ctx.slavelist,s.Within ∧ ∀ t a,¬s.Maps t a := by
  intro s hs
  obtain ⟨s0,hs0,rfl⟩ := List.mem_map.mp hs
  have hfmmu : (if inGroup group s0 then mapSm s0 else s0).fmmu=s0.fmmu := by
    split_ifs <;> rfl
  constructor
  · intro i _
    rw [hfmmu,(h.fresh s0 hs0).fmmu]
    rfl
  · rintro t a ⟨i,hmaps⟩
    rw [hfmmu,(h.fresh s0 hs0).fmmu] at hmaps
    exact hmaps.active rfl

/-- The working counters of a mapped group are those of its datagrams, but for what is counted too
often or left out. -/
theorem Stage.Leaves.wkc_eq (hfresh : ctx.Fresh group) (hmode : ctx.overlappedMode=false)
    (hstage : stage ctx group=some p) (hp : p.Sound ctx group)
    (h : p.Leaves ctx ctx' group size) :
    ctx'.group.outputsWKC*2+ctx'.group.inputsWKC+ctx.leftOut group=
      workingCounter ctx'.slavelist ctx'.group.iosegment ctx'.group.logstartaddr+
        ctx.countedTwice group := by
  have hstaged := stage_staged hfresh hstage
  have hseg := stage_seg hfresh hstage
  rw [stage,if_neg (by rw [hmode]; exact Bool.false_ne_true)] at hstage
  obtain ⟨mid,hplaced⟩ := mainStage_placed hfresh hstage
  have hentry := h.entry_spec hfresh
  obtain ⟨hopen,hfollows⟩ := hp.segments_open
  have hspan : p.span ctx.overlappedMode=p.obytes+p.ibytes := by
    rw [Stage.span,hmode,if_neg Bool.false_ne_true]
  -- neither the FMMUs of the group nor its slaves are in use at the beginning
  have hwithin : ∀ s ∈ findMappings group ctx.slavelist,s.Within :=
    fun s hs => (hfresh.unmapped s hs).1
  have hnone : ∀ s ∈ findMappings group ctx.slavelist,∀ t a,¬s.Maps t a :=
    fun s hs => (hfresh.unmapped s hs).2
  have hmid : ∀ s ∈ mid,∀ a,¬s.Maps 1 a := by
    intro s hs a hmaps
    rcases hplaced.outputs.maps_range hs hmaps with ⟨x,hx,hmaps⟩|⟨ht,-⟩
    · exact hnone x hx 1 a hmaps
    · exact absurd ht (by decide)
  -- the slaves in the three places have the same sizes
  have hobits := findMappings_group group Slave.obits (fun _ => rfl) ctx.slavelist
  have hibits : mid.map (fun s => (s.group,s.ibits))=
      ctx.slavelist.map (fun s => (s.group,s.ibits)) := by
    have hdevices := congrArg (List.map (fun d : Device => (d.group,d.ibits)))
      hplaced.outputs.devices
    rw [List.map_map,List.map_map] at hdevices
    exact hdevices.trans (findMappings_group group Slave.ibits (fun _ => rfl) ctx.slavelist)
  have hcut := cut_sound start_sound (padded
    (pieces Slave.obits ctx.packedMode group (findMappings group ctx.slavelist) 0))
  have hcut' := cut_sound hcut.1 (padded (pieces Slave.ibits ctx.packedMode group mid 0))
  rw [← hplaced.seg] at hcut'
  have hzero : Segmenting.start.total=0 := rfl
  have hsegments : p.segments group=ctx.segments group := by
    rw [Stage.segments,Context.segments,hseg,staged_pieces hstaged]
    rfl
  -- the outputs, then the inputs, then the status bytes
  have houtputs := hplaced.outputs.counted_eq ctx.group.logstartaddr (by omega)
    start_sound hopen (hcut'.2.1.trans hfollows) hwithin (fun s hs a => hnone s hs 2 a)
  have hinputs := hplaced.inputs.counted_eq ctx.group.logstartaddr
    (g := cut .start (padded
      (pieces Slave.obits ctx.packedMode group (findMappings group ctx.slavelist) 0)))
    (by rw [hcut.2.2,hplaced.obytes]; omega) hcut.1 hopen (by rw [← hplaced.seg]; exact hfollows)
    (hplaced.outputs.within hwithin) hmid
  have hother := hplaced.inputs.hitSum_other (hplaced.outputs.within hwithin) (t := 2) (by decide)
    ((p.segments group).iosegment++[(p.segments group).segmentsize]) ctx.group.logstartaddr
  have hobytes := hplaced.obytes
  have hibytes := hplaced.ibytes
  obtain ⟨htwo,hone⟩ := mapStatus_counted (g := p.segments group) 0 1
    (r := ⟨ctx.group.logstartaddr+p.span ctx.overlappedMode,p.seg,ctx.group.mbxstatuslookup,
      ctx.group.mbxstatuslength,p.inputsWKC⟩) hplaced.inputs rfl hstaged (by rw [hspan]) hp.ready
    hmid (by omega)
  have hstatus : p.status ctx group=mapStatus group 0 1 p.slavelist
      ⟨ctx.group.logstartaddr+p.span ctx.overlappedMode,p.seg,ctx.group.mbxstatuslookup,
        ctx.group.mbxstatuslength,p.inputsWKC⟩ := by
    rw [Stage.status,if_neg (by rw [hmode]; exact Bool.false_ne_true)]
  rw [← hstatus] at htwo hone
  have hsum : (ctx.pieces group).sum=p.obytes+p.ibytes := by
    rw [Context.pieces,hmode,if_neg Bool.false_ne_true,List.sum_append,hobytes,hibytes,
      pieces_congr hobits,pieces_congr hibits]
  have hout : ctx'.group.outputsWKC=p.outputsWKC := by rw [h.entry]; rfl
  have hin : ctx'.group.inputsWKC=(p.status ctx group).2.wkc := by rw [h.entry]; rfl
  have hwkc := hplaced.outputsWKC
  have hwkc' := hplaced.inputsWKC
  rw [directionLeftOut,directionTwice,directionTally_congr _ _ hobits,
    directionTally_congr _ _ hobits] at houtputs
  rw [directionLeftOut,directionTwice,directionTally_congr _ _ hibits,
    directionTally_congr _ _ hibits,pieces_congr hobits] at hinputs
  rw [pieces_congr hobits] at hwkc' hobytes
  rw [workingCounter_eq,h.slavelist,hentry.iosegment,hentry.logstartaddr,hout,hin,
    Context.leftOut,Context.countedTwice,Context.tally,Context.tally,← hsegments,hsum,htwo,hother]
  simp only [directionLeftOut,directionTwice,← hobytes] at hone ⊢
  omega

/-- Without overlap the expected working counter of a group is that of a cycle exactly if the counts
are balanced. -/
theorem working_counter_iff (hfresh : ctx.Fresh group) (hmode : ctx.overlappedMode=false)
    (h : configMapGroup ctx group=some (ctx',size)) :
    ctx'.group.outputsWKC*2+ctx'.group.inputsWKC=
      workingCounter ctx'.slavelist ctx'.group.iosegment ctx'.group.logstartaddr ↔
      Balanced ctx group := by
  obtain ⟨p,hstage,hp,hleaves⟩ := configMapGroup_stage hfresh h
  have hwkc := hleaves.wkc_eq hfresh hmode hstage hp
  rw [Balanced]
  omega

theorem mailbox_working_counter :
    ∃ ctx' size,configMapGroup (freshContext [mailboxSlave 0] 0 false false) 0=some (ctx',size) ∧
      ctx'.group.outputsWKC*2+ctx'.group.inputsWKC=
        workingCounter ctx'.slavelist ctx'.group.iosegment ctx'.group.logstartaddr := by
  have hfresh : (freshContext [mailboxSlave 0] 0 false false).Fresh 0 :=
    freshContext_fresh _ _ (by decide) (by decide) (by decide) (by simpa using mailboxSlave_fresh 0)
  have hmapped : (configMapGroup (freshContext [mailboxSlave 0] 0 false false) 0).isSome=true := by
    decide +kernel
  obtain ⟨⟨ctx',size⟩,h⟩ := Option.isSome_iff_exists.mp hmapped
  exact ⟨ctx',size,h,(working_counter_iff hfresh rfl h).mpr (by decide +kernel)⟩

/-- A slave with a mailbox and four bits of inputs. -/
def bitInputSlave (group : Nat) : Slave :=
  { mailboxSlave group with
    obits := 0
    ibits := 4
    sm := fun i =>
      [Sm.mk 0x1000 128 1,Sm.mk 0x1080 128 2,Sm.mk 0x1100 0 3,Sm.mk 0x1180 1 4].getD i ⟨0,0,0⟩ }

theorem bitInputSlave_fresh (group : Nat) : (bitInputSlave group).Fresh :=
  ⟨rfl,rfl,rfl,fun _ => rfl,rfl,rfl,rfl⟩

/-- The slave has no whole bytes of inputs, so its status is counted once more. The one datagram has
both. -/
theorem bit_inputs_counted_twice :
    (freshContext [bitInputSlave 0] 0 false false).Fresh 0 ∧
      ∃ ctx' size,configMapGroup (freshContext [bitInputSlave 0] 0 false false) 0=some (ctx',size) ∧
        ctx'.group.outputsWKC*2+ctx'.group.inputsWKC=2 ∧
        workingCounter ctx'.slavelist ctx'.group.iosegment ctx'.group.logstartaddr=1 := by
  have hmapped : (configMapGroup (freshContext [bitInputSlave 0] 0 false false) 0).any (fun r =>
      decide (r.1.group.outputsWKC*2+r.1.group.inputsWKC=2 ∧
        workingCounter r.1.slavelist r.1.group.iosegment r.1.group.logstartaddr=1))=true := by
    decide +kernel
  refine ⟨freshContext_fresh _ _ (by decide) (by decide) (by decide)
    (by simpa using bitInputSlave_fresh 0),?_⟩
  obtain ⟨⟨ctx',size⟩,h,hrun⟩ := (Option.any_eq_true _ _).mp hmapped
  obtain ⟨hcounted,hreal⟩ := of_decide_eq_true hrun
  exact ⟨ctx',size,h,hcounted,hreal⟩

end Balance

end EtherCATMaster.Mapping
