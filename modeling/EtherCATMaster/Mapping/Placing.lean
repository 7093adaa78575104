import EtherCATMaster.Mapping.Fmmus
import EtherCATMaster.Mapping.Segments

namespace EtherCATMaster.Mapping

/-- What the mapping of process data leaves as it is. -/
structure Device where
  group : Nat
  mbxL : UInt16
  obits : UInt16
  ibits : UInt16
  obytes : Nat
  ibytes : Nat
  mbxstatus : Pointer
  blockLRW : Bool

def Slave.device (s : Slave) : Device :=
  ⟨s.group,s.mbxL,s.obits,s.ibits,s.obytes,s.ibytes,s.mbxstatus,s.blockLRW⟩

def Slave.Maps (s : Slave) (fmmuType addr : Nat) : Prop := ∃ i,(s.fmmu i).Maps fmmuType addr

/-- A slave whose lengths are those of its bits, and whose FMMUs are unused from a place on. -/
structure Slave.Ready (s : Slave) : Prop where
  obytes : s.obytes=if s.obits.toNat>7 then (s.obits.toNat+7)/8 else 0
  ibytes : s.ibytes=if s.ibits.toNat>7 then (s.ibits.toNat+7)/8 else 0
  idle : ∀ i,s.fmmuUnused ≤ i → (s.fmmu i).fmmuActive=0
  room : s.fmmuUnused ≤ ecMaxFmmu

/-- One direction of a slave has come to be mapped to `count` bytes from `start` on. -/
structure Slave.Extended (s s' : Slave) (fmmuType start count : Nat) : Prop where
  device : s'.device=s.device
  ready : s'.Ready
  unused : s.fmmuUnused ≤ s'.fmmuUnused
  maps : ∀ t addr,s'.Maps t addr ↔
    s.Maps t addr ∨ (t=fmmuType ∧ start ≤ addr ∧ addr < start+count)

theorem MapsRange.slave {fmmu fmmu' : Nat → Fmmu} {lo hi fmmuType start stop : Nat}
    (h : MapsRange fmmu fmmu' lo hi fmmuType start stop)
    (hidle : ∀ i,lo ≤ i → (fmmu i).fmmuActive=0) (t addr : Nat) :
    (∃ i,(fmmu' i).Maps t addr) ↔
      (∃ i,(fmmu i).Maps t addr) ∨ (t=fmmuType ∧ start ≤ addr ∧ addr < stop) := by
  rw [← h.maps t addr]
  constructor
  · rintro ⟨i,hmaps⟩
    by_cases hin : lo ≤ i ∧ i<hi
    · exact .inr ⟨i,hin.1,hin.2,hmaps⟩
    · rw [h.kept i (by omega)] at hmaps
      exact .inl ⟨i,hmaps⟩
  · rintro (⟨i,hmaps⟩|⟨i,-,-,hmaps⟩)
    · have hlo : i<lo := by
        by_contra hge
        exact hmaps.active (hidle i (by omega))
      refine ⟨i,?_⟩
      rw [h.kept i (.inl hlo)]
      exact hmaps
    · exact ⟨i,hmaps⟩

section Create

variable {s s' : Slave} {group start logAddr bitPos logAddr' bitPos' : Nat}

theorem freeFmmu_le {fmmu : Nat → Fmmu} :
    ∀ {n i j : Nat},freeFmmu fmmu n i=some j → i ≤ j ∧ j < ecMaxFmmu := by
  intro n
  induction n with
  | zero =>
    intro i j h
    cases h
  | succ n ih =>
    intro i j h
    rw [freeFmmu] at h
    split_ifs at h with hroom
    · obtain ⟨hle,hlt⟩ := ih h
      exact ⟨(Nat.le_succ i).trans hle,hlt⟩
    · cases h
      exact ⟨Nat.le_refl _,hroom⟩

theorem createOutputMappings_spec (hs : s.Ready) (hbits : s.obits≠0) (hpos : bitPos ≤ 7)
    (h : createOutputMappings group start s logAddr bitPos=some (s',logAddr',bitPos')) :
    logAddr'=logAddr+(width s.obits.toNat bitPos).1 ∧ bitPos'=(width s.obits.toNat bitPos).2 ∧
      s.Extended s' 2 (logAddr+(extent s.obits.toNat bitPos).1) (extent s.obits.toNat bitPos).2 := by
  obtain ⟨r,hr,heq⟩ := Option.bind_eq_some_iff.mp h
  cases heq
  have hsome : 0 < s.obits.toNat := by
    have : s.obits.toNat≠0 := fun hz => hbits (UInt16.toNat_inj.mp hz)
    omega
  have hmapped := mapFmmus_mapped (d := s.outputDirection) ⟨hsome,hs.obytes⟩ hpos
    (show smsStart.smc < ecMaxSm by decide) rfl
    hs.idle hr
  refine ⟨hmapped.logAddr,hmapped.bitPos,rfl,⟨hs.obytes,hs.ibytes,?_,mapFmmus_room hs.room hr⟩,
    hmapped.fmmuc,?_⟩
  · intro i hi
    have hge : s.fmmuUnused ≤ i := hmapped.fmmuc.trans hi
    exact (congrArg Fmmu.fmmuActive (hmapped.range.kept i (.inr hi))).trans (hs.idle i hge)
  · exact hmapped.range.slave hs.idle

theorem createInputMappings_spec (hs : s.Ready) (hbits : s.ibits≠0) (hpos : bitPos ≤ 7)
    (h : createInputMappings group start s logAddr bitPos=some (s',logAddr',bitPos')) :
    logAddr'=logAddr+(width s.ibits.toNat bitPos).1 ∧ bitPos'=(width s.ibits.toNat bitPos).2 ∧
      s.Extended s' 1 (logAddr+(extent s.ibits.toNat bitPos).1) (extent s.ibits.toNat bitPos).2 := by
  -- with outputs the first free FMMU is searched for
  obtain ⟨fmmuc,hle,hroom,r,hr,heq⟩ : ∃ fmmuc,s.fmmuUnused ≤ fmmuc ∧ fmmuc ≤ ecMaxFmmu ∧ ∃ r,
      mapFmmus s.sm s.inputDirection (pointerBase group start) ecMaxFmmu
        ⟨logAddr,bitPos,fmmuc,0,smsStart,s.fmmu,s.inputs,s.istartbit⟩=some r ∧
      some ({ s with
        fmmu := r.fmmu, fmmuUnused := r.fmmuc, inputs := r.pointer, istartbit := r.startbit },
        r.logAddr,r.bitPos)=some (s',logAddr',bitPos') := by
    simp only [createInputMappings] at h
    by_cases hout : s.obits≠0
    · rw [if_pos hout] at h
      obtain ⟨fmmuc,hfree,h⟩ := Option.bind_eq_some_iff.mp h
      obtain ⟨hle,hlt⟩ := freeFmmu_le hfree
      exact ⟨fmmuc,hle,hlt.le,Option.bind_eq_some_iff.mp h⟩
    · rw [if_neg hout] at h
      exact ⟨s.fmmuUnused,Nat.le_refl _,hs.room,Option.bind_eq_some_iff.mp h⟩
  cases heq
  have hsome : 0 < s.ibits.toNat := by
    have : s.ibits.toNat≠0 := fun hz => hbits (UInt16.toNat_inj.mp hz)
    omega
  have hidle : ∀ i,fmmuc ≤ i → (s.fmmu i).fmmuActive=0 := fun i hi => hs.idle i (hle.trans hi)
  have hmapped := mapFmmus_mapped (d := s.inputDirection)
    (r := ⟨logAddr,bitPos,fmmuc,0,smsStart,s.fmmu,s.inputs,s.istartbit⟩) ⟨hsome,hs.ibytes⟩ hpos
    (show smsStart.smc < ecMaxSm by decide) rfl hidle hr
  have hunused : fmmuc ≤ r.fmmuc := hmapped.fmmuc
  refine ⟨hmapped.logAddr,hmapped.bitPos,rfl,⟨hs.obytes,hs.ibytes,?_,mapFmmus_room hroom hr⟩,
    hle.trans hunused,?_⟩
  · intro i hi
    have hge : fmmuc ≤ i := hunused.trans hi
    exact (congrArg Fmmu.fmmuActive (hmapped.range.kept i (.inr hi))).trans (hidle i hge)
  · exact hmapped.range.slave hidle

end Create

def Places (create : Slave → Nat → Nat → Option (Slave × Nat × Nat)) (bits : Slave → UInt16)
    (fmmuType : Nat) : Prop :=
  ∀ s s' logAddr bitPos logAddr' bitPos',s.Ready → bits s≠0 → bitPos ≤ 7 →
    create s logAddr bitPos=some (s',logAddr',bitPos') →
    logAddr'=logAddr+(width (bits s).toNat bitPos).1 ∧ bitPos'=(width (bits s).toNat bitPos).2 ∧
      s.Extended s' fmmuType (logAddr+(extent (bits s).toNat bitPos).1)
        (extent (bits s).toNat bitPos).2

theorem outputs_place (group start : Nat) :
    Places (createOutputMappings group start) Slave.obits 2 :=
  fun _ _ _ _ _ _ hs hbits hpos h => createOutputMappings_spec hs hbits hpos h

theorem inputs_place (group start : Nat) :
    Places (createInputMappings group start) Slave.ibits 1 :=
  fun _ _ _ _ _ _ hs hbits hpos h => createInputMappings_spec hs hbits hpos h

def pieceWidth (packed : Bool) (bits bitPos : Nat) : Nat × Nat :=
  alignByte packed (width bits bitPos).1 (width bits bitPos).2

theorem width_bit_le (bits bitPos : Nat) : (width bits bitPos).2 ≤ 7 := by
  rw [width]
  by_cases hsmall : bits ≤ 7
  · rw [if_pos hsmall]
    simp only
    omega
  · rw [if_neg hsmall]
    exact Nat.zero_le 7

theorem pieceWidth_bit_le (packed : Bool) (bits bitPos : Nat) :
    (pieceWidth packed bits bitPos).2 ≤ 7 := by
  rw [pieceWidth,alignByte]
  split_ifs
  · exact Nat.zero_le 7
  · exact width_bit_le bits bitPos

theorem alignByte_add (packed : Bool) (base n bitPos : Nat) :
    alignByte packed (base+n) bitPos=
      (base+(alignByte packed n bitPos).1,(alignByte packed n bitPos).2) := by
  rw [alignByte,alignByte]
  split_ifs <;> rfl

/-- The pieces of one direction of a group, and the bit that the last one ends at. -/
def pieces (bits : Slave → UInt16) (packed : Bool) (group : Nat) :
    List Slave → Nat → List Nat × Nat
  | [],bitPos => ([],bitPos)
  | s::rest,bitPos =>
      if inGroup group s ∧ bits s≠0 then
        let w := pieceWidth packed (bits s).toNat bitPos
        let r := pieces bits packed group rest w.2
        (w.1::r.1,r.2)
      else pieces bits packed group rest bitPos

section Same

variable {bits : Slave → UInt16} {packed : Bool} {group : Nat}

theorem pieces_congr {xs ys : List Slave}
    (h : xs.map (fun s => (s.group,bits s))=ys.map (fun s => (s.group,bits s))) (bitPos : Nat) :
    pieces bits packed group xs bitPos=pieces bits packed group ys bitPos := by
  induction xs generalizing ys bitPos with
  | nil =>
    cases ys with
    | nil => rfl
    | cons y rest' => cases h
  | cons x rest ih =>
    cases ys with
    | nil => cases h
    | cons y rest' =>
      obtain ⟨hhead,htail⟩ := List.cons.inj h
      obtain ⟨hgroup,hbits⟩ := Prod.mk.inj hhead
      have hin : (inGroup group x ∧ bits x≠0) ↔ (inGroup group y ∧ bits y≠0) := by
        rw [inGroup,inGroup,hgroup,hbits]
      rw [pieces,pieces,if_congr hin rfl rfl]
      simp only [hbits,ih htail]

end Same

/-- The datagrams that are counted for one direction of a group. -/
def counted (bits : Slave → UInt16) (packed : Bool) (group : Nat) :
    List Slave → Nat → Segmenting → Nat
  | [],bitPos,g => if bitPos≠0 then g.pad.1 else 0
  | s::rest,bitPos,g =>
      if inGroup group s ∧ bits s≠0 then
        let w := pieceWidth packed (bits s).toNat bitPos
        (g.extend w.1).1+counted bits packed group rest w.2 (g.extend w.1).2
      else counted bits packed group rest bitPos g

/-- The slaves after one direction has been mapped from an address and a bit on. -/
inductive Placed (bits : Slave → UInt16) (fmmuType : Nat) (packed : Bool) (group : Nat) :
    Nat → Nat → List Slave → List Slave → Prop
  | nil (base bitPos : Nat) : Placed bits fmmuType packed group base bitPos [] []
  | skip (base bitPos : Nat) (s : Slave) (rest rest' : List Slave) :
      ¬(inGroup group s ∧ bits s≠0) → Placed bits fmmuType packed group base bitPos rest rest' →
      Placed bits fmmuType packed group base bitPos (s::rest) (s::rest')
  | place (base bitPos : Nat) (s s' : Slave) (rest rest' : List Slave) :
      inGroup group s ∧ bits s≠0 → s.Extended s' fmmuType (base+(extent (bits s).toNat bitPos).1)
        (extent (bits s).toNat bitPos).2 →
      Placed bits fmmuType packed group (base+(pieceWidth packed (bits s).toNat bitPos).1)
        (pieceWidth packed (bits s).toNat bitPos).2 rest rest' →
      Placed bits fmmuType packed group base bitPos (s::rest) (s'::rest')

variable {bits : Slave → UInt16} {fmmuType : Nat} {packed : Bool} {group : Nat}

/-- The loop over the slaves places them one after the other and cuts their pieces. -/
theorem mapDirection_spec {create : Slave → Nat → Nat → Option (Slave × Nat × Nat)}
    (hcreate : Places create bits fmmuType) {slaves slaves' : List Slave} {l l' : Layout}
    (hready : ∀ s ∈ slaves,inGroup group s → s.Ready) (hpos : l.bitPos ≤ 7)
    (hlog : l.oLogAddr=l.logAddr)
    (h : mapDirection create bits packed group slaves l=some (slaves',l')) :
    Placed bits fmmuType packed group l.logAddr l.bitPos slaves slaves' ∧
      l'.logAddr=l.logAddr+(pieces bits packed group slaves l.bitPos).1.sum ∧
      l'.oLogAddr=l'.logAddr ∧ l'.bitPos=(pieces bits packed group slaves l.bitPos).2 ∧
      l'.bitPos ≤ 7 ∧ l'.seg=cut l.seg (pieces bits packed group slaves l.bitPos).1 ∧
      l'.pad.wkc=l.wkc+counted bits packed group slaves l.bitPos l.seg := by
  induction slaves generalizing slaves' l with
  | nil =>
    cases h
    refine ⟨.nil _ _,rfl,hlog,rfl,hpos,rfl,?_⟩
    rw [Layout.pad,counted]
    split_ifs <;> rfl
  | cons s rest ih =>
    have hrest : ∀ s ∈ rest,inGroup group s → s.Ready :=
      fun x hx => hready x (List.mem_cons_of_mem s hx)
    rw [mapDirection] at h
    by_cases hin : inGroup group s ∧ bits s≠0
    · rw [if_pos hin] at h
      obtain ⟨c,hc,h⟩ := Option.bind_eq_some_iff.mp h
      obtain ⟨_,hplace,h⟩ := Option.bind_eq_some_iff.mp h
      cases hplace
      obtain ⟨rs,hrs,h⟩ := Option.bind_eq_some_iff.mp h
      cases h
      obtain ⟨s1,logAddr,bitPos⟩ := c
      obtain ⟨hlog1,hpos1,hext⟩ := hcreate _ _ _ _ _ _ (hready s List.mem_cons_self hin.1) hin.2
        hpos hc
      have hplace : (l.place packed logAddr bitPos).logAddr=
            l.logAddr+(pieceWidth packed (bits s).toNat l.bitPos).1 ∧
          (l.place packed logAddr bitPos).bitPos=
            (pieceWidth packed (bits s).toNat l.bitPos).2 ∧
          (l.place packed logAddr bitPos).seg=
            (l.seg.extend (pieceWidth packed (bits s).toNat l.bitPos).1).2 ∧
          (l.place packed logAddr bitPos).wkc=
            l.wkc+(l.seg.extend (pieceWidth packed (bits s).toNat l.bitPos).1).1 := by
        have halign := alignByte_add packed l.logAddr (width (bits s).toNat l.bitPos).1
          (width (bits s).toNat l.bitPos).2
        rw [hlog1,hpos1]
        simp only [Layout.place,halign,hlog,Nat.add_sub_cancel_left]
        exact ⟨rfl,rfl,rfl,rfl⟩
      obtain ⟨hlog2,hpos2,hseg2,hwkc2⟩ := hplace
      have hnext := ih (l := l.place packed logAddr bitPos) hrest
        (by rw [hpos2]; exact pieceWidth_bit_le _ _ _) rfl hrs
      rw [hlog2,hpos2,hseg2,hwkc2] at hnext
      obtain ⟨hplaced,hlog',holog',hpos',hle',hseg',hwkc'⟩ := hnext
      rw [pieces,if_pos hin,counted,if_pos hin]
      refine ⟨.place _ _ _ _ _ _ hin hext hplaced,?_,holog',hpos',hle',hseg',?_⟩
      · rw [hlog',List.sum_cons]
        exact Nat.add_assoc _ _ _
      · rw [hwkc']
        exact Nat.add_assoc _ _ _
    · rw [if_neg hin] at h
      obtain ⟨_,hsame,h⟩ := Option.bind_eq_some_iff.mp h
      cases hsame
      obtain ⟨rs,hrs,h⟩ := Option.bind_eq_some_iff.mp h
      cases h
      obtain ⟨hplaced,hothers⟩ := ih hrest hpos hlog hrs
      rw [pieces,if_neg hin,counted,if_neg hin]
      exact ⟨.skip _ _ _ _ _ hin hplaced,hothers⟩

def openByte (bitPos : Nat) : Nat := if bitPos≠0 then 1 else 0

theorem extent_covers (packed : Bool) (bits bitPos : Nat) :
    (extent bits bitPos).1 ≤ openByte bitPos ∧
      (pieceWidth packed bits bitPos).1+openByte (pieceWidth packed bits bitPos).2=
        (extent bits bitPos).1+(extent bits bitPos).2 := by
  have hclosed : (width bits bitPos).1+openByte (width bits bitPos).2=
      (extent bits bitPos).1+(extent bits bitPos).2 := by
    rw [width,extent]
    by_cases hsmall : bits ≤ 7
    · rw [if_pos hsmall,if_pos hsmall,openByte]
      simp only
      split_ifs <;> omega
    · rw [if_neg hsmall,if_neg hsmall]
      rfl
  constructor
  · rw [extent]
    by_cases hsmall : bits ≤ 7
    · rw [if_pos hsmall]
      exact Nat.zero_le _
    · rw [if_neg hsmall]
      exact Nat.le_refl _
  · rw [← hclosed,pieceWidth,alignByte]
    by_cases halign : packed=false ∧ (width bits bitPos).2≠0
    · rw [if_pos halign,openByte,openByte,if_pos halign.2]
      rfl
    · rw [if_neg halign]

theorem Placed.covers {base bitPos : Nat} {slaves slaves' : List Slave}
    (h : Placed bits fmmuType packed group base bitPos slaves slaves') {a : Nat}
    (hlow : base+openByte bitPos ≤ a)
    (hhigh : a<base+(pieces bits packed group slaves bitPos).1.sum+
      openByte (pieces bits packed group slaves bitPos).2) :
    ∃ s ∈ slaves',inGroup group s ∧ s.Maps fmmuType a := by
  induction h with
  | nil base bitPos =>
    simp only [pieces,List.sum_nil] at hhigh
    omega
  | skip base bitPos s rest rest' hskip _ ih =>
    rw [pieces,if_neg hskip] at hhigh
    obtain ⟨s1,hs1,hmaps⟩ := ih hlow hhigh
    exact ⟨s1,List.mem_cons_of_mem s hs1,hmaps⟩
  | place base bitPos s s' rest rest' hin hext _ ih =>
    rw [pieces,if_pos hin] at hhigh
    simp only [List.sum_cons] at hhigh
    obtain ⟨hfirst,hstop⟩ := extent_covers packed (bits s).toNat bitPos
    by_cases hnext : base+(pieceWidth packed (bits s).toNat bitPos).1+
        openByte (pieceWidth packed (bits s).toNat bitPos).2 ≤ a
    · obtain ⟨s1,hs1,hmaps⟩ := ih hnext (by omega)
      exact ⟨s1,List.mem_cons_of_mem s' hs1,hmaps⟩
    · refine ⟨s',List.mem_cons_self,?_,?_⟩
      · rw [inGroup,show s'.group=s.group from congrArg Device.group hext.device]
        exact hin.1
      · exact (hext.maps fmmuType a).mpr (.inr ⟨rfl,by omega,by omega⟩)

end EtherCATMaster.Mapping
