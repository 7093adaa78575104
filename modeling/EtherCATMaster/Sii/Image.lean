import EtherCATMaster.Sii.Sections

namespace EtherCATMaster.Sii
open EtherCATMaster.Framework

/-- These bytes lie at `n`. -/
def Holds (rom : Nat → UInt8) : Nat → List UInt8 → Prop
  | _,[] => True
  | n,b::bs => rom n=b ∧ Holds rom (n+1) bs

/-- A section of the SII area. -/
structure SiiSection where
  cat : UInt16
  data : List UInt8

def SiiSection.words (s : SiiSection) : UInt16 := UInt16.ofNat (s.data.length/2)

def SiiSection.bytes (s : SiiSection) : List UInt8 := le16 s.cat++(le16 s.words++s.data)

/-- It has whole words, and is not taken for the end. -/
structure SiiSection.Proper (s : SiiSection) : Prop where
  even : s.data.length%2=0
  notEnd : s.cat≠0xffff

def areaBytes : List SiiSection → List UInt8
  | [] => le16 0xffff
  | s::rest => s.bytes++areaBytes rest

/-- The EEPROM holds these sections from the start of its SII area on. -/
structure HoldsArea (rom : Nat → UInt8) (sections : List SiiSection) : Prop where
  proper : ∀ s ∈ sections,s.Proper
  holds : Holds rom (ectSiiStart <<< 1) (areaBytes sections)
  inside : (ectSiiStart <<< 1)+(areaBytes sections).length ≤ ecMaxEepBuf

def firstOf (cat : UInt16) : List SiiSection → Option SiiSection
  | [] => none
  | s::rest => if s.cat=cat then some s else firstOf cat rest

variable {rom : Nat → UInt8} {cat : UInt16}

theorem firstOf_mem {sections : List SiiSection} {s : SiiSection} :
    firstOf cat sections=some s → s ∈ sections := by
  induction sections with
  | nil =>
    intro h
    cases h
  | cons first rest ih =>
    rw [firstOf]
    split_ifs
    · intro h
      rw [Option.some.inj h]
      exact List.mem_cons_self
    · exact fun h => List.mem_cons_of_mem _ (ih h)

theorem holds_append (xs ys : List UInt8) : ∀ n,
    Holds rom n (xs++ys) ↔ Holds rom n xs ∧ Holds rom (n+xs.length) ys := by
  induction xs with
  | nil => exact fun n => ⟨fun h => ⟨trivial,h⟩,fun h => h.2⟩
  | cons x xs ih =>
    intro n
    rw [List.cons_append,Holds,Holds,ih (n+1),and_assoc,List.length_cons,Nat.add_assoc,
      Nat.add_comm 1]

theorem Holds.get {bytes : List UInt8} {b : UInt8} : ∀ {n k : Nat},Holds rom n bytes →
    bytes[k]?=some b → rom (n+k)=b := by
  induction bytes with
  | nil =>
    intro n k _ hk
    cases hk
  | cons x xs ih =>
    intro n k h hk
    cases k with
    | zero => exact h.1.trans (Option.some.inj hk)
    | succ k =>
      rw [← Nat.add_assoc,Nat.add_right_comm]
      exact ih h.2 hk

theorem holds_of_get {bytes : List UInt8} : ∀ {n : Nat},
    (∀ k b,bytes[k]?=some b → rom (n+k)=b) → Holds rom n bytes := by
  induction bytes with
  | nil => exact fun _ => trivial
  | cons x xs ih =>
    intro n h
    refine ⟨h 0 x rfl,ih fun k b hk => ?_⟩
    rw [Nat.add_assoc,Nat.add_comm 1]
    exact h (k+1) b hk

theorem areaContents_holds (area : List UInt8) (slave : UInt16) :
    Holds (areaContents area slave) (ectSiiStart <<< 1) area := by
  apply holds_of_get
  intro k b hk
  rw [areaContents,if_neg (by omega),Nat.add_sub_cancel_left,List.getD_eq_getElem?_getD,hk,
    Option.getD_some]

theorem word_le16 (x : UInt16) :
    (UInt8.ofNat x.toNat).toUInt16+((UInt8.ofNat (x.toNat/256)).toUInt16 <<< 8)=x := by
  have hx := x.toNat_lt
  apply UInt16.toNat_inj.mp
  rw [UInt16.toNat_add,UInt16.toNat_shiftLeft,UInt8.toNat_toUInt16,UInt8.toNat_toUInt16,
    UInt8.toNat_ofNat',UInt8.toNat_ofNat',show (8 : UInt16).toNat%16=8 from rfl,Nat.shiftLeft_eq]
  omega

theorem siiWord_holds {n : Nat} {x : UInt16} (h : Holds rom n (le16 x)) (hn : n+2 ≤ ecMaxEepBuf) :
    siiWord rom n=x := by
  obtain ⟨hlow,hhigh,-⟩ := h
  rw [siiWord,siiByte,siiByte,if_pos (by omega),if_pos (by omega),hlow,hhigh]
  exact word_le16 x

section Search

/-- Following the lengths leads to the first section of a category, or to the end. -/
theorem sectionEnd_area (hcat : cat≠0xffff) (sections : List SiiSection) : ∀ n,
    (∀ s ∈ sections,s.Proper) → Holds rom n (areaBytes sections) →
    n+(areaBytes sections).length ≤ ecMaxEepBuf →
    match firstOf cat sections with
    | some s => n ≤ sectionEnd rom cat n ∧ siiWord rom (sectionEnd rom cat n)=cat ∧
        Holds rom (sectionEnd rom cat n+2) (le16 s.words++s.data) ∧
        sectionEnd rom cat n+4+s.data.length ≤ ecMaxEepBuf
    | none => sectionEnd rom cat n<ecMaxEepBuf ∧ siiWord rom (sectionEnd rom cat n)≠cat := by
  have hbuf : ecMaxEepBuf=4096 := rfl
  induction sections with
  | nil =>
    intro n _ h hlen
    have hend : siiWord rom n=0xffff := siiWord_holds h hlen
    have hstop : sectionEnd rom cat n=n := by
      rw [sectionEnd,if_neg fun hgo => hgo.2.2 hend]
    rw [areaBytes,le16_length] at hlen
    refine ⟨?_,?_⟩ <;> rw [hstop]
    · omega
    · rw [hend]
      exact hcat.symm
  | cons s rest ih =>
    intro n hproper h hlen
    obtain ⟨heven,hnotEnd⟩ := hproper s List.mem_cons_self
    rw [areaBytes,SiiSection.bytes,List.append_assoc,List.append_assoc,holds_append,le16_length,
      holds_append,le16_length,holds_append] at h
    obtain ⟨hcategory,hwords,hdata,hrest⟩ := h
    rw [areaBytes,SiiSection.bytes] at hlen
    simp only [List.length_append,le16_length] at hlen
    have hword : siiWord rom n=s.cat := siiWord_holds hcategory (by omega)
    have hlength : siiWord rom (n+2)=s.words := siiWord_holds hwords (by omega)
    have hnat : 2*s.words.toNat=s.data.length := by
      rw [SiiSection.words,UInt16.toNat_ofNat']
      omega
    by_cases hfound : s.cat=cat
    · have hstop : sectionEnd rom cat n=n := by
        rw [sectionEnd,if_neg fun hgo => hgo.2.1 (hword.trans hfound)]
      rw [firstOf,if_pos hfound]
      refine ⟨?_,?_,?_,?_⟩ <;> rw [hstop]
      · exact hword.trans hfound
      · rw [holds_append,le16_length]
        exact ⟨hwords,hdata⟩
      · omega
    · have hnext : sectionEnd rom cat n=sectionEnd rom cat (n+2+2+s.data.length) := by
        rw [sectionEnd,if_pos ⟨by omega,hword ▸ hfound,hword ▸ hnotEnd⟩,nextSection,hlength,hnat]
      have hlater := ih (n+2+2+s.data.length) (fun s hs => hproper s (List.mem_cons_of_mem _ hs))
        hrest (by omega)
      rw [firstOf,if_neg hfound,hnext]
      revert hlater
      cases firstOf cat rest with
      | none => exact id
      | some s' =>
        intro hlater
        obtain ⟨hle,hothers⟩ := hlater
        exact ⟨by omega,hothers⟩

variable {sections : List SiiSection} {s : SiiSection}

theorem HoldsArea.searchEnds (h : HoldsArea rom sections) (hcat : cat≠0xffff) :
    SearchEnds rom cat := by
  have hbuf : ecMaxEepBuf=4096 := rfl
  have hend := sectionEnd_area hcat sections _ h.proper h.holds h.inside
  rw [SearchEnds]
  revert hend
  cases firstOf cat sections with
  | none =>
    rintro ⟨hlt,-⟩
    omega
  | some s =>
    rintro ⟨-,-,-,hroom⟩
    omega

theorem HoldsArea.absent (h : HoldsArea rom sections) (hcat : cat≠0xffff)
    (hnone : firstOf cat sections=none) : siiAddress rom cat=0 := by
  have hend := sectionEnd_area hcat sections _ h.proper h.holds h.inside
  rw [hnone] at hend
  rw [siiAddress,foundAddress,if_pos hend.2]

theorem HoldsArea.found (h : HoldsArea rom sections) (hcat : cat≠0xffff)
    (hsome : firstOf cat sections=some s) :
    ∃ a,0 < a ∧ a+2+s.data.length ≤ ecMaxEepBuf ∧ siiAddress rom cat=Int16.ofNat a ∧
      Holds rom a (le16 s.words++s.data) := by
  have hend := sectionEnd_area hcat sections _ h.proper h.holds h.inside
  rw [hsome] at hend
  obtain ⟨-,hword,hholds,hroom⟩ := hend
  refine ⟨_,Nat.succ_pos _,?_,?_,hholds⟩
  · omega
  · rw [siiAddress,foundAddress,if_neg (not_not_intro hword)]

end Search

section Bytes

variable {a k : Nat} {bytes : List UInt8} {b : UInt8}

theorem Holds.table (h : Holds rom a bytes) (hroom : a+bytes.length ≤ ecMaxEepBuf)
    (hk : bytes[k]?=some b) : siiTable rom (UInt16.ofNat a+UInt16.ofNat k)=b := by
  have hbuf : ecMaxEepBuf=4096 := rfl
  have hlt := (List.getElem?_eq_some_iff.mp hk).1
  have hnat : (UInt16.ofNat a+UInt16.ofNat k).toNat=a+k := by
    rw [← UInt16.ofNat_add,UInt16.toNat_ofNat']
    exact Nat.mod_eq_of_lt (by omega)
  rw [siiTable,hnat,siiByte,if_pos (by omega)]
  exact h.get hk

theorem Holds.word (h : Holds rom a bytes) (hroom : a+bytes.length ≤ ecMaxEepBuf) {x : UInt16}
    (hlow : bytes[k]?=some (UInt8.ofNat x.toNat))
    (hhigh : bytes[k+1]?=some (UInt8.ofNat (x.toNat/256))) :
    (wordAt (UInt16.ofNat a+UInt16.ofNat k)).eval (siiTable rom)=x := by
  have hnext : UInt16.ofNat a+UInt16.ofNat k+1=UInt16.ofNat a+UInt16.ofNat (k+1) := by
    rw [UInt16.add_assoc,UInt16.ofNat_add k 1]
    rfl
  rw [wordAt,Query.eval_bind,Query.eval_entry,Query.eval_bind,Query.eval_entry,Query.eval_pure,hnext,
    h.table hroom hlow,h.table hroom hhigh]
  exact word_le16 x

theorem Holds.head (h : Holds rom a (b::bytes)) (ha : a<ecMaxEepBuf) :
    siiTable rom (UInt16.ofNat a)=b := by
  have hbuf : ecMaxEepBuf=4096 := rfl
  rw [siiTable,UInt16.toNat_ofNat',Nat.mod_eq_of_lt (by omega),siiByte,if_pos ha]
  exact h.1

theorem Holds.headWord {x : UInt16} (h : Holds rom a (le16 x++bytes)) (hroom : a+1<ecMaxEepBuf) :
    (wordAt (UInt16.ofNat a)).eval (siiTable rom)=x := by
  have hnext : UInt16.ofNat a+1=UInt16.ofNat (a+1) := (UInt16.ofNat_add a 1).symm
  rw [wordAt,Query.eval_bind,Query.eval_entry,Query.eval_bind,Query.eval_entry,Query.eval_pure,hnext,
    Holds.head h (Nat.lt_of_succ_lt hroom),Holds.head h.2 hroom]
  exact word_le16 x

end Bytes

/-- The entry of a SyncManager in the SII. -/
structure SmRecord where
  phStart : UInt16
  plength : UInt16
  creg : UInt8
  sreg : UInt8
  activate : UInt8
  pdiCtrl : UInt8

def SmRecord.bytes (r : SmRecord) : List UInt8 :=
  le16 r.phStart++(le16 r.plength++[r.creg,r.sreg,r.activate,r.pdiCtrl])

def smData : List SmRecord → List UInt8
  | [] => []
  | r::rest => r.bytes++smData rest

/-- The record as `ecx_siiSM` and `ecx_siiSMnext` hand it out. -/
def SmRecord.read (r : SmRecord) (startpos : UInt16) (nSm : UInt8) : EepromSm :=
  ⟨startpos,nSm,r.phStart,r.plength,r.creg,r.sreg,r.activate,r.pdiCtrl⟩

section SyncManagers

variable {a : Nat} {r : SmRecord} {rs : List SmRecord}

theorem SmRecord.bytes_length (r : SmRecord) : r.bytes.length=8 := rfl

theorem smData_length (rs : List SmRecord) : (smData rs).length=8*rs.length := by
  induction rs with
  | nil => rfl
  | cons r rest ih =>
    rw [smData,List.length_append,ih,r.bytes_length,List.length_cons]
    omega

theorem Holds.smRecord {n k : Nat} (h : Holds rom n (smData rs)) (hk : rs[k]?=some r) :
    Holds rom (n+8*k) r.bytes := by
  induction rs generalizing n k with
  | nil => cases hk
  | cons first rest ih =>
    rw [smData,holds_append,SmRecord.bytes_length] at h
    cases k with
    | zero =>
      cases hk
      exact h.1
    | succ k =>
      rw [show n+8*(k+1)=n+8+8*k by omega]
      exact ih h.2 hk

theorem smEntryAt_eval (h : Holds rom a r.bytes) (hroom : a+8 ≤ ecMaxEepBuf) (sm : EepromSm) :
    (smEntryAt (UInt16.ofNat a) sm).eval (siiTable rom)=r.read sm.startpos sm.nSm := by
  have hphStart := h.word (k := 0) hroom (x := r.phStart) rfl rfl
  have hplength := h.word (k := 2) hroom (x := r.plength) rfl rfl
  have hcreg := h.table (k := 4) hroom (b := r.creg) rfl
  have hsreg := h.table (k := 5) hroom (b := r.sreg) rfl
  have hactivate := h.table (k := 6) hroom (b := r.activate) rfl
  have hpdiCtrl := h.table (k := 7) hroom (b := r.pdiCtrl) rfl
  simp only [UInt16.reduceOfNat,UInt16.add_zero] at hphStart hplength hcreg hsreg hactivate hpdiCtrl
  simp only [smEntryAt,Query.eval_bind,Query.eval_entry,Query.eval_pure,hphStart,hplength,hcreg,
    hsreg,hactivate,hpdiCtrl]
  rfl

theorem siiSmNextOf_eval (h : Holds rom (a+2) (smData rs)) (hroom : a+2+8*rs.length ≤ ecMaxEepBuf)
    (hlen : rs.length<256) {sm : EepromSm} (hstartpos : sm.startpos=UInt16.ofNat a)
    (hnSm : sm.nSm=UInt8.ofNat rs.length) {k : Nat} (hk : k<256) :
    siiSmNextOf rom sm (UInt16.ofNat k)=
      match rs[k]? with
      | some r => (1,r.read (UInt16.ofNat a) (UInt8.ofNat rs.length))
      | none => (0,sm) := by
  have hmore : UInt16.ofNat k<sm.nSm.toUInt16 ↔ k<rs.length := by
    rw [hnSm,UInt16.lt_iff_toNat_lt,UInt16.toNat_ofNat',UInt8.toNat_toUInt16,UInt8.toNat_ofNat']
    omega
  rw [siiSmNextOf]
  split_ifs with hlt
  · have hlt' := hmore.mp hlt
    have hat : sm.startpos+2+UInt16.ofNat k*8=UInt16.ofNat (a+2+8*k) := by
      rw [hstartpos,UInt16.ofNat_add,UInt16.ofNat_add,UInt16.ofNat_mul,UInt16.mul_comm]
      rfl
    have hrecord := h.smRecord (List.getElem?_eq_getElem hlt')
    rw [List.getElem?_eq_getElem hlt',nextSmAt,hat,smEntryAt_eval hrecord (by omega),hstartpos,hnSm]
  · rw [List.getElem?_eq_none (Nat.not_lt.mp fun hlt' => hlt (hmore.mpr hlt'))]

end SyncManagers

def stringsBytes : List (List UInt8) → List UInt8
  | [] => []
  | str::rest => UInt8.ofNat str.length::(str++stringsBytes rest)

def stringData (strings : List (List UInt8)) : List UInt8 :=
  UInt8.ofNat strings.length::stringsBytes strings

section Strings

theorem copyString_eval (str : List UInt8) : ∀ (a j : Nat),Holds rom a str →
    a+str.length ≤ ecMaxEepBuf → (copyString str.length j (UInt16.ofNat a)).eval (siiTable rom)=
      str.take (ecMaxName+1-j) := by
  induction str with
  | nil => exact fun _ _ _ _ => List.take_nil.symm
  | cons c rest ih =>
    intro a j h hroom
    rw [List.length_cons] at hroom ⊢
    have hfirst := h.head (show a<ecMaxEepBuf by omega)
    have hrest := ih (a+1) (j+1) h.2 (by omega)
    have hnext : UInt16.ofNat a+1=UInt16.ofNat (a+1) := (UInt16.ofNat_add a 1).symm
    rw [copyString,Query.eval_ite]
    split_ifs with hj
    · rw [Query.eval_bind,Query.eval_entry,Query.eval_bind,hnext,hrest,hfirst,Query.eval_pure,
        show ecMaxName+1-j=ecMaxName+1-(j+1)+1 by omega,List.take_succ_cons]
    · rw [hnext,hrest,show ecMaxName+1-j=0 by omega,show ecMaxName+1-(j+1)=0 by omega,List.take_zero,
        List.take_zero]

theorem walkStrings_eval (strings : List (List UInt8)) : ∀ (a k : Nat) {str : List UInt8},
    Holds rom a (stringsBytes strings) → a+(stringsBytes strings).length ≤ ecMaxEepBuf →
    (∀ str ∈ strings,str.length<256) → strings[k]?=some str →
    (walkStrings (k+1) (UInt16.ofNat a)).eval (siiTable rom)=str.take ecMaxName := by
  induction strings with
  | nil =>
    intro a k str _ _ _ hk
    cases hk
  | cons first rest ih =>
    intro a k str h hroom hlen hk
    have hfirst := hlen first List.mem_cons_self
    have hnat : (UInt8.ofNat first.length).toNat=first.length := by
      rw [UInt8.toNat_ofNat']
      exact Nat.mod_eq_of_lt hfirst
    have hnext : UInt16.ofNat a+1=UInt16.ofNat (a+1) := (UInt16.ofNat_add a 1).symm
    rw [stringsBytes,List.length_cons,List.length_append] at hroom
    have hlength := h.head (show a<ecMaxEepBuf by omega)
    rw [stringsBytes,Holds,holds_append] at h
    obtain ⟨-,hstr,hothers⟩ := h
    rw [walkStrings,Query.eval_bind,Query.eval_entry,Query.eval_ite,hlength,hnext]
    cases k with
    | zero =>
      cases hk
      rw [if_neg (Nat.lt_irrefl 0),hnat,copyString_eval first _ 1 hstr (by omega),
        Nat.add_sub_cancel]
    | succ k =>
      have hskip : UInt16.ofNat (a+1)+(UInt8.ofNat first.length).toUInt16=
          UInt16.ofNat (a+1+first.length) := by
        rw [UInt16.ofNat_add (a+1),← UInt16.ofNat_uInt8ToNat,hnat]
      rw [if_pos (Nat.succ_pos k),hskip]
      exact ih _ k hothers (by omega) (fun str hstr => hlen str (List.mem_cons_of_mem _ hstr)) hk

end Strings

section Sections

variable {sections : List SiiSection} {rest : List UInt8}

theorem found_toUInt16 {a : Nat} (ha : 0 < a) (hroom : a+2 ≤ ecMaxEepBuf)
    (haddress : siiAddress rom cat=Int16.ofNat a) :
    (siiAddress rom cat).toUInt16=UInt16.ofNat a ∧ (siiAddress rom cat).toUInt16>0 ∧
      siiAddress rom cat>0 := by
  have hbuf : ecMaxEepBuf=4096 := rfl
  have hunsigned : (siiAddress rom cat).toUInt16=UInt16.ofNat a := by
    rw [haddress,Int16.toUInt16_ofNat']
  refine ⟨hunsigned,?_,?_⟩
  · rw [hunsigned]
    apply UInt16.lt_iff_toNat_lt.mpr
    rw [UInt16.toNat_ofNat',Nat.mod_eq_of_lt (by omega)]
    exact ha
  · rw [haddress]
    apply Int16.lt_iff_toInt_lt.mpr
    rw [Int16.toInt_ofNat_of_lt (by omega),Int16.toInt_zero]
    omega

theorem siiStringOf_image (h : HoldsArea rom sections) {strings : List (List UInt8)}
    (hsome : firstOf ectSiiString sections=some ⟨ectSiiString,stringData strings++rest⟩)
    (hcount : strings.length<256) (hlen : ∀ str ∈ strings,str.length<256) (old : List UInt8)
    {Sn : UInt16} {k : Nat} (hSn : Sn.toNat=k+1) :
    siiAddress rom ectSiiString>0 ∧
      siiStringOf rom old Sn=((strings[k]?).getD []).take ecMaxName := by
  have hbuf : ecMaxEepBuf=4096 := rfl
  obtain ⟨a,ha,hroom,haddress,hholds⟩ := h.found (by decide) hsome
  simp only [List.length_append] at hroom
  obtain ⟨hunsigned,hpositive,hsigned⟩ := found_toUInt16 ha (by omega) haddress
  refine ⟨hsigned,?_⟩
  rw [holds_append,le16_length,holds_append] at hholds
  obtain ⟨-,hdata,-⟩ := hholds
  have hn := hdata.head (show a+2<ecMaxEepBuf by rw [stringData,List.length_cons] at hroom; omega)
  have hn2 : UInt16.ofNat (a+2)=UInt16.ofNat a+2 := UInt16.ofNat_add a 2
  have hn3 : UInt16.ofNat a+2+1=UInt16.ofNat (a+2+1) := by
    rw [UInt16.ofNat_add (a+2) 1,hn2]
    rfl
  rw [hn2] at hn
  rw [siiStringOf,if_pos hpositive,hunsigned,stringAt,Query.eval_bind,Query.eval_entry,hn,
    Query.eval_ite]
  have havailable : Sn ≤ (UInt8.ofNat strings.length).toUInt16 ↔ k<strings.length := by
    rw [UInt16.le_iff_toNat_le,UInt8.toNat_toUInt16,UInt8.toNat_ofNat',Nat.mod_eq_of_lt hcount,hSn]
    omega
  split_ifs with hSn'
  · have hk := havailable.mp hSn'
    rw [stringData,List.length_cons] at hroom
    rw [List.getElem?_eq_getElem hk,Option.getD_some,hSn,hn3]
    exact walkStrings_eval strings _ k hdata.2 (by omega) hlen (List.getElem?_eq_getElem hk)
  · rw [List.getElem?_eq_none (Nat.not_lt.mp fun hk => hSn' (havailable.mpr hk))]
    rfl

theorem siiSmOf_image (h : HoldsArea rom sections) {rs : List SmRecord}
    (hsome : firstOf ectSiiSm sections=some ⟨ectSiiSm,smData rs⟩) (hlen : rs.length<256)
    (sm : EepromSm) :
    ∃ a,a+2+8*rs.length ≤ ecMaxEepBuf ∧ Holds rom (a+2) (smData rs) ∧
      (siiSmOf rom sm).startpos=UInt16.ofNat a ∧ (siiSmOf rom sm).nSm=UInt8.ofNat rs.length ∧
      ∀ r,rs[0]?=some r → siiSmOf rom sm=r.read (UInt16.ofNat a) (UInt8.ofNat rs.length) := by
  have hbuf : ecMaxEepBuf=4096 := rfl
  obtain ⟨a,ha,hroom,haddress,hholds⟩ := h.found (by decide) hsome
  obtain ⟨hunsigned,hpositive,-⟩ := found_toUInt16 ha (by omega) haddress
  have hwords : (⟨ectSiiSm,smData rs⟩ : SiiSection).words=UInt16.ofNat (4*rs.length) := by
    rw [SiiSection.words,smData_length]
    exact congrArg UInt16.ofNat (show 8*rs.length/2=4*rs.length by omega)
  rw [hwords] at hholds
  simp only [smData_length] at hroom
  have hword := hholds.headWord (by omega)
  rw [holds_append,le16_length] at hholds
  have hcount : (UInt16.ofNat (4*rs.length)/4).toUInt8=UInt8.ofNat rs.length := by
    apply UInt8.toNat_inj.mp
    rw [UInt16.toNat_toUInt8,UInt16.toNat_div,UInt16.toNat_ofNat',UInt8.toNat_ofNat',
      show (4 : UInt16).toNat=4 from rfl]
    omega
  have hread : siiSmOf rom sm=(smEntryAt (UInt16.ofNat a+2)
      { sm with nSm := UInt8.ofNat rs.length,startpos := UInt16.ofNat a }).eval (siiTable rom) := by
    rw [siiSmOf]
    simp only [hunsigned] at hpositive ⊢
    rw [if_pos hpositive,smAt,Query.eval_bind]
    dsimp only
    rw [hword,hcount]
  refine ⟨a,hroom,hholds.2,?_,?_,fun r hr => ?_⟩
  · rw [hread]
    simp [smEntryAt]
  · rw [hread]
    simp [smEntryAt]
  · have hfirst := hholds.2.smRecord hr
    have hlt := (List.getElem?_eq_some_iff.mp hr).1
    rw [hread,← show UInt16.ofNat (a+2)=UInt16.ofNat a+2 from UInt16.ofNat_add a 2]
    exact smEntryAt_eval hfirst (by omega) _

theorem siiFmmuOf_image (h : HoldsArea rom sections) {funcs : List UInt8}
    (hsome : firstOf ectSiiFmmu sections=some ⟨ectSiiFmmu,funcs⟩) (hlen : funcs.length<256) :
    (siiFmmuOf rom).nFmmu=UInt8.ofNat funcs.length ∧ (0 < funcs.length →
      (siiFmmuOf rom).fmmu0=funcs.getD 0 0 ∧ (siiFmmuOf rom).fmmu1=funcs.getD 1 0 ∧
        (siiFmmuOf rom).fmmu2=funcs.getD 2 0 ∧ (siiFmmuOf rom).fmmu3=funcs.getD 3 0) := by
  have hbuf : ecMaxEepBuf=4096 := rfl
  obtain ⟨a,ha,hroom,haddress,hholds⟩ := h.found (by decide) hsome
  dsimp only at hroom
  obtain ⟨hunsigned,hpositive,-⟩ := found_toUInt16 ha (by omega) haddress
  have heven : funcs.length%2=0 := (h.proper _ (firstOf_mem hsome)).even
  have hword := hholds.headWord (by omega)
  have hnFmmu : (⟨ectSiiFmmu,funcs⟩ : SiiSection).words.toUInt8*2=UInt8.ofNat funcs.length := by
    apply UInt8.toNat_inj.mp
    rw [SiiSection.words,UInt8.toNat_mul,UInt16.toNat_toUInt8,UInt16.toNat_ofNat',UInt8.toNat_ofNat',
      show (2 : UInt8).toNat=2 from rfl]
    dsimp only
    omega
  have hbytes : a+(le16 (⟨ectSiiFmmu,funcs⟩ : SiiSection).words++funcs).length ≤ ecMaxEepBuf := by
    rw [List.length_append,le16_length]
    omega
  have hread : ∀ k<funcs.length,siiTable rom (UInt16.ofNat a+UInt16.ofNat (2+k))=funcs.getD k 0 := by
    intro k hk
    apply hholds.table hbytes
    rw [List.getElem?_append_right (by rw [le16_length]; omega),le16_length,Nat.add_sub_cancel_left,
      List.getD_eq_getElem _ _ hk,List.getElem?_eq_getElem hk]
  have hmore : UInt8.ofNat funcs.length>2 ↔ 2 < funcs.length := by
    rw [gt_iff_lt,UInt8.lt_iff_toNat_lt,UInt8.toNat_ofNat',show (2 : UInt8).toNat=2 from rfl,
      Nat.mod_eq_of_lt hlen]
  rw [siiFmmuOf]
  simp only [hunsigned] at hpositive ⊢
  rw [if_pos hpositive,fmmuAt]
  simp only [Query.eval_bind,Query.eval_ite,Query.eval_pure,Query.eval_entry,hword,hnFmmu]
  by_cases hfour : 2 < funcs.length
  · rw [if_pos (hmore.mpr hfour)]
    exact ⟨rfl,fun _ => ⟨hread 0 (by omega),hread 1 (by omega),hread 2 (by omega),
      hread 3 (by omega)⟩⟩
  · rw [if_neg fun hlt => hfour (hmore.mp hlt)]
    refine ⟨rfl,fun hpos => ⟨hread 0 hpos,hread 1 (by omega),?_,?_⟩⟩
    · rw [List.getD_eq_default _ _ (by omega)]
    · rw [List.getD_eq_default _ _ (by omega)]

end Sections

end EtherCATMaster.Sii
