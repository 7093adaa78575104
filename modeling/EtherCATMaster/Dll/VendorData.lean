import EtherCATMaster.Dll.DeviceData

/- The search for a vendor: from the element on, and then in the whole document. -/

namespace EtherCATMaster.Dll

open Framework

section Search

/-- The tag that has the number of a vendor and where it is searched for, behind the vendor's own
tag. -/
def vendorSearch (xml vendor : List UInt8) : List UInt8 × List UInt8 :=
  match findTextI (ascii "<Id") vendor with
  | none => (ascii "VendorId",xml)
  | some idStart =>
      if (findTextI (ascii "</Vendor>") vendor).any fun e => idStart.length<e.length then
        (ascii "VendorId",xml)
      else (ascii "Id",idStart)

variable {needle needle' : List UInt8}

theorem beginsI_case (h : needle.map tolower=needle'.map tolower) (text : List UInt8) :
    beginsI needle text=beginsI needle' text := by
  induction needle generalizing needle' text with
  | nil =>
    rw [List.map_nil,eq_comm,List.map_eq_nil_iff] at h
    rw [h]
  | cons b needle ih =>
    cases needle' with
    | nil => cases h
    | cons b' needle' =>
      obtain ⟨hb,hneedle⟩ := List.cons.inj h
      cases text with
      | nil => rfl
      | cons c text => rw [beginsI,beginsI,hb,ih hneedle]

theorem findTextI_case (h : needle.map tolower=needle'.map tolower) (text : List UInt8) :
    findTextI needle text=findTextI needle' text := by
  have hempty : needle=[] ↔ needle'=[] := by
    rw [← List.map_eq_nil_iff (f := tolower),h,List.map_eq_nil_iff]
  induction text with
  | nil => rw [findTextI,findTextI,if_congr hempty rfl rfl]
  | cons c text ih => rw [findTextI,findTextI,beginsI_case h,ih]

theorem copyAttrValue_case (h : needle.map tolower=needle'.map tolower) (xml : List UInt8)
    (size : Nat) : copyAttrValue xml needle size=copyAttrValue xml needle' size := by
  have hlength : needle.length=needle'.length := by
    rw [← List.length_map (f := tolower),h,List.length_map]
  have hfrom : ∀ skip,copyAttrFrom needle size skip xml=copyAttrFrom needle' size skip xml := by
    induction xml with
    | nil => exact fun skip => by cases skip <;> rfl
    | cons c xml ih =>
      intro skip
      cases skip with
      | succ skip => exact ih skip
      | zero => rw [copyAttrFrom,copyAttrFrom,beginsI_case h,hlength,ih,ih]
  exact hfrom 0

theorem copyTagText_case (h : needle.map tolower=needle'.map tolower) (xml : List UInt8)
    (size : Nat) : copyTagTextFrom xml needle size=copyTagTextFrom xml needle' size := by
  have hopen : (ascii "<"++needle).map tolower=(ascii "<"++needle').map tolower := by
    rw [List.map_append,h,List.map_append]
  have hclose : (ascii "</"++needle++ascii ">").map tolower=
      (ascii "</"++needle'++ascii ">").map tolower := by
    rw [List.map_append,List.map_append,h,List.map_append,List.map_append]
  rw [copyTagTextFrom,copyTagTextFrom,findTextI_case hopen]
  simp only [findTextI_case hclose]

theorem orElse_self {α : Type} (x : Option α) : (x.orElse fun _ => x)=x := by
  cases x <;> rfl

theorem vendorId_case : (ascii "VendorID").map tolower=(ascii "VendorId").map tolower := by
  decide

theorem copyVendorId_attr {xml text : List UInt8} {size : Nat}
    (h : copyAttrValue xml (ascii "VendorId") size=some text) :
    copyVendorId xml size=some text := by
  rw [copyVendorId,h]
  rfl

theorem copyVendorId_tag {xml vendor : List UInt8} {size : Nat}
    (hattr : copyAttrValue xml (ascii "VendorId") size=none)
    (hvendor : findXmlElement xml (ascii "Vendor")=some vendor) :
    copyVendorId xml size=
      copyTagTextFrom (vendorSearch xml vendor).2 (vendorSearch xml vendor).1 size := by
  have htags : ((copyTagTextFrom xml (ascii "VendorId") size).orElse fun _ =>
      copyTagTextFrom xml (ascii "VendorID") size)=
      copyTagTextFrom xml (ascii "VendorId") size := by
    rw [copyTagText_case vendorId_case,orElse_self]
  rw [copyVendorId,copyAttrValue_case vendorId_case,hattr,hvendor,vendorSearch]
  simp only [Option.orElse_none]
  cases findTextI (ascii "<Id") vendor with
  | none => exact htags
  | some idStart =>
    dsimp only
    split_ifs
    · exact htags
    · rfl

def VendorDecided (vendor : List UInt8) : Prop :=
  (findTextI (ascii "<Id") vendor).isSome ∨ (findTextI (ascii "</Vendor>") vendor).isSome

theorem id_tagless : Tagless (ascii "<Id") := List.all_iff_forall_prop.mp (by decide)

theorem vendorEnd_tagless : Tagless (ascii "</Vendor>") :=
  List.all_iff_forall_prop.mp (by decide)

theorem ascii_ne_nil : ascii "<Id"≠[] ∧ ascii "</Vendor>"≠[] := by decide

theorem vendorSearch_append {vendor : List UInt8} (hvendor : EndsTag vendor)
    (hdecided : VendorDecided vendor) (xml tail : List UInt8) :
    vendorSearch (xml++tail) (vendor++tail)=
      ((vendorSearch xml vendor).1,(vendorSearch xml vendor).2++tail) := by
  have hid := findTextI_append ascii_ne_nil.1 id_tagless hvendor tail
  have hend := findTextI_append ascii_ne_nil.2 vendorEnd_tagless hvendor tail
  rw [vendorSearch,vendorSearch,hid,hend]
  cases hstart : findTextI (ascii "<Id") vendor with
  | none =>
    rw [VendorDecided,hstart] at hdecided
    obtain ⟨vendorEnd,hvendorEnd⟩ :=
      Option.isSome_iff_exists.mp (hdecided.resolve_left (by decide))
    have hne := List.length_pos_iff.mpr (findTextI_ne_nil ascii_ne_nil.2 hvendorEnd)
    rw [hvendorEnd,Option.map_none,Option.none_or]
    cases htail : findTextI (ascii "<Id") tail with
    | none => rfl
    | some idStart =>
      have hle := (findTextI_suffix htail).length_le
      have hlt : idStart.length<(vendorEnd++tail).length := by
        rw [List.length_append]
        omega
      dsimp only
      rw [if_pos (by simpa using hlt)]
  | some idStart =>
    rw [Option.map_some,Option.some_or]
    have hsame : (((findTextI (ascii "</Vendor>") vendor).map (·++tail)).or
        (findTextI (ascii "</Vendor>") tail)).any
          (fun e => decide ((idStart++tail).length<e.length))=
        (findTextI (ascii "</Vendor>") vendor).any fun e => decide (idStart.length<e.length) := by
      cases findTextI (ascii "</Vendor>") vendor with
      | some vendorEnd => simp
      | none =>
        rw [Option.map_none,Option.none_or]
        cases htail : findTextI (ascii "</Vendor>") tail with
        | none => rfl
        | some vendorEnd =>
          have hle := (findTextI_suffix htail).length_le
          simp only [Option.any_some,Option.any_none,List.length_append,decide_eq_false_iff_not]
          omega
    dsimp only
    rw [hsame]
    split_ifs <;> rfl

end Search

section Front

def Opening (needle : List UInt8) : Prop := ∀ b ∈ needle.drop 1,tolower b≠60

def OpensTag (text : List UInt8) : Prop :=
  ∃ c mid rest,text=60::c::mid++62::rest ∧ c≠47 ∧ 60∉c::mid

variable {needle text : List UInt8}

theorem Opening.tail {b : UInt8} (h : Opening (b::needle)) : Opening needle :=
  fun d hd => h d (List.mem_of_mem_drop hd)

theorem beginsI_before (hneedle : Opening needle) {front : List UInt8} (hne : front≠[])
    (rest : List UInt8) : beginsI needle (front++60::rest)=beginsI needle front := by
  induction needle generalizing front with
  | nil => rw [beginsI,beginsI]
  | cons b needle ih =>
    obtain ⟨c,front,rfl⟩ := List.exists_cons_of_ne_nil hne
    rw [List.cons_append,beginsI,beginsI]
    by_cases hfront : front=[]
    · subst hfront
      cases needle with
      | nil => rw [beginsI,beginsI]
      | cons e needle =>
        have he : tolower 60≠tolower e := fun heq => hneedle e List.mem_cons_self heq.symm
        rw [List.nil_append,beginsI,beginsI,decide_eq_false he,Bool.false_and]
    · rw [ih hneedle.tail hfront]

theorem beginsI_le (h : beginsI needle text=true) : needle.length ≤ text.length := by
  induction needle generalizing text with
  | nil => exact Nat.zero_le _
  | cons b needle ih =>
    cases text with
    | nil => cases h
    | cons c text =>
      rw [beginsI,Bool.and_eq_true] at h
      exact Nat.succ_le_succ (ih h.2)

theorem findTextI_before (needle front rest : List UInt8) :
    findTextI needle (front++60::rest)=findTextI needle (60::rest) ∨
      ∃ front',findTextI needle (front++60::rest)=some (front'++60::rest) := by
  induction front with
  | nil => exact .inl rfl
  | cons c front ih =>
    rw [List.cons_append,findTextI]
    split_ifs
    · exact .inr ⟨c::front,rfl⟩
    · exact ih

theorem findTextI_longer {text' : List UInt8} (hsuffix : text<:+text')
    (h : (findTextI needle text).isSome) : (findTextI needle text').isSome := by
  obtain ⟨front,rfl⟩ := hsuffix
  induction front with
  | nil => exact h
  | cons c front ih =>
    rw [List.cons_append,findTextI]
    split_ifs
    · rfl
    · exact ih

theorem findTextI_found {rest : List UInt8} (h : findTextI needle text=some rest) :
    findTextI needle rest=some rest := by
  induction text with
  | nil =>
    rw [findTextI] at h
    split_ifs at h with hnil
    rw [← Option.some.inj h,findTextI,if_pos hnil]
  | cons c text ih =>
    rw [findTextI] at h
    split_ifs at h with hbegins
    · rw [← Option.some.inj h,findTextI,if_pos hbegins]
    · exact ih h

theorem attrSite_before (hneedle : Opening needle) {front rest : List UInt8}
    (h : (attrSite (60::rest) needle).isSome) : (attrSite (front++60::rest) needle).isSome := by
  have hfrom : ∀ skip ≤ front.length,(attrSiteFrom needle skip (front++60::rest)).isSome := by
    induction front with
    | nil =>
      intro skip hskip
      obtain rfl : skip=0 := Nat.le_zero.mp hskip
      exact h
    | cons c front ih =>
      intro skip hskip
      cases skip with
      | succ skip => exact ih skip (Nat.le_of_succ_le_succ hskip)
      | zero =>
        rw [List.cons_append,attrSiteFrom]
        split_ifs with hbegins
        · rw [← List.cons_append,beginsI_before hneedle (List.cons_ne_nil c front)] at hbegins
          have hle := beginsI_le hbegins
          rw [List.length_cons] at hle
          cases assigned ((c::(front++60::rest)).drop needle.length) with
          | none => exact ih _ (by omega)
          | some site => rfl
        · exact ih 0 (Nat.zero_le _)
  exact hfrom 0 (Nat.zero_le _)

theorem findElement_before {tag : List UInt8} (htag : Opening (ascii "<"++tag))
    (front rest : List UInt8) :
    findXmlElement (front++60::rest) tag=findXmlElement (60::rest) tag ∨
      ∃ front',findXmlElement (front++60::rest) tag=some (front'++60::rest) := by
  have hfrom : ∀ skip ≤ front.length,
      findElementFrom (ascii "<"++tag) skip (front++60::rest)=
        findElementFrom (ascii "<"++tag) 0 (60::rest) ∨
      ∃ front',findElementFrom (ascii "<"++tag) skip (front++60::rest)=
        some (front'++60::rest) := by
    induction front with
    | nil =>
      intro skip hskip
      obtain rfl : skip=0 := Nat.le_zero.mp hskip
      exact .inl rfl
    | cons c front ih =>
      intro skip hskip
      cases skip with
      | succ skip => exact ih skip (Nat.le_of_succ_le_succ hskip)
      | zero =>
        rw [List.cons_append,findElementFrom]
        split_ifs with hbegins hends
        · exact .inr ⟨c::front,rfl⟩
        · rw [← List.cons_append,beginsI_before htag (List.cons_ne_nil c front)] at hbegins
          have hle := beginsI_le hbegins
          rw [List.length_cons] at hle
          exact ih _ (by omega)
        · exact ih 0 (Nat.zero_le _)
  exact hfrom 0 (Nat.zero_le _)

theorem strchr_before (front text : List UInt8) :
    strchr 62 (front++text)=strchr 62 text ∨
      ∃ front',strchr 62 (front++text)=some (62::front'++text) := by
  induction front with
  | nil => exact .inl rfl
  | cons c front ih =>
    unfold strchr at ih ⊢
    rw [List.cons_append,List.dropWhile_cons]
    by_cases hc : c=62
    · subst hc
      exact .inr ⟨front,rfl⟩
    · rw [if_pos (by simpa using hc)]
      exact ih

theorem tolower_plain {b c : UInt8} (hb : b<65) (h : tolower c=b) : c=b := by
  rw [tolower] at h
  split_ifs at h with hletter
  · rw [UInt8.lt_iff_toNat_lt] at hb
    rw [UInt8.le_iff_toNat_le,UInt8.le_iff_toNat_le] at hletter
    have hnat := congrArg UInt8.toNat h
    rw [UInt8.toNat_add] at hnat
    simp at hb hletter hnat
    omega
  · exact h

theorem findTextI_skip {front : List UInt8} (hfront : 60∉front) :
    findTextI (60::needle) (front++text)=findTextI (60::needle) text := by
  induction front with
  | nil => rfl
  | cons c front ih =>
    rw [List.mem_cons,not_or] at hfront
    obtain ⟨hc,hfront⟩ := hfront
    have hlower : tolower c≠tolower 60 := fun h => hc (tolower_plain (by decide) h).symm
    rw [List.cons_append,findTextI,beginsI,decide_eq_false hlower,Bool.false_and]
    exact ih hfront

theorem OpensTag.closes (hopens : OpensTag text) {tag : List UInt8}
    (h : (findTextI (closeTag tag) text).isSome) {start : List UInt8}
    (hstart : strchr 62 text=some start) : (findTextI (closeTag tag) (start.drop 1)).isSome := by
  obtain ⟨c,mid,rest,rfl,hc,hmid⟩ := hopens
  have hslash : tolower c≠tolower 47 := fun heq => hc (tolower_plain (by decide) heq)
  have hclose : closeTag tag=60::47::(tag++ascii ">") := rfl
  have hbegins : beginsI (closeTag tag) (60::c::(mid++62::rest))=false := by
    rw [hclose,beginsI,beginsI,decide_eq_false hslash,Bool.false_and,Bool.and_false]
  have hbehind : findTextI (closeTag tag) (60::c::mid++62::rest)=
      findTextI (closeTag tag) rest := by
    rw [List.cons_append,List.cons_append,findTextI,hbegins,← List.cons_append,hclose]
    exact (findTextI_skip hmid).trans (findTextI_skip (by decide : (60 : UInt8)∉[62]))
  rw [hbehind] at h
  rcases strchr_before (60::c::mid) (62::rest) with hsame|⟨front,hfront⟩
  · have hrest : strchr 62 (62::rest)=some (62::rest) := rfl
    rw [hsame,hrest] at hstart
    rw [← Option.some.inj hstart]
    exact h
  · rw [hfront] at hstart
    rw [← Option.some.inj hstart]
    exact findTextI_longer ⟨front++[62],by simp⟩ h

theorem closed_before {rest tag : List UInt8} (hopens : OpensTag (60::rest))
    (hends : EndsTag (60::rest)) (hclose : (findTextI (closeTag tag) (60::rest)).isSome)
    (front : List UInt8) : ∃ start ∈ (strchr 62 (front++60::rest)).map (·.drop 1),
      (findTextI (closeTag tag) start).isSome := by
  rcases strchr_before front (60::rest) with hsame|⟨front',hend⟩
  · obtain ⟨start,hstart,-⟩ := strchr_isSome hends (List.cons_ne_nil 60 rest)
    rw [hsame,hstart]
    exact ⟨_,rfl,hopens.closes hclose hstart⟩
  · rw [hend]
    exact ⟨_,rfl,findTextI_longer (List.suffix_append front' _) hclose⟩

theorem tagSite_before {rest tag : List UInt8} (hopens : OpensTag (60::rest))
    (hends : EndsTag (60::rest)) (hclose : (findTextI (closeTag tag) (60::rest)).isSome)
    (front : List UInt8) : tagSite (front++60::rest) tag=tagSite (60::rest) tag ∨
      ∃ start ∈ tagSite (front++60::rest) tag,(findTextI (closeTag tag) start).isSome := by
  rcases findTextI_before (ascii "<"++tag) front rest with hsame|⟨front',hfound⟩
  · left
    rw [tagSite,hsame,tagSite]
  · right
    rw [tagSite,hfound,Option.bind_some]
    exact closed_before hopens hends hclose front'

theorem numberSettled_before {rest tag : List UInt8} (hopens : OpensTag (60::rest))
    (hends : EndsTag (60::rest))
    (hclose : (findTextI (closeTag tag) (60::rest)).isSome)
    (h : NumberSettled tag [] (60::rest)) (front : List UInt8) :
    NumberSettled tag [] (front++60::rest) := by
  rcases tagSite_before hopens hends hclose front with hsame|⟨start,hstart,hclosed⟩
  · rw [NumberSettled,hsame]
    exact h
  · exact ⟨start,hstart,.inl hclosed⟩

end Front

section Settled

/-- The search that begins with the document ends in the element as well: neither of the two tags is
left open in front of it, and the first one behind it is closed or has no number. -/
structure DocumentSettled (element : List UInt8) : Prop where
  vendorIdCloses : (findTextI (closeTag (ascii "VendorId")) element).isSome
  idCloses : (findTextI (closeTag (ascii "Id")) element).isSome
  vendorId : NumberSettled (ascii "VendorId") [] element
  first : NumberSettled (vendorSearch element element).1 [] (vendorSearch element element).2

/-- The search for the vendor behind its tag ends in the element, and so does the second search if
it comes to one. -/
structure VendorTagSettled (element vendor : List UInt8) : Prop where
  decided : VendorDecided vendor
  tag : TagSettled (vendorSearch element vendor).1 (vendorSearch element vendor).2
  document : copyTagTextFrom (vendorSearch element vendor).2 (vendorSearch element vendor).1
      ecatMaxMessage=none → DocumentSettled element

/-- The search for the vendor ends in the element: its attribute is assigned there, and is the number
or is blank and its tag is there. -/
def VendorSettled (element : List UInt8) : Prop :=
  (attrSite element (ascii "VendorId")).isSome ∧
    ((copyAttrValue element (ascii "VendorId") ecatMaxMessage).isSome ∨
      ∃ vendor ∈ findXmlElement element (ascii "Vendor"),VendorTagSettled element vendor)

/-- All that makes up the entry of a device is found in its element: the data, and the vendor if they
have a product code. -/
structure EntrySettled (element : List UInt8) : Prop where
  data : DataSettled element
  vendor : (deviceData element).productCode≠0 → VendorSettled element

theorem vendorId_plain : PlainName (ascii "VendorId") :=
  plain_of_all (by decide) (by decide)

theorem id_plain : PlainName (ascii "Id") := plain_of_all (by decide) (by decide)

theorem vendor_plain : PlainName (ascii "Vendor") :=
  plain_of_all (by decide) (by decide)

variable {xml vendor tail tail' : List UInt8}

/-- The number is searched for in the vendor's own text where an `Id` is not behind its end. -/
theorem vendorSearch_cases (vendor : List UInt8) :
    (∀ xml,vendorSearch xml vendor=(ascii "VendorId",xml)) ∨
      ∃ idStart,findTextI (ascii "<Id") vendor=some idStart ∧
        (∀ vendorEnd ∈ findTextI (ascii "</Vendor>") vendor,
          vendorEnd.length ≤ idStart.length) ∧
        ∀ xml,vendorSearch xml vendor=(ascii "Id",idStart) := by
  unfold vendorSearch
  cases findTextI (ascii "<Id") vendor with
  | none => exact .inl fun _ => rfl
  | some idStart =>
    dsimp only
    by_cases hbehind : (findTextI (ascii "</Vendor>") vendor).any
        (fun e => decide (idStart.length<e.length))=true
    · exact .inl fun _ => if_pos hbehind
    · right
      refine ⟨idStart,rfl,?_,fun _ => if_neg hbehind⟩
      intro vendorEnd hvendorEnd
      rw [Option.mem_def.mp hvendorEnd,Option.any_some,decide_eq_true_eq] at hbehind
      exact Nat.le_of_not_lt hbehind

theorem vendorSearch_id {idStart : List UInt8} (h : findTextI (ascii "<Id") vendor=some idStart)
    (hend : ∀ vendorEnd ∈ findTextI (ascii "</Vendor>") vendor,
      vendorEnd.length ≤ idStart.length) :
    vendorSearch xml vendor=(ascii "Id",idStart) := by
  rw [vendorSearch,h]
  dsimp only
  apply if_neg
  cases hvendorEnd : findTextI (ascii "</Vendor>") vendor with
  | none => exact Bool.false_ne_true
  | some vendorEnd =>
    rw [Option.any_some,decide_eq_true_eq]
    exact Nat.not_lt.mpr (hend vendorEnd hvendorEnd)

theorem vendorSearch_plain (xml vendor : List UInt8) : PlainName (vendorSearch xml vendor).1 := by
  rcases vendorSearch_cases vendor with h|⟨idStart,-,-,h⟩
  · rw [h]
    exact vendorId_plain
  · rw [h]
    exact id_plain

theorem vendorSearch_ends (hxml : EndsTag xml) (hvendor : EndsTag vendor) :
    EndsTag (vendorSearch xml vendor).2 := by
  rcases vendorSearch_cases vendor with h|⟨idStart,hfound,-,h⟩
  · rw [h]
    exact hxml
  · rw [h]
    exact hvendor.suffix (findTextI_suffix hfound)

theorem findXmlElement_head (xml tag : List UInt8) :
    findXmlElement xml tag=(xmlElements xml tag).head? := by
  rw [xmlElements_eq]
  cases findXmlElement xml tag <;> rfl

theorem findXmlElement_append {tag : List UInt8} (htag : PlainName tag) (hxml : EndsTag xml)
    (tail : List UInt8) : findXmlElement (xml++tail) tag=
      ((findXmlElement xml tag).map (·++tail)).or (findXmlElement tail tag) := by
  rw [findXmlElement_head,xmlElements_append htag hxml,List.head?_append,List.head?_map,
    ← findXmlElement_head,← findXmlElement_head]

theorem findElementFrom_suffix {openTag section_ : List UInt8} {skip : Nat}
    (h : findElementFrom openTag skip xml=some section_) : section_<:+xml := by
  induction xml generalizing skip with
  | nil => cases skip <;> cases h
  | cons c xml ih =>
    cases skip with
    | succ skip => exact (ih h).trans (List.suffix_cons c xml)
    | zero =>
      rw [findElementFrom] at h
      split_ifs at h
      · rw [← Option.some.inj h]
      · exact (ih h).trans (List.suffix_cons c xml)
      · exact (ih h).trans (List.suffix_cons c xml)

theorem findXmlElement_suffix {tag section_ : List UInt8}
    (h : findXmlElement xml tag=some section_) : section_<:+xml := findElementFrom_suffix h

theorem TagSettled.number {tag element : List UInt8} (h : TagSettled tag element) :
    NumberSettled tag [] element := by
  obtain ⟨start,hstart,hclosed⟩ := h
  refine ⟨start,hstart,hclosed.imp_right ?_⟩
  rintro ⟨hfills,hblank⟩
  refine ⟨?_,?_⟩
  · rintro rfl
    cases hfills
  · have hnone : valueText ecatMaxMessage start=none := hblank
    rw [hnone]
    rfl

theorem copyVendorId_append (hxml : EndsTag xml)
    (hattr : copyAttrValue (xml++tail) (ascii "VendorId") ecatMaxMessage=none)
    (hvendor : findXmlElement xml (ascii "Vendor")=some vendor) (hdecided : VendorDecided vendor) :
    copyVendorId (xml++tail) ecatMaxMessage=
      copyTagTextFrom ((vendorSearch xml vendor).2++tail) (vendorSearch xml vendor).1
        ecatMaxMessage := by
  have hends := hxml.suffix (findXmlElement_suffix hvendor)
  have hfound : findXmlElement (xml++tail) (ascii "Vendor")=some (vendor++tail) := by
    rw [findXmlElement_append vendor_plain hxml,hvendor]
    rfl
  rw [copyVendorId_tag hattr hfound,vendorSearch_append hends hdecided]

theorem blank_append (hxml : EndsTag xml) (hsite : (attrSite xml (ascii "VendorId")).isSome)
    (hblank : copyAttrValue xml (ascii "VendorId") ecatMaxMessage=none) (tail : List UInt8) :
    copyAttrValue (xml++tail) (ascii "VendorId") ecatMaxMessage=none := by
  have hsome := (copyAttrValue_present vendorId_plain hxml hsite tail ecatMaxMessage).1
  rw [hblank,Option.isSome_none,Option.isSome_eq_false_iff,Option.isNone_iff_eq_none] at hsome
  exact hsome

theorem copyVendorId_present (hxml : EndsTag xml)
    (hsite : (attrSite xml (ascii "VendorId")).isSome)
    (hsome : (copyAttrValue xml (ascii "VendorId") ecatMaxMessage).isSome) (tail : List UInt8) :
    SameValue (copyVendorId (xml++tail) ecatMaxMessage) (copyVendorId xml ecatMaxMessage) := by
  have hsame := copyAttrValue_present vendorId_plain hxml hsite tail ecatMaxMessage
  obtain ⟨text,htext⟩ := Option.isSome_iff_exists.mp hsome
  obtain ⟨text',htext'⟩ := Option.isSome_iff_exists.mp (hsame.1.trans hsome)
  rw [htext,htext'] at hsame
  rw [copyVendorId_attr htext,copyVendorId_attr htext']
  exact hsame

theorem vendorNumber_same (hxml : EndsTag xml) (hsite : (attrSite xml (ascii "VendorId")).isSome)
    (hblank : copyAttrValue xml (ascii "VendorId") ecatMaxMessage=none →
      ∃ vendor,findXmlElement xml (ascii "Vendor")=some vendor ∧ VendorDecided vendor ∧
        NumberSettled (vendorSearch xml vendor).1 [] (vendorSearch xml vendor).2)
    (tail : List UInt8) : parsedNumber (copyVendorId (xml++tail) ecatMaxMessage)=
      parsedNumber (copyVendorId xml ecatMaxMessage) := by
  by_cases hsome : (copyAttrValue xml (ascii "VendorId") ecatMaxMessage).isSome
  · exact (copyVendorId_present hxml hsite hsome tail).2
  have hnone := Option.not_isSome_iff_eq_none.mp hsome
  obtain ⟨vendor,hvendor,hdecided,hsettled⟩ := hblank hnone
  have hends := vendorSearch_ends hxml (hxml.suffix (findXmlElement_suffix hvendor))
  rw [copyVendorId_append hxml (blank_append hxml hsite hnone tail) hvendor hdecided,
    copyVendorId_tag hnone hvendor]
  exact numberSettled_same (vendorSearch_plain xml vendor) hends (by simp) hsettled tail

theorem vendor_opening : Opening (ascii "VendorId") ∧ Opening (ascii "<Vendor") :=
  ⟨List.all_iff_forall_prop.mp (by decide),
    List.all_iff_forall_prop.mp (by decide)⟩

/-- The search from the start of the document is settled if the one from the element is. -/
theorem DocumentSettled.before {rest : List UInt8} (hopens : OpensTag (60::rest))
    (hends : EndsTag (60::rest)) (h : DocumentSettled (60::rest))
    (hvendor : findXmlElement (60::rest) (ascii "Vendor")=some vendor)
    (hsettled : VendorTagSettled (60::rest) vendor) (front : List UInt8) :
    ∃ vendor',findXmlElement (front++60::rest) (ascii "Vendor")=some vendor' ∧
      VendorDecided vendor' ∧ NumberSettled (vendorSearch (front++60::rest) vendor').1 []
        (vendorSearch (front++60::rest) vendor').2 := by
  have hdocument := numberSettled_before hopens hends h.vendorIdCloses h.vendorId front
  rcases findElement_before vendor_opening.2 front rest with hsame|⟨front',hfound⟩
  · refine ⟨vendor,hsame.trans hvendor,hsettled.decided,?_⟩
    rcases vendorSearch_cases vendor with hsearch|⟨idStart,-,-,hsearch⟩
    · rw [hsearch]
      exact hdocument
    · have htag := hsettled.tag.number
      rw [hsearch] at htag ⊢
      exact htag
  · refine ⟨_,hfound,?_,?_⟩
    · have hsuffix : vendor<:+front'++60::rest :=
        (findXmlElement_suffix hvendor).trans (List.suffix_append _ _)
      exact hsettled.decided.imp (findTextI_longer hsuffix) (findTextI_longer hsuffix)
    rcases vendorSearch_cases (front'++60::rest) with hsearch|⟨idStart,hid,hend,hsearch⟩
    · rw [hsearch]
      exact hdocument
    rw [hsearch]
    rcases findTextI_before (ascii "<Id") front' rest with hsame|⟨front'',hfront⟩
    · -- The first `Id` is in the element, and the vendor in front of it does not end before.
      rw [hsame] at hid
      have hle := (findTextI_suffix hid).length_le
      have hfirst := h.first
      rw [vendorSearch_id hid] at hfirst
      · exact hfirst
      intro vendorEnd hvendorEnd
      rcases findTextI_before (ascii "</Vendor>") front' rest with hsame|⟨more,hmore⟩
      · exact hend vendorEnd (hsame.trans hvendorEnd)
      · have hlong := hend _ hmore
        have hshort := (findTextI_suffix hvendorEnd).length_le
        rw [List.length_append] at hlong
        omega
    · obtain rfl := Option.some.inj (hfront.symm.trans hid)
      obtain ⟨start,hstart,hclosed⟩ := closed_before hopens hends h.idCloses front''
      refine ⟨start,?_,.inl hclosed⟩
      have hsite : tagSite (front''++60::rest) (ascii "Id")=
          (strchr 62 (front''++60::rest)).map (·.drop 1) :=
        congrArg (Option.bind · _) (findTextI_found hfront)
      rw [hsite]
      exact hstart

theorem orElse_number {value value' other other' : Option (List UInt8)}
    (h : SameValue value value')
    (hother : value'=none → parsedNumber other=parsedNumber other') :
    parsedNumber (value.orElse fun _ => other)=parsedNumber (value'.orElse fun _ => other') := by
  obtain ⟨hsome,hnumber⟩ := h
  cases value' with
  | none =>
    rw [Option.isSome_none,Option.isSome_eq_false_iff,Option.isNone_iff_eq_none] at hsome
    rw [hsome]
    exact hother rfl
  | some text' =>
    obtain ⟨text,rfl⟩ := Option.isSome_iff_exists.mp hsome
    exact hnumber

theorem EndsTag.before (hxml : EndsTag xml) (hne : xml≠[]) (front : List UInt8) :
    EndsTag (front++xml) := by
  obtain ⟨more,rfl⟩ := hxml.split hne
  rw [← List.append_assoc]
  exact endsTag_concat _

theorem VendorSettled.same {rest : List UInt8} (hopens : OpensTag (60::rest))
    (hends : EndsTag (60::rest)) (h : VendorSettled (60::rest)) (front tail : List UInt8) :
    deviceVendor (front++60::rest++tail) (60::rest++tail)=
      deviceVendor (front++60::rest) (60::rest) := by
  obtain ⟨hsite,hvendor⟩ := h
  by_cases hsome : (copyAttrValue (60::rest) (ascii "VendorId") ecatMaxMessage).isSome
  · obtain ⟨text,htext⟩ := Option.isSome_iff_exists.mp hsome
    refine orElse_number (copyVendorId_present hends hsite hsome tail) ?_
    intro hnone
    rw [copyVendorId_attr htext] at hnone
    cases hnone
  have hnone := Option.not_isSome_iff_eq_none.mp hsome
  obtain ⟨vendor,hvendor,hsettled⟩ := hvendor.resolve_left hsome
  have hsame : copyVendorId (60::rest++tail) ecatMaxMessage=
      copyVendorId (60::rest) ecatMaxMessage := by
    have hplace := vendorSearch_ends hends (hends.suffix (findXmlElement_suffix hvendor))
    rw [copyVendorId_append hends (blank_append hends hsite hnone tail) hvendor hsettled.decided,
      copyVendorId_tag hnone hvendor]
    exact tagSettled_same (vendorSearch_plain _ _) hplace hsettled.tag tail
  rw [deviceVendor,deviceVendor,hsame]
  refine orElse_number (sameValue_refl _) ?_
  intro hblank
  rw [copyVendorId_tag hnone hvendor] at hblank
  apply vendorNumber_same (hends.before (List.cons_ne_nil 60 rest) front)
    (attrSite_before vendor_opening.1 hsite)
  exact fun _ => (hsettled.document hblank).before hopens hends hvendor hsettled front

end Settled

end EtherCATMaster.Dll
