import EtherCATMaster.Dll.OwnProbes

namespace EtherCATMaster.Dll

open Framework

section Beginnings

/-- `<EtherCATInfo VendorId="d">` -/
def vendorHeader (d : UInt8) : List UInt8 :=
  ascii "<EtherCATInfo"++([32]++ascii "VendorId"++[61,34,d,34])++[62]

/-- `<Vendor></Vendor>` -/
def fullVendor : List UInt8 := ascii "<Vendor></Vendor>"

/-- `<Vendor/>` -/
def emptyVendor : List UInt8 := bareElement (ascii "Vendor")

/-- `<VendorIdx>1<Vendor></Vendor></VendorIdx>` -/
def openVendorId : List UInt8 :=
  ascii "<VendorIdx>"++([49]++fullVendor)++ascii "</VendorIdx>"

/-- `<Vendor><Idx>1</Idx></Vendor>` -/
def openId : List UInt8 := childElement (ascii "Vendor") (ascii "Idx") [49]

theorem vendorHeader_begins {d : UInt8} (hd : d ∈ digits) : Beginning (vendorHeader d) where
  ends := endsTag_concat _
  document htext hg hlater := by
    obtain ⟨tag',-,hlater⟩ := hlater
    have hname : XmlName (ascii "VendorId") := by decide
    have hdocument := neighbours_document (digit_attributes hname hd) []
      (fun _ h => h) htext hg hlater
    rw [List.append_nil] at hdocument
    exact hdocument
  deviceless := by
    have hnone : ∀ d ∈ digits,xmlElements (vendorHeader d) (ascii "Slave")=[] ∧
        xmlElements (vendorHeader d) (ascii "Device")=[] := forall_digits.mpr (by decide)
    rintro tag (rfl|rfl)
    · exact (hnone d hd).1
    · exact (hnone d hd).2

theorem inner_begins {name element : List UInt8} (helement : XmlElement name element)
    (hdevices : ∀ tag,DeviceName tag → xmlElements element tag=[]) :
    Beginning (header++element) where
  ends := by
    obtain ⟨front,hfront⟩ := helement.ends
    rw [hfront,← List.append_assoc]
    exact endsTag_concat _
  document htext hg hlater := by
    obtain ⟨tag',-,hlater⟩ := hlater
    have hbefore : ∀ rest,XmlContent rest → XmlContent (element++rest) := fun rest hrest =>
      XmlContent.element xmlText_nil helement hrest
    exact neighbours_document .nil element hbefore htext hg hlater
  deviceless tag htag := by
    have hplain : PlainName tag := by
      rcases htag with rfl|rfl
      · exact slave_plain
      · exact device_plain
    rw [xmlElements_append hplain header_begins.ends,header_begins.deviceless tag htag,
      hdevices tag htag]
    rfl

theorem vendor_names : XmlName (ascii "Vendor") ∧ XmlName (ascii "VendorIdx") ∧
    XmlName (ascii "Idx") := by decide

theorem fullVendor_xml : XmlElement (ascii "Vendor") fullVendor := by
  have hblanks : XmlBlanks [] := by decide
  have helement := XmlElement.full vendor_names.1 .nil hblanks (.text xmlText_nil) hblanks
  convert helement using 1
  simp [fullVendor,ascii]

theorem fullVendor_begins : Beginning (header++fullVendor) :=
  inner_begins fullVendor_xml (by rintro tag (rfl|rfl) <;> decide)

theorem emptyVendor_begins : Beginning (header++emptyVendor) :=
  inner_begins (XmlElement.empty vendor_names.1 .nil (by decide : XmlBlanks []))
    (by rintro tag (rfl|rfl) <;> decide)

theorem openVendorId_begins : Beginning (header++openVendorId) := by
  have hblanks : XmlBlanks [] := by decide
  have hbody := XmlContent.element (by decide : XmlText [49]) fullVendor_xml (.text xmlText_nil)
  have helement := XmlElement.full vendor_names.2.1 .nil hblanks hbody hblanks
  have hopen : XmlElement (ascii "VendorIdx") openVendorId := by
    convert helement using 1
    simp [openVendorId,ascii]
  exact inner_begins hopen (by rintro tag (rfl|rfl) <;> decide)

theorem openId_begins : Beginning (header++openId) :=
  inner_begins (child_xml vendor_names.1 vendor_names.2.2 (.text (by decide)))
    (by rintro tag (rfl|rfl) <;> decide)

end Beginnings

section Vendors

/-- What the search for a vendor finds in the later devices. -/
structure VendorTelling (tag : List UInt8) : Prop where
  vendor : ∀ d ∈ digits,
    (findXmlElement (behind 49 (vendorElement tag d)) (ascii "Vendor")).map (fun vendor =>
      ((vendorSearch [] vendor).1,copyTagTextFrom (vendorSearch [] vendor).2 (ascii "Id") 256))=
      some (ascii "Id",some [d])
  endless : ∀ d ∈ digits,
    findTextI (ascii "</Vendor>") (behind 49 (childElement tag (ascii "Id") [d]))=none

theorem DeviceName.vendorTelling {tag : List UInt8} (htag : DeviceName tag) :
    VendorTelling tag := by
  rcases htag with rfl|rfl <;> constructor <;> exact forall_digits.mpr (by decide +kernel)

theorem deviceVendor_some {xml scan text : List UInt8}
    (h : copyVendorId scan ecatMaxMessage=some text) :
    deviceVendor xml scan=parsedNumber (some text) := by
  rw [deviceVendor,h]
  rfl

theorem deviceVendor_none {xml scan : List UInt8} (h : copyVendorId scan ecatMaxMessage=none) :
    deviceVendor xml scan=parsedNumber (copyVendorId xml ecatMaxMessage) := by
  rw [deviceVendor,h]
  rfl

/-- The vendor is the same before any two of the probes, whatever the document begins with. -/
def VendorAgrees (device : DeviceElement) : Prop :=
  ∀ head,Beginning head → ∀ later later',Probe device.tag later → Probe device.tag later' →
    deviceVendor (head++device.text++behind 49 later) (device.text++behind 49 later)=
      deviceVendor (head++device.text++behind 49 later') (device.text++behind 49 later')

variable {device : DeviceElement}

theorem VendorAgrees.differ (h : VendorAgrees device) (later : UInt8 → List UInt8)
    (hprobe : ∀ d ∈ digits,Probe device.tag (later d))
    (hfound : ∀ d ∈ digits,
      copyVendorId (device.text++behind 49 (later d)) ecatMaxMessage=some [d]) : False := by
  have hsame := h header header_begins _ _ (hprobe 49 one_digit) (hprobe 50 two_digit)
  rw [deviceVendor_some (hfound 49 one_digit),deviceVendor_some (hfound 50 two_digit)] at hsame
  exact numbers_differ hsame

theorem vendor_tags : ascii "VendorId" ∈ tagNames ∧ ascii "Id" ∈ tagNames := by
  simp [tagNames]

theorem VendorAgrees.assigned (h : VendorAgrees device) :
    (attrSite device.text (ascii "VendorId")).isSome := by
  have hname : ascii "VendorId" ∈ attrNames := by simp [attrNames]
  by_contra hsite
  have hnone := Option.not_isSome_iff_eq_none.mp hsite
  apply h.differ (attrElement device.tag (ascii "VendorId"))
  · exact fun d hd => .attr hname hd
  · intro d hd
    apply copyVendorId_attr
    rw [copyAttrValue_missing vendorId_plain device.ends hnone]
    exact device.named.telling.attr _ hname d hd

theorem copyTagText_found {text start tag : List UInt8} {size : Nat}
    (h : findTextI (ascii "<"++tag) text=some start) :
    copyTagTextFrom start tag size=copyTagTextFrom text tag size := by
  rw [copyTagTextFrom,findTextI_found h,copyTagTextFrom,h]

theorem VendorAgrees.found (h : VendorAgrees device)
    (hblank : copyAttrValue device.text (ascii "VendorId") ecatMaxMessage=none) :
    ∃ vendor,findXmlElement device.text (ascii "Vendor")=some vendor := by
  have hattr := blank_append device.ends h.assigned hblank
  rw [← Option.isSome_iff_exists]
  by_contra hsome
  have hvendor := Option.not_isSome_iff_eq_none.mp hsome
  apply h.differ (vendorElement device.tag) fun d hd => .vendor hd
  intro d hd
  obtain ⟨vendor,hfound,hplace⟩ :=
    Option.map_eq_some_iff.mp (device.named.vendorTelling.vendor d hd)
  rw [Prod.mk.injEq] at hplace
  have hlater : findXmlElement (device.text++behind 49 (vendorElement device.tag d))
      (ascii "Vendor")=some vendor := by
    rw [findXmlElement_append vendor_plain device.ends,hvendor]
    exact hfound
  rw [copyVendorId_tag (hattr _) hlater]
  rcases vendorSearch_cases vendor with hsearch|⟨idStart,-,-,hsearch⟩
  · rw [hsearch] at hplace
    exact absurd hplace.1 (by decide)
  · rw [hsearch] at hplace ⊢
    exact hplace.2

theorem VendorAgrees.decided (h : VendorAgrees device)
    (hblank : copyAttrValue device.text (ascii "VendorId") ecatMaxMessage=none)
    {vendor : List UInt8} (hvendor : findXmlElement device.text (ascii "Vendor")=some vendor) :
    VendorDecided vendor := by
  have hattr := blank_append device.ends h.assigned hblank
  have hends := device.ends.suffix (findXmlElement_suffix hvendor)
  by_contra hundecided
  rw [VendorDecided,not_or,Option.not_isSome_iff_eq_none,Option.not_isSome_iff_eq_none]
    at hundecided
  obtain ⟨hnoid,hnoend⟩ := hundecided
  have hbodies : ∀ d ∈ digits,[d] ∈ bodies := by simp [digits,bodies]
  apply h.differ (fun d => childElement device.tag (ascii "Id") [d])
    fun d hd => .child vendor_tags.2 (hbodies d hd)
  intro d hd
  have htext := device.named.telling.child (ascii "Id") vendor_tags.2 d hd
  have hnolater := device.named.vendorTelling.endless d hd
  generalize behind 49 (childElement device.tag (ascii "Id") [d])=later at htext hnolater ⊢
  have hlater : findXmlElement (device.text++later) (ascii "Vendor")=some (vendor++later) := by
    rw [findXmlElement_append vendor_plain device.ends,hvendor]
    rfl
  have hid := findTextI_append ascii_ne_nil.1 id_tagless hends later
  have hend := findTextI_append ascii_ne_nil.2 vendorEnd_tagless hends later
  rw [hnoid,Option.map_none,Option.none_or] at hid
  rw [hnoend,hnolater] at hend
  rw [copyVendorId_tag (hattr later) hlater]
  cases hstart : findTextI (ascii "<Id") later with
  | none =>
    have hopen : findTextI (ascii "<"++ascii "Id") later=none := hstart
    rw [copyTagTextFrom,hopen] at htext
    cases htext
  | some idStart =>
    rw [vendorSearch_id (hid.trans hstart) (by simp [hend])]
    exact (copyTagText_found hstart).trans htext

theorem vendorSearch_tag (xml vendor : List UInt8) : (vendorSearch xml vendor).1 ∈ tagNames := by
  rcases vendorSearch_cases vendor with h|⟨idStart,-,-,h⟩
  · rw [h]
    exact vendor_tags.1
  · rw [h]
    exact vendor_tags.2

theorem vendorHeader_number {d : UInt8} (hd : d ∈ digits) (tail : List UInt8) :
    parsedNumber (copyVendorId (vendorHeader d++tail) ecatMaxMessage)=
      parsedNumber (some [d]) := by
  have hfound : (attrSite (vendorHeader d) (ascii "VendorId")).isSome ∧
      copyAttrValue (vendorHeader d) (ascii "VendorId") ecatMaxMessage=some [d] := by
    revert d
    decide +kernel
  have hsome : (copyAttrValue (vendorHeader d) (ascii "VendorId") ecatMaxMessage).isSome := by
    rw [hfound.2]
    rfl
  have hsame := copyVendorId_present (vendorHeader_begins hd).ends hfound.1 hsome tail
  rw [hsame.2,copyVendorId_attr hfound.2]

/-- The search for the vendor's tag ends in the element. -/
theorem VendorAgrees.tag (h : VendorAgrees device) {name place : List UInt8}
    (hname : name ∈ tagNames) (hplace : EndsTag place)
    (hsearch : ∀ tail,copyVendorId (device.text++tail) ecatMaxMessage=
      copyTagTextFrom (place++tail) name ecatMaxMessage) : TagSettled name place := by
  have hplain := names_plain (List.mem_append_right attrNames hname)
  have htells := device.named.telling
  cases hsite : tagSite place name with
  | none =>
    exfalso
    have hbodies : ∀ d ∈ digits,[d] ∈ bodies := by simp [digits,bodies]
    apply h.differ (fun d => childElement device.tag name [d])
      fun d hd => .child hname (hbodies d hd)
    intro d hd
    rw [hsearch,copyTagText_missing hplain hplace hsite]
    exact htells.child name hname d hd
  | some start =>
    refine ⟨start,hsite,?_⟩
    by_cases hin : (findTextI (closeTag name) start).isSome
    · exact .inl hin
    right
    have hopen := Option.not_isSome_iff_eq_none.mp hin
    have hbare : copyVendorId (device.text++behind 49 (bareElement device.tag))
        ecatMaxMessage=none := by
      rw [hsearch,copyTagText_pending hplain hplace hsite hopen,
        htells.unclosed name hname 49 one_digit]
      rfl
    obtain ⟨rest,hrest,hbefore⟩ := htells.ends hname one_digit
    have hchild : copyVendorId (device.text++behind 49 (childElement device.tag name []))
        ecatMaxMessage=valueText 256
          (start++(49::60::device.tag++62::(60::name++[62]))) := by
      rw [hsearch,copyTagText_pending hplain hplace hsite hopen,hrest,Option.bind_some,hbefore]
      rfl
    cases hvalue : valueText 256 (start++(49::60::device.tag++62::(60::name++[62]))) with
    | none => exact open_blank hvalue
    | some text =>
      -- Without the end of the tag the vendor is the one of the document, with it this number.
      exfalso
      rw [hvalue] at hchild
      have hnumber : ∀ d ∈ digits,parsedNumber (some [d])=parsedNumber (some text) := by
        intro d hd
        have hsame := h _ (vendorHeader_begins hd) _ _ .bare
          (@Probe.child _ name [] hname (by decide))
        rw [deviceVendor_none hbare,deviceVendor_some hchild,List.append_assoc,
          vendorHeader_number hd] at hsame
        exact hsame
      exact numbers_differ ((hnumber 49 one_digit).trans (hnumber 50 two_digit).symm)

theorem closes_of_agrees {name front start : List UInt8} (hname : name ∈ tagNames)
    (hfront : EndsTag front) (hsite : tagSite front name=some start)
    (hopen : findTextI (closeTag name) start=none)
    (hnumber : start≠[] ∧ parsedNumber (valueText ecatMaxMessage start)=1)
    (h : ∀ later later',Probe device.tag later → Probe device.tag later' →
      parsedNumber (copyTagTextFrom (front++(device.text++behind 49 later)) name ecatMaxMessage)=
        parsedNumber
          (copyTagTextFrom (front++(device.text++behind 49 later')) name ecatMaxMessage)) :
    (findTextI (closeTag name) device.text).isSome := by
  have hplain := names_plain (List.mem_append_right attrNames hname)
  have htells := device.named.telling
  have hends := tagSite_ends hplain hfront hsite
  by_contra hnone
  rw [Option.not_isSome_iff_eq_none] at hnone
  have hlonger : EndsTag (front++device.text) := device.ends.before device.nonempty front
  have hsite' : tagSite (front++device.text) name=some (start++device.text) := by
    rw [tagSite_append hplain hfront,hsite]
    rfl
  have hopen' : findTextI (closeTag name) (start++device.text)=none := by
    rw [findTextI_append closeTag_ne_nil hplain.closeTag hends,hopen,hnone]
    rfl
  have hdiffer := h _ _ .bare (@Probe.child _ name [] hname (by decide))
  obtain ⟨rest,hrest,hbefore⟩ := htells.ends hname one_digit
  rw [← List.append_assoc,← List.append_assoc,copyTagText_pending hplain hlonger hsite' hopen',
    copyTagText_pending hplain hlonger hsite' hopen',htells.unclosed name hname 49 one_digit,
    hrest,Option.bind_some] at hdiffer
  obtain ⟨more,rfl⟩ := hends.split hnumber.1
  have hsame : SameStart (more++[62]++device.text++
      upTo (behind 49 (childElement device.tag name [])) rest) (more++[62]) :=
    ⟨more,_,[],by rw [List.append_assoc,List.append_assoc]; rfl,rfl⟩
  have hone := (valueText_sameValue (.inr hsame) ecatMaxMessage).2.trans hnumber.2
  rw [hone] at hdiffer
  cases hdiffer

/-- The second search is the same before any two of the probes, whatever the document begins with. -/
def DocumentAgrees (device : DeviceElement) : Prop :=
  ∀ head,Beginning head → ∀ later later',Probe device.tag later → Probe device.tag later' →
    parsedNumber (copyVendorId (head++(device.text++behind 49 later)) ecatMaxMessage)=
      parsedNumber (copyVendorId (head++(device.text++behind 49 later')) ecatMaxMessage)

/-- A place in front of the device where a number of the vendor is searched for. -/
structure FrontPlace (head name place : List UInt8) : Prop where
  begins : Beginning head
  unassigned : attrSite head (ascii "VendorId")=none
  search : ∃ vendor,findXmlElement head (ascii "Vendor")=some vendor ∧ VendorDecided vendor ∧
    vendorSearch head vendor=(name,place)

theorem DocumentAgrees.place (h : DocumentAgrees device)
    (hattr : ∀ tail,copyAttrValue (device.text++tail) (ascii "VendorId") ecatMaxMessage=none)
    {head name place : List UInt8} (hplace : FrontPlace head name place) :
    ∀ later later',Probe device.tag later → Probe device.tag later' →
      parsedNumber (copyTagTextFrom (place++(device.text++behind 49 later)) name ecatMaxMessage)=
        parsedNumber
          (copyTagTextFrom (place++(device.text++behind 49 later')) name ecatMaxMessage) := by
  intro later later' hlater hlater'
  have hends := hplace.begins.ends
  obtain ⟨vendor,hvendor,hdecided,hsearch⟩ := hplace.search
  have hfront : ∀ tail,copyVendorId (head++(device.text++tail)) ecatMaxMessage=
      copyTagTextFrom (place++(device.text++tail)) name ecatMaxMessage := by
    intro tail
    have hblank : copyAttrValue (head++(device.text++tail)) (ascii "VendorId")
        ecatMaxMessage=none := by
      rw [copyAttrValue_missing vendorId_plain hends hplace.unassigned,hattr]
    rw [copyVendorId_append hends hblank hvendor hdecided,hsearch]
  have hsame := h head hplace.begins later later' hlater hlater'
  rw [hfront,hfront] at hsame
  exact hsame

theorem fullVendor_place :
    FrontPlace (header++fullVendor) (ascii "VendorId") (header++fullVendor) where
  begins := fullVendor_begins
  unassigned := by decide
  search := ⟨fullVendor,by decide,.inr (by decide),by decide⟩

theorem openVendorId_place :
    FrontPlace (header++openVendorId) (ascii "VendorId") (header++openVendorId) where
  begins := openVendorId_begins
  unassigned := by decide
  search := ⟨fullVendor++ascii "</VendorIdx>",by decide,.inr (by decide),
    by decide⟩

theorem openId_place :
    FrontPlace (header++openId) (ascii "Id") (ascii "<Idx>1</Idx></Vendor>") where
  begins := openId_begins
  unassigned := by decide
  search := ⟨openId,by decide,.inl (by decide),by decide⟩

/-- The first `Id` of the device is searched for behind an empty vendor in front of it. -/
theorem DocumentAgrees.first (h : DocumentAgrees device)
    (hattr : ∀ tail,copyAttrValue (device.text++tail) (ascii "VendorId") ecatMaxMessage=none)
    (hdecided : VendorDecided device.text) {idStart : List UInt8}
    (hid : findTextI (ascii "<Id") device.text=some idStart)
    (hend : ∀ vendorEnd ∈ findTextI (ascii "</Vendor>") device.text,
      vendorEnd.length ≤ idStart.length) : NumberSettled (ascii "Id") [] idStart := by
  apply tag_settled_of_agrees device.named vendor_tags.2
    (device.ends.suffix (findTextI_suffix hid))
  intro later later' hlater hlater'
  have hfront := emptyVendor_begins.ends
  have hvendorEnds : EndsTag emptyVendor := endsTag_concat (ascii "<Vendor/")
  have hends := device.ends.before device.nonempty (header++emptyVendor)
  have hnone : attrSite (header++emptyVendor) (ascii "VendorId")=none ∧
      findTextI (ascii "<Id") emptyVendor=none ∧
      findTextI (ascii "</Vendor>") emptyVendor=none := by decide
  have hempty : findXmlElement (header++emptyVendor) (ascii "Vendor")=some emptyVendor := by
    decide
  have hvendor : findXmlElement (header++emptyVendor++device.text) (ascii "Vendor")=
      some (emptyVendor++device.text) := by
    rw [findXmlElement_append vendor_plain hfront,hempty]
    rfl
  have hstart : findTextI (ascii "<Id") (emptyVendor++device.text)=some idStart := by
    rw [findTextI_append ascii_ne_nil.1 id_tagless hvendorEnds,hnone.2.1]
    exact hid
  have hbehind : findTextI (ascii "</Vendor>") (emptyVendor++device.text)=
      findTextI (ascii "</Vendor>") device.text := by
    rw [findTextI_append ascii_ne_nil.2 vendorEnd_tagless hvendorEnds,hnone.2.2]
    rfl
  have hsearch : vendorSearch (header++emptyVendor++device.text) (emptyVendor++device.text)=
      (ascii "Id",idStart) := by
    apply vendorSearch_id hstart
    rw [hbehind]
    exact hend
  have hlonger : device.text<:+emptyVendor++device.text := List.suffix_append _ _
  have hnumber : ∀ tail,copyVendorId (header++emptyVendor++device.text++tail) ecatMaxMessage=
      copyTagTextFrom (idStart++tail) (ascii "Id") ecatMaxMessage := by
    intro tail
    have hblank : copyAttrValue (header++emptyVendor++device.text++tail) (ascii "VendorId")
        ecatMaxMessage=none := by
      rw [List.append_assoc,copyAttrValue_missing vendorId_plain hfront hnone.1,hattr]
    rw [copyVendorId_append hends hblank hvendor
      (hdecided.imp (findTextI_longer hlonger) (findTextI_longer hlonger)),hsearch]
  have hsame := h _ emptyVendor_begins later later' hlater hlater'
  rw [← List.append_assoc,← List.append_assoc,hnumber,hnumber] at hsame
  exact hsame

theorem DocumentAgrees.settled (h : DocumentAgrees device)
    (hattr : ∀ tail,copyAttrValue (device.text++tail) (ascii "VendorId") ecatMaxMessage=none)
    (hdecided : VendorDecided device.text) : DocumentSettled device.text := by
  have hvendorId : NumberSettled (ascii "VendorId") [] device.text := by
    apply tag_settled_of_agrees device.named vendor_tags.1 device.ends
    intro later later' hlater hlater'
    have hnone : tagSite (header++fullVendor) (ascii "VendorId")=none := by decide
    have hsame := h.place hattr fullVendor_place later later' hlater hlater'
    rw [copyTagText_missing vendorId_plain fullVendor_begins.ends hnone,
      copyTagText_missing vendorId_plain fullVendor_begins.ends hnone] at hsame
    exact hsame
  refine ⟨?_,?_,hvendorId,?_⟩
  · have hsite : tagSite (header++openVendorId) (ascii "VendorId")=
        some ([49]++fullVendor++ascii "</VendorIdx>") := by decide
    exact closes_of_agrees vendor_tags.1 openVendorId_begins.ends hsite (by decide)
      ⟨by decide,by decide⟩ (h.place hattr openVendorId_place)
  · have hsite : tagSite (ascii "<Idx>1</Idx></Vendor>") (ascii "Id")=
        some (ascii "1</Idx></Vendor>") := by decide
    exact closes_of_agrees vendor_tags.2 (endsTag_concat (ascii "<Idx>1</Idx></Vendor")) hsite
      (by decide) ⟨by decide,by decide⟩ (h.place hattr openId_place)
  · rcases vendorSearch_cases device.text with hsearch|⟨idStart,hid,hend,hsearch⟩
    · rw [hsearch]
      exact hvendorId
    · rw [hsearch]
      exact h.first hattr hdecided hid hend

theorem vendorSettled_of_agrees (h : VendorAgrees device) : VendorSettled device.text := by
  refine ⟨h.assigned,?_⟩
  by_cases hsome : (copyAttrValue device.text (ascii "VendorId") ecatMaxMessage).isSome
  · exact .inl hsome
  right
  have hblank := Option.not_isSome_iff_eq_none.mp hsome
  obtain ⟨vendor,hvendor⟩ := h.found hblank
  have hdecided := h.decided hblank hvendor
  have hplace := vendorSearch_ends device.ends (device.ends.suffix (findXmlElement_suffix hvendor))
  have hsearch : ∀ tail,copyVendorId (device.text++tail) ecatMaxMessage=
      copyTagTextFrom ((vendorSearch device.text vendor).2++tail)
        (vendorSearch device.text vendor).1 ecatMaxMessage := fun tail =>
    copyVendorId_append device.ends (blank_append device.ends h.assigned hblank tail) hvendor
      hdecided
  have htag := h.tag (vendorSearch_tag _ _) hplace hsearch
  refine ⟨vendor,hvendor,hdecided,htag,?_⟩
  intro hnone
  have hscan : ∀ tail,copyVendorId (device.text++tail) ecatMaxMessage=none := by
    intro tail
    rw [hsearch]
    exact (tagSettled_same (vendorSearch_plain _ _) hplace htag tail).trans hnone
  have hdocument : DocumentAgrees device := by
    intro head hhead later later' hlater hlater'
    have hsame := h head hhead later later' hlater hlater'
    rw [deviceVendor_none (hscan _),deviceVendor_none (hscan _),List.append_assoc,
      List.append_assoc] at hsame
    exact hsame
  have hsuffix := findXmlElement_suffix hvendor
  exact hdocument.settled (blank_append device.ends h.assigned hblank)
    (hdecided.imp (findTextI_longer hsuffix) (findTextI_longer hsuffix))

end Vendors

section Owned

theorem entryOf_untyped (xmlType xmlType' : List UInt8) (vendorId : UInt32) (data : DeviceData) :
    (entryOf xmlType vendorId data).map DbEntry.untyped=
      (entryOf xmlType' vendorId data).map DbEntry.untyped := by
  rw [entryOf,entryOf]
  split_ifs <;> rfl

theorem entryOf_vendor {xmlType xmlType' : List UInt8} {vendorId vendorId' : UInt32}
    {data : DeviceData} (hproduct : data.productCode≠0)
    (h : (entryOf xmlType vendorId data).map DbEntry.untyped=
      (entryOf xmlType' vendorId' data).map DbEntry.untyped) : vendorId=vendorId' := by
  rw [entryOf,entryOf] at h
  split_ifs at h with hnone hnone' hnone'
  · exact (hnone.resolve_right hproduct).trans (hnone'.resolve_right hproduct).symm
  · cases h
  · cases h
  · exact congrArg DbEntry.vendorId (Option.some.inj h)

theorem OwnData.of_settled {device : DeviceElement} (h : EntrySettled device.text) :
    OwnData device := by
  have hsame := h.data.same device.ends
  have hnone : (deviceData device.text).productCode=0 → ∀ xml tail,
      parseXmlDeviceFrom xml (some (device.text++tail))=none := by
    intro hproduct xml tail
    rw [parseXmlDeviceFrom_data,hsame]
    exact entryOf_no_product hproduct
  refine ⟨?_,?_,fun head tail _ hproduct => hnone hproduct _ _⟩
  · rintro _ _ _ _ ⟨head,gap,rest,-,-,-,-⟩
    rw [hsame,hsame]
  · rintro _ _ _ _ ⟨head,gap,rest,-,-,-,-⟩
    by_cases hproduct : (deviceData device.text).productCode=0
    · rw [hnone hproduct,hnone hproduct]
    obtain ⟨more,htext,hopens⟩ := device.opens
    have hends := device.ends
    have hsettled := h.vendor hproduct
    rw [parseXmlDeviceFrom_data,parseXmlDeviceFrom_data,hsame,hsame]
    rw [htext] at hopens hends hsettled ⊢
    rw [hsettled.same hopens hends,hsettled.same hopens hends]
    exact entryOf_untyped _ _ _ _

theorem OwnData.vendors {device : DeviceElement} (h : OwnData device)
    (hdata : DataSettled device.text) (hproduct : (deviceData device.text).productCode≠0) :
    VendorAgrees device := by
  intro head hhead later later' hlater hlater'
  have hentry := h.entry _ _ _ _ (Probe.change hhead one_digit hlater hlater')
  rw [parseXmlDeviceFrom_data,parseXmlDeviceFrom_data,hdata.same device.ends,
    hdata.same device.ends] at hentry
  exact entryOf_vendor hproduct hentry

theorem unrevised_element :
    XmlElement (ascii "Device") (attrElement (ascii "Device") (ascii "ProductCode") 49) :=
  (Probe.attr (by simp [attrNames]) one_digit).element (.inr rfl)

theorem unrevised_scanned :
    deviceTag (attrElement (ascii "Device") (ascii "ProductCode") 49)=ascii "Device" := by
  decide

/-- `<Device ProductCode="1"/>` -/
def unrevised : DeviceElement where
  tag := ascii "Device"
  text := attrElement (ascii "Device") (ascii "ProductCode") 49
  named := .inr rfl
  element := unrevised_element
  scanned := unrevised_scanned

end Owned

end EtherCATMaster.Dll
