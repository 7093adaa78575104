import EtherCATMaster.Dll.XmlScan

namespace EtherCATMaster.Dll

open Framework

section Data

/-- A number is searched for in attributes, one after the other, and then in a tag. -/
def numberText (tag : List UInt8) : List (List UInt8) → List UInt8 → Option (List UInt8)
  | [],scan => copyTagTextFrom scan tag ecatMaxMessage
  | attr::attrs,scan =>
      (copyAttrValue scan attr ecatMaxMessage).orElse fun _ => numberText tag attrs scan

def productText (scan : List UInt8) : Option (List UInt8) :=
  numberText (ascii "ProductCode") [ascii "ProductCode"] scan

def revisionText (scan : List UInt8) : Option (List UInt8) :=
  numberText (ascii "RevisionNo") [ascii "RevisionNo",ascii "Revision"] scan

def nameText (scan : List UInt8) : Option (List UInt8) :=
  (copyTagTextFrom scan (ascii "Name") 256).orElse fun _ =>
    copyTagTextFrom scan (ascii "Type") 256

/-- What the scan for a device gives its entry, apart from the vendor. -/
structure DeviceData where
  productCode : UInt32
  revision : UInt32
  name : Option (List UInt8)

def deviceData (scan : List UInt8) : DeviceData :=
  ⟨parsedNumber (productText scan),parsedNumber (revisionText scan),nameText scan⟩

def deviceVendor (xml scan : List UInt8) : UInt32 :=
  parsedNumber ((copyVendorId scan ecatMaxMessage).orElse fun _ => copyVendorId xml ecatMaxMessage)

/-- The entry that is made of them. -/
def entryOf (xmlType : List UInt8) (vendorId : UInt32) (data : DeviceData) : Option DbEntry :=
  let text :=
    match data.name with
    | some text => text
    | none => snprintf 256
        (ascii "Vendor 0x"++hex8 vendorId++ascii " Product 0x"++hex8 data.productCode)
  if vendorId=0 ∨ data.productCode=0 then none
  else some (withTexts { blankEntry with
    vendorId := vendorId
    productCode := data.productCode
    revision := data.revision } [sanitizeCsvText (stripCdata text),xmlType])

theorem parseXmlDeviceFrom_data (xml scan : List UInt8) :
    parseXmlDeviceFrom xml (some scan)=
      entryOf (parseXmlType xml) (deviceVendor xml scan) (deviceData scan) := rfl

theorem entryOf_no_product {xmlType : List UInt8} {vendorId : UInt32} {data : DeviceData}
    (h : data.productCode=0) : entryOf xmlType vendorId data=none := by
  rw [entryOf]
  exact if_pos (.inr h)

end Data

section Settled

/-- The search for a number ends in the element: an attribute is assigned there, and is the number
or is blank and the rest of the search ends there; or the tag is closed there, or what is behind it
begins with no number but 0. -/
def NumberSettled (tag : List UInt8) : List (List UInt8) → List UInt8 → Prop
  | [],element =>
      ∃ start ∈ tagSite element tag,(findTextI (closeTag tag) start).isSome ∨
        (start≠[] ∧ parsedNumber (valueText ecatMaxMessage start)=0)
  | attr::attrs,element =>
      (attrSite element attr).isSome ∧
        ((copyAttrValue element attr ecatMaxMessage).isSome ∨ NumberSettled tag attrs element)

def Fills (text : List UInt8) : Prop := 255 ≤ text.length

/-- The search for the text of a tag ends in the element: the tag is closed there, or the text behind
it is blank as far as it is taken. -/
def TagSettled (tag element : List UInt8) : Prop :=
  ∃ start ∈ tagSite element tag,(findTextI (closeTag tag) start).isSome ∨
    (Fills start ∧ valueText 256 start=none)

/-- The search for the name ends in the element: in the first tag, or in the second where the first
one is blank; or the first one is not closed there, and has the text of the second. -/
def NameSettled (element : List UInt8) : Prop :=
  (TagSettled (ascii "Name") element ∧
    ((copyTagTextFrom element (ascii "Name") 256).isSome ∨ TagSettled (ascii "Type") element)) ∨
  (TagSettled (ascii "Type") element ∧
    ∃ start ∈ tagSite element (ascii "Name"),findTextI (closeTag (ascii "Name")) start=none ∧
      Fills start ∧ valueText 256 start=copyTagTextFrom element (ascii "Type") 256)

/-- All searches of the device end in its element. -/
structure DataSettled (element : List UInt8) : Prop where
  product : NumberSettled (ascii "ProductCode") [ascii "ProductCode"] element
  revision : NumberSettled (ascii "RevisionNo") [ascii "RevisionNo",ascii "Revision"] element
  name : NameSettled element

variable {tag element : List UInt8}

theorem copyTagText_open {start : List UInt8} {size : Nat} (h : tagSite element tag=some start)
    (hopen : findTextI (closeTag tag) start=none) : copyTagTextFrom element tag size=none := by
  rw [copyTagTextFrom_eq,h,Option.bind_some,hopen]
  rfl

theorem numberSettled_same (htag : PlainName tag) (helement : EndsTag element)
    {attrs : List (List UInt8)} (hattrs : ∀ attr ∈ attrs,PlainName attr)
    (h : NumberSettled tag attrs element) (tail : List UInt8) :
    parsedNumber (numberText tag attrs (element++tail))=
      parsedNumber (numberText tag attrs element) := by
  induction attrs with
  | nil =>
    obtain ⟨start,hstart,hclosed⟩ := h
    have hstart : tagSite element tag=some start := hstart
    rw [numberText,numberText]
    by_cases hin : (findTextI (closeTag tag) start).isSome
    · rw [copyTagText_closed htag helement hstart hin]
    · have hopen := Option.not_isSome_iff_eq_none.mp hin
      obtain ⟨hne,hzero⟩ := hclosed.resolve_left hin
      rw [copyTagText_open hstart hopen,copyTagText_pending htag helement hstart hopen]
      cases findTextI (closeTag tag) tail with
      | none => rfl
      | some rest =>
        obtain ⟨front,hfront⟩ := (tagSite_ends htag helement hstart).split hne
        have hsame : SameStart (start++upTo tail rest) start :=
          ⟨front,upTo tail rest,[],by rw [hfront,List.append_assoc]; rfl,hfront⟩
        exact (valueText_sameValue (.inr hsame) ecatMaxMessage).2.trans hzero
  | cons attr attrs ih =>
    obtain ⟨hattr,hattrs⟩ := List.forall_mem_cons.mp hattrs
    obtain ⟨hsite,hrest⟩ := h
    obtain ⟨hsome,hnumber⟩ := copyAttrValue_present hattr helement hsite tail ecatMaxMessage
    rw [numberText,numberText]
    cases hvalue : copyAttrValue element attr ecatMaxMessage with
    | none =>
      rw [hvalue] at hsome hrest
      rw [Option.isSome_none,Option.isSome_eq_false_iff,Option.isNone_iff_eq_none] at hsome
      rw [hsome]
      exact ih hattrs (hrest.resolve_left (by decide))
    | some text =>
      rw [hvalue] at hsome hnumber
      obtain ⟨text',htext'⟩ := Option.isSome_iff_exists.mp hsome
      rw [htext'] at hnumber ⊢
      exact hnumber

theorem valueText_fills {start : List UInt8} (h : Fills start) (more : List UInt8) :
    valueText 256 (start++more)=valueText 256 start := by
  rw [valueText,valueText,List.take_append_of_le_length h]

theorem tagSettled_same (htag : PlainName tag) (helement : EndsTag element)
    (h : TagSettled tag element) (tail : List UInt8) :
    copyTagTextFrom (element++tail) tag 256=copyTagTextFrom element tag 256 := by
  obtain ⟨start,hstart,hclosed⟩ := h
  have hstart : tagSite element tag=some start := hstart
  by_cases hin : (findTextI (closeTag tag) start).isSome
  · exact copyTagText_closed htag helement hstart hin tail 256
  · have hopen := Option.not_isSome_iff_eq_none.mp hin
    obtain ⟨hfills,hblank⟩ := hclosed.resolve_left hin
    rw [copyTagText_open hstart hopen,copyTagText_pending htag helement hstart hopen]
    cases findTextI (closeTag tag) tail with
    | none => rfl
    | some rest => exact (valueText_fills hfills _).trans hblank

theorem name_plain : PlainName (ascii "Name") ∧ PlainName (ascii "Type") :=
  ⟨plain_of_all (by decide) (by decide),plain_of_all (by decide) (by decide)⟩

theorem product_plain : PlainName (ascii "ProductCode") :=
  plain_of_all (by decide) (by decide)

theorem revision_plain : PlainName (ascii "RevisionNo") ∧ PlainName (ascii "Revision") :=
  ⟨plain_of_all (by decide) (by decide),plain_of_all (by decide) (by decide)⟩

theorem nameSettled_same (helement : EndsTag element) (h : NameSettled element)
    (tail : List UInt8) : nameText (element++tail)=nameText element := by
  obtain ⟨hname,htype⟩ := name_plain
  rw [nameText,nameText]
  rcases h with ⟨hfirst,hsecond⟩|⟨hsecond,start,hstart,hopen,hfills,hsame⟩
  · rw [tagSettled_same hname helement hfirst]
    rcases hsecond with hsome|hsecond
    · obtain ⟨text,htext⟩ := Option.isSome_iff_exists.mp hsome
      rw [htext]
      rfl
    · rw [tagSettled_same htype helement hsecond]
  · have hstart : tagSite element (ascii "Name")=some start := hstart
    rw [tagSettled_same htype helement hsecond,copyTagText_open hstart hopen,
      copyTagText_pending hname helement hstart hopen]
    cases findTextI (closeTag (ascii "Name")) tail with
    | none => rfl
    | some rest =>
      rw [Option.bind_some,valueText_fills hfills,hsame]
      cases copyTagTextFrom element (ascii "Type") 256 <;> rfl

theorem DataSettled.same (helement : EndsTag element) (h : DataSettled element)
    (tail : List UInt8) : deviceData (element++tail)=deviceData element := by
  have hproduct := numberSettled_same product_plain helement
    (List.forall_mem_singleton.mpr product_plain) h.product tail
  have hrevision := numberSettled_same revision_plain.1 helement
    (List.forall_mem_cons.mpr ⟨revision_plain.1,List.forall_mem_singleton.mpr revision_plain.2⟩)
    h.revision tail
  rw [deviceData,deviceData,nameSettled_same helement h.name]
  exact congrArg₂ (DeviceData.mk · · _) hproduct hrevision

end Settled

end EtherCATMaster.Dll
