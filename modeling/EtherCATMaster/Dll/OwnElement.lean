import EtherCATMaster.Dll.VendorData

namespace EtherCATMaster.Dll

open Framework

def DeviceName (tag : List UInt8) : Prop := tag=ascii "Slave" ∨ tag=ascii "Device"

/-- A device element, of the tag that an import looks for: one with a `Slave` in a `Device` is not
visited as such. -/
structure DeviceElement where
  tag : List UInt8
  text : List UInt8
  named : DeviceName tag
  element : XmlElement tag text
  scanned : deviceTag text=tag

def DeviceDocument (xml : List UInt8) : Prop :=
  XmlDocument (ascii "EtherCATInfo") xml ∨ XmlDocument (ascii "EtherCATConfig") xml

/-- An import of the document comes to this place. -/
structure Visits (xml section_ : List UInt8) : Prop where
  document : DeviceDocument xml
  found : section_ ∈ xmlElements xml (deviceTag xml)

def IsDevice (text : List UInt8) : Prop := ∃ tag,DeviceName tag ∧ XmlElement tag text

/-- Two documents that differ in a device behind this one, and their texts from this one on. -/
inductive LaterChange (device : DeviceElement) :
    List UInt8 → List UInt8 → List UInt8 → List UInt8 → Prop where
  | mk (head gap rest : List UInt8) {later later' : List UInt8} (hlater : IsDevice later)
      (hlater' : IsDevice later')
      (hvisits : Visits (head++device.text++(gap++later++rest)) (device.text++(gap++later++rest)))
      (hvisits' : Visits (head++device.text++(gap++later'++rest))
        (device.text++(gap++later'++rest))) :
      LaterChange device (head++device.text++(gap++later++rest))
        (device.text++(gap++later++rest)) (head++device.text++(gap++later'++rest))
        (device.text++(gap++later'++rest))

def DbEntry.untyped (entry : DbEntry) : DbEntry := { entry with xmlType := blankEntry.xmlType }

/-- The data of a device come from its element: changing a later device changes neither them nor the
entry that is made of them, and without a product code in the element there is no entry. -/
structure OwnData (device : DeviceElement) : Prop where
  unaffected : ∀ xml scan xml' scan',LaterChange device xml scan xml' scan' →
    deviceData scan=deviceData scan'
  entry : ∀ xml scan xml' scan',LaterChange device xml scan xml' scan' →
    (parseXmlDeviceFrom xml (some scan)).map DbEntry.untyped=
      (parseXmlDeviceFrom xml' (some scan')).map DbEntry.untyped
  productless : ∀ head tail,Visits (head++device.text++tail) (device.text++tail) →
    (deviceData device.text).productCode=0 →
    parseXmlDeviceFrom (head++device.text++tail) (some (device.text++tail))=none

theorem DeviceElement.ends (device : DeviceElement) : EndsTag device.text := by
  obtain ⟨front,hfront⟩ := device.element.ends
  rw [hfront]
  exact endsTag_concat front

theorem DeviceElement.opens (device : DeviceElement) : ∃ rest,device.text=60::rest ∧
    OpensTag device.text := by
  obtain ⟨hname,mid,rest,htext,hmid⟩ := device.element.opening
  cases htag : device.tag with
  | nil =>
    rw [htag] at hname
    cases hname.1
  | cons c name =>
    rw [htag] at htext hname
    have hc : c≠47 := by
      rintro rfl
      cases hname.1
    refine ⟨_,htext,c,name++mid,rest,?_,hc,?_⟩
    · rw [htext]
      simp
    · simpa [hmid] using hname.plain

theorem DeviceElement.nonempty (device : DeviceElement) : device.text≠[] := by
  obtain ⟨rest,htext,-⟩ := device.opens
  rw [htext]
  exact List.cons_ne_nil 60 rest

section Documents

def header : List UInt8 := ascii "<EtherCATInfo>"
def footer : List UInt8 := ascii "</EtherCATInfo>"

def behind (g : UInt8) (later : List UInt8) : List UInt8 := [g]++later++footer

theorem xmlText_nil : XmlText [] := by decide

/-- What a document can begin with in front of a device, without another one. -/
structure Beginning (head : List UInt8) : Prop where
  ends : EndsTag head
  document : ∀ {tag text later g},XmlElement tag text → XmlText [g] → IsDevice later →
    DeviceDocument (head++text++behind g later)
  deviceless : ∀ tag,DeviceName tag → xmlElements head tag=[]

theorem neighbours_document {tag tag' attrs text later : List UInt8} {g : UInt8}
    {names : List (List UInt8)} (hattrs : XmlAttributes names attrs) (before : List UInt8)
    (hbefore : ∀ rest,XmlContent rest → XmlContent (before++rest)) (htext : XmlElement tag text)
    (hg : XmlText [g]) (hlater : XmlElement tag' later) :
    DeviceDocument (ascii "<EtherCATInfo"++attrs++[62]++before++text++behind g later) := by
  have hname : XmlName (ascii "EtherCATInfo") := by decide
  have hblanks : XmlBlanks [] := by decide
  have hbody : XmlContent (before++([]++text++([g]++later++[]))) :=
    hbefore _ (.element xmlText_nil htext (.element hg hlater (.text xmlText_nil)))
  have hroot := XmlElement.full hname hattrs hblanks hbody hblanks
  have hdocument := XmlDocument.mk (.inl rfl) .none .nil hroot .nil
  left
  convert hdocument using 1
  simp [behind,footer,ascii]

theorem header_begins : Beginning header where
  ends := endsTag_concat (ascii "<EtherCATInfo")
  document htext hg hlater := by
    obtain ⟨tag',-,hlater⟩ := hlater
    have hdocument := neighbours_document .nil [] (fun _ h => h) htext hg hlater
    rw [List.append_nil,List.append_nil] at hdocument
    exact hdocument
  deviceless tag htag := by rcases htag with rfl|rfl <;> decide

theorem slave_plain : PlainName (ascii "Slave") :=
  plain_of_all (by decide) (by decide)

theorem device_plain : PlainName (ascii "Device") :=
  plain_of_all (by decide) (by decide)

theorem deviceTag_eq (xml : List UInt8) :
    deviceTag xml=if xmlElements xml (ascii "Slave")≠[] then ascii "Slave" else ascii "Device" := by
  rw [deviceTag]
  exact if_congr findXmlElement_isSome rfl rfl

theorem DeviceElement.first (device : DeviceElement) :
    device.text ∈ xmlElements device.text device.tag := by
  obtain ⟨c,rest,htext,hc⟩ := device.element.opens
  have hends : tagEnds (c::rest)=true := by
    rcases hc with rfl|rfl|hblank
    · rfl
    · rfl
    · have hspace : ∀ c : UInt8,xmlBlank c=true → isspace c=true := by
        intro c h
        simp only [xmlBlank,Bool.or_eq_true,decide_eq_true_eq] at h
        rcases h with ((rfl|rfl)|rfl)|rfl <;> decide
      rw [tagEnds,hspace c hblank,Bool.or_true]
  have hbegins := beginsI_self (ascii "<"++device.tag) (c::rest)
  have hdrop : (60::device.tag++c::rest).drop (ascii "<"++device.tag).length=c::rest :=
    List.drop_left' rfl
  rw [htext]
  change _ ∈ elementsFrom (ascii "<"++device.tag) 0 (60::(device.tag++c::rest))
  change Dll.beginsI (ascii "<"++device.tag) (60::(device.tag++c::rest))=true at hbegins
  change (60::(device.tag++c::rest)).drop (ascii "<"++device.tag).length=c::rest at hdrop
  rw [elementsFrom,if_pos hbegins,hdrop,if_pos hends]
  exact List.mem_cons_self

/-- The import comes to a device whose neighbour hides no `Slave`. -/
theorem neighbours_visited (device : DeviceElement) {head later : List UInt8} {g : UInt8}
    (hhead : Beginning head) (hg : XmlText [g]) (hlater : IsDevice later)
    (hscan : device.tag=ascii "Slave" ∨ xmlElements (behind g later) (ascii "Slave")=[]) :
    Visits (head++device.text++behind g later) (device.text++behind g later) := by
  refine ⟨hhead.document device.element hg hlater,?_⟩
  have hsplit : ∀ {tag},PlainName tag → xmlElements head tag=[] →
      xmlElements (head++device.text++behind g later) tag=
        (xmlElements device.text tag).map (·++behind g later)++
          xmlElements (behind g later) tag := by
    intro tag htag hnone
    rw [List.append_assoc,xmlElements_append htag hhead.ends,hnone,
      xmlElements_append htag device.ends]
    rfl
  have hslaves := hsplit slave_plain (hhead.deviceless _ (.inl rfl))
  have htag : deviceTag (head++device.text++behind g later)=device.tag := by
    have hscanned := device.scanned
    rw [deviceTag_eq] at hscanned ⊢
    rw [hslaves]
    by_cases hslave : xmlElements device.text (ascii "Slave")=[]
    · rw [if_neg (fun h => h hslave)] at hscanned
      have hbehind : xmlElements (behind g later) (ascii "Slave")=[] := by
        refine hscan.resolve_left ?_
        rw [← hscanned]
        decide
      rw [hslave,hbehind,if_neg (fun h => h rfl)]
      exact hscanned
    · rw [if_pos hslave] at hscanned
      rw [if_pos (fun h => hslave (List.map_eq_nil_iff.mp (List.append_eq_nil_iff.mp h).1))]
      exact hscanned
  have hfirst := List.mem_map_of_mem (f := (·++behind g later)) device.first
  rw [htag]
  rcases device.named with hname|hname
  · rw [hname] at hfirst ⊢
    rw [hslaves]
    exact List.mem_append_left _ hfirst
  · rw [hname] at hfirst ⊢
    rw [hsplit device_plain (hhead.deviceless _ (.inr rfl))]
    exact List.mem_append_left _ hfirst

end Documents

section Probes

def bareElement (tag : List UInt8) : List UInt8 := [60]++tag++[47,62]

/-- `<tag attr="d"/>` -/
def attrElement (tag attr : List UInt8) (d : UInt8) : List UInt8 :=
  [60]++tag++[32]++attr++[61,34,d,34,47,62]

/-- `<tag><child>body</child></tag>` -/
def childElement (tag child body : List UInt8) : List UInt8 :=
  [60]++tag++[62,60]++child++[62]++body++[60,47]++child++[62,60,47]++tag++[62]

/-- `<tag><Vendor><Id>d</Id></Vendor></tag>` -/
def vendorElement (tag : List UInt8) (d : UInt8) : List UInt8 :=
  childElement tag (ascii "Vendor") (ascii "<Id>"++[d]++ascii "</Id>")

def attrNames : List (List UInt8) :=
  [ascii "ProductCode",ascii "RevisionNo",ascii "Revision",ascii "VendorId"]

def tagNames : List (List UInt8) :=
  [ascii "ProductCode",ascii "RevisionNo",ascii "Name",ascii "Type",ascii "VendorId",ascii "Id"]

def digits : List UInt8 := [49,50]

theorem forall_digits {p : UInt8 → Prop} : (∀ d ∈ digits,p d) ↔ p 49 ∧ p 50 := by
  simp [digits]

def bodies : List (List UInt8) := [[],[49],[50]]

/-- Later devices that a search which does not end in its element tells apart. -/
inductive Probe (tag : List UInt8) : List UInt8 → Prop where
  | bare : Probe tag (bareElement tag)
  | attr {attr : List UInt8} {d : UInt8} (hattr : attr ∈ attrNames) (hd : d ∈ digits) :
      Probe tag (attrElement tag attr d)
  | child {child body : List UInt8} (hchild : child ∈ tagNames) (hbody : body ∈ bodies) :
      Probe tag (childElement tag child body)
  | vendor {d : UInt8} (hd : d ∈ digits) : Probe tag (vendorElement tag d)

variable {tag later : List UInt8}

theorem names_xml : ∀ name ∈ attrNames++tagNames++[ascii "Slave",ascii "Device"],XmlName name := by
  decide

theorem bodies_xml : ∀ body ∈ bodies,XmlText body := by decide

theorem DeviceName.xmlName (h : DeviceName tag) : XmlName tag := by
  apply names_xml
  apply List.mem_append_right
  rcases h with rfl|rfl
  · exact List.mem_cons_self
  · exact List.mem_cons_of_mem _ List.mem_cons_self

theorem digit_attributes {attr : List UInt8} (hattr : XmlName attr) {d : UInt8}
    (hd : d ∈ digits) : XmlAttributes [attr] ([32]++attr++[61,34,d,34]) := by
  have hblanks : XmlBlanks [] := by decide
  have hdigit : ∀ d ∈ digits,xmlChar d=true ∧ d≠60 ∧ d≠38 ∧ d≠34 := by
    simp [digits,xmlChar,xmlBlank]
  have hvalue : XmlValue 34 [d] := .char (hdigit d hd).1 (hdigit d hd).2 .nil
  have hgap : ([32] : List UInt8)≠[] ∧ XmlBlanks [32] := ⟨by simp,by decide⟩
  have hattrs := XmlAttributes.cons hgap hattr List.not_mem_nil ⟨hblanks,hblanks⟩ (.inl rfl)
    hvalue .nil
  convert hattrs using 1
  simp

theorem child_xml {child body : List UInt8} (htag : XmlName tag) (hchild : XmlName child)
    (hbody : XmlContent body) : XmlElement tag (childElement tag child body) := by
  have hblanks : XmlBlanks [] := by decide
  have hinner := XmlElement.full hchild .nil hblanks hbody hblanks
  have hcontent := XmlContent.element xmlText_nil hinner (.text xmlText_nil)
  have helement := XmlElement.full htag .nil hblanks hcontent hblanks
  convert helement using 1
  simp [childElement]

theorem Probe.element (h : Probe tag later) (htag : DeviceName tag) : XmlElement tag later := by
  have hblanks : XmlBlanks [] := by decide
  cases h with
  | bare => exact XmlElement.empty htag.xmlName .nil hblanks
  | @attr attr d hattr hd =>
    have hname : XmlName attr :=
      names_xml attr (List.mem_append_left _ (List.mem_append_left _ hattr))
    have helement := XmlElement.empty htag.xmlName (digit_attributes hname hd) hblanks
    convert helement using 1
    simp [attrElement]
  | @child child body hchild hbody =>
    exact child_xml htag.xmlName (names_xml child (List.mem_append_left _
      (List.mem_append_right _ hchild))) (.text (bodies_xml body hbody))
  | @vendor d hd =>
    have hnames : XmlName (ascii "Vendor") ∧ XmlName (ascii "Id") := by decide
    have hdigits : ∀ d ∈ digits,XmlText [d] := forall_digits.mpr (by decide)
    have hid := XmlElement.full hnames.2 .nil hblanks (.text (hdigits d hd)) hblanks
    have hbody := XmlContent.element xmlText_nil hid (.text xmlText_nil)
    apply child_xml htag.xmlName hnames.1
    convert hbody using 1
    simp [ascii]

def marks : List UInt8 := [60,62,47,32,61,34,49,50]

section Letters

variable {b : UInt8}

theorem Without.sub {text text' : List UInt8} (h : Without b text) (hsub : text' ⊆ text) :
    Without b text' := fun c hc => h c (hsub hc)

theorem childElement_without {child body : List UInt8} (hmarks : Without b marks)
    (htag : Without b tag) (hchild : Without b child) (hbody : Without b body) :
    Without b (childElement tag child body) := by
  have hopen : Without b [60] := hmarks.sub (by simp [marks])
  have hends : Without b [62] := hmarks.sub (by simp [marks])
  have hinner : Without b [62,60] := hmarks.sub (by simp [marks])
  have hclose : Without b [60,47] := hmarks.sub (by simp [marks])
  have houter : Without b [62,60,47] := hmarks.sub (by simp [marks])
  simp only [childElement,without_append,and_assoc]
  exact ⟨hopen,htag,hinner,hchild,hends,hbody,hclose,hchild,houter,htag,hends⟩

theorem bodies_without {body : List UInt8} (hmarks : Without b marks) (hbody : body ∈ bodies) :
    Without b body := by
  have hparts : ∀ body ∈ bodies,body ⊆ marks := by simp [bodies,marks]
  exact hmarks.sub (hparts body hbody)

theorem Probe.without (h : Probe tag later) (hmarks : Without b marks) (htag : Without b tag)
    (hnames : ∀ name ∈ attrNames++tagNames,Without b name) : Without b later := by
  have hdigit : ∀ d ∈ digits,d ∈ marks := by simp [digits,marks]
  cases h with
  | bare =>
    have hopen : Without b [60] := hmarks.sub (by simp [marks])
    have hclose : Without b [47,62] := hmarks.sub (by simp [marks])
    simp only [bareElement,without_append,and_assoc]
    exact ⟨hopen,htag,hclose⟩
  | @attr attr d hattr hd =>
    have hparts : [61,34,d,34,47,62] ⊆ marks := by
      simpa [marks] using hdigit d hd
    have hopen : Without b [60] := hmarks.sub (by simp [marks])
    have hgap : Without b [32] := hmarks.sub (by simp [marks])
    have hvalue := hmarks.sub hparts
    simp only [attrElement,without_append,and_assoc]
    exact ⟨hopen,htag,hgap,hnames attr (List.mem_append_left _ hattr),hvalue⟩
  | @child child body hchild hbody =>
    exact childElement_without hmarks htag (hnames child (List.mem_append_right _ hchild))
      (bodies_without hmarks hbody)
  | @vendor d hd =>
    have hvendorId := hnames (ascii "VendorId") (by simp [attrNames])
    have hvendor : ascii "Vendor" ⊆ ascii "VendorId" := by decide
    have hid : ∀ d ∈ digits,ascii "<Id>"++[d]++ascii "</Id>" ⊆ marks++ascii "VendorId" :=
      forall_digits.mpr (by decide)
    apply childElement_without hmarks htag (hvendorId.sub hvendor)
    exact (without_append.mpr ⟨hmarks,hvendorId⟩).sub (hid d hd)

theorem behind_without {g : UInt8} (hg : g ∈ digits) (hmarks : Without b marks)
    (hfooter : Without b footer) (hlater : Without b later) : Without b (behind g later) := by
  have hparts : ∀ g ∈ digits,[g] ⊆ marks := by simp [digits,marks]
  simp only [behind,without_append,and_assoc]
  exact ⟨hmarks.sub (hparts g hg),hlater,hfooter⟩

end Letters

/-- No slave hides in a later device, which has no `l`. -/
theorem Probe.slaveless (h : Probe (ascii "Device") later) {g : UInt8} (hg : g ∈ digits) :
    xmlElements (behind g later) (ascii "Slave")=[] := by
  have hslave : (108 : UInt8) ∈ ascii "Slave" := by simp [ascii]
  have hfooter : Without 108 footer := by simp [footer,ascii,Without,tolower]
  have hdevice : Without 108 (ascii "Device") := by simp [ascii,Without,tolower]
  have hnames : ∀ name ∈ attrNames++tagNames,Without 108 name := by
    simp [attrNames,tagNames,ascii,Without,tolower]
  have hmarks : Without 108 marks := by simp [marks,Without,tolower]
  exact xmlElements_without hslave
    (behind_without hg hmarks hfooter (h.without hmarks hdevice hnames))

theorem Probe.scanned {device : DeviceElement} (h : Probe device.tag later) {g : UInt8}
    (hg : g ∈ digits) :
    device.tag=ascii "Slave" ∨ xmlElements (behind g later) (ascii "Slave")=[] := by
  rcases device.named with hname|hname
  · exact .inl hname
  · rw [hname] at h
    exact .inr (h.slaveless hg)

theorem Probe.change {device : DeviceElement} {head later later' : List UInt8}
    (hhead : Beginning head) {g : UInt8} (hg : g ∈ digits) (hlater : Probe device.tag later)
    (hlater' : Probe device.tag later') :
    LaterChange device (head++device.text++behind g later) (device.text++behind g later)
      (head++device.text++behind g later') (device.text++behind g later') := by
  have htext : ∀ g ∈ digits,XmlText [g] := forall_digits.mpr (by decide)
  have hdevice : IsDevice later := ⟨_,device.named,hlater.element device.named⟩
  have hdevice' : IsDevice later' := ⟨_,device.named,hlater'.element device.named⟩
  exact .mk head [g] footer hdevice hdevice'
    (neighbours_visited device hhead (htext g hg) hdevice (hlater.scanned hg))
    (neighbours_visited device hhead (htext g hg) hdevice' (hlater'.scanned hg))

theorem OwnData.probes {device : DeviceElement} (h : OwnData device) {g : UInt8}
    (hg : g ∈ digits) {later later' : List UInt8} (hlater : Probe device.tag later)
    (hlater' : Probe device.tag later') :
    deviceData (device.text++behind g later)=deviceData (device.text++behind g later') :=
  h.unaffected _ _ _ _ (Probe.change header_begins hg hlater hlater')

end Probes

end EtherCATMaster.Dll
