import Mathlib.Data.List.Infix
import Mathlib.Data.UInt

/- Well-formed XML 1.0 in an encoding that keeps ASCII, as its bytes. Document type declarations are
left out. -/

namespace EtherCATMaster.Framework

def xmlBlank (c : UInt8) : Bool := c=32 || c=9 || c=13 || c=10

def xmlChar (c : UInt8) : Bool := xmlBlank c || 32 ≤ c

def xmlNameStart (c : UInt8) : Bool :=
  (65 ≤ c && c ≤ 90) || (97 ≤ c && c ≤ 122) || c=95 || c=58 || 128 ≤ c

def xmlNameChar (c : UInt8) : Bool :=
  xmlNameStart c || (48 ≤ c && c ≤ 57) || c=45 || c=46

def XmlName (name : List UInt8) : Prop :=
  name.head?.any xmlNameStart=true ∧ ∀ c ∈ name,xmlNameChar c=true

instance (name : List UInt8) : Decidable (XmlName name) :=
  @instDecidableAnd _ _ _ (List.decidableBAll _ name)

def XmlBlanks (gap : List UInt8) : Prop := ∀ c ∈ gap,xmlBlank c=true

instance (gap : List UInt8) : Decidable (XmlBlanks gap) := List.decidableBAll _ gap

/-- `&name;`, `&#10;` or `&#xA;`. -/
inductive XmlReference : List UInt8 → Prop where
  | entity {name : List UInt8} (h : XmlName name) : XmlReference (38::name++[59])
  | decimal {digits : List UInt8} (hne : digits≠[]) (h : ∀ c ∈ digits,48 ≤ c ∧ c ≤ 57) :
      XmlReference (38::35::digits++[59])
  | hex {digits : List UInt8} (hne : digits≠[])
      (h : ∀ c ∈ digits,(48 ≤ c ∧ c ≤ 57) ∨ (65 ≤ c ∧ c ≤ 70) ∨ (97 ≤ c ∧ c ≤ 102)) :
      XmlReference (38::35::120::digits++[59])

/-- What stands between two quotes. -/
inductive XmlValue (quote : UInt8) : List UInt8 → Prop where
  | nil : XmlValue quote []
  | char {c : UInt8} {rest : List UInt8} (hc : xmlChar c=true) (hplain : c≠60 ∧ c≠38 ∧ c≠quote)
      (h : XmlValue quote rest) : XmlValue quote (c::rest)
  | reference {text rest : List UInt8} (ht : XmlReference text) (h : XmlValue quote rest) :
      XmlValue quote (text++rest)

/-- Attributes with different names, each behind a blank. -/
inductive XmlAttributes : List (List UInt8) → List UInt8 → Prop where
  | nil : XmlAttributes [] []
  | cons {names : List (List UInt8)} {gap name before behind value rest : List UInt8}
      {quote : UInt8} (hgap : gap≠[] ∧ XmlBlanks gap) (hname : XmlName name)
      (hnew : name∉names) (hequal : XmlBlanks before ∧ XmlBlanks behind)
      (hquote : quote=34 ∨ quote=39) (hvalue : XmlValue quote value)
      (h : XmlAttributes names rest) :
      XmlAttributes (name::names)
        (gap++name++before++[61]++behind++[quote]++value++[quote]++rest)

def XmlText (text : List UInt8) : Prop :=
  (∀ c ∈ text,xmlChar c=true ∧ c≠60 ∧ c≠38) ∧ ¬[93,93,62]<:+:text

instance (text : List UInt8) : Decidable (XmlText text) :=
  @instDecidableAnd _ _ (List.decidableBAll _ text) _

def XmlChars (text : List UInt8) : Prop := ∀ c ∈ text,xmlChar c=true

inductive XmlComment : List UInt8 → Prop where
  | mk {body : List UInt8} (h : XmlChars body) (hplain : ¬[45,45]<:+:(body++[45])) :
      XmlComment ([60,33,45,45]++body++[45,45,62])

inductive XmlInstruction : List UInt8 → Prop where
  | mk {target body : List UInt8} (ht : XmlName target) (h : XmlChars body)
      (hbody : body=[] ∨ body.head?.any xmlBlank=true) (hplain : ¬[63,62]<:+:body)
      (hreserved : target.map (fun c => if 97 ≤ c ∧ c ≤ 122 then c-32 else c)≠[88,77,76]) :
      XmlInstruction ([60,63]++target++body++[63,62])

/-- What stands in a content apart from text and elements. -/
inductive XmlMark : List UInt8 → Prop where
  | reference {text : List UInt8} (h : XmlReference text) : XmlMark text
  | comment {text : List UInt8} (h : XmlComment text) : XmlMark text
  | instruction {text : List UInt8} (h : XmlInstruction text) : XmlMark text
  | cdata {body : List UInt8} (h : XmlChars body) (hplain : ¬[93,93,62]<:+:body) :
      XmlMark ([60,33,91,67,68,65,84,65,91]++body++[93,93,62])

mutual

inductive XmlElement : List UInt8 → List UInt8 → Prop where
  | empty {name attrs gap : List UInt8} {names : List (List UInt8)} (hname : XmlName name)
      (hattrs : XmlAttributes names attrs) (hgap : XmlBlanks gap) :
      XmlElement name (60::name++(attrs++gap++[47,62]))
  | full {name attrs gap body behind : List UInt8} {names : List (List UInt8)}
      (hname : XmlName name) (hattrs : XmlAttributes names attrs) (hgap : XmlBlanks gap)
      (hbody : XmlContent body) (hbehind : XmlBlanks behind) :
      XmlElement name (60::name++(attrs++gap++[62]++body++[60,47]++name++behind++[62]))

inductive XmlContent : List UInt8 → Prop where
  | text {text : List UInt8} (ht : XmlText text) : XmlContent text
  | element {text name element rest : List UInt8} (ht : XmlText text)
      (he : XmlElement name element) (h : XmlContent rest) : XmlContent (text++element++rest)
  | mark {text mark rest : List UInt8} (ht : XmlText text) (hm : XmlMark mark)
      (h : XmlContent rest) : XmlContent (text++mark++rest)

end

/-- What stands around the root element. -/
inductive XmlMisc : List UInt8 → Prop where
  | nil : XmlMisc []
  | blank {c : UInt8} {rest : List UInt8} (hc : xmlBlank c=true) (h : XmlMisc rest) :
      XmlMisc (c::rest)
  | comment {text rest : List UInt8} (ht : XmlComment text) (h : XmlMisc rest) :
      XmlMisc (text++rest)
  | instruction {text rest : List UInt8} (ht : XmlInstruction text) (h : XmlMisc rest) :
      XmlMisc (text++rest)

/-- The first line of a document, with its version, encoding and standalone declaration. -/
inductive XmlHeading : List UInt8 → Prop where
  | none : XmlHeading []
  | declaration {attrs gap : List UInt8} {names : List (List UInt8)}
      (hattrs : XmlAttributes names attrs) (hgap : XmlBlanks gap)
      (hnames : names.Sublist [[118,101,114,115,105,111,110],[101,110,99,111,100,105,110,103],
        [115,116,97,110,100,97,108,111,110,101]])
      (hversion : [118,101,114,115,105,111,110]∈names) :
      XmlHeading ([60,63,120,109,108]++attrs++gap++[63,62])

/-- A document with its root element. -/
inductive XmlDocument : List UInt8 → List UInt8 → Prop where
  | mk {mark heading before root element behind : List UInt8}
      (hmark : mark=[] ∨ mark=[239,187,191]) (hheading : XmlHeading heading)
      (hbefore : XmlMisc before) (helement : XmlElement root element) (hbehind : XmlMisc behind) :
      XmlDocument root (mark++heading++before++element++behind)

theorem XmlAttributes.head {names : List (List UInt8)} {attrs : List UInt8}
    (h : XmlAttributes names attrs) : attrs=[] ∨ ∃ c rest,attrs=c::rest ∧ xmlBlank c=true := by
  cases h with
  | nil => exact .inl rfl
  | cons hgap _ _ _ _ _ _ =>
    obtain ⟨hne,hblanks⟩ := hgap
    obtain ⟨c,more,rfl⟩ := List.exists_cons_of_ne_nil hne
    exact .inr ⟨c,_,rfl,hblanks c List.mem_cons_self⟩

theorem XmlElement.opens {name element : List UInt8} (h : XmlElement name element) :
    ∃ c rest,element=60::name++c::rest ∧ (c=62 ∨ c=47 ∨ xmlBlank c=true) := by
  have hbehind : ∀ {names : List (List UInt8)} {attrs gap : List UInt8} {d : UInt8},
      XmlAttributes names attrs → XmlBlanks gap → (d=62 ∨ d=47) → ∀ rest,
      ∃ c more,attrs++gap++d::rest=c::more ∧ (c=62 ∨ c=47 ∨ xmlBlank c=true) := by
    intro names attrs gap d hattrs hgap hd rest
    rcases hattrs.head with rfl|⟨c,more,rfl,hc⟩
    · cases gap with
      | nil => exact ⟨d,rest,rfl,hd.imp_right .inl⟩
      | cons c more => exact ⟨c,_,rfl,.inr (.inr (hgap c List.mem_cons_self))⟩
    · exact ⟨c,_,rfl,.inr (.inr hc)⟩
  cases h with
  | empty _ hattrs hgap =>
    obtain ⟨c,more,heq,hc⟩ := hbehind hattrs hgap (.inr rfl) [62]
    exact ⟨c,more,by rw [heq],hc⟩
  | @full _ attrs gap body behind _ _ hattrs hgap _ _ =>
    obtain ⟨c,more,heq,hc⟩ := hbehind hattrs hgap (.inl rfl)
      (body++[60,47]++name++behind++[62])
    refine ⟨c,more,?_,hc⟩
    rw [← heq]
    simp

theorem XmlBlanks.plain {gap : List UInt8} (h : XmlBlanks gap) : 60∉gap :=
  fun hmem => absurd (h 60 hmem) (by decide)

theorem XmlName.plain {name : List UInt8} (h : XmlName name) : 60∉name :=
  fun hmem => absurd (h.2 60 hmem) (by decide)

theorem XmlReference.plain {text : List UInt8} (h : XmlReference text) : 60∉text := by
  cases h with
  | entity hname => simp [hname.plain]
  | decimal _ hdigits =>
    have hplain := fun hmem => hdigits 60 hmem
    simp at hplain ⊢
    exact fun hmem => absurd (hplain hmem) (by decide)
  | hex _ hdigits =>
    have hplain := fun hmem => hdigits 60 hmem
    simp at hplain ⊢
    exact fun hmem => absurd (hplain hmem) (by decide)

theorem XmlValue.plain {quote : UInt8} {value : List UInt8} (h : XmlValue quote value) :
    60∉value := by
  induction h with
  | nil => exact List.not_mem_nil
  | char _ hplain _ ih => simp [ih,hplain.1.symm]
  | reference ht _ ih => simp [ih,ht.plain]

theorem XmlAttributes.plain {names : List (List UInt8)} {attrs : List UInt8}
    (h : XmlAttributes names attrs) : 60∉attrs := by
  induction h with
  | nil => exact List.not_mem_nil
  | cons hgap hname _ hequal hquote hvalue _ ih =>
    have hplain : ∀ quote : UInt8,quote=34 ∨ quote=39 → 60≠quote := by
      rintro quote (rfl|rfl) <;> decide
    simp [hgap.2.plain,hname.plain,hequal.1.plain,hequal.2.plain,hvalue.plain,ih,
      hplain _ hquote]

theorem XmlElement.opening {name element : List UInt8} (h : XmlElement name element) :
    XmlName name ∧ ∃ mid rest,element=60::name++mid++62::rest ∧ 60∉mid := by
  cases h with
  | @empty _ attrs gap _ hname hattrs hgap =>
    refine ⟨hname,attrs++gap++[47],[],by simp,?_⟩
    simp [hattrs.plain,hgap.plain]
  | @full _ attrs gap body behind _ hname hattrs hgap _ _ =>
    refine ⟨hname,attrs++gap,body++[60,47]++name++behind++[62],by simp,?_⟩
    simp [hattrs.plain,hgap.plain]

theorem XmlElement.ends {name element : List UInt8} (h : XmlElement name element) :
    ∃ front,element=front++[62] := by
  cases h with
  | @empty _ attrs gap => exact ⟨60::name++(attrs++gap++[47]),by simp⟩
  | @full _ attrs gap body behind =>
    exact ⟨60::name++(attrs++gap++[62]++body++[60,47]++name++behind),by simp⟩

end EtherCATMaster.Framework
