import EtherCATMaster.Dll.OwnElement

namespace EtherCATMaster.Dll

open Framework

section Searches

/-- What the searches find in the later devices. -/
structure Telling (tag : List UInt8) : Prop where
  attr : ∀ attr ∈ attrNames,∀ d ∈ digits,
    copyAttrValue (behind 49 (attrElement tag attr d)) attr ecatMaxMessage=some [d]
  child : ∀ child ∈ tagNames,∀ d ∈ digits,
    copyTagTextFrom (behind 49 (childElement tag child [d])) child 256=some [d]
  unclosed : ∀ child ∈ tagNames,∀ g ∈ digits,
    findTextI (closeTag child) (behind g (bareElement tag))=none
  closed : ∀ child ∈ tagNames,∀ g ∈ digits,
    (findTextI (closeTag child) (behind g (childElement tag child []))).map
      (upTo (behind g (childElement tag child [])))=some (g::60::tag++62::(60::child++[62]))
  number : parsedNumber (valueText ecatMaxMessage (49::60::tag++[62]))=1

variable {tag : List UInt8}

theorem DeviceName.telling (htag : DeviceName tag) : Telling tag := by
  rcases htag with rfl|rfl
  all_goals
    refine ⟨?_,?_,?_,?_,by decide +kernel⟩
    all_goals
      simp only [forall_digits]
      decide +kernel

theorem one_digit : 49 ∈ digits := List.mem_cons_self

theorem two_digit : 50 ∈ digits := List.mem_cons_of_mem _ List.mem_cons_self

theorem names_plain {name : List UInt8} (h : name ∈ attrNames++tagNames) : PlainName name := by
  have hall : ∀ name ∈ attrNames++tagNames,name≠[] ∧ ∀ b ∈ name,tolower b≠62 := by
    simp [attrNames,tagNames,ascii,tolower]
  exact ⟨(hall name h).1,(hall name h).2⟩

theorem numbers_differ : parsedNumber (some [49])≠parsedNumber (some [50]) := by decide

theorem Telling.ends (h : Telling tag) {child : List UInt8} (hchild : child ∈ tagNames)
    {g : UInt8} (hg : g ∈ digits) : ∃ rest,
    findTextI (closeTag child) (behind g (childElement tag child []))=some rest ∧
      upTo (behind g (childElement tag child [])) rest=g::60::tag++62::(60::child++[62]) :=
  Option.map_eq_some_iff.mp (h.closed child hchild g hg)

theorem Telling.one (h : Telling tag) (more : List UInt8) :
    parsedNumber (valueText ecatMaxMessage (49::60::tag++62::more))=1 := by
  have hsame : SameStart (49::60::tag++62::more) (49::60::tag++[62]) :=
    ⟨49::60::tag,more,[],rfl,rfl⟩
  exact (valueText_sameValue (.inr hsame) ecatMaxMessage).2.trans h.number

/-- A later device of a type has no name: no letter of it is an `m`. -/
theorem type_unclosed (htag : DeviceName tag) {body : List UInt8} (hbody : body ∈ bodies)
    {g : UInt8} (hg : g ∈ digits) :
    findTextI (closeTag (ascii "Name")) (behind g (childElement tag (ascii "Type") body))=
      none := by
  have hname : (109 : UInt8) ∈ closeTag (ascii "Name") := by simp [closeTag,ascii]
  have hfooter : Without 109 footer := by simp [footer,ascii,Without,tolower]
  have htype : Without 109 (ascii "Type") := by simp [ascii,Without,tolower]
  have hmarks : Without 109 marks := by simp [marks,Without,tolower]
  have hdevice : Without 109 tag := by
    rcases htag with rfl|rfl <;> simp [ascii,Without,tolower]
  have hlater := childElement_without hmarks hdevice htype (bodies_without hmarks hbody)
  exact findTextI_without hname (behind_without hg hmarks hfooter hlater)

end Searches

section Numbers

def Agrees {α : Type} (device : DeviceElement) (f : List UInt8 → α) : Prop :=
  ∀ g ∈ digits,∀ later later',Probe device.tag later → Probe device.tag later' →
    f (device.text++behind g later)=f (device.text++behind g later')

variable {device : DeviceElement} {name : List UInt8}

/-- A number in a tag of a text that no probe behind it changes is settled. -/
theorem tag_settled_of_agrees {tag text : List UInt8} (htag : DeviceName tag)
    (hname : name ∈ tagNames) (hends : EndsTag text)
    (h : ∀ later later',Probe tag later → Probe tag later' →
      parsedNumber (copyTagTextFrom (text++behind 49 later) name ecatMaxMessage)=
        parsedNumber (copyTagTextFrom (text++behind 49 later') name ecatMaxMessage)) :
    NumberSettled name [] text := by
  have hplain := names_plain (List.mem_append_right attrNames hname)
  have htells := htag.telling
  cases hsite : tagSite text name with
  | none =>
    have hdiffer := h _ _ (@Probe.child _ name [49] hname (by decide))
      (@Probe.child _ name [50] hname (by decide))
    rw [copyTagText_missing hplain hends hsite,
      copyTagText_missing hplain hends hsite] at hdiffer
    have hfirst : copyTagTextFrom _ name ecatMaxMessage=some [49] :=
      htells.child name hname 49 one_digit
    have hsecond : copyTagTextFrom _ name ecatMaxMessage=some [50] :=
      htells.child name hname 50 two_digit
    rw [hfirst,hsecond] at hdiffer
    exact absurd hdiffer numbers_differ
  | some start =>
    refine ⟨start,hsite,?_⟩
    by_cases hin : (findTextI (closeTag name) start).isSome
    · exact .inl hin
    right
    have hopen := Option.not_isSome_iff_eq_none.mp hin
    have hdiffer := h _ _ .bare (@Probe.child _ name [] hname (by decide))
    obtain ⟨rest,hrest,hbefore⟩ := htells.ends hname one_digit
    rw [copyTagText_pending hplain hends hsite hopen,
      copyTagText_pending hplain hends hsite hopen,htells.unclosed name hname 49 one_digit,
      hrest,Option.bind_some,hbefore] at hdiffer
    have hzero : 0=parsedNumber
      (valueText ecatMaxMessage (start++(49::60::tag++62::(60::name++[62])))) := hdiffer
    by_cases hne : start=[]
    · rw [hne,List.nil_append,htells.one] at hzero
      exact absurd hzero (by decide)
    · refine ⟨hne,?_⟩
      obtain ⟨front,hfront⟩ := (tagSite_ends hplain hends hsite).split hne
      have hsame : SameStart (start++(49::60::tag++62::(60::name++[62]))) start :=
        ⟨front,49::60::tag++62::(60::name++[62]),[],
          by rw [hfront,List.append_assoc]; rfl,hfront⟩
      exact (valueText_sameValue (.inr hsame) ecatMaxMessage).2.symm.trans hzero.symm

theorem numberSettled_of_agrees (hname : name ∈ tagNames) {attrs : List (List UInt8)}
    (hattrs : ∀ attr ∈ attrs,attr ∈ attrNames)
    (h : Agrees device fun scan => parsedNumber (numberText name attrs scan)) :
    NumberSettled name attrs device.text := by
  induction attrs with
  | nil => exact tag_settled_of_agrees device.named hname device.ends (h 49 one_digit)
  | cons attr attrs ih =>
    obtain ⟨hattr,hattrs⟩ := List.forall_mem_cons.mp hattrs
    have hplain := names_plain (List.mem_append_left tagNames hattr)
    have htells := device.named.telling
    by_cases hsite : (attrSite device.text attr).isSome
    · refine ⟨hsite,?_⟩
      by_cases hsome : (copyAttrValue device.text attr ecatMaxMessage).isSome
      · exact .inl hsome
      right
      apply ih hattrs
      have hskip : ∀ tail,numberText name (attr::attrs) (device.text++tail)=
          numberText name attrs (device.text++tail) := by
        intro tail
        have hnone := (copyAttrValue_present hplain device.ends hsite tail ecatMaxMessage).1
        rw [Bool.eq_false_of_not_eq_true hsome,Option.isSome_eq_false_iff,
          Option.isNone_iff_eq_none] at hnone
        rw [numberText,hnone]
        rfl
      intro g hg later later' hlater hlater'
      have hsame := h g hg later later' hlater hlater'
      dsimp only at hsame ⊢
      rw [hskip,hskip] at hsame
      exact hsame
    · have hnone := Option.not_isSome_iff_eq_none.mp hsite
      have hdiffer := h 49 one_digit _ _ (.attr hattr one_digit) (.attr hattr two_digit)
      simp only [numberText] at hdiffer
      rw [copyAttrValue_missing hplain device.ends hnone,
        copyAttrValue_missing hplain device.ends hnone,htells.attr attr hattr 49 one_digit,
        htells.attr attr hattr 50 two_digit] at hdiffer
      exact absurd hdiffer numbers_differ

end Numbers

section Names

theorem valueText_open {start : List UInt8} (hopen : ¬Fills start) {g : UInt8}
    (hg : isspace g=false) (more : List UInt8) : ∃ rest,
    valueText 256 (start++g::more)=some (start.dropWhile isspace++g::rest) := by
  have hlt : start.length<255 := Nat.lt_of_not_le hopen
  obtain ⟨n,hn⟩ : ∃ n,255-start.length=n+1 := ⟨255-start.length-1,by omega⟩
  have htake : (start++g::more).take (256-1)=start++g::more.take n := by
    rw [List.take_append,List.take_of_length_le (by omega),hn,List.take_succ_cons]
  refine ⟨(more.take n).rdropWhile isspace,?_⟩
  rw [valueText,htake,trim_append_cons hg,found,if_neg (by simp)]

theorem open_blank {start more : List UInt8} (h : valueText 256 (start++49::more)=none) :
    Fills start ∧ valueText 256 start=none := by
  have hfills : Fills start := by
    by_contra hfills
    obtain ⟨text,htext⟩ := valueText_open hfills (by decide : isspace 49=false) more
    rw [h] at htext
    cases htext
  rw [valueText_fills hfills] at h
  exact ⟨hfills,h⟩

theorem digit_space : ∀ g ∈ digits,isspace g=false := by simp [digits,isspace]

variable {device : DeviceElement}

theorem type_settled_of_agrees
    (hbare : ∀ body ∈ bodies,
      copyTagTextFrom (device.text++behind 49 (bareElement device.tag)) (ascii "Type") 256=
        copyTagTextFrom (device.text++behind 49 (childElement device.tag (ascii "Type") body))
          (ascii "Type") 256) :
    TagSettled (ascii "Type") device.text := by
  have hplain := name_plain.2
  have htype : ascii "Type" ∈ tagNames := by simp [tagNames]
  have htells := device.named.telling
  cases hsite : tagSite device.text (ascii "Type") with
  | none =>
    have hdiffer := (hbare [49] (by decide)).symm.trans (hbare [50] (by decide))
    rw [copyTagText_missing hplain device.ends hsite,
      copyTagText_missing hplain device.ends hsite,htells.child _ htype 49 one_digit,
      htells.child _ htype 50 two_digit] at hdiffer
    exact absurd hdiffer (by decide)
  | some start =>
    refine ⟨start,hsite,?_⟩
    by_cases hin : (findTextI (closeTag (ascii "Type")) start).isSome
    · exact .inl hin
    right
    have hopen := Option.not_isSome_iff_eq_none.mp hin
    have hblank := hbare [] (by decide)
    obtain ⟨rest,hrest,hbefore⟩ := htells.ends htype one_digit
    rw [copyTagText_pending hplain device.ends hsite hopen,
      copyTagText_pending hplain device.ends hsite hopen,htells.unclosed _ htype 49 one_digit,
      hrest,Option.bind_some,hbefore] at hblank
    have hnone : none=valueText 256
      (start++49::(60::device.tag++62::(60::ascii "Type"++[62]))) := hblank
    exact open_blank hnone.symm

/-- A name that no probe changes is settled. -/
theorem nameSettled_of_agrees (h : Agrees device nameText) : NameSettled device.text := by
  obtain ⟨hname,htype⟩ := name_plain
  have hnames : ascii "Name" ∈ tagNames := by simp [tagNames]
  have htypes : ascii "Type" ∈ tagNames := by simp [tagNames]
  have htells := device.named.telling
  -- Where no later device of a type changes the name, the type is what is taken.
  have hsecond : (∀ tail,findTextI (closeTag (ascii "Name")) tail=none →
      copyTagTextFrom (device.text++tail) (ascii "Name") 256=none) →
      TagSettled (ascii "Type") device.text := by
    intro hnone
    apply type_settled_of_agrees
    intro body hbody
    have hsame := h 49 one_digit _ _ .bare (.child htypes hbody)
    rw [nameText,nameText,hnone _ (htells.unclosed _ hnames 49 one_digit),
      hnone _ (type_unclosed device.named hbody one_digit)] at hsame
    exact hsame
  cases hsite : tagSite device.text (ascii "Name") with
  | none =>
    have hdiffer := h 49 one_digit _ _ (@Probe.child _ _ [49] hnames (by decide))
      (@Probe.child _ _ [50] hnames (by decide))
    rw [nameText,nameText,copyTagText_missing hname device.ends hsite,
      copyTagText_missing hname device.ends hsite,htells.child _ hnames 49 one_digit,
      htells.child _ hnames 50 two_digit] at hdiffer
    have hdigits : some [(49 : UInt8)]=some [50] := hdiffer
    exact absurd hdigits (by decide)
  | some start =>
    by_cases hsettled : TagSettled (ascii "Name") device.text
    · left
      refine ⟨hsettled,?_⟩
      by_cases hsome : (copyTagTextFrom device.text (ascii "Name") 256).isSome
      · exact .inl hsome
      · right
        apply hsecond
        intro tail _
        rw [tagSettled_same hname device.ends hsettled]
        exact Option.not_isSome_iff_eq_none.mp hsome
    · right
      have hopen : findTextI (closeTag (ascii "Name")) start=none := by
        by_contra hin
        exact hsettled ⟨start,hsite,.inl (Option.isSome_iff_ne_none.mpr hin)⟩
      have hpending := copyTagText_pending hname device.ends hsite hopen
      have htail : TagSettled (ascii "Type") device.text := by
        apply hsecond
        intro tail hnone
        rw [hpending,hnone]
        rfl
      have hbehind : ∀ g ∈ digits,∃ more,
          (valueText 256 (start++g::more)).orElse
              (fun _ => copyTagTextFrom device.text (ascii "Type") 256)=
            copyTagTextFrom device.text (ascii "Type") 256 := by
        intro g hg
        have hsame := h g hg _ _ .bare (@Probe.child _ _ [] hnames (by decide))
        obtain ⟨rest,hrest,hbefore⟩ := htells.ends hnames hg
        rw [nameText,nameText,tagSettled_same htype device.ends htail,
          tagSettled_same htype device.ends htail,hpending,hpending,
          htells.unclosed _ hnames g hg,hrest,Option.bind_some,hbefore] at hsame
        exact ⟨_,hsame.symm⟩
      have hfills : Fills start := by
        by_contra hfills
        obtain ⟨more,hmore⟩ := hbehind 49 one_digit
        obtain ⟨more',hmore'⟩ := hbehind 50 two_digit
        obtain ⟨text,htext⟩ := valueText_open hfills (digit_space 49 one_digit) more
        obtain ⟨text',htext'⟩ := valueText_open hfills (digit_space 50 two_digit) more'
        rw [htext] at hmore
        rw [htext'] at hmore'
        have hsame := Option.some.inj (hmore.trans hmore'.symm)
        have hheads := List.cons.inj (List.append_cancel_left hsame)
        exact absurd hheads.1 (by decide)
      refine ⟨htail,start,hsite,hopen,hfills,?_⟩
      obtain ⟨more,hmore⟩ := hbehind 49 one_digit
      rw [valueText_fills hfills] at hmore
      cases hvalue : valueText 256 start with
      | none => exact absurd ⟨start,hsite,.inr ⟨hfills,hvalue⟩⟩ hsettled
      | some text =>
        rw [hvalue] at hmore
        exact hmore

end Names

end EtherCATMaster.Dll
