import EtherCATMaster.Dll.Database
import EtherCATMaster.Framework.XmlGrammar

/- What the scanner makes of a text that goes on behind the end of a tag. -/

namespace EtherCATMaster.Dll

open Framework

def EndsTag (text : List UInt8) : Prop := ∀ c,text.getLast?=some c → c=62

theorem EndsTag.tail {c : UInt8} {text : List UInt8} (h : EndsTag (c::text)) : EndsTag text := by
  intro d hd
  apply h
  rw [List.getLast?_cons,hd]
  rfl

theorem EndsTag.drop {text : List UInt8} (h : EndsTag text) (n : ℕ) : EndsTag (text.drop n) := by
  induction n generalizing text with
  | zero => exact h
  | succ n ih =>
    cases text with
    | nil => exact h
    | cons c text => exact ih h.tail

theorem EndsTag.split {text : List UInt8} (h : EndsTag text) (hne : text≠[]) :
    ∃ front,text=front++[62] := by
  obtain ⟨front,c,rfl⟩ := List.eq_nil_or_concat' text |>.resolve_left hne
  have hc := h c List.getLast?_concat
  exact ⟨front,by rw [hc]⟩

theorem endsTag_concat (front : List UInt8) : EndsTag (front++[62]) := by
  intro c hc
  rw [List.getLast?_concat] at hc
  exact (Option.some.inj hc).symm

def Tagless (needle : List UInt8) : Prop := ∀ b ∈ needle.dropLast,tolower b≠62

section Search

variable {needle text : List UInt8}

theorem Tagless.tail {b : UInt8} (h : Tagless (b::needle)) : Tagless needle := by
  intro d hd
  cases needle with
  | nil => cases hd
  | cons e needle => exact h d (List.mem_cons_of_mem b hd)

theorem beginsI_append (hneedle : Tagless needle) (htext : EndsTag text) (hne : text≠[])
    (tail : List UInt8) : beginsI needle (text++tail)=beginsI needle text := by
  induction needle generalizing text with
  | nil => rw [beginsI,beginsI]
  | cons b needle ih =>
    obtain ⟨c,rest,rfl⟩ := List.exists_cons_of_ne_nil hne
    rw [List.cons_append,beginsI,beginsI]
    by_cases hrest : rest=[]
    · subst hrest
      have hc : c=62 := htext c rfl
      cases needle with
      | nil => rw [beginsI,beginsI]
      | cons e needle =>
        have hb : tolower c≠tolower b := by
          rw [hc]
          exact fun heq => hneedle b List.mem_cons_self heq.symm
        rw [decide_eq_false hb,Bool.false_and,Bool.false_and]
    · rw [ih hneedle.tail htext.tail hrest]

theorem findTextI_append (hsome : needle≠[]) (hneedle : Tagless needle) (htext : EndsTag text)
    (tail : List UInt8) :
    findTextI needle (text++tail)=
      ((findTextI needle text).map (·++tail)).or (findTextI needle tail) := by
  induction text with
  | nil =>
    rw [findTextI,if_neg hsome]
    rfl
  | cons c rest ih =>
    have hbegins := beginsI_append hneedle htext (List.cons_ne_nil c rest) tail
    rw [List.cons_append] at hbegins ⊢
    rw [findTextI,findTextI,hbegins]
    split_ifs with h
    · rfl
    · exact ih htext.tail

theorem findTextI_suffix {rest : List UInt8} (h : findTextI needle text=some rest) :
    rest<:+text := by
  induction text with
  | nil =>
    rw [findTextI] at h
    split_ifs at h
    rw [← Option.some.inj h]
  | cons c text ih =>
    rw [findTextI] at h
    split_ifs at h
    · rw [← Option.some.inj h]
    · exact (ih h).trans (List.suffix_cons c text)

theorem dropWhile_append_cons {p : UInt8 → Bool} {c : UInt8} (hc : p c=false)
    (front behind : List UInt8) :
    (front++c::behind).dropWhile p=front.dropWhile p++c::behind := by
  induction front with
  | nil =>
    rw [List.nil_append,List.dropWhile_cons_of_neg (by simp [hc])]
    rfl
  | cons d front ih =>
    rw [List.cons_append,List.dropWhile_cons,List.dropWhile_cons]
    split_ifs
    · exact ih
    · rfl

theorem dropWhile_append_of_mem {p : UInt8 → Bool} {c : UInt8} (hc : c ∈ text) (hp : p c=false)
    (tail : List UInt8) : (text++tail).dropWhile p=text.dropWhile p++tail := by
  obtain ⟨front,behind,rfl⟩ := List.append_of_mem hc
  rw [List.append_assoc,List.cons_append,dropWhile_append_cons hp,dropWhile_append_cons hp,
    List.append_assoc,List.cons_append]

theorem EndsTag.mem (htext : EndsTag text) (hne : text≠[]) : 62∈text := by
  obtain ⟨front,rfl⟩ := htext.split hne
  exact List.mem_append_right front List.mem_cons_self

theorem EndsTag.suffix {rest : List UInt8} (htext : EndsTag text) (h : rest<:+text) :
    EndsTag rest := by
  rw [List.suffix_iff_eq_drop.mp h]
  exact htext.drop _

theorem beginsI_length (hneedle : ∀ b ∈ needle,tolower b≠62) (htext : EndsTag text)
    (hne : text≠[]) (h : beginsI needle text=true) : needle.length<text.length := by
  induction needle generalizing text with
  | nil => exact List.length_pos_iff.mpr hne
  | cons b needle ih =>
    obtain ⟨c,rest,rfl⟩ := List.exists_cons_of_ne_nil hne
    obtain ⟨hb,hneedle⟩ := List.forall_mem_cons.mp hneedle
    rw [beginsI,Bool.and_eq_true,decide_eq_true_eq] at h
    have hrest : rest≠[] := by
      rintro rfl
      have hc : c=62 := htext c rfl
      rw [hc] at h
      exact hb h.1.symm
    rw [List.length_cons,List.length_cons]
    exact Nat.succ_lt_succ (ih hneedle htext.tail hrest h.2)

theorem drop_ne_nil (hneedle : ∀ b ∈ needle,tolower b≠62) (htext : EndsTag text)
    (hne : text≠[]) (h : beginsI needle text=true) : text.drop needle.length≠[] := by
  intro hnil
  have hlt := beginsI_length hneedle htext hne h
  rw [List.drop_eq_nil_iff] at hnil
  omega

theorem beginsI_mem (h : beginsI needle text=true) {b : UInt8} (hb : b ∈ needle) :
    ∃ c ∈ text,tolower c=tolower b := by
  induction needle generalizing text with
  | nil => cases hb
  | cons d needle ih =>
    cases text with
    | nil => cases h
    | cons c text =>
      rw [beginsI,Bool.and_eq_true,decide_eq_true_eq] at h
      rcases List.mem_cons.mp hb with rfl|hb
      · exact ⟨c,List.mem_cons_self,h.1⟩
      · obtain ⟨e,he,heq⟩ := ih h.2 hb
        exact ⟨e,List.mem_cons_of_mem c he,heq⟩

def Without (b : UInt8) (text : List UInt8) : Prop := ∀ c ∈ text,tolower c≠tolower b

@[simp]
theorem without_append {b : UInt8} {text text' : List UInt8} :
    Without b (text++text') ↔ Without b text ∧ Without b text' := List.forall_mem_append

theorem beginsI_without {b : UInt8} (hb : b ∈ needle) (h : Without b text) :
    beginsI needle text=false := by
  rw [Bool.eq_false_iff]
  intro hbegins
  obtain ⟨c,hc,heq⟩ := beginsI_mem hbegins hb
  exact h c hc heq

theorem Without.tail {b c : UInt8} (h : Without b (c::text)) : Without b text :=
  fun d hd => h d (List.mem_cons_of_mem c hd)

theorem findTextI_without {b : UInt8} (hb : b ∈ needle) (h : Without b text) :
    findTextI needle text=none := by
  induction text with
  | nil =>
    rw [findTextI,if_neg (List.ne_nil_of_mem hb)]
  | cons c text ih =>
    rw [findTextI,beginsI_without hb h]
    exact ih h.tail

theorem tagless_of_plain (hneedle : ∀ b ∈ needle,tolower b≠62) : Tagless needle :=
  fun b hb => hneedle b (List.mem_of_mem_dropLast hb)

end Search

section Attributes

variable {attr text : List UInt8}

theorem assigned_append (htext : EndsTag text) (hne : text≠[]) (tail : List UInt8) :
    assigned (text++tail)=(assigned text).map (·++tail) := by
  have hdrop := dropWhile_append_of_mem (p := isspace) (htext.mem hne) (by decide) tail
  have hends : EndsTag (text.dropWhile isspace) := htext.suffix (List.dropWhile_suffix _)
  unfold assigned
  rw [hdrop]
  cases hstart : text.dropWhile isspace with
  | nil =>
    have hall := List.dropWhile_eq_nil_iff.mp hstart 62 (htext.mem hne)
    cases hall
  | cons c rest =>
    rw [hstart] at hends
    by_cases hc : c=61
    · subst hc
      have hrest : rest≠[] := by
        rintro rfl
        cases hends 61 rfl
      have hskip := dropWhile_append_of_mem (p := isspace) (hends.tail.mem hrest) (by decide) tail
      exact congrArg some hskip
    · rw [List.cons_append]
      split
      · rename_i heq
        exact absurd (List.cons.inj heq).1 hc
      · split
        · rename_i heq
          exact absurd (List.cons.inj heq).1 hc
        · rfl

/-- What is assigned to an attribute where it is assigned first. -/
def attrSiteFrom (attr : List UInt8) : Nat → List UInt8 → Option (List UInt8)
  | _,[] => none
  | skip+1,_::rest => attrSiteFrom attr skip rest
  | 0,c::rest =>
      if beginsI attr (c::rest) then
        match assigned ((c::rest).drop attr.length) with
        | none => attrSiteFrom attr (attr.length-1) rest
        | some text => some text
      else attrSiteFrom attr 0 rest

def attrSite (xml attr : List UInt8) : Option (List UInt8) := attrSiteFrom attr 0 xml

theorem copyAttrValue_eq (xml attr : List UInt8) (size : Nat) :
    copyAttrValue xml attr size=(attrSite xml attr).bind fun text =>
      found (trimInPlace ((attrText text).take (size-1))) := by
  have hfrom : ∀ skip,copyAttrFrom attr size skip xml=(attrSiteFrom attr skip xml).bind
      fun text => found (trimInPlace ((attrText text).take (size-1))) := by
    induction xml with
    | nil => exact fun skip => by cases skip <;> rfl
    | cons c rest ih =>
      intro skip
      cases skip with
      | succ skip => exact ih skip
      | zero =>
        rw [copyAttrFrom,attrSiteFrom]
        split_ifs
        · cases assigned ((c::rest).drop attr.length) with
          | none => exact ih _
          | some text => rfl
        · exact ih 0
  exact hfrom 0

/-- The name of an attribute as the scanner looks for it. -/
structure PlainName (name : List UInt8) : Prop where
  some : name≠[]
  plain : ∀ b ∈ name,tolower b≠62

theorem plain_of_all {name : List UInt8} (hsome : name≠[])
    (hplain : name.all (fun b => decide (tolower b≠62))=true) : PlainName name :=
  ⟨hsome,List.all_iff_forall_prop.mp hplain⟩

theorem attrSiteFrom_append (hattr : PlainName attr) {xml : List UInt8} (hxml : EndsTag xml)
    (tail : List UInt8) {skip : Nat} (hskip : skip ≤ xml.length) :
    attrSiteFrom attr skip (xml++tail)=
      ((attrSiteFrom attr skip xml).map (·++tail)).or (attrSiteFrom attr 0 tail) := by
  induction xml generalizing skip with
  | nil =>
    obtain rfl : skip=0 := Nat.le_zero.mp hskip
    rfl
  | cons c rest ih =>
    cases skip with
    | succ skip => exact ih hxml.tail (Nat.le_of_succ_le_succ hskip)
    | zero =>
      have hbegins := beginsI_append (tagless_of_plain hattr.plain) hxml (List.cons_ne_nil c rest)
        tail
      rw [List.cons_append] at hbegins ⊢
      rw [attrSiteFrom,attrSiteFrom,hbegins]
      split_ifs with h
      · have hlt := beginsI_length hattr.plain hxml (List.cons_ne_nil c rest) h
        have hdrop : (c::(rest++tail)).drop attr.length=(c::rest).drop attr.length++tail := by
          rw [← List.cons_append,List.drop_append_of_le_length hlt.le]
        rw [hdrop,assigned_append (hxml.drop _)
          (drop_ne_nil hattr.plain hxml (List.cons_ne_nil c rest) h)]
        rw [List.length_cons] at hlt
        cases assigned ((c::rest).drop attr.length) with
        | none => exact ih hxml.tail (by omega)
        | some text => rfl
      · exact ih hxml.tail (Nat.zero_le _)

theorem attrSite_append (hattr : PlainName attr) {xml : List UInt8} (hxml : EndsTag xml)
    (tail : List UInt8) :
    attrSite (xml++tail) attr=((attrSite xml attr).map (·++tail)).or (attrSite tail attr) :=
  attrSiteFrom_append hattr hxml tail (Nat.zero_le _)

theorem attrSiteFrom_assigned {xml site : List UInt8} {skip : Nat}
    (h : attrSiteFrom attr skip xml=some site) : ∃ rest,rest<:+xml ∧ assigned rest=some site := by
  induction xml generalizing skip with
  | nil => cases skip <;> cases h
  | cons c rest ih =>
    have hlater : ∀ {skip},attrSiteFrom attr skip rest=some site →
        ∃ more,more<:+c::rest ∧ assigned more=some site := by
      intro skip hrest
      obtain ⟨more,hsuffix,hassigned⟩ := ih hrest
      exact ⟨more,hsuffix.trans (List.suffix_cons c rest),hassigned⟩
    cases skip with
    | succ skip => exact hlater h
    | zero =>
      rw [attrSiteFrom] at h
      split_ifs at h
      · cases hassigned : assigned ((c::rest).drop attr.length) with
        | none =>
          rw [hassigned] at h
          exact hlater h
        | some text =>
          rw [hassigned] at h
          exact ⟨_,List.drop_suffix _ _,hassigned.trans h⟩
      · exact hlater h

theorem attrSite_ends {xml site : List UInt8} (hxml : EndsTag xml)
    (h : attrSite xml attr=some site) : site≠[] ∧ EndsTag site := by
  obtain ⟨rest,hsuffix,hassigned⟩ := attrSiteFrom_assigned h
  unfold assigned at hassigned
  split at hassigned
  · rename_i more heq
    have hends : EndsTag (61::more) :=
      heq ▸ (hxml.suffix hsuffix).suffix (List.dropWhile_suffix isspace)
    have hne : more≠[] := by
      rintro rfl
      cases hends 61 rfl
    rw [← Option.some.inj hassigned]
    refine ⟨?_,hends.tail.suffix (List.dropWhile_suffix isspace)⟩
    intro hnil
    have hall := List.dropWhile_eq_nil_iff.mp hnil 62 (hends.tail.mem hne)
    cases hall
  · cases hassigned

end Attributes

section Numbers

def SameStart (text other : List UInt8) : Prop :=
  ∃ front behind behind',text=front++62::behind ∧ other=front++62::behind'

variable {text other : List UInt8}

theorem SameStart.ne_nil (h : SameStart text other) : text≠[] ∧ other≠[] := by
  obtain ⟨front,behind,behind',rfl,rfl⟩ := h
  exact ⟨by simp,by simp⟩

theorem SameStart.head (h : SameStart text other) : text.head?=other.head? := by
  obtain ⟨front,behind,behind',rfl,rfl⟩ := h
  cases front <;> rfl

theorem SameStart.dropWhile (h : SameStart text other) :
    SameStart (text.dropWhile isspace) (other.dropWhile isspace) := by
  obtain ⟨front,behind,behind',rfl,rfl⟩ := h
  exact ⟨_,_,_,dropWhile_append_cons (by decide) front behind,
    dropWhile_append_cons (by decide) front behind'⟩

theorem SameStart.beginsI (h : SameStart text other) {needle : List UInt8}
    (hneedle : ∀ b ∈ needle,tolower b≠62) :
    Dll.beginsI needle text=Dll.beginsI needle other := by
  obtain ⟨front,behind,behind',rfl,rfl⟩ := h
  have hfront := beginsI_append (tagless_of_plain hneedle) (endsTag_concat front) (by simp)
  rw [List.append_cons,hfront,List.append_cons front 62 behind',hfront]

theorem SameStart.drop (h : SameStart text other) {needle : List UInt8}
    (hneedle : ∀ b ∈ needle,tolower b≠62) (hbegins : Dll.beginsI needle text=true) :
    SameStart (text.drop needle.length) (other.drop needle.length) := by
  obtain ⟨front,behind,behind',rfl,rfl⟩ := h
  rw [List.append_cons,beginsI_append (tagless_of_plain hneedle) (endsTag_concat front) (by simp)]
    at hbegins
  have hlt := beginsI_length hneedle (endsTag_concat front) (by simp) hbegins
  rw [List.length_append,List.length_singleton] at hlt
  refine ⟨front.drop needle.length,behind,behind',?_,?_⟩
  · exact List.drop_append_of_le_length (by omega)
  · exact List.drop_append_of_le_length (by omega)

theorem SameStart.drop_one (h : SameStart text other) (hhead : text.head?≠some 62) :
    SameStart (text.drop 1) (other.drop 1) := by
  obtain ⟨front,behind,behind',rfl,rfl⟩ := h
  cases front with
  | nil => exact absurd rfl hhead
  | cons c front => exact ⟨front,behind,behind',rfl,rfl⟩

theorem SameStart.leadingDigits (h : SameStart text other) (base : Nat) :
    Dll.leadingDigits base text=Dll.leadingDigits base other := by
  obtain ⟨front,behind,behind',rfl,rfl⟩ := h
  induction front with
  | nil =>
    have hdigit : digitValue 62=none := by decide
    rw [List.nil_append,List.nil_append,Dll.leadingDigits,Dll.leadingDigits,hdigit]
  | cons c front ih =>
    rw [List.cons_append,List.cons_append,Dll.leadingDigits,Dll.leadingDigits,ih]

theorem hash_plain : ∀ b ∈ ascii "#x",tolower b≠62 :=
  List.all_iff_forall_prop.mp (by decide)

theorem zero_plain : ∀ b ∈ ascii "0x",tolower b≠62 :=
  List.all_iff_forall_prop.mp (by decide)

theorem SameStart.strtoul (h : SameStart text other) (base : Nat) :
    Dll.strtoul base text=Dll.strtoul base other := by
  have hstart := h.dropWhile
  have hdigits : SameStart
      (if (text.dropWhile isspace).head?=some 45 ∨ (text.dropWhile isspace).head?=some 43 then
        (text.dropWhile isspace).drop 1 else text.dropWhile isspace)
      (if (other.dropWhile isspace).head?=some 45 ∨ (other.dropWhile isspace).head?=some 43 then
        (other.dropWhile isspace).drop 1 else other.dropWhile isspace) := by
    rw [← hstart.head]
    split_ifs with hsign
    · apply hstart.drop_one
      rintro hend
      rw [hend] at hsign
      revert hsign
      decide
    · exact hstart
  unfold Dll.strtoul
  dsimp only
  rw [← hstart.head] at hdigits ⊢
  generalize (if (text.dropWhile isspace).head?=some 45 ∨
    (text.dropWhile isspace).head?=some 43 then (text.dropWhile isspace).drop 1
    else text.dropWhile isspace)=digits at hdigits ⊢
  generalize (if (text.dropWhile isspace).head?=some 45 ∨
    (text.dropWhile isspace).head?=some 43 then (other.dropWhile isspace).drop 1
    else other.dropWhile isspace)=digits' at hdigits ⊢
  have hmarked := hdigits.beginsI zero_plain
  have hvalues : Dll.leadingDigits base
      (if base=16 ∧ hexPrefixed digits=true ∧ Dll.leadingDigits 16 (digits.drop 2)≠[] then
        digits.drop 2 else digits)=
      Dll.leadingDigits base
      (if base=16 ∧ hexPrefixed digits'=true ∧ Dll.leadingDigits 16 (digits'.drop 2)≠[] then
        digits'.drop 2 else digits') := by
    unfold hexPrefixed
    rw [← hmarked]
    by_cases hx : Dll.beginsI (ascii "0x") digits=true
    · have hbehind := hdigits.drop zero_plain hx
      change SameStart (digits.drop 2) (digits'.drop 2) at hbehind
      rw [← hbehind.leadingDigits 16]
      split_ifs
      · exact hbehind.leadingDigits base
      · exact hdigits.leadingDigits base
    · rw [if_neg (fun h => hx h.2.1),if_neg (fun h => hx h.2.1)]
      exact hdigits.leadingDigits base
  rw [hvalues]

theorem SameStart.parseEcatNumber (h : SameStart text other) :
    Dll.parseEcatNumber text=Dll.parseEcatNumber other := by
  have hstart := h.dropWhile
  have hhash := hstart.beginsI hash_plain
  have hzero := hstart.beginsI zero_plain
  unfold Dll.parseEcatNumber hexPrefixed
  dsimp only
  rw [← hhash,← hzero]
  split_ifs with hx
  · have hbehind : SameStart ((text.dropWhile isspace).drop 2)
        ((other.dropWhile isspace).drop 2) := by
      rcases hx with hx|hx
      · exact hstart.drop hash_plain hx
      · exact hstart.drop zero_plain hx
    rw [hbehind.strtoul]
  · rw [hstart.strtoul]

end Numbers

section Values

variable {text other : List UInt8}

theorem rdropWhile_append_cons {p : UInt8 → Bool} {c : UInt8} (hc : p c=false)
    (front behind : List UInt8) :
    (front++c::behind).rdropWhile p=front++c::behind.rdropWhile p := by
  induction behind using List.reverseRecOn with
  | nil =>
    rw [List.rdropWhile_nil]
    exact List.rdropWhile_concat_neg p front c (by simp [hc])
  | append_singleton behind d ih =>
    have hsplit : front++c::(behind++[d])=(front++c::behind)++[d] := by simp
    rw [hsplit]
    by_cases hd : p d=true
    · rw [List.rdropWhile_concat_pos _ _ _ hd,List.rdropWhile_concat_pos _ _ _ hd,ih]
    · rw [List.rdropWhile_concat_neg _ _ _ hd,List.rdropWhile_concat_neg _ _ _ hd,hsplit]

theorem trim_append_cons {c : UInt8} (hc : isspace c=false) (front behind : List UInt8) :
    trimInPlace (front++c::behind)=
      front.dropWhile isspace++c::behind.rdropWhile isspace := by
  rw [trimInPlace,Framework.trim,dropWhile_append_cons hc,rdropWhile_append_cons hc]

theorem SameStart.trim (h : SameStart text other) :
    SameStart (trimInPlace text) (trimInPlace other) := by
  obtain ⟨front,behind,behind',rfl,rfl⟩ := h
  exact ⟨_,_,_,trim_append_cons (by decide) front behind,trim_append_cons (by decide) front behind'⟩

theorem SameStart.take (h : SameStart text other) (n : Nat) :
    text.take n=other.take n ∨ SameStart (text.take n) (other.take n) := by
  obtain ⟨front,behind,behind',rfl,rfl⟩ := h
  by_cases hn : n ≤ front.length
  · left
    rw [List.take_append_of_le_length hn,List.take_append_of_le_length hn]
  · right
    obtain ⟨m,hm⟩ : ∃ m,n-front.length=m+1 := ⟨n-front.length-1,by omega⟩
    refine ⟨front,behind.take m,behind'.take m,?_,?_⟩
    · rw [List.take_append,List.take_of_length_le (by omega),hm,List.take_succ_cons]
    · rw [List.take_append,List.take_of_length_le (by omega),hm,List.take_succ_cons]

def valueText (size : Nat) (text : List UInt8) : Option (List UInt8) :=
  found (trimInPlace (text.take (size-1)))

def SameValue (value other : Option (List UInt8)) : Prop :=
  value.isSome=other.isSome ∧ parsedNumber value=parsedNumber other

theorem sameValue_refl (value : Option (List UInt8)) : SameValue value value := ⟨rfl,rfl⟩

theorem valueText_sameValue (h : text=other ∨ SameStart text other) (size : Nat) :
    SameValue (valueText size text) (valueText size other) := by
  rcases h with rfl|h
  · exact sameValue_refl _
  rcases h.take (size-1) with heq|hsame
  · rw [valueText,valueText,heq]
    exact sameValue_refl _
  · have htrim := hsame.trim
    rw [valueText,valueText,found,found,if_neg htrim.ne_nil.1,if_neg htrim.ne_nil.2]
    exact ⟨rfl,htrim.parseEcatNumber⟩

theorem takeWhile_append_cases (p : UInt8 → Bool) (text tail : List UInt8) :
    (text++tail).takeWhile p=text.takeWhile p ∨
      (text.takeWhile p=text ∧ (text++tail).takeWhile p=text++tail.takeWhile p) := by
  induction text with
  | nil => exact .inr ⟨rfl,rfl⟩
  | cons c text ih =>
    rw [List.cons_append,List.takeWhile_cons,List.takeWhile_cons]
    split_ifs
    · rcases ih with hleft|⟨hall,hright⟩
      · exact .inl (congrArg _ hleft)
      · exact .inr ⟨congrArg _ hall,congrArg _ hright⟩
    · exact .inl rfl

theorem quoted_append {text : List UInt8} (htext : EndsTag text) (hne : text≠[])
    (p : UInt8 → Bool) (tail : List UInt8) :
    (text++tail).takeWhile p=text.takeWhile p ∨
      SameStart ((text++tail).takeWhile p) (text.takeWhile p) := by
  rcases takeWhile_append_cases p text tail with hleft|⟨hall,hright⟩
  · exact .inl hleft
  · obtain ⟨front,rfl⟩ := htext.split hne
    refine .inr ⟨front,tail.takeWhile p,[],?_,hall⟩
    rw [hright,List.append_assoc,List.singleton_append]

theorem attrText_append {site : List UInt8} (hsite : EndsTag site) (hne : site≠[])
    (tail : List UInt8) :
    attrText (site++tail)=attrText site ∨ SameStart (attrText (site++tail)) (attrText site) := by
  obtain ⟨c,rest,rfl⟩ := List.exists_cons_of_ne_nil hne
  have hrest : c≠62 → rest≠[] := by
    rintro hc rfl
    exact hc (hsite c rfl)
  by_cases hdouble : c=34
  · subst hdouble
    exact quoted_append hsite.tail (hrest (by decide)) _ tail
  by_cases hsingle : c=39
  · subst hsingle
    exact quoted_append hsite.tail (hrest (by decide)) _ tail
  left
  have hplain : ∀ more,attrText (c::more)=
      (c::more).takeWhile fun d => !isspace d && d≠62 := by
    intro more
    unfold attrText
    split
    · rename_i heq
      exact absurd (List.cons.inj heq).1 hdouble
    · rename_i heq
      exact absurd (List.cons.inj heq).1 hsingle
    · rfl
  rw [List.cons_append,hplain,hplain,← List.cons_append]
  rcases takeWhile_append_cases (fun d => !isspace d && d≠62) (c::rest) tail with hleft|⟨hall,-⟩
  · exact hleft
  · have hmem := hsite.mem (List.cons_ne_nil c rest)
    rw [← hall] at hmem
    have hno := List.mem_takeWhile_imp (p := fun d => !isspace d && decide (d≠62)) hmem
    cases hno

variable {attr : List UInt8}

theorem copyAttrValue_missing (hattr : PlainName attr) {xml : List UInt8} (hxml : EndsTag xml)
    (h : attrSite xml attr=none) (tail : List UInt8) (size : Nat) :
    copyAttrValue (xml++tail) attr size=copyAttrValue tail attr size := by
  rw [copyAttrValue_eq,attrSite_append hattr hxml,h,copyAttrValue_eq]
  rfl

theorem copyAttrValue_present (hattr : PlainName attr) {xml : List UInt8} (hxml : EndsTag xml)
    (h : (attrSite xml attr).isSome) (tail : List UInt8) (size : Nat) :
    SameValue (copyAttrValue (xml++tail) attr size) (copyAttrValue xml attr size) := by
  obtain ⟨site,hsite⟩ := Option.isSome_iff_exists.mp h
  obtain ⟨hne,hends⟩ := attrSite_ends hxml hsite
  rw [copyAttrValue_eq,attrSite_append hattr hxml,hsite,copyAttrValue_eq,hsite]
  exact valueText_sameValue (attrText_append hends hne tail) size

end Values

section Tags

def tagSite (xml tag : List UInt8) : Option (List UInt8) :=
  (findTextI (ascii "<"++tag) xml).bind fun start => (strchr 62 start).map (·.drop 1)

def closeTag (tag : List UInt8) : List UInt8 := ascii "</"++tag++ascii ">"

theorem copyTagTextFrom_eq (xml tag : List UInt8) (size : Nat) :
    copyTagTextFrom xml tag size=(tagSite xml tag).bind fun start =>
      (findTextI (closeTag tag) start).bind fun rest => valueText size (upTo start rest) := by
  rw [copyTagTextFrom,tagSite]
  cases findTextI (ascii "<"++tag) xml with
  | none => rfl
  | some start =>
    simp only [Option.bind_eq_bind,Option.bind_some]
    cases strchr 62 start with
    | none => rfl
    | some start => rfl

variable {tag xml : List UInt8}

theorem PlainName.openTag (htag : PlainName tag) : PlainName (ascii "<"++tag) := by
  refine ⟨by simp [htag.some],?_⟩
  intro b hb
  rcases List.mem_append.mp hb with hb|hb
  · have hopen : ∀ b ∈ ascii "<",tolower b≠62 :=
      List.all_iff_forall_prop.mp (by decide)
    exact hopen b hb
  · exact htag.plain b hb

theorem PlainName.closeTag (htag : PlainName tag) : Tagless (closeTag tag) := by
  have hclose : ∀ b ∈ ascii "</",tolower b≠62 :=
    List.all_iff_forall_prop.mp (by decide)
  intro b hb
  have hfront : (Dll.closeTag tag).dropLast=ascii "</"++tag :=
    List.dropLast_concat
  rw [hfront] at hb
  rcases List.mem_append.mp hb with hb|hb
  · exact hclose b hb
  · exact htag.plain b hb

theorem closeTag_ne_nil : closeTag tag≠[] := by
  intro hnil
  have hlast : closeTag tag=(ascii "</"++tag)++[62] := rfl
  rw [hlast] at hnil
  exact List.concat_ne_nil _ _ hnil

theorem strchr_append {text : List UInt8} (htext : EndsTag text) (hne : text≠[])
    (tail : List UInt8) : strchr 62 (text++tail)=(strchr 62 text).map (·++tail) := by
  have hdrop := dropWhile_append_of_mem (p := (· ≠ 62)) (htext.mem hne) (by decide) tail
  unfold strchr
  rw [hdrop]
  cases hfound : text.dropWhile (· ≠ 62) with
  | nil =>
    have hall := List.dropWhile_eq_nil_iff.mp hfound 62 (htext.mem hne)
    cases hall
  | cons c rest => rfl

theorem strchr_isSome {text : List UInt8} (htext : EndsTag text) (hne : text≠[]) :
    ∃ rest,strchr 62 text=some (62::rest) ∧ 62::rest<:+text := by
  unfold strchr
  cases hfound : text.dropWhile (· ≠ 62) with
  | nil =>
    have hall := List.dropWhile_eq_nil_iff.mp hfound 62 (htext.mem hne)
    cases hall
  | cons c rest =>
    have hc := List.head?_dropWhile_not (fun c => decide (c≠62)) text
    rw [hfound] at hc
    obtain rfl : c=62 := by simpa using hc
    exact ⟨rest,rfl,hfound ▸ List.dropWhile_suffix _⟩

theorem findTextI_ne_nil {needle text rest : List UInt8} (hsome : needle≠[])
    (h : findTextI needle text=some rest) : rest≠[] := by
  induction text with
  | nil =>
    rw [findTextI,if_neg hsome] at h
    cases h
  | cons c text ih =>
    rw [findTextI] at h
    split_ifs at h
    · rw [← Option.some.inj h]
      exact List.cons_ne_nil c text
    · exact ih h

theorem tagSite_ends (htag : PlainName tag) (hxml : EndsTag xml) {start : List UInt8}
    (h : tagSite xml tag=some start) : EndsTag start := by
  obtain ⟨found,hfound,hbehind⟩ := Option.bind_eq_some_iff.mp h
  have hends := hxml.suffix (findTextI_suffix hfound)
  obtain ⟨rest,hrest,hsuffix⟩ := strchr_isSome hends (findTextI_ne_nil htag.openTag.some hfound)
  rw [hrest] at hbehind
  rw [← Option.some.inj hbehind]
  exact (hends.suffix hsuffix).tail

theorem tagSite_append (htag : PlainName tag) (hxml : EndsTag xml) (tail : List UInt8) :
    tagSite (xml++tail) tag=((tagSite xml tag).map (·++tail)).or (tagSite tail tag) := by
  have hfind := findTextI_append htag.openTag.some (tagless_of_plain htag.openTag.plain) hxml tail
  rw [tagSite,hfind,tagSite]
  cases hfound : findTextI (ascii "<"++tag) xml with
  | none => rfl
  | some found =>
    have hends := hxml.suffix (findTextI_suffix hfound)
    have hne := findTextI_ne_nil htag.openTag.some hfound
    obtain ⟨rest,hrest,-⟩ := strchr_isSome hends hne
    have happend := strchr_append hends hne tail
    rw [hrest] at happend
    simp [happend,hrest]

theorem copyTagText_missing (htag : PlainName tag) (hxml : EndsTag xml)
    (h : tagSite xml tag=none) (tail : List UInt8) (size : Nat) :
    copyTagTextFrom (xml++tail) tag size=copyTagTextFrom tail tag size := by
  rw [copyTagTextFrom_eq,tagSite_append htag hxml,h,copyTagTextFrom_eq]
  rfl

variable {start : List UInt8}

theorem copyTagText_closed (htag : PlainName tag) (hxml : EndsTag xml)
    (h : tagSite xml tag=some start) (hclosed : (findTextI (closeTag tag) start).isSome)
    (tail : List UInt8) (size : Nat) :
    copyTagTextFrom (xml++tail) tag size=copyTagTextFrom xml tag size := by
  obtain ⟨rest,hrest⟩ := Option.isSome_iff_exists.mp hclosed
  have hle := (findTextI_suffix hrest).length_le
  have hfind := findTextI_append closeTag_ne_nil htag.closeTag (tagSite_ends htag hxml h) tail
  have hsame : upTo (start++tail) (rest++tail)=upTo start rest := by
    rw [upTo,upTo,List.length_append,List.length_append,Nat.add_sub_add_right,
      List.take_append_of_le_length (Nat.sub_le _ _)]
  rw [copyTagTextFrom_eq,tagSite_append htag hxml,h,copyTagTextFrom_eq,h]
  simp only [Option.map_some,Option.some_or,Option.bind_some]
  rw [hfind,hrest]
  simp only [Option.map_some,Option.some_or,Option.bind_some]
  rw [hsame]

theorem copyTagText_pending (htag : PlainName tag) (hxml : EndsTag xml)
    (h : tagSite xml tag=some start) (hopen : findTextI (closeTag tag) start=none)
    (tail : List UInt8) (size : Nat) :
    copyTagTextFrom (xml++tail) tag size=(findTextI (closeTag tag) tail).bind fun rest =>
      valueText size (start++upTo tail rest) := by
  have hfind := findTextI_append closeTag_ne_nil htag.closeTag (tagSite_ends htag hxml h) tail
  rw [copyTagTextFrom_eq,tagSite_append htag hxml,h]
  simp only [Option.map_some,Option.some_or,Option.bind_some]
  rw [hfind,hopen,Option.map_none,Option.none_or]
  cases hrest : findTextI (closeTag tag) tail with
  | none => rfl
  | some rest =>
    have hle := (findTextI_suffix hrest).length_le
    have hsame : upTo (start++tail) rest=start++upTo tail rest := by
      have hlen : start.length+tail.length-rest.length=start.length+(tail.length-rest.length) := by
        omega
      rw [upTo,upTo,List.length_append,hlen,List.take_length_add_append]
    simp only [Option.bind_some]
    rw [hsame]

end Tags

section Elements

theorem tagEnds_append {text : List UInt8} (hne : text≠[]) (tail : List UInt8) :
    tagEnds (text++tail)=tagEnds text := by
  obtain ⟨c,rest,rfl⟩ := List.exists_cons_of_ne_nil hne
  rfl

theorem elementsFrom_append {openTag : List UInt8} (hopen : PlainName openTag) {xml : List UInt8}
    (hxml : EndsTag xml) (tail : List UInt8) {skip : Nat} (hskip : skip ≤ xml.length) :
    elementsFrom openTag skip (xml++tail)=
      (elementsFrom openTag skip xml).map (·++tail)++elementsFrom openTag 0 tail := by
  induction xml generalizing skip with
  | nil =>
    obtain rfl : skip=0 := Nat.le_zero.mp hskip
    rfl
  | cons c rest ih =>
    cases skip with
    | succ skip => exact ih hxml.tail (Nat.le_of_succ_le_succ hskip)
    | zero =>
      have hbegins := beginsI_append (tagless_of_plain hopen.plain) hxml (List.cons_ne_nil c rest)
        tail
      rw [List.cons_append] at hbegins ⊢
      rw [elementsFrom,elementsFrom,hbegins]
      by_cases h : beginsI openTag (c::rest)=true
      · have hlt := beginsI_length hopen.plain hxml (List.cons_ne_nil c rest) h
        have hdrop : (c::(rest++tail)).drop openTag.length=
            (c::rest).drop openTag.length++tail := by
          rw [← List.cons_append,List.drop_append_of_le_length hlt.le]
        rw [if_pos h,if_pos h,hdrop,
          tagEnds_append (drop_ne_nil hopen.plain hxml (List.cons_ne_nil c rest) h)]
        rw [List.length_cons] at hlt
        split_ifs
        · exact congrArg _ (ih hxml.tail (Nat.zero_le _))
        · exact ih hxml.tail (by omega)
      · rw [if_neg h,if_neg h]
        exact ih hxml.tail (Nat.zero_le _)

theorem xmlElements_append {tag xml : List UInt8} (htag : PlainName tag) (hxml : EndsTag xml)
    (tail : List UInt8) :
    xmlElements (xml++tail) tag=(xmlElements xml tag).map (·++tail)++xmlElements tail tag :=
  elementsFrom_append htag.openTag hxml tail (Nat.zero_le _)

theorem findXmlElement_isSome {xml tag : List UInt8} :
    (findXmlElement xml tag).isSome ↔ xmlElements xml tag≠[] := by
  rw [xmlElements_eq]
  cases findXmlElement xml tag with
  | none => simp
  | some section_ => simp

theorem xmlElements_without {b : UInt8} {tag xml : List UInt8} (hb : b ∈ tag)
    (h : Without b xml) : xmlElements xml tag=[] := by
  have hopen : b ∈ ascii "<"++tag := List.mem_append_right _ hb
  rw [xmlElements]
  induction xml with
  | nil => rfl
  | cons c rest ih =>
    rw [elementsFrom,beginsI_without hopen h]
    exact ih h.tail

theorem beginsI_self (needle rest : List UInt8) : beginsI needle (needle++rest)=true := by
  induction needle with
  | nil => rw [beginsI]
  | cons b needle ih => rw [List.cons_append,beginsI,ih,decide_eq_true rfl,Bool.true_and]

end Elements

end EtherCATMaster.Dll
