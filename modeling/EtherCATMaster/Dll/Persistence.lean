import EtherCATMaster.Dll.Database
import Mathlib

namespace EtherCATMaster.Dll

open Framework

section Clean

/-- A text that the index keeps as it is. -/
structure CleanText (text : List UInt8) : Prop where
  whole : ∀ c ∈ text,separates c=false
  trimmed : Trimmed isspace text

theorem sanitizeCsvText_clean (text : List UInt8) : CleanText (sanitizeCsvText text) := by
  refine ⟨?_,trim_trimmed _ _⟩
  intro c hc
  obtain ⟨d,-,rfl⟩ := List.mem_map.mp (mem_of_mem_trim hc)
  by_cases hd : separates d=true
  · rw [if_pos hd]
    decide
  · rw [if_neg hd]
    simpa using hd

theorem sanitizeCsvText_of_clean {text : List UInt8} (h : CleanText text) :
    sanitizeCsvText text=text := by
  have hmap : text.map (fun c => if separates c then 32 else c)=text := by
    refine (List.map_congr_left ?_).trans (List.map_id text)
    intro c hc
    rw [h.whole c hc]
    rfl
  rw [sanitizeCsvText,hmap]
  exact trim_eq h.trimmed

theorem sanitizeCsvText_eq_iff {text : List UInt8} :
    sanitizeCsvText text=text ↔ CleanText text := by
  constructor
  · intro h
    rw [← h]
    exact sanitizeCsvText_clean text
  · exact sanitizeCsvText_of_clean

theorem sanitizeCsvText_length_le (text : List UInt8) :
    (sanitizeCsvText text).length ≤ text.length := by
  have hle := trim_length_le isspace (text.map fun c => if separates c then 32 else c)
  rw [List.length_map] at hle
  exact hle

theorem cleanText_nil : CleanText [] := by
  constructor
  · rintro c ⟨⟩
  · exact trim_trimmed isspace []

theorem snprintf_of_fits {size : Nat} {text : List UInt8} (h : text.length < size) :
    snprintf size text=text := List.take_of_length_le (by omega)

end Clean

section Numbers

theorem hexDigit_spec : ∀ d < 16,digitValue (hexDigit d)=some d ∧ isspace (hexDigit d)=false ∧
    hexDigit d≠45 ∧ hexDigit d≠43 ∧ tolower (hexDigit d)≠120 ∧
    separates (hexDigit d)=false := by decide

theorem leadingDigits_hex (digits : List ℕ) (h : ∀ d ∈ digits,d<16) :
    leadingDigits 16 (digits.map hexDigit)=digits := by
  induction digits with
  | nil => rfl
  | cons d digits ih =>
    obtain ⟨hd,hrest⟩ := List.forall_mem_cons.mp h
    rw [List.map_cons,leadingDigits,(hexDigit_spec d hd).1]
    dsimp only
    rw [if_pos hd,ih hrest]

theorem hex8_mem {n : UInt32} {c : UInt8} (h : c∈hex8 n) : ∃ d < 16,hexDigit d=c := by
  obtain ⟨d,hd,rfl⟩ := List.mem_map.mp h
  exact ⟨d,digitsOf_lt (by decide) 8 n.toNat d hd,rfl⟩

@[simp] theorem hex8_length (n : UInt32) : (hex8 n).length=8 := by
  rw [hex8,List.length_map,digitsOf_length]

theorem hex8_cons (n : UInt32) : ∃ d e rest,d<16 ∧ e<16 ∧
    hex8 n=hexDigit d::hexDigit e::rest := by
  have hlength := hex8_length n
  match h : hex8 n with
  | [] => rw [h] at hlength; cases hlength
  | [_] => rw [h] at hlength; cases hlength
  | c::c'::rest =>
    obtain ⟨d,hd,rfl⟩ := hex8_mem (n := n) (c := c) (by rw [h]; simp)
    obtain ⟨e,he,rfl⟩ := hex8_mem (n := n) (c := c') (by rw [h]; simp)
    exact ⟨d,e,rest,hd,he,rfl⟩

theorem strtoul_hex8 (n : UInt32) : strtoul 16 (hex8 n)=n.toNat := by
  obtain ⟨d,e,rest,hd,he,hcons⟩ := hex8_cons n
  obtain ⟨-,hblank,hminus,hplus,-,-⟩ := hexDigit_spec d hd
  have hx := (hexDigit_spec e he).2.2.2.2.1
  have hdigits : leadingDigits 16 (hex8 n)=digitsOf 16 8 n.toNat :=
    leadingDigits_hex _ (digitsOf_lt (by decide) 8 n.toNat)
  have hlt := n.toNat_lt
  have hvalue : valueOf 16 (digitsOf 16 8 n.toNat)=n.toNat :=
    valueOf_digitsOf 16 8 n.toNat (by omega)
  have hstart : (hex8 n).dropWhile isspace=hex8 n := by
    rw [hcons,List.dropWhile_cons,hblank]
    rfl
  have hsign : ¬((hex8 n).head?=some 45 ∨ (hex8 n).head?=some 43) := by
    rw [hcons,List.head?_cons]
    rintro (h|h)
    · exact hminus (Option.some.inj h)
    · exact hplus (Option.some.inj h)
  have hmarked : hexPrefixed (hex8 n)=false := by
    rw [hcons,hexPrefixed,show ascii "0x"=[48,120] from rfl,beginsI,beginsI]
    have hne : decide (tolower (hexDigit e)=tolower 120)=false := by
      rw [show tolower 120=120 from rfl]
      exact decide_eq_false hx
    rw [hne,Bool.false_and,Bool.and_false]
  unfold strtoul
  dsimp only
  rw [hstart,if_neg hsign,hmarked]
  have hno : ¬((16 : ℕ)=16 ∧ (false : Bool)=true ∧ leadingDigits 16 ((hex8 n).drop 2)≠[]) := by
    rintro ⟨-,h,-⟩
    cases h
  rw [if_neg hno,hdigits,hvalue,if_neg (by rw [ulongMax]; omega)]
  exact if_neg fun h => hsign (.inl h)

theorem hexField_trimmed (n : UInt32) : Trimmed isspace (ascii "0x"++hex8 n) := by
  constructor
  · intro c rest h
    injection h with hc _
    rw [← hc]
    decide
  · intro front c h
    have hne : hex8 n≠[] := by
      intro hnil
      have hlength := hex8_length n
      rw [hnil] at hlength
      cases hlength
    have hlast : c∈hex8 n := by
      have hgot := congrArg List.getLast? h
      rw [List.getLast?_append_of_ne_nil _ hne,List.getLast?_concat] at hgot
      exact List.mem_of_getLast? hgot
    obtain ⟨d,hd,rfl⟩ := hex8_mem hlast
    exact (hexDigit_spec d hd).2.1

theorem parseEcatNumber_hex (n : UInt32) :
    parseEcatNumber (trimInPlace (ascii "0x"++hex8 n))=n := by
  have hstart : (ascii "0x"++hex8 n).dropWhile isspace=ascii "0x"++hex8 n := rfl
  have hmarked : hexPrefixed (ascii "0x"++hex8 n)=true := by
    rw [hexPrefixed,show ascii "0x"=[48,120] from rfl]
    rfl
  rw [trimInPlace,trim_eq (hexField_trimmed n),parseEcatNumber,hstart,if_pos (.inr hmarked)]
  change UInt32.ofNat (strtoul 16 (hex8 n))=n
  rw [strtoul_hex8,UInt32.ofNat_toNat]

end Numbers

section Entries

def DbEntry.texts (entry : DbEntry) : List (List UInt8) :=
  [entry.name.text,entry.xmlType.text,entry.xmlPath.text,entry.importedAt.text]

def textSizes : List ℕ := [256,32,260,32]

theorem DbEntry.texts_fit (entry : DbEntry) :
    List.Forall₂ (fun size text => text.length < size) textSizes entry.texts :=
  .cons entry.name.fits (.cons entry.xmlType.fits (.cons entry.xmlPath.fits
    (.cons entry.importedAt.fits .nil)))

theorem DbEntry.ext_texts {entry other : DbEntry} (hvendor : entry.vendorId=other.vendorId)
    (hproduct : entry.productCode=other.productCode) (hrevision : entry.revision=other.revision)
    (htexts : entry.texts=other.texts) : entry=other := by
  obtain ⟨v,p,r,⟨n,hn⟩,⟨x,hx⟩,⟨t,ht⟩,⟨d,hd⟩⟩ := entry
  obtain ⟨v',p',r',⟨n',hn'⟩,⟨x',hx'⟩,⟨t',ht'⟩,⟨d',hd'⟩⟩ := other
  simp only [DbEntry.texts,List.cons.injEq,and_true] at hvendor hproduct hrevision htexts
  obtain ⟨rfl,rfl,rfl,rfl⟩ := htexts
  subst hvendor hproduct hrevision
  rfl

def restored (entry : DbEntry) : DbEntry := setFields blankEntry 0 (tokens 44 (entryLine entry))

theorem entryFields_eq (entry : DbEntry) :
    entryFields entry=[ascii "0x"++hex8 entry.vendorId,ascii "0x"++hex8 entry.productCode,
      ascii "0x"++hex8 entry.revision]++entry.texts.map sanitizeCsvText := rfl

theorem entryFields_whole (entry : DbEntry) :
    ∀ field ∈ entryFields entry,∀ c ∈ field,separates c=false := by
  have hhex : ∀ n,∀ c ∈ ascii "0x"++hex8 n,separates c=false := by
    intro n c hc
    rcases List.mem_append.mp hc with hx|hdigit
    · have h0x : ∀ c ∈ ascii "0x",separates c=false :=
        List.all_iff_forall_prop.mp (by decide)
      exact h0x c hx
    · obtain ⟨d,hd,rfl⟩ := hex8_mem hdigit
      exact (hexDigit_spec d hd).2.2.2.2.2
  intro field hfield
  rw [entryFields_eq,List.mem_append] at hfield
  rcases hfield with hnumber|htext
  · simp only [List.mem_cons,List.not_mem_nil,or_false] at hnumber
    rcases hnumber with rfl|rfl|rfl
    · exact hhex _
    · exact hhex _
    · exact hhex _
  · obtain ⟨text,-,rfl⟩ := List.mem_map.mp htext
    exact (sanitizeCsvText_clean text).whole

theorem tokens_entryLine (entry : DbEntry) :
    tokens 44 (entryLine entry)=
      [ascii "0x"++hex8 entry.vendorId,ascii "0x"++hex8 entry.productCode,
        ascii "0x"++hex8 entry.revision]++
      (entry.texts.map sanitizeCsvText).filter fun part => !part.isEmpty := by
  have hcomma : ∀ field ∈ entryFields entry,(44 : UInt8)∉field := by
    intro field hfield hc
    have hno := entryFields_whole entry field hfield 44 hc
    cases hno
  rw [entryLine,tokens_intercalate 44 (by simp [entryFields]) hcomma,entryFields_eq,
    List.filter_append]
  rfl

theorem restored_eq (entry : DbEntry) :
    restored entry=withTexts entry
      ((entry.texts.map sanitizeCsvText).filter fun part => !part.isEmpty) := by
  have htrim : ∀ text ∈ (entry.texts.map sanitizeCsvText).filter (fun part => !part.isEmpty),
      trimInPlace text=text := by
    intro text htext
    obtain ⟨before,-,rfl⟩ := List.mem_map.mp (List.mem_filter.mp htext).1
    exact trim_eq (sanitizeCsvText_clean before).trimmed
  have hlength : ((entry.texts.map sanitizeCsvText).filter fun part => !part.isEmpty).length ≤ 4 :=
    List.length_filter_le _ _
  rw [restored,tokens_entryLine]
  generalize (entry.texts.map sanitizeCsvText).filter (fun part => !part.isEmpty)=parts at *
  simp only [List.cons_append,List.nil_append,setFields,setField,parseEcatNumber_hex]
  match parts with
  | [] => rfl
  | [a] => simp [setFields,setField,withTexts,htrim,blankEntry]
  | [a,b] => simp [setFields,setField,withTexts,htrim,blankEntry]
  | [a,b,c] => simp [setFields,setField,withTexts,htrim,blankEntry]
  | [a,b,c,d] => simp [setFields,setField,withTexts,htrim,blankEntry]
  | _::_::_::_::_::_ =>
    simp only [List.length_cons] at hlength
    omega

theorem withTexts_texts (entry : DbEntry) {texts : List (List UInt8)} (h : texts.length ≤ 4) :
    (withTexts entry texts).texts=
      cutFields textSizes (texts++List.replicate (4-texts.length) []) := by
  match texts with
  | [] => rfl
  | [_] => rfl
  | [_,_] => rfl
  | [_,_,_] => rfl
  | [_,_,_,_] => rfl
  | _::_::_::_::_::_ =>
    simp only [List.length_cons] at h
    omega

/-- An entry that the index keeps: its texts are clean, and none is missing before another one. -/
structure Storable (entry : DbEntry) : Prop where
  clean : ∀ text ∈ entry.texts,CleanText text
  filled : Packed entry.texts

theorem restored_iff (entry : DbEntry) : restored entry=entry ↔ Storable entry := by
  have hlength : ((entry.texts.map sanitizeCsvText).filter fun part => !part.isEmpty).length ≤ 4 :=
    List.length_filter_le _ _
  have htexts : (restored entry).texts=
      cutFields textSizes (packed (entry.texts.map sanitizeCsvText)) := by
    rw [restored_eq,withTexts_texts entry hlength]
    rfl
  have hiff := cutFields_packed_iff sanitizeCsvText rfl sanitizeCsvText_length_le
    entry.texts_fit
  rw [← htexts] at hiff
  have hclean : (∀ text ∈ entry.texts,sanitizeCsvText text=text) ↔
      ∀ text ∈ entry.texts,CleanText text := by
    simp only [sanitizeCsvText_eq_iff]
  rw [hclean] at hiff
  constructor
  · intro h
    obtain ⟨hc,hp⟩ := hiff.mp (by rw [h])
    exact ⟨hc,hp⟩
  · intro h
    have htexts' := hiff.mpr ⟨h.clean,h.filled⟩
    rw [restored_eq] at htexts' ⊢
    exact DbEntry.ext_texts rfl rfl rfl htexts'

end Entries

section Index

theorem findTextI_length_le (needle : List UInt8) {text rest : List UInt8}
    (h : findTextI needle text=some rest) : rest.length ≤ text.length := by
  induction text with
  | nil =>
    rw [findTextI] at h
    split_ifs at h
    rw [← Option.some.inj h]
  | cons c text ih =>
    rw [findTextI] at h
    split_ifs at h
    · rw [← Option.some.inj h]
    · exact (ih h).trans (Nat.le_succ _)

theorem entryLine_cons (entry : DbEntry) : ∃ rest,entryLine entry=48::rest := ⟨_,rfl⟩

theorem entryLine_whole (entry : DbEntry) : (10 : UInt8)∉entryLine entry := by
  intro hnewline
  rcases mem_of_mem_intercalate 44 hnewline with h|⟨field,hfield,hc⟩
  · cases h
  · have hno := entryFields_whole entry field hfield 10 hc
    cases hno

theorem entryLine_length (entry : DbEntry) : (entryLine entry).length < lineSize-1 := by
  have hname := (sanitizeCsvText_length_le entry.name.text).trans_lt entry.name.fits
  have htype := (sanitizeCsvText_length_le entry.xmlType.text).trans_lt entry.xmlType.fits
  have hpath := (sanitizeCsvText_length_le entry.xmlPath.text).trans_lt entry.xmlPath.fits
  have htime := (sanitizeCsvText_length_le entry.importedAt.text).trans_lt entry.importedAt.fits
  have h0x : (ascii "0x").length=2 := rfl
  have hle := length_intercalate_le 44 (entryFields entry)
  simp only [entryFields,List.map_cons,List.map_nil,List.sum_cons,List.sum_nil,List.length_cons,
    List.length_nil,List.length_append,hex8_length,h0x] at hle
  rw [lineSize]
  change ([44].intercalate (entryFields entry)).length<_
  rw [entryFields]
  omega

theorem trim_entryLine (entry : DbEntry) :
    trimInPlace (entryLine entry++[10])=entryLine entry := by
  obtain ⟨rest,hrest⟩ := entryLine_cons entry
  have hlast : ∀ front c,entryLine entry=front++[c] → isspace c=false := by
    intro front c h
    have hsplit : ∃ begun,entryLine entry=begun++44::sanitizeCsvText entry.importedAt.text := by
      have hconcat := intercalate_concat 44
        [ascii "0x"++hex8 entry.vendorId,ascii "0x"++hex8 entry.productCode,
          ascii "0x"++hex8 entry.revision,sanitizeCsvText entry.name.text,
          sanitizeCsvText entry.xmlType.text,sanitizeCsvText entry.xmlPath.text]
        (List.cons_ne_nil _ _) (sanitizeCsvText entry.importedAt.text)
      exact ⟨_,hconcat⟩
    obtain ⟨begun,hbegun⟩ := hsplit
    rw [h] at hbegun
    rcases List.eq_nil_or_concat' (sanitizeCsvText entry.importedAt.text) with hnil|⟨text,d,hd⟩
    · -- the time is missing: the line ends with the separator
      rw [hnil] at hbegun
      have hc := (List.append_inj' hbegun rfl).2
      rw [List.cons.inj hc |>.1]
      decide
    · rw [hd,← List.cons_append,← List.append_assoc] at hbegun
      have hc := (List.append_inj' hbegun rfl).2
      rw [List.cons.inj hc |>.1]
      exact (sanitizeCsvText_clean entry.importedAt.text).trimmed.last text d hd
  have htrimmed : Trimmed isspace (entryLine entry) := by
    refine ⟨?_,hlast⟩
    intro c tail h
    rw [hrest] at h
    rw [← (List.cons.inj h).1]
    decide
  have hfront : (entryLine entry++[10]).dropWhile isspace=entryLine entry++[10] := by
    rw [hrest]
    rfl
  have hwhole := trim_eq htrimmed
  rw [trim] at hwhole
  have hdrop : (entryLine entry).dropWhile isspace=entryLine entry := by
    rw [hrest]
    rfl
  rw [hdrop] at hwhole
  rw [trimInPlace,trim,hfront,List.rdropWhile_concat_pos _ _ _ (by decide),hwhole]

theorem restored_ids (entry : DbEntry) : (restored entry).vendorId=entry.vendorId ∧
    (restored entry).productCode=entry.productCode := by
  rw [restored_eq]
  exact ⟨rfl,rfl⟩

theorem dbLoadLine_entry (entries : List DbEntry) (entry : DbEntry)
    (hids : entry.vendorId≠0 ∧ entry.productCode≠0) (hroom : entries.length<ecatMaxDbEntries) :
    dbLoadLine entries (entryLine entry)=entries++[restored entry] := by
  obtain ⟨rest,hrest⟩ := entryLine_cons entry
  have hheader : findTextI (ascii "vendor_id") (entryLine entry)≠some (entryLine entry) := by
    have hdigit : ¬beginsI (ascii "vendor_id") (48::rest)=true := by
      change ¬(decide (tolower 48=tolower 118) && beginsI (ascii "endor_id") rest)=true
      rw [show decide (tolower 48=tolower 118)=false from rfl,Bool.false_and]
      decide
    rw [hrest,findTextI,if_neg hdigit]
    intro h
    have hle := findTextI_length_le _ h
    rw [List.length_cons] at hle
    omega
  have hstart : ¬(entryLine entry=[] ∨ (entryLine entry).head?=some 35) := by
    rw [hrest]
    rintro (h|h)
    · cases h
    · cases h
  obtain ⟨hvendor,hproduct⟩ := restored_ids entry
  have hentry : ¬((restored entry).vendorId=0 ∨ (restored entry).productCode=0 ∨
      entries.length≥ecatMaxDbEntries) := by
    rw [hvendor,hproduct]
    rintro (h|h|h)
    · exact hids.1 h
    · exact hids.2 h
    · omega
  rw [dbLoadLine,if_neg hstart,if_neg hheader]
  change (if (restored entry).vendorId=0 ∨ (restored entry).productCode=0 ∨
    entries.length≥ecatMaxDbEntries then entries else entries++[restored entry])=_
  rw [if_neg hentry]

theorem loadLines_entries {entries : List DbEntry} (loaded : List DbEntry)
    (hids : ∀ entry ∈ entries,entry.vendorId≠0 ∧ entry.productCode≠0)
    (hroom : loaded.length+entries.length ≤ ecatMaxDbEntries) :
    ((entries.map entryLine).map fun line => line++[10]).foldl
      (fun entries line => dbLoadLine entries (trimInPlace line)) loaded=
      loaded++entries.map restored := by
  induction entries generalizing loaded with
  | nil => exact (List.append_nil loaded).symm
  | cons entry entries ih =>
    obtain ⟨hentry,hrest⟩ := List.forall_mem_cons.mp hids
    rw [List.length_cons] at hroom
    rw [List.map_cons,List.map_cons,List.foldl_cons,trim_entryLine,
      dbLoadLine_entry loaded entry hentry (by omega),ih _ hrest (by simp; omega),List.map_cons,
      List.append_assoc,List.singleton_append]

/-- What every database holds. -/
structure Admissible (entries : List DbEntry) : Prop where
  ids : ∀ entry ∈ entries,entry.vendorId≠0 ∧ entry.productCode≠0
  room : entries.length ≤ ecatMaxDbEntries

theorem linesFrom_indexText (entries : List DbEntry) :
    linesFrom 10 (lineSize-1) [] (indexText entries)=
      (indexHeader::entries.map entryLine).map fun line => line++[10] := by
  apply linesFrom_flatten
  intro body hbody
  rcases List.mem_cons.mp hbody with rfl|hentry
  · exact ⟨by decide,by decide⟩
  · obtain ⟨entry,-,rfl⟩ := List.mem_map.mp hentry
    exact ⟨entryLine_whole entry,entryLine_length entry⟩

theorem dbReload_saved {db : Database} (h : Admissible db.entries) :
    dbReload workingDisk (dbSave workingDisk db).2=
      (ecatOk,{ db with
        index := some (indexText db.entries)
        entries := db.entries.map restored }) := by
  have hheader : dbLoadLine [] (trimInPlace (indexHeader++[10]))=[] := by decide
  have hload := loadLines_entries [] h.ids (by simpa using h.room)
  rw [List.nil_append] at hload
  have hsave : dbSave workingDisk db=
      (ecatOk,{ db with index := some (indexText db.entries) }) := rfl
  rw [hsave]
  change (ecatOk,{ db with
    index := some (indexText db.entries)
    entries := (linesFrom 10 (lineSize-1) [] (indexText db.entries)).foldl
      (fun entries line => dbLoadLine entries (trimInPlace line)) [] })=_
  rw [linesFrom_indexText,List.map_cons,List.foldl_cons,hheader,hload]

end Index

section Imported

theorem copyTagTextFrom_length {xml tag text : List UInt8} {size : ℕ}
    (h : copyTagTextFrom xml tag size=some text) : text.length ≤ size-1 := by
  rw [copyTagTextFrom] at h
  simp only [Option.bind_eq_bind,Option.bind_eq_some_iff] at h
  obtain ⟨_,-,start,-,rest,-,hfound⟩ := h
  rw [found] at hfound
  split_ifs at hfound
  rw [← Option.some.inj hfound]
  exact (trim_length_le _ _).trans (List.length_take_le _ _)

theorem xmlName_length (scan : List UInt8) (vendorId productCode : UInt32) :
    (xmlName scan vendorId productCode).length<256 := by
  unfold xmlName
  split
  · rename_i text h
    have hle : text.length ≤ 256-1 := by
      cases hname : copyTagTextFrom scan (ascii "Name") 256 with
      | some name =>
        rw [hname] at h
        rw [← Option.some.inj h]
        exact copyTagTextFrom_length hname
      | none =>
        rw [hname] at h
        exact copyTagTextFrom_length h
    omega
  · rw [snprintf,List.length_take]
    omega

theorem stripCdata_length_le (text : List UInt8) : (stripCdata text).length ≤ text.length := by
  have htrim := trim_length_le isspace text
  unfold stripCdata
  dsimp only
  split_ifs
  · refine (trim_length_le _ _).trans (le_trans ?_ htrim)
    have hdrop := List.length_drop (l := trimInPlace text) (i := cdataOpen.length)
    change _ ≤ (trimInPlace text).length
    split
    · rw [upTo,List.length_take]
      omega
    · omega
  · exact htrim

theorem parsed_name_clean {xml : List UInt8} {section_ : Option (List UInt8)} {entry : DbEntry}
    (h : parseXmlDeviceFrom xml section_=some entry) :
    CleanText entry.name.text ∧ entry.xmlType.text=parseXmlType xml := by
  unfold parseXmlDeviceFrom at h
  dsimp only at h
  split_ifs at h
  rw [← Option.some.inj h]
  constructor
  · change CleanText (snprintf 256 (sanitizeCsvText (stripCdata (xmlName _ _ _))))
    rw [snprintf_of_fits (((sanitizeCsvText_length_le _).trans
      (stripCdata_length_le _)).trans_lt (xmlName_length _ _ _))]
    exact sanitizeCsvText_clean _
  · change snprintf 32 (parseXmlType xml)=_
    unfold parseXmlType
    split_ifs <;> rfl

theorem parseXmlType_clean (xml : List UInt8) :
    CleanText (parseXmlType xml) ∧ parseXmlType xml≠[] := by
  have hclean : ∀ text ∈ [ascii "ESI",ascii "ENI",ascii "XML"],
      sanitizeCsvText text=text ∧ text≠[] := by decide
  have hmem : parseXmlType xml∈[ascii "ESI",ascii "ENI",ascii "XML"] := by
    unfold parseXmlType
    split_ifs <;> simp
  obtain ⟨hsame,hne⟩ := hclean _ hmem
  exact ⟨sanitizeCsvText_eq_iff.mp hsame,hne⟩

theorem decimal_mem {width n : ℕ} {c : UInt8} (h : c∈decimal width n) :
    isspace c=false ∧ separates c=false := by
  obtain ⟨d,hd,rfl⟩ := List.mem_map.mp h
  have hlt := digitsOf_lt (show 0<10 by decide) width n d hd
  obtain ⟨-,hblank,-,-,-,hseparates⟩ := hexDigit_spec d (by omega)
  exact ⟨hblank,hseparates⟩

theorem decimal_length (width n : ℕ) : (decimal width n).length=width := by
  rw [decimal,List.length_map,digitsOf_length]

theorem decimal_ne_nil (width n : ℕ) : decimal (width+1) n≠[] := by
  intro hnil
  have hlength := decimal_length (width+1) n
  rw [hnil] at hlength
  cases hlength

theorem currentTimeText_length (now : Option LocalTime) : (currentTimeText now).length<32 := by
  cases now with
  | none => decide
  | some t =>
    have hpunct : (ascii "-").length=1 ∧ (ascii " ").length=1 ∧ (ascii ":").length=1 := by decide
    obtain ⟨hdash,hblank,hcolon⟩ := hpunct
    simp only [currentTimeText,List.length_append,decimal_length,hdash,hblank,hcolon]
    omega

theorem currentTimeText_clean (now : Option LocalTime) : CleanText (currentTimeText now) := by
  cases now with
  | none => exact cleanText_nil
  | some t =>
    have hpunct : ∀ c ∈ ascii "- :",separates c=false :=
      List.all_iff_forall_prop.mp (by decide)
    have hmem : ∀ c ∈ currentTimeText (some t),c∈ascii "- :" ∨ ∃ width n,c∈decimal width n := by
      intro c hc
      simp only [currentTimeText,List.mem_append] at hc
      have hdash : ascii "-" ⊆ ascii "- :" := by decide
      have hblank : ascii " " ⊆ ascii "- :" := by decide
      have hcolon : ascii ":" ⊆ ascii "- :" := by decide
      rcases hc with ((((((((((h|h)|h)|h)|h)|h)|h)|h)|h)|h)|h)
      · exact .inr ⟨_,_,h⟩
      · exact .inl (hdash h)
      · exact .inr ⟨_,_,h⟩
      · exact .inl (hdash h)
      · exact .inr ⟨_,_,h⟩
      · exact .inl (hblank h)
      · exact .inr ⟨_,_,h⟩
      · exact .inl (hcolon h)
      · exact .inr ⟨_,_,h⟩
      · exact .inl (hcolon h)
      · exact .inr ⟨_,_,h⟩
    refine ⟨fun c hc => ?_,⟨fun c rest h => ?_,fun front c h => ?_⟩⟩
    · rcases hmem c hc with hp|⟨_,_,hd⟩
      · exact hpunct c hp
      · exact (decimal_mem hd).2
    · have hhead := congrArg List.head? h
      simp only [currentTimeText,List.append_assoc] at hhead
      rw [List.head?_append_of_ne_nil _ (decimal_ne_nil 3 t.year),List.head?_cons] at hhead
      exact (decimal_mem (List.mem_of_mem_head? hhead)).1
    · have hlast := congrArg List.getLast? h
      rw [currentTimeText,List.getLast?_append_of_ne_nil _ (decimal_ne_nil 1 t.second),
        List.getLast?_concat] at hlast
      exact (decimal_mem (List.mem_of_getLast? hlast)).1

/-- Of the texts of an imported device only the name and the path may be lost: where the name is
empty, and where the path is not clean. -/
theorem stored_storable {xml : List UInt8} {section_ : Option (List UInt8)} {entry : DbEntry}
    (h : parseXmlDeviceFrom xml section_=some entry) {path : List UInt8} (hpath : path≠[])
    (hfits : path.length<260) (now : Option LocalTime) :
    Storable (entry.stored path (currentTimeText now)) ↔ entry.name.text≠[] ∧ CleanText path := by
  obtain ⟨hname,htype⟩ := parsed_name_clean h
  obtain ⟨htypeClean,htypeSome⟩ := parseXmlType_clean xml
  have htexts : (entry.stored path (currentTimeText now)).texts=
      [entry.name.text,parseXmlType xml,path,currentTimeText now] := by
    have hp := snprintf_of_fits hfits
    have ht := snprintf_of_fits (currentTimeText_length now)
    simp only [DbEntry.texts,DbEntry.stored,CharArray.safeCopy,hp,ht,htype]
  constructor
  · rintro ⟨hclean,hpacked⟩
    rw [htexts] at hclean hpacked
    constructor
    · intro hnil
      exact htypeSome ((List.pairwise_cons.mp hpacked).1 _ List.mem_cons_self hnil)
    · exact hclean path (by simp)
  · rintro ⟨hsome,hpathClean⟩
    constructor
    · rw [htexts]
      intro text htext
      simp only [List.mem_cons,List.not_mem_nil,or_false] at htext
      rcases htext with rfl|rfl|rfl|rfl
      · exact hname
      · exact htypeClean
      · exact hpathClean
      · exact currentTimeText_clean now
    · rw [htexts,Packed]
      simp [hsome,htypeSome,hpath]

end Imported

section Reachable

theorem admissible_nil : Admissible [] := by
  constructor
  · rintro entry ⟨⟩
  · exact Nat.zero_le _

theorem Admissible.concat {entries : List DbEntry} (h : Admissible entries) {entry : DbEntry}
    (hids : entry.vendorId≠0 ∧ entry.productCode≠0) (hroom : entries.length<ecatMaxDbEntries) :
    Admissible (entries++[entry]) := by
  constructor
  · intro other hother
    rcases List.mem_append.mp hother with hold|hnew
    · exact h.ids other hold
    · rw [List.mem_singleton.mp hnew]
      exact hids
  · rw [List.length_append,List.length_singleton]
    exact hroom

theorem dbLoadLine_admissible {entries : List DbEntry} (h : Admissible entries)
    (line : List UInt8) : Admissible (dbLoadLine entries line) := by
  unfold dbLoadLine
  dsimp only
  split_ifs with hempty hheader hrefused
  · exact h
  · exact h
  · exact h
  · push Not at hrefused
    exact h.concat ⟨hrefused.1,hrefused.2.1⟩ hrefused.2.2

theorem dbSave_entries (disk : Disk) (db : Database) : (dbSave disk db).2.entries=db.entries := by
  unfold dbSave
  split_ifs <;> rfl

theorem loadLines_keep {P : List DbEntry → Prop}
    (hline : ∀ entries line,P entries → P (dbLoadLine entries line)) (lines : List (List UInt8))
    {entries : List DbEntry} (h : P entries) :
    P (lines.foldl (fun entries line => dbLoadLine entries (trimInPlace line)) entries) := by
  induction lines generalizing entries with
  | nil => exact h
  | cons line lines ih => exact ih (hline _ _ h)

theorem dbReload_admissible {db : Database} (h : Admissible db.entries) (disk : Disk) :
    Admissible (dbReload disk db).2.entries := by
  rw [dbReload]
  by_cases hdirs : (!disk.dirs)=true
  · rw [if_pos hdirs]
    exact h
  · rw [if_neg hdirs]
    generalize (if disk.reads=true then db.index else none)=content
    cases content with
    | none =>
      rw [dbSave_entries]
      exact admissible_nil
    | some content =>
      exact loadLines_keep (P := Admissible) (fun _ line h => dbLoadLine_admissible h line) _
        admissible_nil

theorem replaceSame_admissible {entry : DbEntry} (hids : entry.vendorId≠0 ∧ entry.productCode≠0)
    {entries replaced : List DbEntry} (h : replaceSame entry entries=some replaced) :
    replaced.length=entries.length ∧
      ∀ other ∈ replaced,other∈entries ∨ (other.vendorId≠0 ∧ other.productCode≠0) := by
  induction entries generalizing replaced with
  | nil => cases h
  | cons current rest ih =>
    rw [replaceSame] at h
    by_cases hsame : current.same entry=true
    · rw [if_pos hsame] at h
      rw [← Option.some.inj h]
      refine ⟨rfl,fun other hother => ?_⟩
      rcases List.mem_cons.mp hother with rfl|hrest
      · exact .inr hids
      · exact .inl (List.mem_cons_of_mem _ hrest)
    · rw [if_neg hsame] at h
      obtain ⟨tail,htail,rfl⟩ := Option.map_eq_some_iff.mp h
      obtain ⟨hlength,hmem⟩ := ih htail
      refine ⟨by rw [List.length_cons,List.length_cons,hlength],fun other hother => ?_⟩
      rcases List.mem_cons.mp hother with rfl|hrest
      · exact .inl List.mem_cons_self
      · exact (hmem other hrest).imp_left (List.mem_cons_of_mem _)

theorem dbUpsert_admissible {entries : List DbEntry} (h : Admissible entries) (entry : DbEntry) :
    Admissible (dbUpsert entry entries).2 := by
  rw [dbUpsert]
  by_cases hzero : entry.vendorId=0 ∨ entry.productCode=0
  · rw [if_pos hzero]
    exact h
  · have hids := not_or.mp hzero
    rw [if_neg hzero]
    cases hreplaced : replaceSame entry entries with
    | some replaced =>
      obtain ⟨hlength,hmem⟩ := replaceSame_admissible hids hreplaced
      refine ⟨fun other hother => ?_,by rw [hlength]; exact h.room⟩
      rcases hmem other hother with hold|hnew
      · exact h.ids other hold
      · exact hnew
    | none =>
      by_cases hfull : entries.length≥ecatMaxDbEntries
      · simp only [if_pos hfull]
        exact h
      · simp only [if_neg hfull]
        exact h.concat hids (not_le.mp hfull)

theorem upsertSections_admissible (xml storedPath now : List UInt8)
    (sections : List (List UInt8)) (imported : ℕ) {entries : List DbEntry}
    (h : Admissible entries) :
    Admissible (upsertSections xml storedPath now sections imported entries).2 := by
  induction sections generalizing imported entries with
  | nil => exact h
  | cons section_ sections ih =>
    rw [upsertSections]
    by_cases hroom : imported<ecatMaxDbEntries
    · rw [if_pos hroom]
      cases parseXmlDeviceFrom xml (some section_) with
      | none => exact ih _ h
      | some entry =>
        have hupsert := dbUpsert_admissible h (entry.stored storedPath now)
        by_cases hfailed : (dbUpsert (entry.stored storedPath now) entries).1≠ecatOk
        · simp only [if_pos hfailed]
          exact hupsert
        · simp only [if_neg hfailed]
          exact ih _ hupsert
    · rw [if_neg hroom]
      exact h

theorem dbUpsertXmlEntries_admissible (xml storedPath now : List UInt8) {entries : List DbEntry}
    (h : Admissible entries) : Admissible (dbUpsertXmlEntries xml storedPath now entries).2 := by
  unfold dbUpsertXmlEntries
  split
  · split
    · exact h
    · exact dbUpsert_admissible h _
  · exact upsertSections_admissible _ _ _ _ _ h

theorem dbImportText_admissible (call : XmlImport) (xml : List UInt8) (first : DbEntry)
    {db : Database} (h : Admissible db.entries) :
    Admissible (dbImportText call xml first db).2.entries := by
  have hload := dbReload_admissible h call.disk
  have hupsert := dbUpsertXmlEntries_admissible xml
    (buildXmlStorePath db.root first call.xmlPath) (currentTimeText call.now) hload
  unfold dbImportText
  dsimp only
  split_ifs with hdisk hloaded hupserted
  · exact h
  · exact hload
  · exact hupsert
  · rw [dbSave_entries]
    exact hupsert

theorem dbImportXml_admissible (call : XmlImport) {db : Database} (h : Admissible db.entries) :
    Admissible (dbImportXml call db).2.entries := by
  rw [dbImportXml]
  by_cases hpath : call.xmlPath=[]
  · rw [if_pos hpath]
    exact h
  · rw [if_neg hpath]
    cases readFileText call.file with
    | none => exact h
    | some xml =>
      dsimp only
      cases parseXmlDevice xml with
      | none => exact h
      | some first => exact dbImportText_admissible call xml first h

theorem importedDatabase_admissible (root : List UInt8) (calls : List XmlImport) :
    Admissible (importedDatabase root calls).entries :=
  invariant_runFrom (I := fun db : Database => Admissible db.entries)
    (fun _ call h _ => dbImportXml_admissible call h) admissible_nil along_true

/-- The entries after the database has been saved and loaded again. -/
def reloadedEntries (db : Database) : List DbEntry :=
  (dbReload workingDisk (dbSave workingDisk db).2).2.entries

theorem reloadedEntries_eq (root : List UInt8) (calls : List XmlImport) :
    reloadedEntries (importedDatabase root calls)=
      (importedDatabase root calls).entries.map restored := by
  rw [reloadedEntries,dbReload_saved (importedDatabase_admissible root calls)]

/-- A database that has come about by imports is restored from its index if and only if the index
keeps every entry. -/
theorem database_restored (root : List UInt8) (calls : List XmlImport) :
    reloadedEntries (importedDatabase root calls)=(importedDatabase root calls).entries ↔
      ∀ entry ∈ (importedDatabase root calls).entries,Storable entry := by
  rw [reloadedEntries_eq]
  constructor
  · intro h entry hentry
    exact (restored_iff entry).mp
      (List.map_inj_left.mp (h.trans (List.map_id _).symm) entry hentry)
  · intro h
    refine (List.map_congr_left ?_).trans (List.map_id _)
    intro entry hentry
    exact (restored_iff entry).mpr (h entry hentry)

end Reachable

def importOf (xmlPath file : String) : XmlImport :=
  ⟨ascii xmlPath,some (ascii file),some ⟨2024,5,17,8,30,0⟩,workingDisk⟩

/-- A file whose name has a comma. -/
def commaImport : XmlImport :=
  importOf "C:\\in\\drive,rev1.xml"
    "<Slave VendorId=\"1\" ProductCode=\"2\"><Name>Drive</Name></Slave>"

/-- A device whose name is nothing but blanks. -/
def blankImport : XmlImport :=
  importOf "C:\\in\\drive.xml"
    "<Slave VendorId=\"1\" ProductCode=\"2\"><Name><![CDATA[ ]]></Name></Slave>"

/-- The path is read back with a blank for the comma; where the name is missing, the type is read for
it and the other fields move up as well. -/
theorem imports_lost :
    reloadedEntries (importedDatabase (ascii "C:\\db") [commaImport])≠
      (importedDatabase (ascii "C:\\db") [commaImport]).entries ∧
    (reloadedEntries (importedDatabase (ascii "C:\\db") [commaImport])).map (·.xmlPath.text)=
      [ascii "C:\\db\\xml\\00000001_00000002_00000000_drive rev1.xml"] ∧
    reloadedEntries (importedDatabase (ascii "C:\\db") [blankImport])≠
      (importedDatabase (ascii "C:\\db") [blankImport]).entries ∧
    (reloadedEntries (importedDatabase (ascii "C:\\db") [blankImport])).map
      (fun entry => (entry.name.text,entry.importedAt.text))=[(ascii "XML",[])] := by
  rw [reloadedEntries_eq,reloadedEntries_eq]
  exact ⟨by decide +kernel,by decide +kernel,by decide +kernel,by decide +kernel⟩

end EtherCATMaster.Dll
