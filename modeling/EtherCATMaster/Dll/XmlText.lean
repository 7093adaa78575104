import EtherCATMaster.Framework.Fields
import Mathlib.Data.List.DropRight

/- A C string is the list of its bytes before the NUL. A pointer into it is the rest of the string
from there on. -/

namespace EtherCATMaster.Dll

open Framework

def ascii (text : String) : List UInt8 := text.toList.map fun c => UInt8.ofNat c.toNat

/-- `isspace` in the C locale. -/
def isspace (c : UInt8) : Bool := c=32 || (9 ≤ c && c ≤ 13)

def tolower (c : UInt8) : UInt8 := if 65 ≤ c ∧ c ≤ 90 then c+32 else c

/-- What `snprintf` leaves in an array of so many bytes. -/
def snprintf (size : Nat) (text : List UInt8) : List UInt8 := text.take (size-1)

def beginsI : List UInt8 → List UInt8 → Bool
  | [],_ => true
  | _::_,[] => false
  | b::needle,a::text => tolower a=tolower b && beginsI needle text

def findTextI (needle : List UInt8) : List UInt8 → Option (List UInt8)
  | [] => if needle=[] then some [] else none
  | c::rest => if beginsI needle (c::rest) then some (c::rest) else findTextI needle rest

def strstr (needle : List UInt8) : List UInt8 → Option (List UInt8)
  | [] => if needle=[] then some [] else none
  | c::rest => if needle.isPrefixOf (c::rest) then some (c::rest) else strstr needle rest

def strchr (c : UInt8) (text : List UInt8) : Option (List UInt8) :=
  match text.dropWhile (· ≠ c) with
  | [] => none
  | found => some found

def upTo (text rest : List UInt8) : List UInt8 := text.take (text.length-rest.length)

def trimInPlace (text : List UInt8) : List UInt8 := trim isspace text

def separates (c : UInt8) : Bool := c=44 || c=13 || c=10

def sanitizeCsvText (text : List UInt8) : List UInt8 :=
  trimInPlace (text.map fun c => if separates c then 32 else c)

def sanitizeFileText (text : List UInt8) : List UInt8 :=
  text.map fun c => if c∈ascii "<>:\"/\\|?*" ∨ c<32 then 95 else c

def pathJoin (size : Nat) (left right : List UInt8) : List UInt8 :=
  if left=[] then snprintf size right
  else if right=[] then snprintf size left
  else if left.getLast?=some 92 ∨ left.getLast?=some 47 then snprintf size (left++right)
  else snprintf size (left++92::right)

def pathBasename (path : List UInt8) : List UInt8 := path.rtakeWhile fun c => c≠47 && c≠92

section Numbers

def digitValue (c : UInt8) : Option Nat :=
  if 48 ≤ c ∧ c ≤ 57 then some (c.toNat-48)
  else if 97 ≤ tolower c ∧ tolower c ≤ 122 then some ((tolower c).toNat-87)
  else none

def leadingDigits (base : Nat) : List UInt8 → List Nat
  | [] => []
  | c::rest =>
      match digitValue c with
      | some d => if d<base then d::leadingDigits base rest else []
      | none => []

def ulongMax : Nat := 4294967295

/-- The text begins with `0x`. -/
def hexPrefixed (text : List UInt8) : Bool := beginsI (ascii "0x") text

/-- `strtoul` for an `unsigned long` of 32 bits. -/
def strtoul (base : Nat) (text : List UInt8) : Nat :=
  let start := text.dropWhile isspace
  let negative := start.head?=some 45
  let digits := if start.head?=some 45 ∨ start.head?=some 43 then start.drop 1 else start
  let digits :=
    if base=16 ∧ hexPrefixed digits ∧ leadingDigits 16 (digits.drop 2)≠[] then digits.drop 2
    else digits
  let value := valueOf base (leadingDigits base digits)
  if value>ulongMax then ulongMax
  else if negative then (ulongMax+1-value)%(ulongMax+1)
  else value

def parseEcatNumber (text : List UInt8) : UInt32 :=
  let start := text.dropWhile isspace
  if beginsI (ascii "#x") start ∨ hexPrefixed start then UInt32.ofNat (strtoul 16 (start.drop 2))
  else UInt32.ofNat (strtoul 10 start)

def hexDigit (d : Nat) : UInt8 := UInt8.ofNat (if d<10 then 48+d else 55+d)

/-- `%08X` -/
def hex8 (n : UInt32) : List UInt8 := (digitsOf 16 8 n.toNat).map hexDigit

end Numbers

section Xml

def found (text : List UInt8) : Option (List UInt8) := if text=[] then none else some text

def assigned (text : List UInt8) : Option (List UInt8) :=
  match text.dropWhile isspace with
  | 61::rest => some (rest.dropWhile isspace)
  | _ => none

/-- A value up to its closing quote, or up to the next blank or the end of the tag. -/
def attrText : List UInt8 → List UInt8
  | 34::rest => rest.takeWhile (· ≠ 34)
  | 39::rest => rest.takeWhile (· ≠ 39)
  | text => text.takeWhile fun c => !isspace c && c≠62

/-- The search goes on behind a name to which nothing is assigned. -/
def copyAttrFrom (attr : List UInt8) (size : Nat) : Nat → List UInt8 → Option (List UInt8)
  | _,[] => none
  | skip+1,_::rest => copyAttrFrom attr size skip rest
  | 0,c::rest =>
      if beginsI attr (c::rest) then
        match assigned ((c::rest).drop attr.length) with
        | none => copyAttrFrom attr size (attr.length-1) rest
        | some text => found (trimInPlace ((attrText text).take (size-1)))
      else copyAttrFrom attr size 0 rest

def copyAttrValue (xml attr : List UInt8) (size : Nat) : Option (List UInt8) :=
  copyAttrFrom attr size 0 xml

def copyTagTextFrom (xml tag : List UInt8) (size : Nat) : Option (List UInt8) := do
  let start ← findTextI (ascii "<"++tag) xml
  let start ← strchr 62 start
  let rest ← findTextI (ascii "</"++tag++ascii ">") (start.drop 1)
  found (trimInPlace ((upTo (start.drop 1) rest).take (size-1)))

def tagEnds : List UInt8 → Bool
  | [] => true
  | c::_ => c=62 || c=47 || isspace c

def findElementFrom (openTag : List UInt8) : Nat → List UInt8 → Option (List UInt8)
  | _,[] => none
  | skip+1,_::rest => findElementFrom openTag skip rest
  | 0,c::rest =>
      if beginsI openTag (c::rest) then
        if tagEnds ((c::rest).drop openTag.length) then some (c::rest)
        else findElementFrom openTag (openTag.length-1) rest
      else findElementFrom openTag 0 rest

def findXmlElement (xml tag : List UInt8) : Option (List UInt8) :=
  findElementFrom (ascii "<"++tag) 0 xml

/-- All elements of a tag: the search goes on with the character after the last one found. -/
def elementsFrom (openTag : List UInt8) : Nat → List UInt8 → List (List UInt8)
  | _,[] => []
  | skip+1,_::rest => elementsFrom openTag skip rest
  | 0,c::rest =>
      if beginsI openTag (c::rest) then
        if tagEnds ((c::rest).drop openTag.length) then (c::rest)::elementsFrom openTag 0 rest
        else elementsFrom openTag (openTag.length-1) rest
      else elementsFrom openTag 0 rest

def xmlElements (xml tag : List UInt8) : List (List UInt8) := elementsFrom (ascii "<"++tag) 0 xml

theorem elementsFrom_eq (openTag : List UInt8) (skip : Nat) (xml : List UInt8) :
    elementsFrom openTag skip xml=
      match findElementFrom openTag skip xml with
      | none => []
      | some section_ => section_::elementsFrom openTag 0 (section_.drop 1) := by
  induction xml generalizing skip with
  | nil => cases skip <;> rfl
  | cons c rest ih =>
    cases skip with
    | succ skip => exact ih skip
    | zero =>
      rw [elementsFrom,findElementFrom]
      by_cases hopen : beginsI openTag (c::rest)=true
      · rw [if_pos hopen,if_pos hopen]
        by_cases hends : tagEnds ((c::rest).drop openTag.length)=true
        · rw [if_pos hends,if_pos hends]
          rfl
        · rw [if_neg hends,if_neg hends]
          exact ih _
      · rw [if_neg hopen,if_neg hopen]
        exact ih 0

theorem xmlElements_eq (xml tag : List UInt8) :
    xmlElements xml tag=
      match findXmlElement xml tag with
      | none => []
      | some section_ => section_::xmlElements (section_.drop 1) tag :=
  elementsFrom_eq _ 0 xml

def copyVendorId (xml : List UInt8) (size : Nat) : Option (List UInt8) :=
  (copyAttrValue xml (ascii "VendorId") size).orElse fun _ =>
  (copyAttrValue xml (ascii "VendorID") size).orElse fun _ =>
    match findXmlElement xml (ascii "Vendor") with
    | none =>
        (copyTagTextFrom xml (ascii "VendorId") size).orElse fun _ =>
        (copyTagTextFrom xml (ascii "VendorID") size).orElse fun _ =>
          copyTagTextFrom xml (ascii "Id") size
    | some vendor =>
        let vendorEnd := findTextI (ascii "</Vendor>") vendor
        match findTextI (ascii "<Id") vendor with
        | some idStart =>
            -- a pointer is behind another one if less of the text is left from it on
            if vendorEnd.any fun e => idStart.length<e.length then
              (copyTagTextFrom xml (ascii "VendorId") size).orElse fun _ =>
                copyTagTextFrom xml (ascii "VendorID") size
            else copyTagTextFrom idStart (ascii "Id") size
        | none =>
            (copyTagTextFrom xml (ascii "VendorId") size).orElse fun _ =>
              copyTagTextFrom xml (ascii "VendorID") size

def cdataOpen : List UInt8 := ascii "<![CDATA["

def stripCdata (text : List UInt8) : List UInt8 :=
  let text := trimInPlace text
  if cdataOpen.isPrefixOf text then
    let inner := text.drop cdataOpen.length
    trimInPlace (match strstr (ascii "]]>") inner with
      | some rest => upTo inner rest
      | none => inner)
  else text

end Xml

end EtherCATMaster.Dll
