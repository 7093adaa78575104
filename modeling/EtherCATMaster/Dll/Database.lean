import EtherCATMaster.Dll.Transfers
import EtherCATMaster.Dll.XmlText
import EtherCATMaster.Framework.Run

namespace EtherCATMaster.Dll

open Framework

def ecatMaxMessage : Nat := 256
def ecatMaxDbEntries : Nat := 512

/-- A string in an array of so many bytes. -/
structure CharArray (size : Nat) where
  text : List UInt8
  fits : text.length < size
  deriving DecidableEq

namespace CharArray

/-- `safe_copy`: what does not fit is cut off. -/
def safeCopy (size : Nat) [NeZero size] (text : List UInt8) : CharArray size where
  text := snprintf size text
  fits := by
    have hpos := Nat.pos_of_ne_zero (NeZero.ne size)
    rw [snprintf,List.length_take]
    omega

end CharArray

/-- `ECAT_DbEntry` -/
structure DbEntry where
  vendorId : UInt32
  productCode : UInt32
  revision : UInt32
  name : CharArray 256
  xmlPath : CharArray 260
  xmlType : CharArray 32
  importedAt : CharArray 32
  deriving DecidableEq

def blankEntry : DbEntry := ⟨0,0,0,.safeCopy 256 [],.safeCopy 260 [],.safeCopy 32 [],.safeCopy 32 []⟩

/-- An entry whose texts are the given ones, as far as they go. -/
def withTexts (entry : DbEntry) (texts : List (List UInt8)) : DbEntry :=
  { blankEntry with
    vendorId := entry.vendorId
    productCode := entry.productCode
    revision := entry.revision
    name := .safeCopy 256 (texts.getD 0 [])
    xmlType := .safeCopy 32 (texts.getD 1 [])
    xmlPath := .safeCopy 260 (texts.getD 2 [])
    importedAt := .safeCopy 32 (texts.getD 3 []) }

section Parsing

def parseXmlType (xml : List UInt8) : List UInt8 :=
  if (findTextI (ascii "<EtherCATInfo") xml).isSome then ascii "ESI"
  else if (findTextI (ascii "<EtherCATConfig") xml).isSome ∨ (findTextI (ascii "<Config") xml).isSome
    then ascii "ENI"
  else ascii "XML"

def parsedNumber (value : Option (List UInt8)) : UInt32 :=
  match value with
  | some text => parseEcatNumber text
  | none => 0

def xmlName (scan : List UInt8) (vendorId productCode : UInt32) : List UInt8 :=
  match (copyTagTextFrom scan (ascii "Name") 256).orElse fun _ =>
      copyTagTextFrom scan (ascii "Type") 256 with
  | some text => text
  | none => snprintf 256
      (ascii "Vendor 0x"++hex8 vendorId++ascii " Product 0x"++hex8 productCode)

/-- `parse_xml_device_from`; there is an entry if it returns `ECAT_OK`. -/
def parseXmlDeviceFrom (xml : List UInt8) (section_ : Option (List UInt8)) : Option DbEntry :=
  let scan := section_.getD xml
  let vendorId := parsedNumber ((copyVendorId scan ecatMaxMessage).orElse fun _ =>
    copyVendorId xml ecatMaxMessage)
  let productCode := parsedNumber ((copyAttrValue scan (ascii "ProductCode") ecatMaxMessage).orElse
    fun _ => copyTagTextFrom scan (ascii "ProductCode") ecatMaxMessage)
  let revision := parsedNumber ((copyAttrValue scan (ascii "RevisionNo") ecatMaxMessage).orElse
    fun _ => (copyAttrValue scan (ascii "Revision") ecatMaxMessage).orElse
    fun _ => copyTagTextFrom scan (ascii "RevisionNo") ecatMaxMessage)
  let name := sanitizeCsvText (stripCdata (xmlName scan vendorId productCode))
  if vendorId=0 ∨ productCode=0 then none
  else some { blankEntry with
    vendorId := vendorId
    productCode := productCode
    revision := revision
    name := .safeCopy 256 name
    xmlType := .safeCopy 32 (parseXmlType xml) }

/-- The tag whose elements are devices: `Device` where there is no `Slave`. -/
def deviceTag (xml : List UInt8) : List UInt8 :=
  if (findXmlElement xml (ascii "Slave")).isSome then ascii "Slave" else ascii "Device"

def parseXmlDevice (xml : List UInt8) : Option DbEntry :=
  parseXmlDeviceFrom xml (findXmlElement xml (deviceTag xml))

end Parsing

section Paths

def dbXmlDir (root : List UInt8) : List UInt8 := pathJoin 260 root (ascii "xml")

def buildXmlStorePath (root : List UInt8) (entry : DbEntry) (sourcePath : List UInt8) :
    List UInt8 :=
  let sourceName := sanitizeFileText (snprintf 96 (pathBasename sourcePath))
  let storeName := sanitizeFileText (snprintf 160
    (hex8 entry.vendorId++ascii "_"++hex8 entry.productCode++ascii "_"++hex8 entry.revision++
      ascii "_"++(if sourceName≠[] then sourceName else ascii "device.xml")))
  pathJoin 260 (dbXmlDir root) storeName

end Paths

section Store

/-- `G_core.db_entries` up to the count, the root, and the index file below it. -/
structure Database where
  root : List UInt8
  index : Option (List UInt8)
  entries : List DbEntry

/-- What of the file system works during a call: the directories are there or can be made, the index
opens to be read and to be written, and the XML is at its place or can be copied there. -/
structure Disk where
  dirs : Bool
  reads : Bool
  writes : Bool
  copies : Bool

def workingDisk : Disk := ⟨true,true,true,true⟩

def indexHeader : List UInt8 :=
  ascii "vendor_id,product_code,revision,name,xml_type,xml_path,imported_at"

def entryFields (entry : DbEntry) : List (List UInt8) :=
  [ascii "0x"++hex8 entry.vendorId,ascii "0x"++hex8 entry.productCode,
    ascii "0x"++hex8 entry.revision,sanitizeCsvText entry.name.text,
    sanitizeCsvText entry.xmlType.text,sanitizeCsvText entry.xmlPath.text,
    sanitizeCsvText entry.importedAt.text]

def entryLine (entry : DbEntry) : List UInt8 := [44].intercalate (entryFields entry)

def indexText (entries : List DbEntry) : List UInt8 :=
  ((indexHeader::entries.map entryLine).map fun line => line++[10]).flatten

def dbSave (disk : Disk) (db : Database) : Int × Database :=
  if !disk.dirs then (ecatError,db)
  else if !disk.writes then (ecatError,db)
  else (ecatOk,{ db with index := some (indexText db.entries) })

/-- The switch over the fields of a line. -/
def setField (entry : DbEntry) (field : Nat) (token : List UInt8) : DbEntry :=
  match field with
  | 0 => { entry with vendorId := parseEcatNumber token }
  | 1 => { entry with productCode := parseEcatNumber token }
  | 2 => { entry with revision := parseEcatNumber token }
  | 3 => { entry with name := .safeCopy 256 token }
  | 4 => { entry with xmlType := .safeCopy 32 token }
  | 5 => { entry with xmlPath := .safeCopy 260 token }
  | 6 => { entry with importedAt := .safeCopy 32 token }
  | _ => entry

def setFields : DbEntry → Nat → List (List UInt8) → DbEntry
  | entry,_,[] => entry
  | entry,field,token::rest => setFields (setField entry field (trimInPlace token)) (field+1) rest

def dbLoadLine (entries : List DbEntry) (line : List UInt8) : List DbEntry :=
  if line=[] ∨ line.head?=some 35 then entries
  else if findTextI (ascii "vendor_id") line=some line then entries
  else
    let entry := setFields blankEntry 0 (tokens 44 line)
    if entry.vendorId=0 ∨ entry.productCode=0 ∨ entries.length≥ecatMaxDbEntries then entries
    else entries++[entry]

/-- `char line[1024]` -/
def lineSize : Nat := 1024

/-- Without an index the empty database is saved. The root is not empty. -/
def dbReload (disk : Disk) (db : Database) : Int × Database :=
  if !disk.dirs then (ecatError,db)
  else
    match if disk.reads then db.index else none with
    | none => dbSave disk { db with entries := [] }
    | some content =>
        (ecatOk,{ db with
          entries := (linesFrom 10 (lineSize-1) [] content).foldl
            (fun entries line => dbLoadLine entries (trimInPlace line)) [] })

def DbEntry.same (entry other : DbEntry) : Bool :=
  entry.vendorId=other.vendorId && entry.productCode=other.productCode &&
    entry.revision=other.revision

def replaceSame (entry : DbEntry) : List DbEntry → Option (List DbEntry)
  | [] => none
  | current::rest =>
      if current.same entry then some (entry::rest)
      else (replaceSame entry rest).map (current::·)

def dbUpsert (entry : DbEntry) (entries : List DbEntry) : Int × List DbEntry :=
  if entry.vendorId=0 ∨ entry.productCode=0 then (ecatInvalidArgument,entries)
  else
    match replaceSame entry entries with
    | some replaced => (ecatOk,replaced)
    | none =>
        if entries.length≥ecatMaxDbEntries then (ecatError,entries) else (ecatOk,entries++[entry])

def DbEntry.stored (entry : DbEntry) (storedPath now : List UInt8) : DbEntry :=
  { entry with xmlPath := .safeCopy 260 storedPath, importedAt := .safeCopy 32 now }

/-- The loop over the devices of an XML; a full database ends it. -/
def upsertSections (xml storedPath now : List UInt8) :
    List (List UInt8) → Nat → List DbEntry → Int × List DbEntry
  | [],imported,entries => (if imported>0 then ecatOk else ecatError,entries)
  | section_::rest,imported,entries =>
      if imported<ecatMaxDbEntries then
        match parseXmlDeviceFrom xml (some section_) with
        | none => upsertSections xml storedPath now rest imported entries
        | some entry =>
            let result := dbUpsert (entry.stored storedPath now) entries
            if result.1≠ecatOk then result
            else upsertSections xml storedPath now rest (imported+1) result.2
      else (if imported>0 then ecatOk else ecatError,entries)

def dbUpsertXmlEntries (xml storedPath now : List UInt8) (entries : List DbEntry) :
    Int × List DbEntry :=
  match xmlElements xml (deviceTag xml) with
  | [] =>
      match parseXmlDevice xml with
      | none => (ecatError,entries)
      | some entry => dbUpsert (entry.stored storedPath now) entries
  | sections => upsertSections xml storedPath now sections 0 entries

/-- The fields of a local time that the database writes. -/
structure LocalTime where
  year : Nat
  month : Nat
  day : Nat
  hour : Nat
  minute : Nat
  second : Nat

def decimal (width n : Nat) : List UInt8 := (digitsOf 10 width n).map hexDigit

def currentTimeText : Option LocalTime → List UInt8
  | none => []
  | some t =>
      decimal 4 t.year++ascii "-"++decimal 2 t.month++ascii "-"++decimal 2 t.day++ascii " "++
        decimal 2 t.hour++ascii ":"++decimal 2 t.minute++ascii ":"++decimal 2 t.second

/-- One call of `ECAT_DbImportXml`: its argument, the file there, the time and the disk. -/
structure XmlImport where
  xmlPath : List UInt8
  file : Option (List UInt8)
  now : Option LocalTime
  disk : Disk

def readFileText (file : Option (List UInt8)) : Option (List UInt8) :=
  match file with
  | none => none
  | some data =>
      if data.length=0 ∨ data.length>16*1024*1024 then none else some (data.takeWhile (· ≠ 0))

/-- The steps of an import behind the parsing of the first device. -/
def dbImportText (call : XmlImport) (xml : List UInt8) (first : DbEntry) (db : Database) :
    Int × Database :=
  if !call.disk.dirs ∨ !call.disk.copies then (ecatError,db)
  else
    let loaded := dbReload call.disk db
    if loaded.1≠ecatOk then loaded
    else
      let upserted := dbUpsertXmlEntries xml
        (buildXmlStorePath db.root first call.xmlPath) (currentTimeText call.now) loaded.2.entries
      if upserted.1≠ecatOk then (upserted.1,{ loaded.2 with entries := upserted.2 })
      else dbSave call.disk { loaded.2 with entries := upserted.2 }

def dbImportXml (call : XmlImport) (db : Database) : Int × Database :=
  if call.xmlPath=[] then (ecatInvalidArgument,db)
  else
    match readFileText call.file with
    | none => (ecatError,db)
    | some xml =>
        match parseXmlDevice xml with
        | none => (ecatError,db)
        | some first => dbImportText call xml first db

/-- A database without an index yet. -/
def emptyDatabase (root : List UInt8) : Database := ⟨root,none,[]⟩

/-- The database after a sequence of imports. -/
def importedDatabase (root : List UInt8) (calls : List XmlImport) : Database :=
  runFrom (fun db call => (dbImportXml call db).2) (emptyDatabase root) calls

end Store

end EtherCATMaster.Dll
