import Mathlib.Algebra.Group.Nat.Defs
import Mathlib.Algebra.Ring.Int.Defs
import Mathlib.Data.List.Sort

namespace EtherCATMaster.Eni

/-- An element of an ENI document: its tag, attributes, text and children. -/
inductive Element where
  | mk (tag : String) (attributes : List (String × String)) (text : Option String)
    (children : List Element)

namespace Element

def tag : Element → String
  | mk tag _ _ _ => tag

def attributes : Element → List (String × String)
  | mk _ attributes _ _ => attributes

def text : Element → Option String
  | mk _ _ text _ => text

def children : Element → List Element
  | mk _ _ _ children => children

/-- `get` of an attribute with a default. -/
def get (element : Element) (name default : String) : String :=
  (element.attributes.lookup name).getD default

end Element

/-- `getElements`: the elements at a path, in document order. -/
def getElements (element : Element) : List String → List Element
  | [] => [element]
  | tag::path =>
    (element.children.filter fun e => decide (e.tag=tag)).flatMap fun e => getElements e path

/-- `getElement`. Here and below `none` is an exception: the conversion fails. -/
def getElement (element : Element) (path : List String) : Option Element :=
  match getElements element path with
  | [e] => some e
  | _ => none

/-- `getElements` with at most one result. -/
def getOptElement (element : Element) (path : List String) : Option (Option Element) :=
  match getElements element path with
  | [] => some none
  | [e] => some (some e)
  | _ => none

/-- `getOptText`. An element without text has `None`. -/
def getOptText (element : Element) (path : List String) : Option (Option String) := do
  match ← getOptElement element path with
  | none => pure (some "")
  | some e => pure e.text

/-- An initialisation command as the parser collects it. The masked numbers fit their fields. -/
structure InitCmd where
  comment : Option String
  transition : List (Option String)
  ca : Bool
  ccs : UInt8
  index : UInt16
  subIdx : UInt8
  timeout : Int
  data : List UInt8

structure SlaveConfig where
  slave : UInt16
  vendorId : UInt32
  productCode : UInt32
  revisionNo : UInt32
  coeCmds : List InitCmd

section Parsing

variable (int0 : String → Option Int) (fromhex : String → Option (List UInt8))

/-- `getInt`, where `int0` is `int` with base 0. -/
def getInt (element : Element) (path : List String) : Option Int := do
  let e ← getElement element path
  int0 (← e.text)

/-- `getOptInt` -/
def getOptInt (element : Element) (path : List String) (default : Int) : Option Int := do
  match ← getOptElement element path with
  | none => pure default
  | some e => int0 (← e.text)

/-- `parseCoEInitCmd`, where `fromhex` is that of a `bytearray`. -/
def parseCoEInitCmd (element : Element) : Option InitCmd := do
  let comment ← getOptText element ["Comment"]
  let ccs ← getInt int0 element ["Ccs"]
  let index ← getInt int0 element ["Index"]
  let subIdx ← getInt int0 element ["SubIndex"]
  let timeout ← getInt int0 element ["Timeout"]
  let text ← getOptText element ["Data"]
  let data ← fromhex (← text)
  pure {
    comment := comment
    transition := (getElements element ["Transition"]).map Element.text
    ca := decide (element.get "CompleteAccess" "0"="1")
    ccs := UInt8.ofInt ccs
    index := UInt16.ofInt index
    subIdx := UInt8.ofInt subIdx
    timeout := 1000*timeout
    data := data }

/-- `parseCoEInitCmds`: commands that are disabled are left out. -/
def parseCoEInitCmds : List Element → Option (List InitCmd)
  | [] => some []
  | e::elements => do
    let disabled ← getOptText e ["Disabled"]
    if disabled=some "1" then parseCoEInitCmds elements
    else do
      let cmd ← parseCoEInitCmd int0 fromhex e
      let cmds ← parseCoEInitCmds elements
      pure (cmd::cmds)

/-- `parseSlave`, for the slave at a position counted from 1. -/
def parseSlave (element : Element) (slave : Nat) : Option SlaveConfig := do
  let autoIncAddr ← getOptInt int0 element ["Info","AutoIncAddr"] (1-slave)
  let vendorId ← getInt int0 element ["Info","VendorId"]
  let productCode ← getInt int0 element ["Info","ProductCode"]
  let revisionNo ← getInt int0 element ["Info","RevisionNo"]
  let coeCmds ← parseCoEInitCmds int0 fromhex
    (getElements element ["Mailbox","CoE","InitCmds","InitCmd"])
  pure {
    slave := UInt16.ofInt (1-autoIncAddr)
    vendorId := UInt32.ofInt vendorId
    productCode := UInt32.ofInt productCode
    revisionNo := UInt32.ofInt revisionNo
    coeCmds := coeCmds }

/-- `parseSlaves`, from a position on. -/
def parseSlavesFrom : Nat → List Element → Option (List SlaveConfig)
  | _,[] => some []
  | s,e::elements => do
    let slave ← parseSlave int0 fromhex e (s+1)
    let slaves ← parseSlavesFrom (s+1) elements
    pure (slave::slaves)

/-- `parseConfig` -/
def parseConfig (element : Element) : Option (List SlaveConfig) :=
  parseSlavesFrom int0 fromhex 0 (getElements element ["Slave"])

/-- `parseENI` of the root of the document. -/
def parseENI (root : Element) : Option (List SlaveConfig) := do
  let config ← getElement root
    (if root.tag="EtherCATConfig" then ["Config"] else ["EtherCATConfig","Config"])
  parseConfig int0 fromhex config

end Parsing

/-- `ECT_ESMTRANS_*` by the names of the transitions. -/
def ectEsmtrans : List (String × UInt16) :=
  [("IP",0x0001),("PS",0x0002),("PI",0x0004),("SP",0x0008),("SO",0x0010),("SI",0x0020),
    ("OS",0x0040),("OP",0x0080),("OI",0x0100),("IB",0x0200),("BI",0x0400),("II",0x0800),
    ("PP",0x1000),("SS",0x2000)]

/-- `ec_enicoecmdt`. The data pointer is an offset into the data of the slave, or `NULL`. -/
structure EniCoeCmd where
  transition : UInt16
  ca : Bool
  ccs : UInt8
  index : UInt16
  subIdx : UInt8
  timeout : Int
  dataSize : Int
  data : Option Nat
  deriving DecidableEq

/-- `ec_enislavet`, with the array `coeData` of the slave that its pointers are into. -/
structure EniSlave where
  slave : UInt16
  vendorId : UInt32
  productCode : UInt32
  revisionNo : UInt32
  coeCmds : List EniCoeCmd
  coeData : List UInt8
  deriving DecidableEq

section Output

/-- What C makes of a constant for an `int` of 32 bits. One that needs more than 64 does not
compile. -/
def cInt (x : Int) : Option Int := if -2^63<x ∧ x<2^63 then some (x.bmod (2^32)) else none

/-- `genTransition`, with the value that C gives it. A text that is no name of a transition does not
compile, and no text at all is an exception. -/
def genTransition : List (Option String) → Option UInt16
  | [] => none
  | [t] => t.bind fun name => ectEsmtrans.lookup name
  | t::ts => do
    let value ← t.bind fun name => ectEsmtrans.lookup name
    let values ← genTransition ts
    pure (value ||| values)

/-- `genCoEData`: the size and the place of the data of each command. -/
def genCoEData : Nat → List InitCmd → List (Nat × Option Nat)
  | _,[] => []
  | size,c::cmds =>
    (if c.data.length>0 then (c.data.length,some size) else (0,none))::
      genCoEData (size+c.data.length) cmds

/-- An entry of the array of commands. -/
def genCoECmd (c : InitCmd) (dataSize : Nat) (data : Option Nat) : Option EniCoeCmd := do
  let transition ← genTransition c.transition
  let timeout ← cInt c.timeout
  let dataSize ← cInt dataSize
  pure {
    transition := transition
    ca := c.ca
    ccs := c.ccs
    index := c.index
    subIdx := c.subIdx
    timeout := timeout
    dataSize := dataSize
    data := data }

def genCoEEntries : List (InitCmd × Nat × Option Nat) → Option (List EniCoeCmd)
  | [] => some []
  | (c,dataSize,data)::rest => do
    let entry ← genCoECmd c dataSize data
    let entries ← genCoEEntries rest
    pure (entry::entries)

/-- `genCoECmds` and the entry of the slave. -/
def genSlave (s : SlaveConfig) : Option EniSlave := do
  let coeCmds ← genCoEEntries (s.coeCmds.zip (genCoEData 0 s.coeCmds))
  pure {
    slave := s.slave
    vendorId := s.vendorId
    productCode := s.productCode
    revisionNo := s.revisionNo
    coeCmds := coeCmds
    coeData := (s.coeCmds.map InitCmd.data).flatten }

/-- `genSlaves`: slaves without commands have no entry. -/
def genSlaves : List SlaveConfig → Option (List EniSlave)
  | [] => some []
  | s::slaves =>
    if s.coeCmds.length>0 then do
      let entry ← genSlave s
      let entries ← genSlaves slaves
      pure (entry::entries)
    else genSlaves slaves

/-- `genConfig`: the slaves are sorted by their numbers. -/
def genConfig (config : List SlaveConfig) : Option (List EniSlave) :=
  genSlaves (config.insertionSort fun a b => a.slave ≤ b.slave)

/-- `process`: the tables for the root of a document. -/
def process (int0 : String → Option Int) (fromhex : String → Option (List UInt8))
    (root : Element) : Option (List EniSlave) := do
  genConfig (← parseENI int0 fromhex root)

end Output

end EtherCATMaster.Eni
