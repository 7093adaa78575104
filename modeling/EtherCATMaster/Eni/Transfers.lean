import EtherCATMaster.Eni.InitCmds

namespace EtherCATMaster.Eni

/-- An SDO transfer that a document asks for, with its timeout in microseconds. -/
inductive Transfer where
  | download (index : UInt16) (subIndex : UInt8) (ca : Bool) (data : List UInt8) (timeout : Int)
  | upload (index : UInt16) (subIndex : UInt8) (ca : Bool) (size : Nat) (timeout : Int)
  deriving DecidableEq

/-- A transfer whose size and timeout an `int` of C can hold. -/
def Transfer.Fits : Transfer → Prop
  | download _ _ _ data timeout => data.length<2^31 ∧ -2^31 ≤ timeout ∧ timeout<2^31
  | upload _ _ _ size timeout => size<2^31 ∧ -2^31 ≤ timeout ∧ timeout<2^31

section Runs

variable {σ : Type}

def SdoPort.transfer (port : SdoPort σ) (slave : UInt16) (s : σ) : Transfer → Int × σ
  | .download index subIndex ca data timeout =>
    port.sdoWrite ⟨slave,index,subIndex,ca,data.length,data,timeout⟩ s
  | .upload index subIndex ca size timeout =>
    let (wkc,_,s) := port.sdoRead ⟨slave,index,subIndex,ca,size,timeout⟩ s
    (wkc,s)

def runTransfers (port : SdoPort σ) (slave : UInt16) : List Transfer → σ → Int × σ
  | [],s => (1,s)
  | t::ts,s =>
    if (port.transfer slave s t).1<1 then (0,(port.transfer slave s t).2)
    else runTransfers port slave ts (port.transfer slave s t).2

end Runs

section Documents

/-- The elements of the slaves of a document, in document order. -/
def slavesOf (root : Element) : Option (List Element) := do
  let config ← getElement root
    (if root.tag="EtherCATConfig" then ["Config"] else ["EtherCATConfig","Config"])
  pure (getElements config ["Slave"])

def initCmdsOf (slave : Element) : List Element :=
  getElements slave ["Mailbox","CoE","InitCmds","InitCmd"]

def Enabled (cmd : Element) : Prop := getOptText cmd ["Disabled"]≠some (some "1")

instance (cmd : Element) : Decidable (Enabled cmd) := inferInstanceAs (Decidable (_≠_))

def Lists (name : String) (cmd : Element) : Prop :=
  some name ∈ (getElements cmd ["Transition"]).map Element.text

instance (name : String) (cmd : Element) : Decidable (Lists name cmd) :=
  inferInstanceAs (Decidable (_ ∈ _))

variable (int0 : String → Option Int) (fromhex : String → Option (List UInt8))

def slaveNumber (position : Nat) (slave : Element) : Option UInt16 := do
  let autoIncAddr ← getOptInt int0 slave ["Info","AutoIncAddr"] (-position)
  pure (UInt16.ofInt (1-autoIncAddr))

/-- The transfer of a command, if its `Ccs` is that of a download or of an upload. A timeout is in
milliseconds. -/
def transferOf (cmd : Element) : Option (Option Transfer) := do
  let ccs ← getInt int0 cmd ["Ccs"]
  let index ← getInt int0 cmd ["Index"]
  let subIndex ← getInt int0 cmd ["SubIndex"]
  let timeout ← getInt int0 cmd ["Timeout"]
  let text ← getOptText cmd ["Data"]
  let data ← fromhex (← text)
  let ca := decide (cmd.get "CompleteAccess" "0"="1")
  if UInt8.ofInt ccs=2 then
    pure (some (.download (UInt16.ofInt index) (UInt8.ofInt subIndex) ca data (1000*timeout)))
  else if UInt8.ofInt ccs=1 then
    pure (some (.upload (UInt16.ofInt index) (UInt8.ofInt subIndex) ca data.length (1000*timeout)))
  else pure none

/-- The transfers of a slave for a transition, in document order. -/
def transfersOf (name : String) : List Element → Option (List Transfer)
  | [] => some []
  | cmd::cmds =>
    if Enabled cmd ∧ Lists name cmd then do
      let transfer ← transferOf int0 fromhex cmd
      let transfers ← transfersOf name cmds
      pure (transfer.toList++transfers)
    else transfersOf name cmds

/-- A slave of the ring is the one of the document, and has a CoE mailbox. -/
structure Matches (slave : Element) (ident : SlaveIdent) : Prop where
  vendorId : (getInt int0 slave ["Info","VendorId"]).map UInt32.ofInt=some ident.eepMan
  productCode : (getInt int0 slave ["Info","ProductCode"]).map UInt32.ofInt=some ident.eepId
  revisionNo : (getInt int0 slave ["Info","RevisionNo"]).map UInt32.ofInt=some ident.eepRev
  coe : ident.mbxProto &&& ectMbxprotCoe≠0

/-- No two slaves of the document have one number. -/
def DistinctNumbers (slaves : List Element) : Prop :=
  ∀ j k e e' number,slaves[j]?=some e → slaves[k]?=some e' → slaveNumber int0 j e=some number →
    slaveNumber int0 k e'=some number → j=k

/-- The tables lead to the transfers of the slaves, from whatever earlier calls have left of them,
and to none for a number without commands. -/
structure Preserved (slaves : List Element) (eni : List EniSlave) : Prop where
  transfers : ∀ {σ : Type} (port : SdoPort σ) (slavelist : UInt16 → SlaveIdent) (s : σ) coeData
    k slave number name bit,Reached eni coeData → slaves[k]?=some slave →
    slaveNumber int0 k slave=some number → Matches int0 slave (slavelist number) →
    (name,bit) ∈ ectEsmtrans → ∃ ts,transfersOf int0 fromhex name (initCmdsOf slave)=some ts ∧
      (mbxEniInitcmds port slavelist eni number bit coeData s).1=
          (runTransfers port number ts s).1 ∧
        (mbxEniInitcmds port slavelist eni number bit coeData s).2.2=
          (runTransfers port number ts s).2
  absent : ∀ {σ : Type} (port : SdoPort σ) (slavelist : UInt16 → SlaveIdent) (s : σ) coeData
    number transition,Reached eni coeData →
    (∀ k slave,slaves[k]?=some slave → slaveNumber int0 k slave=some number →
      ∀ cmd ∈ initCmdsOf slave,¬Enabled cmd) →
    mbxEniInitcmds port slavelist eni number transition coeData s=(1,coeData,s)

end Documents

end EtherCATMaster.Eni
