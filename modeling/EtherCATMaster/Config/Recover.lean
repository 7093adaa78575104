import EtherCATMaster.Config.Station
import EtherCATMaster.Framework.Triples
import EtherCATMaster.Sii.Cache
import Mathlib.Logic.Relation

namespace EtherCATMaster.Config

open EtherCATMaster.Framework EtherCATMaster.Sii

def ecNodeoffset : UInt16 := 0x1000
def ecTempnode : UInt16 := 0xffff

def ectSiiManuf : UInt16 := 0x0008
def ectSiiId : UInt16 := 0x000a
def ectSiiRev : UInt16 := 0x000c

/-- What `slavelist` holds of a slave that has been configured. -/
structure ConfiguredSlave where
  configadr : UInt16
  aliasadr : UInt16
  eep8byte : Bool
  eepMan : UInt32
  eepId : UInt32
  eepRev : UInt32

variable {σ : Type}

/-- `ecx_APRD` of a word, with what the word is if nothing comes. -/
def ConfigPort.aprdWord (port : ConfigPort σ) (ADP ADO default : UInt16) :
    Program SiiHalt σ (Int × UInt16) := fun s =>
  let ((wkc,data),t) := port.aprd ADP ADO 2 s
  .ok ((wkc,if wkc>0 then get16 data 0 else default),t)

/-- `ecx_APWRw` -/
def ConfigPort.apwrw (port : ConfigPort σ) (ADP ADO data : UInt16) : Program SiiHalt σ Int := fun s =>
  .ok (port.apwr ADP ADO (le16 data) s)

/-- `ecx_FPWRw` -/
def ConfigPort.fpwrw (port : ConfigPort σ) (ADP ADO data : UInt16) : Program SiiHalt σ Int :=
  port.toEepromPort.write ADP ADO (le16 data)

/-- `ecx_FPRDw` -/
def ConfigPort.fprdw (port : ConfigPort σ) (ADP ADO : UInt16) : Program SiiHalt σ UInt16 := do
  let (_,data) ← port.toEepromPort.read ADP ADO 2
  pure (get16 data 0)

/-- `ecx_readeeprom` -/
def readeeprom (ctx : SiiContext σ) (fuel : Nat) (slave eeproma : UInt16) : SiiM σ UInt32 := do
  let _ ← eeprom2master ctx slave
  let edat64 ← onPort (readeepromFP ctx.port fuel (ctx.configadr slave) eeproma)
  pure edat64.toUInt32

/-- The context while the slave is at `EC_TEMPNODE`. -/
def tempContext (port : ConfigPort σ) (slavelist : UInt16 → ConfiguredSlave) (slave : UInt16) :
    SiiContext σ where
  port := port.toEepromPort
  configadr := Function.update (fun i => (slavelist i).configadr) slave ecTempnode
  eep8byte i := (slavelist i).eep8byte

theorem tempContext_configadr (port : ConfigPort σ) (slavelist : UInt16 → ConfiguredSlave)
    (slave : UInt16) : (tempContext port slavelist slave).configadr slave=ecTempnode := by
  simp only [tempContext,Function.update_self]

/-- Whether the slave is the same as configured before. What has differed ends the comparison. -/
def sameSlave (port : ConfigPort σ) (fuel : Nat) (slavelist : UInt16 → ConfiguredSlave)
    (slave : UInt16) : SiiM σ Bool := do
  let ctx := tempContext port slavelist slave
  let aliasadr ← onPort (port.fprdw ecTempnode ectRegAlias)
  if aliasadr≠(slavelist slave).aliasadr then pure false
  else
    let eepId ← readeeprom ctx fuel slave ectSiiId
    if eepId≠(slavelist slave).eepId then pure false
    else
      let eepMan ← readeeprom ctx fuel slave ectSiiManuf
      if eepMan≠(slavelist slave).eepMan then pure false
      else
        let eepRev ← readeeprom ctx fuel slave ectSiiRev
        pure (decide (eepRev=(slavelist slave).eepRev))

/-- `ecx_recover_slave` -/
def recoverSlave (port : ConfigPort σ) (fuel : Nat) (slavelist : UInt16 → ConfiguredSlave)
    (slave : UInt16) : SiiM σ Int := do
  let configadr := (slavelist slave).configadr
  let ADPh := 1-slave
  -- check if we found another slave than the requested
  let (wkc,readadr) ← onPort (port.aprdWord ADPh ectRegStadr 0xfffe)
  if readadr=configadr then pure 1
  else if wkc>0 ∧ readadr=0 then
    -- clear possible slaves at EC_TEMPNODE
    let _ ← onPort (port.fpwrw ecTempnode ectRegStadr 0)
    let wkc ← onPort (port.apwrw ADPh ectRegStadr ecTempnode)
    if wkc ≤ 0 then
      let _ ← onPort (port.fpwrw ecTempnode ectRegStadr 0)
      pure 0
    else
      let _ ← eeprom2master (tempContext port slavelist slave) slave
      let same ← sameSlave port fuel slavelist slave
      if same then onPort (port.fpwrw ecTempnode ectRegStadr configadr)
      else
        -- slave is not the expected one, remove config address
        let _ ← onPort (port.fpwrw ecTempnode ectRegStadr 0)
        pure 0
  else pure 0

def OnLine (J : σ → Prop) (st : SiiState σ) : Prop := J st.env

theorem onPort_leads {α : Type} {x : Program SiiHalt σ α} {P Q : σ → Prop}
    (h : Accounts Leads P x fun _ => Q) :
    Accounts Leads (OnLine P) (onPort x) fun _ => OnLine Q := by
  intro st a st' hrun hp
  rw [onPort] at hrun
  cases hx : x st.env with
  | error e =>
    rw [hx] at hrun
    cases hrun
  | ok r =>
    rw [hx] at hrun
    cases hrun
    exact h _ _ _ hx hp

theorem onPort_keeps {α : Type} {x : Program SiiHalt σ α} {J : σ → Prop} (h : Keeps J x) :
    Keeps (OnLine J) (onPort x) := onPort_leads h

section Eeprom

/-- What the datagrams to the EEPROM of a slave keep. -/
structure EepromKeeps (port : EepromPort σ) (configadr : UInt16) (J : σ → Prop) : Prop where
  fprd : ∀ ado length s,J s → J (port.fprd configadr ado length s).2
  fpwr : ∀ ado data s,ectRegEepcfg ≤ ado → J s → J (port.fpwr configadr ado data s).2
  timer : ∀ s,J s → J (port.timerIsExpired s).2

variable {port : EepromPort σ} {configadr : UInt16} {J : σ → Prop}

theorem EepromKeeps.read (h : EepromKeeps port configadr J) (ado : UInt16) (length : Nat) :
    Keeps J (port.read configadr ado length) := by
  intro s a s' hrun hj
  cases hrun
  exact h.fprd ado length s hj

theorem EepromKeeps.write (h : EepromKeeps port configadr J) {ado : UInt16}
    (hado : ectRegEepcfg ≤ ado) (data : List UInt8) : Keeps J (port.write configadr ado data) := by
  intro s a s' hrun hj
  have hw : port.fpwr configadr ado data s=(a,s') := Except.ok.inj hrun
  have hkept := h.fpwr ado data s hado hj
  rw [hw] at hkept
  exact hkept

theorem EepromKeeps.writeRetry (h : EepromKeeps port configadr J) {ado : UInt16}
    (hado : ectRegEepcfg ≤ ado) (data : List UInt8) (cnt : Nat) :
    Keeps J (port.writeRetry configadr ado data cnt) := by
  induction cnt with
  | zero => exact h.write hado data
  | succ cnt ih => exact (h.write hado data).bind fun _ => .ite (fun _ => ih) fun _ => keeps_pure _

theorem EepromKeeps.readRetry (h : EepromKeeps port configadr J) (ado : UInt16) (length cnt : Nat) :
    Keeps J (port.readRetry configadr ado length cnt) := by
  induction cnt with
  | zero => exact h.read ado length
  | succ cnt ih => exact (h.read ado length).bind fun _ => .ite (fun _ => ih) fun _ => keeps_pure _

theorem EepromKeeps.expired (h : EepromKeeps port configadr J) :
    Keeps J (fun s => .ok (port.timerIsExpired s) : Program SiiHalt σ Bool) := by
  intro s a s' hrun hj
  have ht : port.timerIsExpired s=(a,s') := Except.ok.inj hrun
  have hkept := h.timer s hj
  rw [ht] at hkept
  exact hkept

theorem EepromKeeps.waitnotbusy (h : EepromKeeps port configadr J) (fuel : Nat) :
    Keeps J (eepromWaitnotbusyFP port configadr fuel) := by
  induction fuel with
  | zero => exact keeps_throw _
  | succ fuel ih =>
    refine (h.read ectRegEepstat 2).bind fun r => .ite (fun _ => ?_) fun _ => keeps_pure _
    exact h.expired.bind fun _ => .ite (fun _ => keeps_pure _) fun _ => ih

theorem EepromKeeps.round (h : EepromKeeps port configadr J) (fuel : Nat) (eeproma : UInt16)
    (nackcnt : Nat) : Keeps J (readeepromRound port fuel configadr eeproma nackcnt) := by
  refine (h.writeRetry (by decide) _ _).bind fun wkc => .ite (fun _ => ?_) fun _ => keeps_pure _
  refine (h.waitnotbusy fuel).bind fun r => .ite (fun _ => ?_) fun _ => keeps_pure _
  refine .ite (fun _ => keeps_pure _) fun _ => .ite (fun _ => ?_) fun _ => ?_
  · exact (h.readRetry _ _ _).bind fun _ => keeps_pure _
  · exact (h.readRetry _ _ _).bind fun _ => keeps_pure _

theorem EepromKeeps.loop (h : EepromKeeps port configadr J) (fuel : Nat) (eeproma : UInt16)
    (rounds : Nat) : ∀ nackcnt,
    Keeps J (readeepromLoop port fuel configadr eeproma rounds nackcnt) := by
  induction rounds with
  | zero => exact fun _ => keeps_throw _
  | succ rounds ih =>
    intro nackcnt
    exact (h.round fuel eeproma nackcnt).bind fun r => .ite (fun _ => ih _) fun _ => keeps_pure _

theorem EepromKeeps.readeepromFP (h : EepromKeeps port configadr J) (fuel : Nat)
    (eeproma : UInt16) : Keeps J (readeepromFP port fuel configadr eeproma) := by
  refine (h.waitnotbusy fuel).bind fun r => .ite (fun _ => ?_) fun _ => keeps_pure _
  refine .ite (fun _ => ?_) fun _ => h.loop _ _ _ _
  exact (h.write (by decide) _).bind fun _ => h.loop _ _ _ _

theorem EepromKeeps.eeprom2master {ctx : SiiContext σ} {slave : UInt16}
    (h : EepromKeeps ctx.port (ctx.configadr slave) J) :
    Keeps (OnLine J) (eeprom2master ctx slave) := by
  have hget : Keeps (OnLine J) (get : SiiM σ (SiiState σ)) := by
    intro st a st' hrun hj
    cases hrun
    exact hj
  have hset : Keeps (OnLine J) (modify fun st : SiiState σ =>
      { st with eepPdi := Function.update st.eepPdi slave false } : SiiM σ PUnit) := by
    intro st a st' hrun hj
    cases hrun
    exact hj
  refine hget.bind fun st => .ite (fun _ => ?_) fun _ => keeps_pure _
  have heepcfg : ectRegEepcfg ≤ ectRegEepcfg := by decide
  refine (onPort_keeps (h.writeRetry heepcfg _ _)).bind fun _ => ?_
  refine (onPort_keeps (h.writeRetry heepcfg _ _)).bind fun _ => ?_
  exact hset.bind fun _ => keeps_pure _

theorem EepromKeeps.readeeprom {ctx : SiiContext σ} {slave : UInt16}
    (h : EepromKeeps ctx.port (ctx.configadr slave) J) (fuel : Nat) (eeproma : UInt16) :
    Keeps (OnLine J) (readeeprom ctx fuel slave eeproma) :=
  h.eeprom2master.bind fun _ =>
    (onPort_keeps (h.readeepromFP fuel eeproma)).bind fun _ => keeps_pure _

end Eeprom

theorem sameSlave_keeps {port : ConfigPort σ} {J : σ → Prop}
    (h : EepromKeeps port.toEepromPort ecTempnode J) (fuel : Nat)
    (slavelist : UInt16 → ConfiguredSlave) (slave : UInt16) :
    Keeps (OnLine J) (sameSlave port fuel slavelist slave) := by
  have htemp : EepromKeeps (tempContext port slavelist slave).port
      ((tempContext port slavelist slave).configadr slave) J := by
    rw [tempContext_configadr]
    exact h
  have halias : Keeps J (port.fprdw ecTempnode ectRegAlias) :=
    (h.read _ _).bind fun _ => keeps_pure _
  refine (onPort_keeps halias).bind fun _ => .ite (fun _ => keeps_pure _) fun _ => ?_
  refine (htemp.readeeprom fuel _).bind fun _ => .ite (fun _ => keeps_pure _) fun _ => ?_
  refine (htemp.readeeprom fuel _).bind fun _ => .ite (fun _ => keeps_pure _) fun _ => ?_
  exact (htemp.readeeprom fuel _).bind fun _ => keeps_pure _

end EtherCATMaster.Config
