import EtherCATMaster.Config.SiiConfig

namespace EtherCATMaster.Config

open EtherCATMaster.Framework EtherCATMaster.Sii

/-- What is known of a slave before its SII is read. -/
structure SlaveIdentity where
  eepMan : UInt32
  eepId : UInt32
  eepRev : UInt32
  mbxL : UInt16
  mbxWo : UInt16
  mbxRl : UInt16
  mbxRo : UInt16

/-- Its entry then: the rest is zero since `ecx_init_context`. -/
def freshSlave (c : SlaveIdentity) : SiiSlave where
  eepMan := c.eepMan
  eepId := c.eepId
  eepRev := c.eepRev
  mbxL := c.mbxL
  mbxWo := c.mbxWo
  mbxRl := c.mbxRl
  mbxRo := c.mbxRo
  coeDetails := 0
  foeDetails := 0
  eoeDetails := 0
  soeDetails := 0
  ebuscurrent := 0
  blockLRW := 0
  name := []
  sm := fun _ => ⟨0,0,0⟩
  smType := fun _ => 0
  fmmu0func := 0
  fmmu1func := 0
  fmmu2func := 0
  fmmu3func := 0

section Own

variable (rom : Nat → UInt8)

def generalOf : Option SiiGeneral :=
  if (siiAddress rom ectSiiGeneral).toUInt16≠0 then
    some ((generalAt (siiAddress rom ectSiiGeneral).toUInt16).eval (siiTable rom))
  else none

def SiiSlave.ownGeneral (e : SiiSlave) : SiiSlave :=
  match generalOf rom with
  | some g => e.withGeneral g
  | none => e

def SiiSlave.ownName (e : SiiSlave) : SiiSlave :=
  if siiAddress rom ectSiiString>0 then { e with name := siiStringOf rom e.name 1 }
  else { e with name := constructedName e }

def smLoopOf : Nat → Nat → EepromSm → (Nat → EcSm) → EepromSm × (Nat → EcSm)
  | 0,_,eepSM,sm => (eepSM,sm)
  | left+1,smc,eepSM,sm =>
    let next := siiSmNextOf rom eepSM (UInt16.ofNat smc)
    if next.1≠0 then smLoopOf left (smc+1) next.2 (Function.update sm smc (smOf next.2))
    else (next.2,sm)

def smsOf (eepSM : EepromSm) (sm : Nat → EcSm) : EepromSm × (Nat → EcSm) :=
  let eepSM := siiSmOf rom eepSM
  if eepSM.nSm>0 then smLoopOf rom (ecMaxSm-1) 1 eepSM (Function.update sm 0 (smOf eepSM))
  else (eepSM,sm)

def EepromSm.zero : EepromSm := ⟨0,0,0,0,0,0,0,0⟩

def SiiSlave.ownSms (e : SiiSlave) : SiiSlave := { e with sm := (smsOf rom EepromSm.zero e.sm).2 }

def SiiSlave.ownFmmus (e : SiiSlave) : SiiSlave :=
  if (siiFmmuOf rom).nFmmu≠0 then e.withFmmu (siiFmmuOf rom) else e

def SiiSlave.ownSii (e : SiiSlave) : SiiSlave :=
  (((e.ownGeneral rom).ownName rom).ownSms rom).ownFmmus rom

def ownConfig (c : SlaveIdentity) : SiiSlave := ((freshSlave c).withMailbox.ownSii rom).fallback

end Own

variable {rom : Nat → UInt8}

theorem smLoopOf_past (left : Nat) : ∀ (smc : Nat) (eepSM : EepromSm) (sm : Nat → EcSm) (n : Nat),
    smc+left ≤ n → (smLoopOf rom left smc eepSM sm).2 n=sm n := by
  induction left with
  | zero => exact fun _ _ _ _ _ => rfl
  | succ left ih =>
    intro smc eepSM sm n hn
    rw [smLoopOf]
    split_ifs
    · rw [ih _ _ _ n (by omega),Function.update_of_ne (by omega)]
    · rfl

theorem smsOf_past (eepSM : EepromSm) (sm : Nat → EcSm) {n : Nat} (hn : ecMaxSm ≤ n) :
    (smsOf rom eepSM sm).2 n=sm n := by
  have hmax : ecMaxSm=8 := rfl
  rw [smsOf]
  split_ifs
  · rw [smLoopOf_past _ _ _ _ n (by omega),Function.update_of_ne (by omega)]
  · rfl

theorem siiSmOf_nSm (eepSM : EepromSm) :
    (siiSmOf rom eepSM).nSm=(siiSmOf rom EepromSm.zero).nSm := by
  rw [siiSmOf,siiSmOf]
  split_ifs <;> simp [smAt,smEntryAt]

theorem siiSmOf_found (eepSM : EepromSm) (h : (siiSmOf rom eepSM).nSm>0) :
    siiSmOf rom eepSM=siiSmOf rom EepromSm.zero := by
  rw [siiSmOf] at h ⊢
  rw [siiSmOf]
  split_ifs at h ⊢
  · simp [smAt,smEntryAt]
  · exact absurd h (UInt8.lt_irrefl 0)

theorem smsOf_forgets (eepSM : EepromSm) (sm : Nat → EcSm) :
    (smsOf rom eepSM sm).2=(smsOf rom EepromSm.zero sm).2 := by
  rw [smsOf,smsOf,← siiSmOf_nSm eepSM]
  split_ifs with h
  · rw [siiSmOf_found eepSM h]
  · rfl

def SiiSlave.identity (e : SiiSlave) : SlaveIdentity :=
  ⟨e.eepMan,e.eepId,e.eepRev,e.mbxL,e.mbxWo,e.mbxRl,e.mbxRo⟩

section Copy

variable (e : SiiSlave)

theorem ownName_eq : ∃ name,e.ownName rom={ e with name } := by
  rw [SiiSlave.ownName]
  split_ifs
  · exact ⟨_,rfl⟩
  · exact ⟨_,rfl⟩

theorem ownSms_eq : ∃ sm : Nat → EcSm,(∀ n,ecMaxSm ≤ n → sm n=e.sm n) ∧
    e.ownSms rom={ e with sm } :=
  ⟨_,fun _ hn => smsOf_past EepromSm.zero e.sm hn,rfl⟩

theorem ownFmmus_eq : ∃ f0 f1 f2 f3,e.ownFmmus rom={ e with
    fmmu0func := f0
    fmmu1func := f1
    fmmu2func := f2
    fmmu3func := f3 } := by
  rw [SiiSlave.ownFmmus]
  split_ifs
  · exact ⟨_,_,_,_,rfl⟩
  · exact ⟨_,_,_,_,rfl⟩

/-- What the SII of a slave leaves as it is. -/
structure Filled (e' : SiiSlave) : Prop where
  identity : e'.identity=e.identity
  smType : e'.smType=e.smType
  past : ∀ n,ecMaxSm ≤ n → e'.sm n=e.sm n
  blockLRW : e'.blockLRW=e.blockLRW ∨ e'.blockLRW=1

variable {e} {e' : SiiSlave}

theorem ownGeneral_filled : Filled e (e.ownGeneral rom) := by
  rw [SiiSlave.ownGeneral]
  cases generalOf rom with
  | none => exact ⟨rfl,rfl,fun _ _ => rfl,.inl rfl⟩
  | some g =>
    refine ⟨rfl,rfl,fun _ _ => rfl,?_⟩
    change (if g.blocks then 1 else e.blockLRW)=e.blockLRW ∨ _
    split_ifs with hblocks
    · exact .inr (if_pos hblocks)
    · exact .inl rfl

theorem Filled.withName (h : Filled e e') : Filled e (e'.ownName rom) := by
  obtain ⟨name,hname⟩ := @ownName_eq rom e'
  rw [hname]
  exact ⟨h.identity,h.smType,h.past,h.blockLRW⟩

theorem Filled.withSms (h : Filled e e') : Filled e (e'.ownSms rom) := by
  obtain ⟨sm,hpast,hsms⟩ := @ownSms_eq rom e'
  rw [hsms]
  exact ⟨h.identity,h.smType,fun n hn => (hpast n hn).trans (h.past n hn),h.blockLRW⟩

theorem Filled.withFmmus (h : Filled e e') : Filled e (e'.ownFmmus rom) := by
  obtain ⟨f0,f1,f2,f3,hfmmus⟩ := @ownFmmus_eq rom e'
  rw [hfmmus]
  exact ⟨h.identity,h.smType,h.past,h.blockLRW⟩

theorem ownSii_filled : Filled e (e.ownSii rom) := ownGeneral_filled.withName.withSms.withFmmus

theorem mailboxPlace_filled (h : Filled e e') {k : Nat} (hk : k<ecMaxSm) (place : EcSm)
    {smType : UInt8} (htype : e.smType k=smType) : Filled e (e'.mailboxPlace k place smType) := by
  rw [SiiSlave.mailboxPlace]
  split_ifs
  · refine ⟨h.identity,?_,fun n hn => ?_,h.blockLRW⟩
    · change Function.update e'.smType k smType=e.smType
      rw [h.smType,← htype,Function.update_eq_self]
    · change Function.update e'.sm k place n=e.sm n
      rw [Function.update_of_ne (by omega)]
      exact h.past n hn
  · exact h

end Copy

theorem fallback_places (e : SiiSlave) (h : e.mbxL>0) :
    (e.fallback.sm 0).startAddr≠0 ∧ (e.fallback.sm 1).startAddr≠0 := by
  have hplace : ∀ (e : SiiSlave) (k : Nat) (place : EcSm) (smType : UInt8),place.startAddr≠0 →
      ((e.mailboxPlace k place smType).sm k).startAddr≠0 := by
    intro e k place smType hplace
    rw [SiiSlave.mailboxPlace]
    split_ifs with hzero
    · change (Function.update e.sm k place k).startAddr≠0
      rwa [Function.update_self]
    · exact hzero
  have hother : ∀ (e : SiiSlave) (place : EcSm) (smType : UInt8),
      (e.mailboxPlace 1 place smType).sm 0=e.sm 0 := by
    intro e place smType
    rw [SiiSlave.mailboxPlace]
    split_ifs
    · change Function.update e.sm 1 place 0=e.sm 0
      rw [Function.update_of_ne Nat.zero_ne_one]
    · rfl
  rw [SiiSlave.fallback,if_pos h]
  refine ⟨?_,hplace _ 1 ⟨0x1080,0x0080,ecDefaultMbxSm1⟩ 2 (by decide)⟩
  rw [hother]
  exact hplace e 0 ⟨0x1000,0x0080,ecDefaultMbxSm0⟩ 1 (by decide)

theorem fallback_fallback (e : SiiSlave) : e.fallback.fallback=e.fallback := by
  by_cases h : e.mbxL>0
  · obtain ⟨h0,h1⟩ := fallback_places e h
    have hpositive : e.fallback.mbxL>0 := by
      rw [SiiSlave.fallback,if_pos h,SiiSlave.mailboxPlace,SiiSlave.mailboxPlace]
      split_ifs <;> exact h
    rw [SiiSlave.fallback,if_pos hpositive,SiiSlave.mailboxPlace,SiiSlave.mailboxPlace,if_neg h0,
      if_neg h1]
  · have hsame : e.fallback=e := if_neg h
    rw [hsame,hsame]

theorem fallback_filled {e e' : SiiSlave} (h : Filled e e')
    (htypes : e.mbxL>0 → e.smType 0=1 ∧ e.smType 1=2) : Filled e e'.fallback := by
  have hmax : ecMaxSm=8 := rfl
  have hmbxL : e'.mbxL=e.mbxL := congrArg SlaveIdentity.mbxL h.identity
  rw [SiiSlave.fallback]
  split_ifs with hmailbox
  · rw [hmbxL] at hmailbox
    obtain ⟨h0,h1⟩ := htypes hmailbox
    exact mailboxPlace_filled (mailboxPlace_filled h (by omega) _ h0) (by omega) _ h1
  · exact h

theorem withMailbox_types (e : SiiSlave) (h : e.withMailbox.mbxL>0) :
    e.withMailbox.smType 0=1 ∧ e.withMailbox.smType 1=2 := by
  rw [SiiSlave.withMailbox] at h ⊢
  split_ifs at h ⊢ with hmailbox
  · exact ⟨rfl,rfl⟩
  · exact absurd h hmailbox

theorem copySii_filled {e e' : SiiSlave} (h : Filled e e') (hzero : e.blockLRW=0) :
    copySii e' e=e' := by
  have hidentity := h.identity
  simp only [SiiSlave.identity,SlaveIdentity.mk.injEq] at hidentity
  obtain ⟨hman,hid,hrev,hl,hwo,hrl,hro⟩ := hidentity
  have hblock : (if e'.blockLRW>0 then 1 else e.blockLRW)=e'.blockLRW := by
    rcases h.blockLRW with hblock|hblock
    · rw [hblock,hzero]
      rfl
    · rw [hblock]
      rfl
  have hsm : (fun n => if n<ecMaxSm then e'.sm n else e.sm n)=e'.sm := by
    funext n
    split_ifs with hn
    · rfl
    · exact (h.past n (Nat.not_lt.mp hn)).symm
  rw [copySii,hblock,hsm,← hman,← hid,← hrev,← hl,← hwo,← hrl,← hro,← h.smType]

theorem ownConfig_filled (c : SlaveIdentity) :
    Filled (freshSlave c).withMailbox (ownConfig rom c) :=
  fallback_filled ownSii_filled (withMailbox_types _)

theorem withMailbox_blockLRW (e : SiiSlave) : e.withMailbox.blockLRW=e.blockLRW := by
  rw [SiiSlave.withMailbox]
  split_ifs <;> rfl

theorem copySii_own (c : SlaveIdentity) :
    (copySii (ownConfig rom c) (freshSlave c).withMailbox).fallback=ownConfig rom c := by
  rw [copySii_filled (ownConfig_filled c) (withMailbox_blockLRW _),ownConfig,fallback_fallback]

def SiiSlave.counted (e : SiiSlave) : UInt8 × Int16 := (e.blockLRW,e.ebuscurrent)

theorem fallback_counted (e : SiiSlave) : e.fallback.counted=e.counted := by
  rw [SiiSlave.fallback,SiiSlave.mailboxPlace,SiiSlave.mailboxPlace]
  split_ifs <;> rfl

theorem ownName_counted (e : SiiSlave) : (e.ownName rom).counted=e.counted := by
  obtain ⟨name,hname⟩ := @ownName_eq rom e
  rw [hname]
  rfl

theorem ownSms_counted (e : SiiSlave) : (e.ownSms rom).counted=e.counted := by
  obtain ⟨sm,-,hsms⟩ := @ownSms_eq rom e
  rw [hsms]
  rfl

theorem ownFmmus_counted (e : SiiSlave) : (e.ownFmmus rom).counted=e.counted := by
  obtain ⟨f0,f1,f2,f3,hfmmus⟩ := @ownFmmus_eq rom e
  rw [hfmmus]
  rfl

theorem ownGeneral_counted (e : SiiSlave) : (e.ownGeneral rom).counted=
    match generalOf rom with
    | some g => (if g.blocks then 1 else e.blockLRW,g.ebuscurrent)
    | none => e.counted := by
  rw [SiiSlave.ownGeneral]
  cases generalOf rom <;> rfl

theorem ownConfig_counted (c : SlaveIdentity) : (ownConfig rom c).counted=
    match generalOf rom with
    | some g => (if g.blocks then 1 else 0,g.ebuscurrent)
    | none => (0,0) := by
  have hzero : (freshSlave c).withMailbox.counted=(0,0) := by
    rw [SiiSlave.withMailbox]
    split_ifs <;> rfl
  rw [ownConfig,fallback_counted,SiiSlave.ownSii,ownFmmus_counted,ownSms_counted,ownName_counted,
    ownGeneral_counted,hzero,show (freshSlave c).withMailbox.blockLRW=0 from congrArg Prod.fst hzero]

theorem addTotals_own (master : SiiSlave) (c : SlaveIdentity) :
    master.addTotals (decide ((ownConfig rom c).blockLRW>0)) (ownConfig rom c).ebuscurrent=
      match generalOf rom with
      | some g => master.addTotals g.blocks g.ebuscurrent
      | none => master := by
  have hcounted := @ownConfig_counted rom c
  obtain ⟨own,hown⟩ : ∃ own,own=ownConfig rom c := ⟨_,rfl⟩
  rw [← hown] at hcounted ⊢
  have hblocks : own.blockLRW=_ := congrArg Prod.fst hcounted
  have hcurrent : own.ebuscurrent=_ := congrArg Prod.snd hcounted
  rw [hblocks,hcurrent]
  cases generalOf rom with
  | none => simp [SiiSlave.addTotals]
  | some g =>
    congr 1
    by_cases hg : g.blocks=true <;> simp [hg]

section Area

variable {rom' : Nat → UInt8}

theorem asks_generalAt {a : UInt16} (h : AreaFrom a 20) : (generalAt a).Asks InArea := by
  apply Query.Asks.bind (asks_byte (h.step 7 rfl (by decide)))
  intro coeDetails
  apply Query.Asks.bind (asks_byte (h.step 8 rfl (by decide)))
  intro foeDetails
  apply Query.Asks.bind (asks_byte (h.step 9 rfl (by decide)))
  intro eoeDetails
  apply Query.Asks.bind (asks_byte (h.step 10 rfl (by decide)))
  intro soeDetails
  apply Query.Asks.bind (asks_byte (h.step 13 rfl (by decide)))
  intro flags
  exact (asks_wordAt (h.step 14 rfl (by decide))).bind fun current => trivial

theorem generalOf_area (h : SameArea rom rom') : generalOf rom=generalOf rom' := by
  rw [generalOf,generalOf,← h.siiAddress]
  split_ifs with hfound
  · have harea := (siiAddress_area (by decide) hfound).less (show 20 ≤ 400 by decide)
    rw [(asks_generalAt harea).eval_congr h.siiTable]
  · rfl

theorem smLoopOf_area (h : SameArea rom rom') (left : Nat) : ∀ (smc : Nat) (eepSM : EepromSm)
    (sm : Nat → EcSm),smc+left ≤ 8 → AreaFrom eepSM.startpos 80 →
    smLoopOf rom left smc eepSM sm=smLoopOf rom' left smc eepSM sm := by
  induction left with
  | zero => exact fun _ _ _ _ _ => rfl
  | succ left ih =>
    intro smc eepSM sm hsmc harea
    have hn : (UInt16.ofNat smc).toNat<8 := by
      rw [UInt16.toNat_ofNat']
      omega
    have hstartpos : (siiSmNextOf rom eepSM (UInt16.ofNat smc)).2.startpos=eepSM.startpos := by
      rw [siiSmNextOf]
      split_ifs
      · simp [nextSmAt,smEntryAt]
      · rfl
    rw [smLoopOf,smLoopOf,← h.siiSmNextOf hn harea]
    split_ifs
    · apply ih (smc+1) _ _ (by omega)
      rw [hstartpos]
      exact harea
    · rfl

theorem smsOf_area (h : SameArea rom rom') (eepSM : EepromSm) (sm : Nat → EcSm) :
    smsOf rom eepSM sm=smsOf rom' eepSM sm := by
  rw [smsOf,smsOf,← h.siiSmOf]
  split_ifs with hfound
  · apply smLoopOf_area h 7 1 _ _ (by decide)
    have hsm : ectSiiSm≠0xffff := by decide
    rw [siiSmOf] at hfound ⊢
    split_ifs at hfound ⊢ with haddress
    · have harea := (siiAddress_reads hsm haddress).less (show 80 ≤ 400 by decide)
      simpa [smAt,smEntryAt] using harea
    · exact absurd hfound (UInt8.lt_irrefl 0)
  · rfl

theorem ownConfig_area (h : SameArea rom rom') (c : SlaveIdentity) :
    ownConfig rom c=ownConfig rom' c := by
  have hown : ∀ e : SiiSlave,e.ownSii rom=e.ownSii rom' := by
    intro e
    have hgeneral : e.ownGeneral rom=e.ownGeneral rom' := by
      rw [SiiSlave.ownGeneral,SiiSlave.ownGeneral,generalOf_area h]
    have hname : ∀ e : SiiSlave,e.ownName rom=e.ownName rom' := by
      intro e
      rw [SiiSlave.ownName,SiiSlave.ownName,h.siiAddress,h.siiStringOf]
    have hsms : ∀ e : SiiSlave,e.ownSms rom=e.ownSms rom' := by
      intro e
      rw [SiiSlave.ownSms,SiiSlave.ownSms,smsOf_area h]
    have hfmmus : ∀ e : SiiSlave,e.ownFmmus rom=e.ownFmmus rom' := by
      intro e
      rw [SiiSlave.ownFmmus,SiiSlave.ownFmmus,h.siiFmmuOf]
    rw [SiiSlave.ownSii,SiiSlave.ownSii,hgeneral,hname,hsms,hfmmus]
  rw [ownConfig,ownConfig,hown]

end Area

end EtherCATMaster.Config
