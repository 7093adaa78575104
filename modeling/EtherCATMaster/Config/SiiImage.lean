import EtherCATMaster.Config.SiiLine
import EtherCATMaster.Sii.Image

namespace EtherCATMaster.Config

open EtherCATMaster.Framework EtherCATMaster.Sii

def generalData (g : SiiGeneral) (front gap rest : List UInt8) : List UInt8 :=
  front++([g.coeDetails,g.foeDetails,g.eoeDetails,g.soeDetails]++(gap++(g.flags::
    (le16 g.ebuscurrent.toUInt16++rest))))

/-- What the maker of a slave has written into its SII. -/
structure SiiImage where
  general : Option SiiGeneral
  strings : Option (List (List UInt8))
  sms : List SmRecord
  funcs : List UInt8

/-- These sections say so, in whatever order and among whatever others. -/
structure SiiImage.Describes (image : SiiImage) (sections : List SiiSection) : Prop where
  general : match image.general with
    | some g => ∃ front gap rest,front.length=5 ∧ gap.length=2 ∧
        firstOf ectSiiGeneral sections=some ⟨ectSiiGeneral,generalData g front gap rest⟩
    | none => firstOf ectSiiGeneral sections=none
  strings : match image.strings with
    | some strings => strings.length<256 ∧ (∀ str ∈ strings,str.length<256) ∧ ∃ rest,
        firstOf ectSiiString sections=some ⟨ectSiiString,stringData strings++rest⟩
    | none => firstOf ectSiiString sections=none
  sms : image.sms.length<256 ∧ (firstOf ectSiiSm sections=some ⟨ectSiiSm,smData image.sms⟩ ∨
    image.sms=[] ∧ firstOf ectSiiSm sections=none)
  funcs : image.funcs.length<256 ∧ (firstOf ectSiiFmmu sections=some ⟨ectSiiFmmu,image.funcs⟩ ∨
    image.funcs=[] ∧ firstOf ectSiiFmmu sections=none)

def smConfig (r : SmRecord) : EcSm :=
  ⟨r.phStart,r.plength,r.creg.toUInt32+(r.activate.toUInt32 <<< 16)⟩

def SiiImage.func (image : SiiImage) (k : Nat) : UInt8 :=
  if image.funcs.getD k 0≠0xff then image.funcs.getD k 0 else 0

def SiiImage.blocks (image : SiiImage) : Bool := image.general.any SiiGeneral.blocks

def SiiImage.current (image : SiiImage) : Int16 :=
  (image.general.map SiiGeneral.ebuscurrent).getD 0

/-- The entry of such a slave. -/
def SiiImage.entry (image : SiiImage) (c : SlaveIdentity) : SiiSlave :=
  let e := (freshSlave c).withMailbox
  SiiSlave.fallback { e with
    coeDetails := (image.general.map SiiGeneral.coeDetails).getD 0
    foeDetails := (image.general.map SiiGeneral.foeDetails).getD 0
    eoeDetails := (image.general.map SiiGeneral.eoeDetails).getD 0
    soeDetails := (image.general.map SiiGeneral.soeDetails).getD 0
    blockLRW := if image.blocks then 1 else 0
    ebuscurrent := image.current
    name := match image.strings with
      | some strings => ((strings[0]?).getD []).take ecMaxName
      | none => constructedName e
    sm := fun k => if k<ecMaxSm then ((image.sms[k]?).map smConfig).getD (e.sm k) else e.sm k
    fmmu0func := image.func 0
    fmmu1func := image.func 1
    fmmu2func := image.func 2
    fmmu3func := image.func 3 }

section Reading

variable {rom : Nat → UInt8} {sections : List SiiSection} {image : SiiImage}

theorem generalOf_image (h : HoldsArea rom sections) (hd : image.Describes sections) :
    generalOf rom=image.general := by
  have hbuf : ecMaxEepBuf=4096 := rfl
  have hgeneral := hd.general
  rw [generalOf]
  cases himage : image.general with
  | none =>
    rw [himage] at hgeneral
    rw [h.absent (by decide) hgeneral]
    exact if_neg (not_not_intro rfl)
  | some g =>
    rw [himage] at hgeneral
    obtain ⟨front,gap,rest,hfront,hgap,hsome⟩ := hgeneral
    obtain ⟨a,ha,hroom,haddress,hholds⟩ := h.found (by decide) hsome
    dsimp only at hroom
    obtain ⟨hunsigned,hpositive,-⟩ := found_toUInt16 ha (by omega) haddress
    have hne : (siiAddress rom ectSiiGeneral).toUInt16≠0 := by
      intro hzero
      rw [hzero] at hpositive
      exact UInt16.lt_irrefl 0 hpositive
    rw [if_pos hne,hunsigned]
    obtain ⟨f0,front,rfl⟩ := List.exists_cons_of_length_eq_add_one hfront
    obtain ⟨f1,front,rfl⟩ := List.exists_cons_of_length_eq_add_one (Nat.succ.inj hfront)
    obtain ⟨f2,f3,f4,rfl⟩ := List.length_eq_three.mp (Nat.succ.inj (Nat.succ.inj hfront))
    obtain ⟨g0,g1,rfl⟩ := List.length_eq_two.mp hgap
    have hbytes : a+(le16 (⟨ectSiiGeneral,generalData g [f0,f1,f2,f3,f4] [g0,g1] rest⟩ :
        SiiSection).words++generalData g [f0,f1,f2,f3,f4] [g0,g1] rest).length ≤ ecMaxEepBuf := by
      rw [List.length_append,le16_length]
      omega
    have hcoe := hholds.table (k := 7) (b := g.coeDetails) hbytes rfl
    have hfoe := hholds.table (k := 8) (b := g.foeDetails) hbytes rfl
    have heoe := hholds.table (k := 9) (b := g.eoeDetails) hbytes rfl
    have hsoe := hholds.table (k := 10) (b := g.soeDetails) hbytes rfl
    have hflags := hholds.table (k := 13) (b := g.flags) hbytes rfl
    have hcurrent := hholds.word (k := 14) (x := g.ebuscurrent.toUInt16) hbytes rfl rfl
    simp only [UInt16.reduceOfNat] at hcoe hfoe heoe hsoe hflags hcurrent
    rw [generalAt]
    simp only [Query.eval_bind,Query.eval_entry,Query.eval_pure,hcoe,hfoe,heoe,hsoe,hflags,hcurrent,
      Int16.toInt16_toUInt16]

theorem smLoopOf_image {a : Nat} {rs : List SmRecord} (h : Holds rom (a+2) (smData rs))
    (hroom : a+2+8*rs.length ≤ ecMaxEepBuf) (hlen : rs.length<256) (left : Nat) :
    ∀ (smc : Nat) (eepSM : EepromSm) (sm : Nat → EcSm),smc+left=ecMaxSm →
      eepSM.startpos=UInt16.ofNat a → eepSM.nSm=UInt8.ofNat rs.length →
      (smLoopOf rom left smc eepSM sm).2=
        fun k => if smc ≤ k ∧ k<ecMaxSm then ((rs[k]?).map smConfig).getD (sm k) else sm k := by
  have hmax : ecMaxSm=8 := rfl
  induction left with
  | zero =>
    intro smc eepSM sm hsmc _ _
    funext k
    rw [if_neg (by omega)]
    rfl
  | succ left ih =>
    intro smc eepSM sm hsmc hstartpos hnSm
    rw [smLoopOf,siiSmNextOf_eval h hroom hlen hstartpos hnSm (by omega)]
    cases hk : rs[smc]? with
    | some r =>
      dsimp only
      rw [if_pos (by decide),ih (smc+1) _ _ (by omega) rfl rfl]
      funext k
      by_cases hfirst : k=smc
      · subst hfirst
        rw [if_neg (by omega),if_pos (by omega),Function.update_self,hk]
        rfl
      · rw [Function.update_of_ne hfirst]
        have hiff : smc+1 ≤ k ∧ k<ecMaxSm ↔ smc ≤ k ∧ k<ecMaxSm := by omega
        simp only [hiff]
    | none =>
      have hshort := List.getElem?_eq_none_iff.mp hk
      dsimp only
      rw [if_neg (not_not_intro rfl)]
      funext k
      split_ifs
      · rw [List.getElem?_eq_none (by omega)]
        rfl
      · rfl

theorem smsOf_image (h : HoldsArea rom sections) (hd : image.Describes sections)
    (sm : Nat → EcSm) : (smsOf rom EepromSm.zero sm).2=
      fun k => if k<ecMaxSm then ((image.sms[k]?).map smConfig).getD (sm k) else sm k := by
  have hmax : ecMaxSm=8 := rfl
  obtain ⟨hlen,hsome|⟨hnone,habsent⟩⟩ := hd.sms
  · obtain ⟨a,hroom,hholds,hstartpos,hnSm,hfirst⟩ := siiSmOf_image h hsome hlen EepromSm.zero
    rw [smsOf]
    split_ifs with hpos
    · have hpos' : 0 < image.sms.length := by
        rw [hnSm] at hpos
        apply Nat.pos_of_ne_zero
        intro hzero
        rw [hzero] at hpos
        exact UInt8.lt_irrefl 0 hpos
      rw [smLoopOf_image hholds hroom hlen (ecMaxSm-1) 1 _ _ rfl hstartpos hnSm]
      have hr := List.getElem?_eq_getElem hpos'
      rw [hfirst _ hr]
      funext k
      by_cases hk : k=0
      · subst hk
        rw [if_neg (by omega),if_pos (by omega),Function.update_self,hr]
        rfl
      · rw [Function.update_of_ne hk]
        have hiff : 1 ≤ k ∧ k<ecMaxSm ↔ k<ecMaxSm := by omega
        simp only [hiff]
    · have hempty : image.sms=[] := by
        rw [hnSm] at hpos
        by_contra hne
        apply hpos
        have hlength := List.length_pos_iff.mpr hne
        rw [gt_iff_lt,UInt8.lt_iff_toNat_lt,UInt8.toNat_ofNat',Nat.mod_eq_of_lt hlen]
        exact hlength
      funext k
      rw [hempty]
      split_ifs <;> rfl
  · have hcall : siiSmOf rom EepromSm.zero=EepromSm.zero := by
      rw [siiSmOf,h.absent (by decide) habsent]
      exact if_neg (UInt16.lt_irrefl 0)
    rw [smsOf,hcall,hnone]
    rw [if_neg (show ¬EepromSm.zero.nSm>0 from UInt8.lt_irrefl 0)]
    funext k
    split_ifs <;> rfl

theorem ownFmmus_image (h : HoldsArea rom sections) (hd : image.Describes sections) (e : SiiSlave)
    (h0 : e.fmmu0func=0) (h1 : e.fmmu1func=0) (h2 : e.fmmu2func=0) (h3 : e.fmmu3func=0) :
    e.ownFmmus rom={ e with
      fmmu0func := image.func 0
      fmmu1func := image.func 1
      fmmu2func := image.func 2
      fmmu3func := image.func 3 } := by
  have hnone : image.funcs=[] → (siiFmmuOf rom).nFmmu=0 → e.ownFmmus rom={ e with
      fmmu0func := image.func 0
      fmmu1func := image.func 1
      fmmu2func := image.func 2
      fmmu3func := image.func 3 } := by
    intro hempty hzero
    have hfunc : ∀ k,image.func k=0 := by
      intro k
      rw [SiiImage.func,hempty]
      rfl
    rw [SiiSlave.ownFmmus,if_neg (not_not_intro hzero),hfunc,hfunc,hfunc,hfunc]
    clear hzero
    apply SiiSlave.ext <;> first | rfl | assumption
  obtain ⟨hlen,hsome|⟨hempty,habsent⟩⟩ := hd.funcs
  · obtain ⟨hnFmmu,hfuncs⟩ := siiFmmuOf_image h hsome hlen
    by_cases hpos : 0 < image.funcs.length
    · obtain ⟨hf0,hf1,hf2,hf3⟩ := hfuncs hpos
      have hne : (siiFmmuOf rom).nFmmu≠0 := by
        rw [hnFmmu]
        intro hzero
        have hnat := congrArg UInt8.toNat hzero
        rw [UInt8.toNat_ofNat',Nat.mod_eq_of_lt hlen] at hnat
        exact absurd hnat (Nat.ne_of_gt hpos)
      rw [SiiSlave.ownFmmus,if_pos hne,SiiSlave.withFmmu,hf0,hf1,hf2,hf3,h0,h1,h2,h3]
      rfl
    · have hempty : image.funcs=[] := List.length_eq_zero_iff.mp (by omega)
      apply hnone hempty
      rw [hnFmmu,hempty]
      rfl
  · apply hnone hempty
    rw [siiFmmuOf,h.absent (by decide) habsent]
    rfl

theorem ownName_image (h : HoldsArea rom sections) (hd : image.Describes sections) (e : SiiSlave) :
    e.ownName rom={ e with name := match image.strings with
      | some strings => ((strings[0]?).getD []).take ecMaxName
      | none => constructedName e } := by
  have hstrings := hd.strings
  rw [SiiSlave.ownName]
  cases himage : image.strings with
  | some strings =>
    rw [himage] at hstrings
    obtain ⟨hcount,hlen,rest,hsome⟩ := hstrings
    have hfirst : (1 : UInt16).toNat=0+1 := rfl
    obtain ⟨hpos,hname⟩ := siiStringOf_image h hsome hcount hlen e.name hfirst
    rw [if_pos hpos,hname]
  | none =>
    rw [himage] at hstrings
    rw [h.absent (by decide) hstrings]
    exact if_neg (by decide)

/-- An entry that nothing of the SII has been entered into. -/
structure SiiSlave.Blank (e : SiiSlave) : Prop where
  coeDetails : e.coeDetails=0
  foeDetails : e.foeDetails=0
  eoeDetails : e.eoeDetails=0
  soeDetails : e.soeDetails=0
  blockLRW : e.blockLRW=0
  ebuscurrent : e.ebuscurrent=0
  fmmu0func : e.fmmu0func=0
  fmmu1func : e.fmmu1func=0
  fmmu2func : e.fmmu2func=0
  fmmu3func : e.fmmu3func=0

theorem ownGeneral_image (h : HoldsArea rom sections) (hd : image.Describes sections) {e : SiiSlave}
    (hblank : e.Blank) : e.ownGeneral rom={ e with
      coeDetails := (image.general.map SiiGeneral.coeDetails).getD 0
      foeDetails := (image.general.map SiiGeneral.foeDetails).getD 0
      eoeDetails := (image.general.map SiiGeneral.eoeDetails).getD 0
      soeDetails := (image.general.map SiiGeneral.soeDetails).getD 0
      blockLRW := if image.blocks then 1 else 0
      ebuscurrent := image.current } := by
  obtain ⟨hcoe,hfoe,heoe,hsoe,hblock,hcurrent⟩ := hblank
  rw [SiiSlave.ownGeneral,generalOf_image h hd,SiiImage.blocks,SiiImage.current]
  cases image.general with
  | none => apply SiiSlave.ext <;> first | rfl | assumption
  | some g =>
    rw [← hblock]
    rfl

theorem ownConfig_image (h : HoldsArea rom sections) (hd : image.Describes sections)
    (c : SlaveIdentity) : ownConfig rom c=image.entry c := by
  have hblank : (freshSlave c).withMailbox.Blank := by
    rw [SiiSlave.withMailbox]
    split_ifs <;> exact ⟨rfl,rfl,rfl,rfl,rfl,rfl,rfl,rfl,rfl,rfl⟩
  have hown : ∀ e : SiiSlave,e.Blank → e.ownSii rom={ e with
      coeDetails := (image.general.map SiiGeneral.coeDetails).getD 0
      foeDetails := (image.general.map SiiGeneral.foeDetails).getD 0
      eoeDetails := (image.general.map SiiGeneral.eoeDetails).getD 0
      soeDetails := (image.general.map SiiGeneral.soeDetails).getD 0
      blockLRW := if image.blocks then 1 else 0
      ebuscurrent := image.current
      name := match image.strings with
        | some strings => ((strings[0]?).getD []).take ecMaxName
        | none => constructedName e
      sm := fun k => if k<ecMaxSm then ((image.sms[k]?).map smConfig).getD (e.sm k) else e.sm k
      fmmu0func := image.func 0
      fmmu1func := image.func 1
      fmmu2func := image.func 2
      fmmu3func := image.func 3 } := by
    intro e hblank
    rw [SiiSlave.ownSii,ownGeneral_image h hd hblank,ownName_image h hd,SiiSlave.ownSms,
      smsOf_image h hd]
    exact ownFmmus_image h hd _ hblank.fmmu0func hblank.fmmu1func hblank.fmmu2func hblank.fmmu3func
  rw [ownConfig,hown _ hblank]
  rfl

end Reading

section Line

variable {σ : Type} {ctx : SiiContext σ} {fuel steps slavecount : Nat}
  {contents : UInt16 → Nat → UInt8} {idents : Nat → SlaveIdentity}
  {sections : Nat → List SiiSection} {image : Nat → SiiImage}

theorem entry_counted (image : SiiImage) (c : SlaveIdentity) :
    ((image.entry c).blockLRW>0 ↔ image.blocks=true) ∧ (image.entry c).ebuscurrent=image.current := by
  have hcounted : (image.entry c).counted=(if image.blocks then 1 else 0,image.current) :=
    fallback_counted _
  have hblock : (image.entry c).blockLRW=_ := congrArg Prod.fst hcounted
  refine ⟨?_,congrArg Prod.snd hcounted⟩
  rw [hblock]
  dsimp only
  split_ifs with hblocks
  · exact iff_of_true (by decide) hblocks
  · exact iff_of_false (by decide) hblocks

/-- Whatever the makers of the slaves have written into their SIIs: the list says so in the end, each
name as far as there is room for it, and the totals are those of the whole line. -/
theorem line_images_read (manualstatechange : Bool)
    (hs : ∀ p,1 ≤ p → p ≤ slavecount → Readable ctx fuel contents (UInt16.ofNat p))
    (harea : ∀ p,1 ≤ p → p ≤ slavecount → HoldsArea (contents (UInt16.ofNat p)) (sections p))
    (hd : ∀ p,1 ≤ p → p ≤ slavecount → (image p).Describes (sections p))
    (hsame : ∀ i p,1 ≤ i → i<p → p ≤ slavecount → (idents i).eepMan=(idents p).eepMan →
      (idents i).eepId=(idents p).eepId → (idents i).eepRev=(idents p).eepRev →
      idents i=idents p ∧ image i=image p)
    (hsteps : ecMaxEepBuf ≤ steps) (eepSM : EepromSm) (st : SiiState σ) (h : Cached contents st) :
    ∃ eepSM' slavelist st',configSlaves ctx fuel steps manualstatechange slavecount
        (eepSM,fun p => freshSlave (idents p)) st=.ok ((eepSM',slavelist),st') ∧
      (∀ p,1 ≤ p → p ≤ slavecount → slavelist p=(image p).entry (idents p)) ∧
      (slavelist 0).blockLRW=
        UInt8.ofNat ((List.range' 1 slavecount).countP fun p => (image p).blocks) ∧
      (slavelist 0).ebuscurrent=((List.range' 1 slavecount).map fun p => (image p).current).sum := by
  have hown : ∀ p,1 ≤ p → p ≤ slavecount →
      siiOf idents contents p=(image p).entry (idents p) :=
    fun p hp hle => ownConfig_image (harea p hp hle) (hd p hp hle) _
  have hagree : SiiAgree idents (siiOf idents contents) slavecount := by
    intro i p hi hlt hp hman hid hrev
    obtain ⟨hident,himage⟩ := hsame i p hi hlt hp hman hid hrev
    rw [hown i hi (by omega),hown p (by omega) hp,hident,himage]
  have hends : ∀ p,1 ≤ p → p ≤ slavecount → SearchesEnd (contents (UInt16.ofNat p)) := by
    intro p hp hle
    have hsearch : ∀ cat : UInt16,cat≠0xffff → SearchEnds (contents (UInt16.ofNat p)) cat :=
      fun _ hcat => (harea p hp hle).searchEnds hcat
    exact ⟨hsearch _ (by decide),hsearch _ (by decide),hsearch _ (by decide),
      hsearch _ (by decide)⟩
  have hprev : Trustworthy lookupPrevSii idents contents slavecount :=
    fun i slavelist mid hi h hlookup => lookupPrevSii_reads hagree hi h hlookup
  obtain ⟨r,st',hrun,hfilled⟩ := configSlavesBy_run manualstatechange hs hends hsteps hprev eepSM h
  clear hagree hprev
  generalize siiOf idents contents=own at hown hfilled
  have hrange : ∀ p ∈ List.range' 1 slavecount,1 ≤ p ∧ p ≤ slavecount := by
    intro p hp
    have hmem := List.mem_range'_1.mp hp
    omega
  refine ⟨r.1,r.2,st',hrun,fun p hp hle => (hfilled.done p hp hle).trans (hown p hp hle),?_,?_⟩
  · rw [hfilled.totals]
    dsimp only
    congr 1
    apply List.countP_congr
    intro p hp
    obtain ⟨hlow,hhigh⟩ := hrange p hp
    rw [hown p hlow hhigh,decide_eq_true_iff]
    exact (entry_counted _ _).1
  · rw [hfilled.totals]
    dsimp only
    congr 1
    apply List.map_congr_left
    intro p hp
    obtain ⟨hlow,hhigh⟩ := hrange p hp
    rw [hown p hlow hhigh]
    exact (entry_counted _ _).2

end Line

/-- A terminal with two names, one SyncManager for outputs and one FMMU. -/
def terminalImage : SiiImage where
  general := some ⟨0,0,0,0,0x02,140⟩
  strings := some [[0x45,0x4c],[0x32]]
  sms := [⟨0x0f00,1,0x44,0,1,3⟩]
  funcs := [1,0xff]

/-- With a section of a vendor before the others. -/
def terminalSections : List SiiSection :=
  [⟨0x0800,[7,7]⟩,⟨ectSiiString,stringData [[0x45,0x4c],[0x32]]++[]⟩,
    ⟨ectSiiGeneral,generalData ⟨0,0,0,0,0x02,140⟩ [1,1,2,1,0] [0,0] []⟩,⟨ectSiiFmmu,[1,0xff]⟩,
    ⟨ectSiiSm,smData [⟨0x0f00,1,0x44,0,1,3⟩]⟩]

theorem terminal_line_read : ∃ eepSM' slavelist st',
    configSlaves (lineContext (areaContents (areaBytes terminalSections)) fun _ => true) 1 4096 false
      3 (EepromSm.zero,fun _ => freshSlave ⟨2,3,4,0,0,0,0⟩) (SiiState.start 0)=
        .ok ((eepSM',slavelist),st') ∧
    (∀ p,1 ≤ p → p ≤ 3 → slavelist p=terminalImage.entry ⟨2,3,4,0,0,0,0⟩) ∧
    (slavelist 0).blockLRW=3 ∧ (slavelist 0).ebuscurrent=420 := by
  refine @line_images_read _ _ _ _ 3 _ (fun _ => ⟨2,3,4,0,0,0,0⟩) (fun _ => terminalSections)
    (fun _ => terminalImage) false (fun p _ _ => lineContext_readable _ _ 0 _) (fun p _ _ => ?_)
    (fun p _ _ => ?_) (fun i p _ _ _ _ _ _ => ⟨rfl,rfl⟩) (by decide) _ _ (start_cached _ _)
  · refine ⟨?_,areaContents_holds _ _,by decide⟩
    intro s hs
    simp only [terminalSections,List.mem_cons,List.not_mem_nil,or_false] at hs
    rcases hs with rfl|rfl|rfl|rfl|rfl <;> exact ⟨by decide,by decide⟩
  · exact ⟨⟨_,_,_,rfl,rfl,rfl⟩,⟨by decide,by decide,_,rfl⟩,⟨by decide,.inl rfl⟩,
      ⟨by decide,.inl rfl⟩⟩

end EtherCATMaster.Config
