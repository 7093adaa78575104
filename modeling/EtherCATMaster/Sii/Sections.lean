import EtherCATMaster.Framework.Queries
import EtherCATMaster.Sii.Search

namespace EtherCATMaster.Sii
open EtherCATMaster.Framework

def ectSiiString : UInt16 := 10
def ectSiiGeneral : UInt16 := 30
def ectSiiFmmu : UInt16 := 40
def ectSiiSm : UInt16 := 41

def ecMaxName : Nat := 40

/-- `ec_eepromFMMUt` -/
structure EepromFmmu where
  startpos : UInt16
  nFmmu : UInt8
  fmmu0 : UInt8
  fmmu1 : UInt8
  fmmu2 : UInt8
  fmmu3 : UInt8

/-- `ec_eepromSMt` -/
structure EepromSm where
  startpos : UInt16
  nSm : UInt8
  phStart : UInt16
  plength : UInt16
  creg : UInt8
  sreg : UInt8
  activate : UInt8
  pdiCtrl : UInt8

variable {σ : Type}

abbrev ByteQuery := Query UInt16 UInt8

def wordAt (a : UInt16) : ByteQuery UInt16 := do
  let low ← .entry a
  let high ← .entry (a+1)
  pure (low.toUInt16+(high.toUInt16 <<< 8))

/-- Copies one string. What is longer than a name may be is passed over. -/
def copyString : Nat → Nat → UInt16 → ByteQuery (List UInt8)
  | 0,_,_ => pure []
  | left+1,j,ba =>
    if j ≤ ecMaxName then do
      let c ← .entry ba
      let rest ← copyString left (j+1) (ba+1)
      pure (c::rest)
    else copyString left (j+1) (ba+1)

def walkStrings : Nat → UInt16 → ByteQuery (List UInt8)
  | 0,_ => pure []
  | left+1,ba => do
    -- length of this string
    let l ← .entry ba
    if left>0 then walkStrings left (ba+1+l.toUInt16) else copyString l.toNat 1 (ba+1)

/-- The part of `ecx_siistring` that reads the section at `a`. -/
def stringAt (a Sn : UInt16) : ByteQuery (List UInt8) := do
  -- read number of strings in section
  let n ← .entry (a+2)
  if Sn ≤ n.toUInt16 then walkStrings Sn.toNat (a+2+1) else pure []

/-- The part of `ecx_siiFMMU` that reads the section. -/
def fmmuAt (fmmu : EepromFmmu) : ByteQuery EepromFmmu := do
  let a := fmmu.startpos
  let w ← wordAt a
  let nFmmu := w.toUInt8*2
  let fmmu0 ← .entry (a+2)
  let fmmu1 ← .entry (a+3)
  if nFmmu>2 then
    let fmmu2 ← .entry (a+4)
    let fmmu3 ← .entry (a+5)
    pure { fmmu with nFmmu,fmmu0,fmmu1,fmmu2,fmmu3 }
  else pure { fmmu with nFmmu,fmmu0,fmmu1 }

/-- The entry of a SyncManager. -/
def smEntryAt (a : UInt16) (sm : EepromSm) : ByteQuery EepromSm := do
  let phStart ← wordAt a
  let plength ← wordAt (a+2)
  let creg ← .entry (a+4)
  let sreg ← .entry (a+5)
  let activate ← .entry (a+6)
  let pdiCtrl ← .entry (a+7)
  pure { sm with phStart,plength,creg,sreg,activate,pdiCtrl }

/-- The part of `ecx_siiSM` that reads the section. -/
def smAt (sm : EepromSm) : ByteQuery EepromSm := do
  let w ← wordAt sm.startpos
  smEntryAt (sm.startpos+2) { sm with nSm := (w/4).toUInt8 }

def nextSmAt (sm : EepromSm) (n : UInt16) : ByteQuery EepromSm :=
  smEntryAt (sm.startpos+2+n*8) sm

section Reading

variable (ctx : SiiContext σ) (fuel : Nat) (slave : UInt16)

def readOut {α : Type} (x : ByteQuery α) : SiiM σ α := x.run (siigetbyte ctx fuel slave)

/-- If the EEPROM was given to the PDI before, it is given back. -/
def restoring {α : Type} (x : SiiM σ α) : SiiM σ α := do
  let st ← get
  let eectl := st.eepPdi slave
  let a ← x
  if eectl then
    let _ ← eeprom2pdi ctx slave
    pure a
  else pure a

/-- `ecx_siistring`: what is in `str` then, up to the zero at its end. -/
def siistring (steps : Nat) (str : List UInt8) (Sn : UInt16) : SiiM σ (List UInt8) :=
  restoring ctx slave do
    let a ← siifind ctx fuel steps slave ectSiiString
    if a.toUInt16>0 then readOut ctx fuel slave (stringAt a.toUInt16 Sn) else pure str

/-- `ecx_siiFMMU`, which returns the number of the record. -/
def siiFmmu (steps : Nat) : SiiM σ EepromFmmu :=
  restoring ctx slave do
    let startpos ← siifind ctx fuel steps slave ectSiiFmmu
    let fmmu : EepromFmmu := ⟨startpos.toUInt16,0,0,0,0,0⟩
    if fmmu.startpos>0 then readOut ctx fuel slave (fmmuAt fmmu) else pure fmmu

/-- `ecx_siiSM`, which returns the number of the record. -/
def siiSm (steps : Nat) (sm : EepromSm) : SiiM σ EepromSm :=
  restoring ctx slave do
    let startpos ← siifind ctx fuel steps slave ectSiiSm
    let sm := { sm with nSm := 0,startpos := startpos.toUInt16 }
    if sm.startpos>0 then readOut ctx fuel slave (smAt sm) else pure sm

/-- `ecx_siiSMnext` -/
def siiSmNext (sm : EepromSm) (n : UInt16) : SiiM σ (UInt16 × EepromSm) :=
  restoring ctx slave do
    if n<sm.nSm.toUInt16 then
      let sm ← readOut ctx fuel slave (nextSmAt sm n)
      pure (1,sm)
    else pure (0,sm)

end Reading

def siiTable (rom : Nat → UInt8) (a : UInt16) : UInt8 := siiByte rom a.toNat

/-- The lengths of the sections do not lead past 64 KiB before the search for the category ends. -/
def SearchEnds (rom : Nat → UInt8) (cat : UInt16) : Prop :=
  sectionEnd rom cat (ectSiiStart <<< 1)<2^16

instance (rom : Nat → UInt8) (cat : UInt16) : Decidable (SearchEnds rom cat) :=
  inferInstanceAs (Decidable (_<_))

def siiAddress (rom : Nat → UInt8) (cat : UInt16) : Int16 :=
  foundAddress rom cat (sectionEnd rom cat (ectSiiStart <<< 1))

theorem le_sectionEnd (rom : Nat → UInt8) (cat : UInt16) (n : Nat) : n ≤ sectionEnd rom cat n := by
  induction n using sectionEnd.induct rom cat with
  | case1 n hgo ih =>
    rw [sectionEnd,if_pos hgo]
    rw [nextSection] at ih ⊢
    omega
  | case2 n hstop =>
    rw [sectionEnd,if_neg hstop]

section Runs

variable {ctx : SiiContext σ} {fuel steps : Nat} {slave cat : UInt16}
  {contents : UInt16 → Nat → UInt8} {α : Type} {x : SiiM σ α} {a : α}

theorem siigetbyte_yields (hs : Readable ctx fuel contents slave) (address : UInt16) :
    Yields (Cached contents) (siigetbyte ctx fuel slave address)
      (siiTable (contents slave) address) := by
  intro st h
  obtain ⟨st',-,hget,h',-⟩ := siigetbyte_reads hs h address
  exact ⟨st',hget,h'⟩

theorem readOut_yields (hs : Readable ctx fuel contents slave) (x : ByteQuery α) :
    Yields (Cached contents) (readOut ctx fuel slave x) (x.eval (siiTable (contents slave))) :=
  Query.run_yields (siigetbyte_yields hs) x

theorem restoring_yields (hx : Yields (Cached contents) x a) :
    Yields (Cached contents) (restoring ctx slave x) a := by
  intro st h
  obtain ⟨st1,hrun,h1⟩ := hx st h
  obtain ⟨pdi,t,hend⟩ := eeprom2pdi_end ctx slave (st.eepPdi slave) a st1
  refine ⟨_,?_,show Cached contents { st1 with eepPdi := pdi,env := t } from h1⟩
  rw [restoring,run_bind (siiState_run st),run_bind hrun]
  exact hend

theorem siifindLoop_ends (hs : Readable ctx fuel contents slave) (n : Nat) :
    ∀ {steps : Nat} {st : SiiState σ},Cached contents st → n%2=0 →
      sectionEnd (contents slave) cat n<2^16 → ecMaxEepBuf-n<steps → ∃ st',
      siifindLoop ctx fuel slave cat steps (siiWord (contents slave) n) (Int16.ofNat (n+2)) st=
        .ok ((siiWord (contents slave) (sectionEnd (contents slave) cat n),
          Int16.ofNat (sectionEnd (contents slave) cat n+2)),st') ∧ Cached contents st' := by
  induction n using sectionEnd.induct (contents slave) cat with
  | case1 n hgo ih =>
    intro steps st h hn hend hsteps
    rw [sectionEnd,if_pos hgo] at hend ⊢
    obtain ⟨left,rfl⟩ : ∃ left,steps=left+1 := ⟨steps-1,by omega⟩
    obtain ⟨st1,h1,hstep⟩ := siifindLoop_step hs h hn hgo.2.1 hgo.2.2
    have hle := le_sectionEnd (contents slave) cat (nextSection (contents slave) n)
    have hfar : n+4 ≤ nextSection (contents slave) n := Nat.le_add_right _ _
    obtain ⟨st',hrun,h'⟩ := @ih left st1 h1 (nextSection_even _ hn) hend (by omega)
    refine ⟨st',?_,h'⟩
    rw [hstep,Nat.mod_eq_of_lt (by omega)]
    exact hrun
  | case2 n hstop =>
    intro steps st h hn hend hsteps
    have hstops := sectionEnd_stops (contents slave) cat n
    rw [sectionEnd,if_neg hstop] at hend hstops ⊢
    obtain ⟨left,rfl⟩ : ∃ left,steps=left+1 := ⟨steps-1,by omega⟩
    refine ⟨st,?_,h⟩
    have hnot : ¬(siiWord (contents slave) n≠cat ∧ siiWord (contents slave) n≠0xffff) := by
      rintro ⟨hcat,hmore⟩
      exact hstops.elim hcat hmore
    rw [siifindLoop,if_neg hnot]
    rfl

theorem siifind_yields (hs : Readable ctx fuel contents slave)
    (hend : SearchEnds (contents slave) cat) (hsteps : ecMaxEepBuf ≤ steps) :
    Yields (Cached contents) (siifind ctx fuel steps slave cat)
      (siiAddress (contents slave) cat) := by
  intro st h
  have hbuf : ecMaxEepBuf=4096 := rfl
  have hstart : ectSiiStart <<< 1=128 := rfl
  obtain ⟨st1,h1,hcall⟩ := siifind_start hs h
  obtain ⟨st2,hloop,h2⟩ := siifindLoop_ends hs _ h1 (by decide) hend
    (show ecMaxEepBuf-(ectSiiStart <<< 1)<steps by omega)
  obtain ⟨pdi,t,hrest⟩ := eeprom2pdi_end ctx slave (st.eepPdi slave)
    (siiAddress (contents slave) cat) st2
  refine ⟨_,?_,show Cached contents { st2 with eepPdi := pdi,env := t } from h2⟩
  rw [hcall,run_bind hloop]
  exact hrest

theorem siifind_bind_yields (hs : Readable ctx fuel contents slave)
    (hend : SearchEnds (contents slave) cat) (hsteps : ecMaxEepBuf ≤ steps) {f : Int16 → SiiM σ α}
    (hf : Yields (Cached contents) (f (siiAddress (contents slave) cat)) a) :
    Yields (Cached contents) (siifind ctx fuel steps slave cat >>= f) a :=
  (siifind_yields hs hend hsteps).bind hf

theorem readOut_ite_yields (hs : Readable ctx fuel contents slave) (c : Prop) [Decidable c]
    (x : ByteQuery α) (a : α) :
    Yields (Cached contents) (if c then readOut ctx fuel slave x else pure a)
      (if c then x.eval (siiTable (contents slave)) else a) := by
  split_ifs
  · exact readOut_yields hs x
  · exact Yields.pure a

end Runs

section Values

variable (rom : Nat → UInt8)

def siiStringOf (str : List UInt8) (Sn : UInt16) : List UInt8 :=
  if (siiAddress rom ectSiiString).toUInt16>0 then
    (stringAt (siiAddress rom ectSiiString).toUInt16 Sn).eval (siiTable rom)
  else str

def siiFmmuOf : EepromFmmu :=
  let fmmu : EepromFmmu := ⟨(siiAddress rom ectSiiFmmu).toUInt16,0,0,0,0,0⟩
  if fmmu.startpos>0 then (fmmuAt fmmu).eval (siiTable rom) else fmmu

def siiSmOf (sm : EepromSm) : EepromSm :=
  let sm := { sm with nSm := 0,startpos := (siiAddress rom ectSiiSm).toUInt16 }
  if sm.startpos>0 then (smAt sm).eval (siiTable rom) else sm

def siiSmNextOf (sm : EepromSm) (n : UInt16) : UInt16 × EepromSm :=
  if n<sm.nSm.toUInt16 then (1,(nextSmAt sm n).eval (siiTable rom)) else (0,sm)

end Values

section Calls

variable {ctx : SiiContext σ} {fuel steps : Nat} {slave : UInt16}
  {contents : UInt16 → Nat → UInt8}

theorem siistring_yields (hs : Readable ctx fuel contents slave)
    (hend : SearchEnds (contents slave) ectSiiString) (hsteps : ecMaxEepBuf ≤ steps)
    (str : List UInt8) (Sn : UInt16) :
    Yields (Cached contents) (siistring ctx fuel slave steps str Sn)
      (siiStringOf (contents slave) str Sn) := by
  apply restoring_yields
  apply siifind_bind_yields hs hend hsteps
  exact readOut_ite_yields hs _ _ str

theorem siiFmmu_yields (hs : Readable ctx fuel contents slave)
    (hend : SearchEnds (contents slave) ectSiiFmmu) (hsteps : ecMaxEepBuf ≤ steps) :
    Yields (Cached contents) (siiFmmu ctx fuel slave steps) (siiFmmuOf (contents slave)) := by
  apply restoring_yields
  apply siifind_bind_yields hs hend hsteps
  exact readOut_ite_yields hs _ _ _

theorem siiSm_yields (hs : Readable ctx fuel contents slave)
    (hend : SearchEnds (contents slave) ectSiiSm) (hsteps : ecMaxEepBuf ≤ steps) (sm : EepromSm) :
    Yields (Cached contents) (siiSm ctx fuel slave steps sm) (siiSmOf (contents slave) sm) := by
  apply restoring_yields
  apply siifind_bind_yields hs hend hsteps
  exact readOut_ite_yields hs _ _ _

theorem siiSmNext_yields (hs : Readable ctx fuel contents slave) (sm : EepromSm) (n : UInt16) :
    Yields (Cached contents) (siiSmNext ctx fuel slave sm n)
      (siiSmNextOf (contents slave) sm n) := by
  apply restoring_yields
  rw [siiSmNextOf]
  split_ifs
  · exact (readOut_yields hs _).bind (Yields.pure _)
  · exact Yields.pure _

end Calls

def SameArea (rom rom' : Nat → UInt8) : Prop := ∀ a,ectSiiStart <<< 1 ≤ a → rom a=rom' a

def InArea (a : UInt16) : Prop := ectSiiStart <<< 1 ≤ a.toNat

def AreaFrom (a : UInt16) (n : Nat) : Prop := ectSiiStart <<< 1 ≤ a.toNat ∧ a.toNat+n<2^16

section Area

variable {rom rom' : Nat → UInt8} {cat : UInt16}

theorem AreaFrom.step {a k : UInt16} {n : Nat} (h : AreaFrom a n) (m : Nat) (hk : k.toNat=m)
    (hm : m ≤ n) : AreaFrom (a+k) (n-m) := by
  obtain ⟨hlow,hhigh⟩ := h
  have hadd : (a+k).toNat=a.toNat+m := by
    rw [UInt16.toNat_add,hk]
    exact Nat.mod_eq_of_lt (by omega)
  refine ⟨?_,?_⟩ <;> rw [hadd] <;> omega

theorem AreaFrom.less {a : UInt16} {n m : Nat} (h : AreaFrom a n) (hm : m ≤ n) : AreaFrom a m :=
  ⟨h.1,by have := h.2; omega⟩

theorem asks_byte {a : UInt16} {n : Nat} (h : AreaFrom a n) :
    (Query.entry a : ByteQuery UInt8).Asks InArea := (Query.asks_entry a).mpr h.1

theorem asks_wordAt {a : UInt16} {n : Nat} (h : AreaFrom a (n+1)) : (wordAt a).Asks InArea := by
  apply Query.Asks.bind (asks_byte h)
  intro low
  apply Query.Asks.bind (asks_byte (h.step 1 rfl (by omega)))
  exact fun high => trivial

theorem asks_copyString (left : Nat) : ∀ (j : Nat) {ba : UInt16},AreaFrom ba left →
    (copyString left j ba).Asks InArea := by
  induction left with
  | zero => exact fun _ _ _ => trivial
  | succ left ih =>
    intro j ba h
    have hnext : AreaFrom (ba+1) left := h.step 1 rfl (by omega)
    rw [copyString]
    split_ifs
    · apply Query.Asks.bind (asks_byte h)
      exact fun c => (ih (j+1) hnext).bind fun rest => trivial
    · exact ih (j+1) hnext

theorem asks_stringAt {a : UInt16} (h : AreaFrom a 300) : (stringAt a 1).Asks InArea := by
  have hcount : AreaFrom (a+2) 298 := h.step 2 rfl (by decide)
  have hstart : AreaFrom (a+2+1) 297 := hcount.step 1 rfl (by decide)
  apply Query.Asks.bind (asks_byte hcount)
  intro n
  split_ifs
  · apply Query.Asks.bind (asks_byte hstart)
    intro l
    have hlength := l.toNat_lt
    exact asks_copyString _ 1 ((hstart.step 1 rfl (by decide)).less (by omega))
  · trivial

theorem asks_fmmuAt {fmmu : EepromFmmu} (h : AreaFrom fmmu.startpos 5) :
    (fmmuAt fmmu).Asks InArea := by
  apply Query.Asks.bind (asks_wordAt h)
  intro w
  apply Query.Asks.bind (asks_byte (h.step 2 rfl (by decide)))
  intro fmmu0
  apply Query.Asks.bind (asks_byte (h.step 3 rfl (by decide)))
  intro fmmu1
  split_ifs
  · apply Query.Asks.bind (asks_byte (h.step 4 rfl (by decide)))
    exact fun fmmu2 => (asks_byte (h.step 5 rfl (by decide))).bind fun fmmu3 => trivial
  · trivial

theorem asks_smEntryAt {a : UInt16} (sm : EepromSm) (h : AreaFrom a 7) :
    (smEntryAt a sm).Asks InArea := by
  apply Query.Asks.bind (asks_wordAt h)
  intro phStart
  apply Query.Asks.bind (asks_wordAt (h.step 2 rfl (by decide)))
  intro plength
  apply Query.Asks.bind (asks_byte (h.step 4 rfl (by decide)))
  intro creg
  apply Query.Asks.bind (asks_byte (h.step 5 rfl (by decide)))
  intro sreg
  apply Query.Asks.bind (asks_byte (h.step 6 rfl (by decide)))
  exact fun activate => (asks_byte (h.step 7 rfl (by decide))).bind fun pdiCtrl => trivial

theorem asks_smAt {sm : EepromSm} (h : AreaFrom sm.startpos 9) : (smAt sm).Asks InArea := by
  apply Query.Asks.bind (asks_wordAt h)
  exact fun w => asks_smEntryAt _ (h.step 2 rfl (by decide))

theorem asks_nextSmAt {sm : EepromSm} {n : UInt16} (hn : n.toNat<8) (h : AreaFrom sm.startpos 80) :
    (nextSmAt sm n).Asks InArea := by
  have hskip : (n*8).toNat=n.toNat*8 := by
    rw [UInt16.toNat_mul]
    exact Nat.mod_eq_of_lt (show n.toNat*8<2^16 by omega)
  exact asks_smEntryAt _ (((h.step 2 rfl (by decide)).step _ hskip (by omega)).less (by omega))

theorem SameArea.siiTable (h : SameArea rom rom') (a : UInt16) (ha : InArea a) :
    siiTable rom a=siiTable rom' a := by
  rw [Sii.siiTable,Sii.siiTable,siiByte,siiByte,h _ ha]

theorem SameArea.siiWord (h : SameArea rom rom') {n : Nat} (hn : ectSiiStart <<< 1 ≤ n) :
    siiWord rom n=siiWord rom' n := by
  rw [Sii.siiWord,Sii.siiWord,siiByte,siiByte,siiByte,siiByte,h n hn,h (n+1) (by omega)]

theorem SameArea.sectionEnd (h : SameArea rom rom') (cat : UInt16) (n : Nat) :
    ectSiiStart <<< 1 ≤ n → sectionEnd rom cat n=sectionEnd rom' cat n := by
  induction n using sectionEnd.induct rom cat with
  | case1 n hgo ih =>
    intro hn
    have hnext : nextSection rom n=nextSection rom' n := by
      rw [nextSection,nextSection,h.siiWord (show ectSiiStart <<< 1 ≤ n+2 by omega)]
    have hfar : n ≤ nextSection rom n := by
      rw [nextSection]
      omega
    rw [Sii.sectionEnd,if_pos hgo,ih (hn.trans hfar),hnext]
    conv_rhs => rw [Sii.sectionEnd,if_pos (h.siiWord hn ▸ hgo)]
  | case2 n hstop =>
    intro hn
    rw [Sii.sectionEnd,if_neg hstop,Sii.sectionEnd,if_neg (h.siiWord hn ▸ hstop)]

theorem SameArea.siiAddress (h : SameArea rom rom') (cat : UInt16) :
    siiAddress rom cat=siiAddress rom' cat := by
  have hstart := le_sectionEnd rom' cat (ectSiiStart <<< 1)
  rw [Sii.siiAddress,Sii.siiAddress,foundAddress,foundAddress,h.sectionEnd cat _ (Nat.le_refl _),
    h.siiWord hstart]

theorem siiAddress_found (hcat : cat≠0xffff) (h : siiAddress rom cat≠0) :
    ∃ n,ectSiiStart <<< 1 ≤ n ∧ n<ecMaxEepBuf ∧ siiWord rom n=cat ∧
      sectionEnd rom cat (ectSiiStart <<< 1)=n ∧ siiAddress rom cat=Int16.ofNat (n+2) := by
  rw [siiAddress,foundAddress] at h ⊢
  split_ifs at h ⊢ with hword
  · exact absurd rfl h
  · refine ⟨_,le_sectionEnd _ _ _,?_,not_not.mp hword,rfl,rfl⟩
    by_contra hpast
    rw [siiWord_past (Nat.not_lt.mp hpast)] at hword
    exact hcat (not_not.mp hword).symm

theorem siiAddress_area (hcat : cat≠0xffff) (h : (siiAddress rom cat).toUInt16≠0) :
    AreaFrom (siiAddress rom cat).toUInt16 400 := by
  have hfound : siiAddress rom cat≠0 := by
    intro hzero
    rw [hzero] at h
    exact h rfl
  obtain ⟨n,hlow,hhigh,-,-,haddress⟩ := siiAddress_found hcat hfound
  have hbuf : ecMaxEepBuf=4096 := rfl
  rw [AreaFrom,haddress,Int16.toUInt16_ofNat',UInt16.toNat_ofNat',Nat.mod_eq_of_lt (by omega)]
  omega

theorem siiAddress_reads (hcat : cat≠0xffff) (h : (siiAddress rom cat).toUInt16>0) :
    AreaFrom (siiAddress rom cat).toUInt16 400 := by
  apply siiAddress_area hcat
  intro hzero
  rw [hzero] at h
  exact UInt16.lt_irrefl 0 h

theorem SameArea.siiStringOf (h : SameArea rom rom') (str : List UInt8) :
    siiStringOf rom str 1=siiStringOf rom' str 1 := by
  have hstring : ectSiiString≠0xffff := by decide
  rw [Sii.siiStringOf,Sii.siiStringOf,← h.siiAddress]
  split_ifs with hfound
  · have harea := (siiAddress_reads hstring hfound).less (show 300 ≤ 400 by decide)
    exact (asks_stringAt harea).eval_congr h.siiTable
  · rfl

theorem SameArea.siiFmmuOf (h : SameArea rom rom') : siiFmmuOf rom=siiFmmuOf rom' := by
  have hfmmu : ectSiiFmmu≠0xffff := by decide
  rw [Sii.siiFmmuOf,Sii.siiFmmuOf,← h.siiAddress]
  split_ifs with hfound
  · have harea := (siiAddress_reads hfmmu hfound).less (show 5 ≤ 400 by decide)
    exact (@asks_fmmuAt ⟨_,0,0,0,0,0⟩ harea).eval_congr h.siiTable
  · rfl

theorem SameArea.siiSmOf (h : SameArea rom rom') (sm : EepromSm) :
    siiSmOf rom sm=siiSmOf rom' sm := by
  have hsm : ectSiiSm≠0xffff := by decide
  rw [Sii.siiSmOf,Sii.siiSmOf,← h.siiAddress]
  split_ifs with hfound
  · have harea := (siiAddress_reads hsm hfound).less (show 9 ≤ 400 by decide)
    exact (@asks_smAt { sm with nSm := 0,startpos := _ } harea).eval_congr h.siiTable
  · rfl

theorem SameArea.siiSmNextOf (h : SameArea rom rom') {sm : EepromSm} {n : UInt16} (hn : n.toNat<8)
    (harea : AreaFrom sm.startpos 80) : siiSmNextOf rom sm n=siiSmNextOf rom' sm n := by
  rw [Sii.siiSmNextOf,Sii.siiSmNextOf]
  split_ifs
  · rw [(asks_nextSmAt hn harea).eval_congr h.siiTable]
  · rfl

end Area

end EtherCATMaster.Sii
