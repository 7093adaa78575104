import EtherCATMaster.Framework.Bitmap
import EtherCATMaster.Sii.Eeprom

namespace EtherCATMaster.Sii
open EtherCATMaster.Framework

def ecMaxEepBitmap : Nat := 128
def ecMaxEepBuf : Nat := ecMaxEepBitmap <<< 5

/-- An access to one of the two arrays of the cache. -/
inductive SiiAccess where
  | esibuf (i : Nat)
  | esimap (i : Nat)
deriving DecidableEq,Repr

def SiiAccess.Inside : SiiAccess → Prop
  | .esibuf i => i<ecMaxEepBuf
  | .esimap i => i<ecMaxEepBitmap

instance : DecidablePred SiiAccess.Inside
  | .esibuf i => inferInstanceAs (Decidable (i<ecMaxEepBuf))
  | .esimap i => inferInstanceAs (Decidable (i<ecMaxEepBitmap))

/-- The parts of the context that the SII reader changes. Every access to the arrays is recorded;
one past their end meets a cell of its own. -/
structure SiiState (σ : Type) where
  esibuf : Nat → UInt8
  esimap : Nat → UInt32
  esislave : UInt16
  eepPdi : UInt16 → Bool
  accesses : List SiiAccess
  env : σ

/-- What the slave list says of the slaves, and the port to them. -/
structure SiiContext (σ : Type) where
  port : EepromPort σ
  configadr : UInt16 → UInt16
  eep8byte : UInt16 → Bool

abbrev SiiM (σ : Type) := Program SiiHalt (SiiState σ)

variable {σ : Type}

def onPort {α : Type} (x : Program SiiHalt σ α) : SiiM σ α := fun st =>
  match x st.env with
  | .ok (a,t) => .ok (a,{ st with env := t })
  | .error e => .error e

/-- `ecx_eeprom2master` -/
def eeprom2master (ctx : SiiContext σ) (slave : UInt16) : SiiM σ Int := do
  let st ← get
  if st.eepPdi slave=true then
    -- force EEPROM from PDI, then set it to master
    let _ ← onPort (ctx.port.writeRetry (ctx.configadr slave) ectRegEepcfg [2] ecDefaultRetries)
    let wkc ← onPort (ctx.port.writeRetry (ctx.configadr slave) ectRegEepcfg [0] ecDefaultRetries)
    modify fun st => { st with eepPdi := Function.update st.eepPdi slave false }
    pure wkc
  else pure 1

/-- `ecx_eeprom2pdi` -/
def eeprom2pdi (ctx : SiiContext σ) (slave : UInt16) : SiiM σ Int := do
  let st ← get
  if st.eepPdi slave=false then
    let wkc ← onPort (ctx.port.writeRetry (ctx.configadr slave) ectRegEepcfg [1] ecDefaultRetries)
    modify fun st => { st with eepPdi := Function.update st.eepPdi slave true }
    pure wkc
  else pure 1

def selectSlave (slave : UInt16) : SiiM σ Unit := modify fun st =>
  if slave≠st.esislave then
    { st with
      esimap := fun i => if i<ecMaxEepBitmap then 0 else st.esimap i
      esislave := slave
      accesses := st.accesses++(List.range ecMaxEepBitmap).map .esimap }
  else st

def readEsimap (i : Nat) : SiiM σ UInt32 := fun st =>
  .ok (st.esimap i,{ st with accesses := st.accesses++[.esimap i] })

def readEsibuf (i : Nat) : SiiM σ UInt8 := fun st =>
  .ok (st.esibuf i,{ st with accesses := st.accesses++[.esibuf i] })

def storeBytes (buf : Nat → UInt8) (i : Nat) (bytes : List UInt8) : Nat → UInt8 := fun j =>
  if i ≤ j then (bytes[j-i]?).getD (buf j) else buf j

def putUnaligned (i : Nat) (bytes : List UInt8) : SiiM σ Unit := modify fun st =>
  { st with
    esibuf := storeBytes st.esibuf i bytes
    accesses := st.accesses++(List.range bytes.length).map fun k => .esibuf (i+k) }

/-- `esimap[mapw] |= (1U << mapb)` -/
def setEsimap (mapw mapb : UInt16) : SiiM σ Unit := modify fun st =>
  { st with
    esimap := Function.update st.esimap mapw.toNat
      (st.esimap mapw.toNat ||| (1 : UInt32) <<< UInt32.ofNat mapb.toNat)
    accesses := st.accesses++[.esimap mapw.toNat] }

def markBytes : Nat → UInt16 → UInt16 → SiiM σ Unit
  | 0,_,_ => pure ()
  | cnt+1,mapw,mapb => do
    setEsimap mapw mapb
    if mapb+1>31 then markBytes cnt (mapw+1) 0 else markBytes cnt mapw (mapb+1)

/-- The block that holds a byte is read into the cache. -/
def fetchBlock (ctx : SiiContext σ) (fuel : Nat) (slave address : UInt16) : SiiM σ Unit := do
  let _ ← eeprom2master ctx slave
  let eadr := address >>> 1
  let edat64 ← onPort (readeepromFP ctx.port fuel (ctx.configadr slave) eadr)
  let bytes := if ctx.eep8byte slave then leBytes 8 edat64.toNat
    else leBytes 4 edat64.toUInt32.toNat
  putUnaligned (eadr.toNat <<< 1) bytes
  let mapw := eadr >>> 4
  markBytes (if ctx.eep8byte slave then 8 else 4) mapw ((eadr <<< 1)-(mapw <<< 5))

/-- `ecx_siigetbyte` -/
def siigetbyte (ctx : SiiContext σ) (fuel : Nat) (slave address : UInt16) : SiiM σ UInt8 := do
  selectSlave slave
  if address.toNat<ecMaxEepBuf then
    let mapw := address >>> 5
    let mapb := address-(mapw <<< 5)
    let word ← readEsimap mapw.toNat
    if word &&& (1 : UInt32) <<< UInt32.ofNat mapb.toNat≠0 then readEsibuf address.toNat
    else
      fetchBlock ctx fuel slave address
      readEsibuf address.toNat
  else pure 0xff

/-- The bytes that the cache gives out are those of the slave whose cache it is. -/
def Cached (contents : UInt16 → Nat → UInt8) (st : SiiState σ) : Prop :=
  ∀ a<ecMaxEepBuf,marked st.esimap a=true → st.esibuf a=contents st.esislave a

/-- What `ecx_siigetbyte` is to return for a byte of such contents. -/
def siiByte (rom : Nat → UInt8) (a : Nat) : UInt8 := if a<ecMaxEepBuf then rom a else 0xff

/-- The byte is in the cache, or the block that begins at its word ends within the buffer. -/
def BlockFits (ctx : SiiContext σ) (slave address : UInt16) (st : SiiState σ) : Prop :=
  slave=st.esislave ∧ marked st.esimap address.toNat=true ∨
    2*(address.toNat/2)+eepBlockSize (ctx.eep8byte slave) ≤ ecMaxEepBuf

theorem mapWord (x : UInt16) : (x >>> 5).toNat=x.toNat/32 := by
  rw [UInt16.toNat_shiftRight]
  exact Nat.shiftRight_eq_div_pow _ _

theorem mapBit (x : UInt16) : (x-((x >>> 5) <<< 5)).toNat=x.toNat%32 := by
  have hlt := x.toNat_lt
  have hshift : ((x >>> 5) <<< 5).toNat=x.toNat/32*32 := by
    rw [UInt16.toNat_shiftLeft,mapWord,show (5 : UInt16).toNat%16=5 from rfl,Nat.shiftLeft_eq]
    exact Nat.mod_eq_of_lt (by omega)
  rw [UInt16.toNat_sub_of_le _ _ (UInt16.le_iff_toNat_le.mpr (by omega)),hshift]
  omega

/-- The loop steps through the bits of the block, across the borders of the words. -/
theorem markBytes_run (cnt : Nat) : ∀ (i : Nat) {mapw mapb : UInt16} (st : SiiState σ),
    mapw.toNat=i/32 → mapb.toNat=i%32 → i+cnt<2^16 → markBytes cnt mapw mapb st=
      .ok ((),{ st with
        esimap := markBlock st.esimap i cnt
        accesses := st.accesses++(List.range cnt).map fun k => .esimap ((i+k)/32) }) := by
  induction cnt with
  | zero =>
    intro i mapw mapb st _ _ _
    rw [List.range_zero,List.map_nil,List.append_nil]
    rfl
  | succ cnt ih =>
    intro i mapw mapb st hw hb hlt
    have hset : setEsimap mapw mapb st=.ok ((),{ st with
        esimap := mark st.esimap i
        accesses := st.accesses++[.esimap (i/32)] }) := by
      rw [mark,← hw,← hb]
      rfl
    have haccesses : (List.range (cnt+1)).map (fun k => SiiAccess.esimap ((i+k)/32))=
        .esimap (i/32)::(List.range cnt).map fun k => .esimap ((i+1+k)/32) := by
      rw [List.range_succ_eq_map,List.map_cons,List.map_map]
      congr 1
      apply List.map_congr_left
      intro k _
      exact congrArg SiiAccess.esimap (show (i+(k+1))/32=(i+1+k)/32 by omega)
    have hone : (1 : UInt16).toNat=1 := rfl
    have hnext : (mapb+1).toNat=i%32+1 := by
      rw [UInt16.toNat_add,hb,hone]
      omega
    rw [markBytes,run_bind hset,haccesses]
    by_cases hborder : mapb+1>31
    · have hend : 31 < i%32+1 := hnext ▸ UInt16.lt_iff_toNat_lt.mp hborder
      rw [if_pos hborder,ih (i+1) _ (by rw [UInt16.toNat_add,hw,hone]; omega)
        (show (0 : UInt16).toNat=_ by change 0=_; omega) (by omega)]
      simp only [List.append_assoc,List.singleton_append]
      rfl
    · have hwithin : ¬31 < i%32+1 := by
        rw [← hnext]
        exact fun h => hborder (UInt16.lt_iff_toNat_lt.mpr h)
      rw [if_neg hborder,ih (i+1) _ (by rw [hw]; omega) (by rw [hnext]; omega) (by omega)]
      simp only [List.append_assoc,List.singleton_append]
      rfl

theorem storeBytes_romBlock (buf rom : Nat → UInt8) (word n j : Nat) :
    storeBytes buf (2*word) (romBlock rom word n) j=
      if 2*word ≤ j ∧ j<2*word+n then rom j else buf j := by
  rw [storeBytes]
  by_cases hfrom : 2*word ≤ j
  · rw [if_pos hfrom]
    by_cases hto : j<2*word+n
    · rw [if_pos ⟨hfrom,hto⟩,romBlock_get (show j-2*word<n by omega),Option.getD_some]
      congr 1
      omega
    · have hnone : (romBlock rom word n)[j-2*word]?=none := by
        rw [List.getElem?_eq_none_iff,romBlock_length]
        omega
      rw [if_neg (fun h => hto h.2),hnone,Option.getD_none]
  · rw [if_neg hfrom,if_neg (fun h => hfrom h.1)]

theorem onPort_run {α : Type} {x : Program SiiHalt σ α} (st : SiiState σ) {a : α} {t : σ}
    (h : x st.env=.ok (a,t)) : onPort x st=.ok (a,{ st with env := t }) := by
  rw [onPort,h]

theorem siiState_run (st : SiiState σ) : (get : SiiM σ (SiiState σ)) st=.ok (st,st) := rfl

theorem eeprom2master_run (ctx : SiiContext σ) (slave : UInt16) (st : SiiState σ) :
    ∃ wkc pdi t,eeprom2master ctx slave st=.ok (wkc,{ st with eepPdi := pdi,env := t }) := by
  by_cases hpdi : st.eepPdi slave=true
  · obtain ⟨wkc,t,hforce⟩ := ctx.port.writeRetry_returns (ctx.configadr slave) ectRegEepcfg [2]
      ecDefaultRetries st.env
    obtain ⟨wkc',t',hset⟩ := ctx.port.writeRetry_returns (ctx.configadr slave) ectRegEepcfg [0]
      ecDefaultRetries t
    refine ⟨wkc',Function.update st.eepPdi slave false,t',?_⟩
    rw [eeprom2master,run_bind (siiState_run st),if_pos hpdi,run_bind (onPort_run _ hforce)]
    exact run_bind (onPort_run { st with env := t } hset)
  · refine ⟨1,st.eepPdi,st.env,?_⟩
    rw [eeprom2master,run_bind (siiState_run st),if_neg hpdi]
    rfl

theorem eeprom2pdi_run (ctx : SiiContext σ) (slave : UInt16) (st : SiiState σ) :
    ∃ wkc pdi t,eeprom2pdi ctx slave st=.ok (wkc,{ st with eepPdi := pdi,env := t }) := by
  by_cases hpdi : st.eepPdi slave=false
  · obtain ⟨wkc,t,hset⟩ := ctx.port.writeRetry_returns (ctx.configadr slave) ectRegEepcfg [1]
      ecDefaultRetries st.env
    refine ⟨wkc,Function.update st.eepPdi slave true,t,?_⟩
    rw [eeprom2pdi,run_bind (siiState_run st),if_pos hpdi]
    exact run_bind (onPort_run _ hset)
  · refine ⟨1,st.eepPdi,st.env,?_⟩
    rw [eeprom2pdi,run_bind (siiState_run st),if_neg hpdi]
    rfl

theorem eeprom2pdi_end {α : Type} (ctx : SiiContext σ) (slave : UInt16) (eectl : Bool) (a : α)
    (st : SiiState σ) : ∃ pdi t,
    (if eectl then do
        let _ ← eeprom2pdi ctx slave
        pure a
      else pure a : SiiM σ α) st=.ok (a,{ st with eepPdi := pdi,env := t }) := by
  obtain ⟨wkc,pdi,t,hpdi⟩ := eeprom2pdi_run ctx slave st
  cases eectl with
  | true => exact ⟨pdi,t,run_bind hpdi⟩
  | false => exact ⟨st.eepPdi,st.env,rfl⟩

theorem blockBytes {edat64 : UInt64} {bytes : List UInt8} {eep8byte : Bool}
    (hlen : bytes.length=eepBlockSize eep8byte)
    (hedat : edat64=UInt64.ofNat (leValue bytes)) :
    (if eep8byte then leBytes 8 edat64.toNat else leBytes 4 edat64.toUInt32.toNat)=bytes := by
  have hlt := leValue_lt bytes
  have hback := leBytes_leValue bytes
  cases eep8byte with
  | true =>
    have h8 : bytes.length=8 := hlen
    rw [h8] at hlt hback
    have hlt64 : leValue bytes<2^64 := hlt
    rw [if_pos rfl,hedat,UInt64.toNat_ofNat',Nat.mod_eq_of_lt hlt64,hback]
  | false =>
    have h4 : bytes.length=4 := hlen
    rw [h4] at hlt hback
    have hlt32 : leValue bytes<2^32 := hlt
    have hlt64 : leValue bytes<2^64 := hlt32.trans (by decide)
    rw [if_neg Bool.false_ne_true,hedat,UInt64.toNat_toUInt32,UInt64.toNat_ofNat',
      Nat.mod_eq_of_lt hlt64,Nat.mod_eq_of_lt hlt32,hback]

section Serving

variable {ctx : SiiContext σ} {fuel : Nat} {slave : UInt16} {rom : Nat → UInt8}

/-- The accesses that put a block of `n` bytes at `b` into the cache. -/
def blockAccesses (b n : Nat) : List SiiAccess :=
  (List.range n).map (fun k => .esibuf (b+k))++(List.range n).map fun k => .esimap ((b+k)/32)

/-- A block that is fetched has its bytes in the cache and its bits in the map. -/
theorem fetchBlock_run
    (hs : ServesEeprom ctx.port fuel (ctx.configadr slave) rom (ctx.eep8byte slave))
    {address : UInt16} (haddr : address.toNat<ecMaxEepBuf) (st : SiiState σ) :
    ∃ st',fetchBlock ctx fuel slave address st=.ok ((),st') ∧
      st'.esibuf=storeBytes st.esibuf (2*(address.toNat/2))
        (romBlock rom (address.toNat/2) (eepBlockSize (ctx.eep8byte slave))) ∧
      st'.esimap=markBlock st.esimap (2*(address.toNat/2)) (eepBlockSize (ctx.eep8byte slave)) ∧
      st'.esislave=st.esislave ∧ st'.accesses=st.accesses++
        blockAccesses (2*(address.toNat/2)) (eepBlockSize (ctx.eep8byte slave)) := by
  have hsmall : address.toNat<4096 := haddr
  have hword : (address >>> 1).toNat=address.toNat/2 := by
    rw [UInt16.toNat_shiftRight]
    exact Nat.shiftRight_eq_div_pow _ _
  have hfirst : ((address >>> 1) <<< 1).toNat=2*(address.toNat/2) := by
    rw [UInt16.toNat_shiftLeft,hword,show (1 : UInt16).toNat%16=1 from rfl,Nat.shiftLeft_eq]
    omega
  have hmapw : ((address >>> 1) >>> 4).toNat=2*(address.toNat/2)/32 := by
    rw [UInt16.toNat_shiftRight,hword,show (4 : UInt16).toNat%16=4 from rfl,
      Nat.shiftRight_eq_div_pow]
    omega
  have hmapb : (((address >>> 1) <<< 1)-(((address >>> 1) >>> 4) <<< 5)).toNat=
      2*(address.toNat/2)%32 := by
    have hshift : (((address >>> 1) >>> 4) <<< 5).toNat=2*(address.toNat/2)/32*32 := by
      rw [UInt16.toNat_shiftLeft,hmapw,show (5 : UInt16).toNat%16=5 from rfl,Nat.shiftLeft_eq]
      exact Nat.mod_eq_of_lt (by omega)
    rw [UInt16.toNat_sub_of_le _ _ (UInt16.le_iff_toNat_le.mpr (by omega)),hfirst,hshift]
    omega
  have hsize : (if ctx.eep8byte slave=true then 8 else 4)=eepBlockSize (ctx.eep8byte slave) := rfl
  have hle : eepBlockSize (ctx.eep8byte slave) ≤ 8 := by
    rw [eepBlockSize]
    split_ifs <;> omega
  obtain ⟨wkc,pdi,t,hmaster⟩ := eeprom2master_run ctx slave st
  obtain ⟨t',hread⟩ := hs.readeepromFP (address >>> 1) t
  rw [hword] at hread
  let stored : SiiState σ := { st with
    esibuf := storeBytes st.esibuf (2*(address.toNat/2))
      (romBlock rom (address.toNat/2) (eepBlockSize (ctx.eep8byte slave)))
    eepPdi := pdi
    accesses := st.accesses++(List.range (eepBlockSize (ctx.eep8byte slave))).map
      fun k => .esibuf (2*(address.toNat/2)+k)
    env := t' }
  have hput : putUnaligned (2*(address.toNat/2))
      (romBlock rom (address.toNat/2) (eepBlockSize (ctx.eep8byte slave)))
      { st with eepPdi := pdi,env := t' }=.ok ((),stored) := by
    change Except.ok _=_
    rw [romBlock_length]
  have hfetch : fetchBlock ctx fuel slave address st=
      markBytes (eepBlockSize (ctx.eep8byte slave)) ((address >>> 1) >>> 4)
        (((address >>> 1) <<< 1)-(((address >>> 1) >>> 4) <<< 5)) stored := by
    rw [fetchBlock,run_bind hmaster]
    dsimp only
    rw [run_bind (onPort_run { st with eepPdi := pdi,env := t } hread),
      blockBytes (romBlock_length _ _ _) rfl,hword,
      show (address.toNat/2) <<< 1=2*(address.toNat/2) by rw [Nat.shiftLeft_eq]; omega,
      run_bind hput,hsize]
  refine ⟨_,hfetch.trans (markBytes_run _ _ stored hmapw hmapb (by omega)),rfl,rfl,rfl,?_⟩
  rw [blockAccesses,← List.append_assoc]

variable {contents : UInt16 → Nat → UInt8} {st : SiiState σ}

theorem selectSlave_run (h : Cached contents st) (slave : UInt16) :
    ∃ st1,selectSlave slave st=.ok ((),st1) ∧ Cached contents st1 ∧ st1.esislave=slave ∧
      (∀ a<ecMaxEepBuf,(marked st1.esimap a=true ↔
        slave=st.esislave ∧ marked st.esimap a=true)) ∧
      ∃ cleared,st1.accesses=st.accesses++cleared ∧ ∀ x ∈ cleared,x.Inside := by
  by_cases hslave : slave≠st.esislave
  · have hclear : ∀ a<ecMaxEepBuf,
        marked (fun i => if i<ecMaxEepBitmap then 0 else st.esimap i) a=false := by
      intro a ha
      have hword : a/32<ecMaxEepBitmap := by
        rw [Nat.div_lt_iff_lt_mul (by decide)]
        exact ha
      rw [marked,if_pos hword]
      exact Nat.zero_testBit _
    refine ⟨_,congrArg (fun st1 => Except.ok ((),st1)) (if_pos hslave),?_,rfl,?_,_,rfl,?_⟩
    · intro a ha hmarked
      rw [hclear a ha] at hmarked
      exact absurd hmarked Bool.false_ne_true
    · intro a ha
      rw [hclear a ha]
      exact ⟨fun hf => absurd hf Bool.false_ne_true,fun hsame => absurd hsame.1 hslave⟩
    · intro x hx
      obtain ⟨i,hi,rfl⟩ := List.mem_map.mp hx
      exact List.mem_range.mp hi
  · have hsame : slave=st.esislave := not_not.mp hslave
    refine ⟨st,congrArg (fun st1 => Except.ok ((),st1)) (if_neg hslave),h,hsame.symm,?_,[],
      (List.append_nil _).symm,fun x hx => absurd hx List.not_mem_nil⟩
    intro a _
    exact ⟨fun hmarked => ⟨hsame,hmarked⟩,fun hmarked => hmarked.2⟩

theorem Cached.block (h : Cached contents st) {st' : SiiState σ} (word n : Nat)
    (hslave : st'.esislave=st.esislave)
    (hbuf : st'.esibuf=storeBytes st.esibuf (2*word) (romBlock (contents st.esislave) word n))
    (hmap : st'.esimap=markBlock st.esimap (2*word) n) : Cached contents st' := by
  intro a ha hmarked
  rw [hbuf,storeBytes_romBlock,hslave]
  by_cases hin : 2*word ≤ a ∧ a<2*word+n
  · rw [if_pos hin]
  · rw [if_neg hin]
    rw [hmap,marked_markBlock,decide_eq_false hin,Bool.or_false] at hmarked
    exact h a ha hmarked

theorem blockAccesses_inside {b n : Nat} (hn : 0 < n) :
    (∀ x ∈ blockAccesses b n,x.Inside) ↔ b+n ≤ ecMaxEepBuf := by
  constructor
  · intro h
    have hlast : b+(n-1)<ecMaxEepBuf := h _ (List.mem_append_left _
      (List.mem_map.mpr ⟨n-1,List.mem_range.mpr (by omega),rfl⟩))
    omega
  · intro h x hx
    obtain hx|hx := List.mem_append.mp hx
    · obtain ⟨k,hk,rfl⟩ := List.mem_map.mp hx
      have hlt : k<n := List.mem_range.mp hk
      show b+k<ecMaxEepBuf
      omega
    · obtain ⟨k,hk,rfl⟩ := List.mem_map.mp hx
      have hlt : k<n := List.mem_range.mp hk
      have hbuf : ecMaxEepBuf=4096 := rfl
      show (b+k)/32<128
      omega

/-- One byte: it is the byte of the EEPROM whatever is in the cache, and the accesses to the arrays
are inside them exactly if no block is fetched that does not fit. -/
theorem siigetbyte_reads
    (hs : ServesEeprom ctx.port fuel (ctx.configadr slave) (contents slave) (ctx.eep8byte slave))
    (h : Cached contents st) (address : UInt16) :
    ∃ st' new,siigetbyte ctx fuel slave address st=
        .ok (siiByte (contents slave) address.toNat,st') ∧
      Cached contents st' ∧ st'.accesses=st.accesses++new ∧
      (address.toNat<ecMaxEepBuf → ((∀ x ∈ new,x.Inside) ↔ BlockFits ctx slave address st)) := by
  obtain ⟨st1,hselect,h1,hslave1,hmarked1,cleared,haccesses1,hcleared⟩ := selectSlave_run h slave
  by_cases haddr : address.toNat<ecMaxEepBuf
  · have hbuf : ecMaxEepBuf=4096 := rfl
    have hmod := Nat.mod_lt address.toNat (show 0 < 32 by decide)
    have hword : SiiAccess.Inside (.esimap (address.toNat/32)) := by
      show address.toNat/32<128
      omega
    have hbyte : SiiAccess.Inside (.esibuf address.toNat) := haddr
    have hmap : readEsimap (address >>> 5).toNat st1=.ok (st1.esimap (address.toNat/32),
        { st1 with accesses := st1.accesses++[.esimap (address.toNat/32)] }) := by
      rw [mapWord]
      rfl
    rw [siiByte,if_pos haddr]
    by_cases hhit : marked st1.esimap address.toNat=true
    · refine ⟨{ st1 with
        accesses := st1.accesses++[.esimap (address.toNat/32)]++[.esibuf address.toNat] },
        cleared++[.esimap (address.toNat/32)]++[.esibuf address.toNat],?_,h1,?_,fun _ => ?_⟩
      · rw [siigetbyte,run_bind hselect,if_pos haddr,run_bind hmap,
          if_pos (by rw [mapBit]; exact (and_oneBit hmod _).mpr hhit),
          ← hslave1,← h1 _ haddr hhit]
        rfl
      · dsimp only
        rw [haccesses1]
        simp only [List.append_assoc]
      · have hfits : BlockFits ctx slave address st := .inl ((hmarked1 _ haddr).mp hhit)
        refine ⟨fun _ => hfits,fun _ x hx => ?_⟩
        simp only [List.mem_append,List.mem_singleton] at hx
        obtain (hx|rfl)|rfl := hx
        · exact hcleared x hx
        · exact hword
        · exact hbyte
    · obtain ⟨st2,hfetch,hbuf2,hmap2,hslave2,haccesses2⟩ := fetchBlock_run hs haddr
        { st1 with accesses := st1.accesses++[.esimap (address.toNat/32)] }
      have hsize : 4 ≤ eepBlockSize (ctx.eep8byte slave) := by
        rw [eepBlockSize]
        split_ifs <;> omega
      have hin : 2*(address.toNat/2) ≤ address.toNat ∧
          address.toNat<2*(address.toNat/2)+eepBlockSize (ctx.eep8byte slave) := by omega
      refine ⟨{ st2 with accesses := st2.accesses++[.esibuf address.toNat] },
        cleared++[.esimap (address.toNat/32)]++blockAccesses (2*(address.toNat/2))
          (eepBlockSize (ctx.eep8byte slave))++[.esibuf address.toNat],?_,
        h1.block (address.toNat/2) (eepBlockSize (ctx.eep8byte slave)) hslave2
          (by rw [hslave1]; exact hbuf2) hmap2,?_,fun _ => ?_⟩
      · rw [siigetbyte,run_bind hselect,if_pos haddr,run_bind hmap,
          if_neg (by rw [mapBit]; exact fun hset => hhit ((and_oneBit hmod _).mp hset)),
          run_bind hfetch]
        have hbyte2 : st2.esibuf address.toNat=contents slave address.toNat := by
          rw [hbuf2,storeBytes_romBlock,if_pos hin]
        rw [← hbyte2]
        rfl
      · dsimp only
        rw [haccesses2,haccesses1]
        simp only [List.append_assoc]
      · have hblock := blockAccesses_inside (b := 2*(address.toNat/2))
          (show 0 < eepBlockSize (ctx.eep8byte slave) by omega)
        constructor
        · intro hall
          refine .inr (hblock.mp fun x hx => hall x ?_)
          exact List.mem_append_left _ (List.mem_append_right _ hx)
        · intro hfits x hx
          have hend : 2*(address.toNat/2)+eepBlockSize (ctx.eep8byte slave) ≤ ecMaxEepBuf := by
            obtain hcached|hend := hfits
            · exact absurd ((hmarked1 _ haddr).mpr hcached) hhit
            · exact hend
          rw [List.mem_append,List.mem_append,List.mem_append,List.mem_singleton,
            List.mem_singleton] at hx
          obtain ((hx|rfl)|hx)|rfl := hx
          · exact hcleared x hx
          · exact hword
          · exact hblock.mpr hend x hx
          · exact hbyte
  · refine ⟨st1,cleared,?_,h1,haccesses1,fun hlt => absurd hlt haddr⟩
    rw [siigetbyte,run_bind hselect,if_neg haddr,siiByte,if_neg haddr]
    rfl

end Serving

def siiRun (ctx : SiiContext σ) (fuel : Nat) : List (UInt16 × UInt16) → SiiM σ (List UInt8)
  | [] => pure []
  | (slave,address)::rest => do
    let byte ← siigetbyte ctx fuel slave address
    let bytes ← siiRun ctx fuel rest
    pure (byte::bytes)

/-- No request of the run fetches a block that does not fit. -/
def BlocksFit (ctx : SiiContext σ) (fuel : Nat) : List (UInt16 × UInt16) → SiiState σ → Prop
  | [],_ => True
  | (slave,address)::rest,st => BlockFits ctx slave address st ∧
      ∀ byte st',siigetbyte ctx fuel slave address st=.ok (byte,st') → BlocksFit ctx fuel rest st'

/-- Every request returns the byte of the EEPROM, and every access is inside the arrays. -/
def ReadsThrough (ctx : SiiContext σ) (fuel : Nat) (contents : UInt16 → Nat → UInt8)
    (requests : List (UInt16 × UInt16)) (st : SiiState σ) : Prop :=
  ∃ st' new,siiRun ctx fuel requests st=
      .ok (requests.map fun request => contents request.1 request.2.toNat,st') ∧
    st'.accesses=st.accesses++new ∧ ∀ x ∈ new,x.Inside

/-- The EEPROM of this slave can be read. -/
def Readable (ctx : SiiContext σ) (fuel : Nat) (contents : UInt16 → Nat → UInt8)
    (slave : UInt16) : Prop :=
  ServesEeprom ctx.port fuel (ctx.configadr slave) (contents slave) (ctx.eep8byte slave)

section Runs

variable {ctx : SiiContext σ} {fuel : Nat} {contents : UInt16 → Nat → UInt8}

/-- A run returns the bytes of the EEPROM, with its accesses inside the arrays exactly if its blocks
fit. -/
theorem siiRun_reads (requests : List (UInt16 × UInt16))
    (haddr : ∀ request ∈ requests,request.2.toNat<ecMaxEepBuf)
    (hs : ∀ request ∈ requests,Readable ctx fuel contents request.1) :
    ∀ st : SiiState σ,Cached contents st → ∃ st' new,siiRun ctx fuel requests st=
        .ok (requests.map fun request => contents request.1 request.2.toNat,st') ∧
      st'.accesses=st.accesses++new ∧
      ((∀ x ∈ new,x.Inside) ↔ BlocksFit ctx fuel requests st) := by
  induction requests with
  | nil =>
    intro st _
    exact ⟨st,[],rfl,(List.append_nil _).symm,
      fun _ => trivial,fun _ x hx => absurd hx List.not_mem_nil⟩
  | cons request rest ih =>
    obtain ⟨slave,address⟩ := request
    intro st h
    have hlt : address.toNat<ecMaxEepBuf := haddr _ List.mem_cons_self
    obtain ⟨st1,new1,hget,h1,hnew1,hinside⟩ :=
      siigetbyte_reads (hs _ List.mem_cons_self) h address
    rw [siiByte,if_pos hlt] at hget
    obtain ⟨st',new,hrun,hnew,hrest⟩ :=
      ih (fun request hr => haddr request (List.mem_cons_of_mem _ hr))
        (fun request hr => hs request (List.mem_cons_of_mem _ hr)) st1 h1
    refine ⟨st',new1++new,?_,by rw [hnew,hnew1,List.append_assoc],?_⟩
    · rw [siiRun,run_bind hget,run_bind hrun]
      rfl
    · constructor
      · intro hall
        refine ⟨(hinside hlt).mp fun x hx => hall x (List.mem_append_left _ hx),?_⟩
        intro byte st2 hfirst
        cases hget.symm.trans hfirst
        exact hrest.mp fun x hx => hall x (List.mem_append_right _ hx)
      · rintro ⟨hfits,hothers⟩ x hx
        obtain hx|hx := List.mem_append.mp hx
        · exact (hinside hlt).mpr hfits x hx
        · exact hrest.mpr (hothers _ _ hget) x hx

/-- A run reads through the cache exactly if none of its blocks passes the end of the buffer. -/
theorem sii_cache_iff {requests : List (UInt16 × UInt16)} {st : SiiState σ}
    (haddr : ∀ request ∈ requests,request.2.toNat<ecMaxEepBuf)
    (hs : ∀ request ∈ requests,Readable ctx fuel contents request.1)
    (h : Cached contents st) :
    ReadsThrough ctx fuel contents requests st ↔ BlocksFit ctx fuel requests st := by
  obtain ⟨st',new,hrun,hnew,hfit⟩ := siiRun_reads requests haddr hs st h
  constructor
  · rintro ⟨st2,new2,hrun2,hnew2,hall⟩
    cases hrun.symm.trans hrun2
    rw [hnew,List.append_cancel_left_eq] at hnew2
    rw [← hnew2] at hall
    exact hfit.mp hall
  · intro hblocks
    exact ⟨st',new,hrun,hnew,hfit.mpr hblocks⟩

theorem blocksFit_of_ends (requests : List (UInt16 × UInt16))
    (h : ∀ request ∈ requests,2*(request.2.toNat/2)+eepBlockSize (ctx.eep8byte request.1) ≤
      ecMaxEepBuf) : ∀ st : SiiState σ,BlocksFit ctx fuel requests st := by
  induction requests with
  | nil => exact fun _ => trivial
  | cons request rest ih =>
    intro st
    exact ⟨.inr (h _ List.mem_cons_self),fun _ st' _ =>
      ih (fun request hr => h request (List.mem_cons_of_mem _ hr)) st'⟩

end Runs

/-- A line of slaves whose EEPROMs answer at once. The environment is the word that the last command
has asked for. -/
def eepromLine (contents : UInt16 → Nat → UInt8) (eep8byte : UInt16 → Bool) :
    EepromPort UInt16 where
  fprd configadr ado length word :=
    ((1,if ado=ectRegEepdat then romBlock (contents configadr) word.toNat length
      else le16 (if eep8byte configadr then ecEstatR64 else 0)),word)
  fpwr _ _ data word := (1,if data.length=6 then get16 data 2 else word)
  timerIsExpired word := (true,word)

/-- The configured address is the slave's number. -/
def lineContext (contents : UInt16 → Nat → UInt8) (eep8byte : UInt16 → Bool) : SiiContext UInt16 :=
  ⟨eepromLine contents eep8byte,id,eep8byte⟩

/-- The state after the context is set up: nothing is in the cache. -/
def SiiState.start (env : σ) : SiiState σ := ⟨fun _ => 0,fun _ => 0,0,fun _ => false,[],env⟩

theorem start_cached (contents : UInt16 → Nat → UInt8) (env : σ) :
    Cached contents (SiiState.start env) := by
  intro a _ hmarked
  have hclear : marked (SiiState.start env).esimap a=false := Nat.zero_testBit _
  rw [hclear] at hmarked
  exact absurd hmarked Bool.false_ne_true

theorem lineContext_readable (contents : UInt16 → Nat → UInt8) (eep8byte : UInt16 → Bool)
    (fuel : Nat) (slave : UInt16) :
    Readable (lineContext contents eep8byte) (fuel+1) contents slave := by
  refine ⟨fun word s => s=word,?_,?_,?_⟩
  · intro s
    refine ⟨if eep8byte slave then ecEstatR64 else 0,s,?_,?_,?_,fun _ h => h⟩
    · have hread : (eepromLine contents eep8byte).read slave ectRegEepstat 2 s=
          .ok ((1,le16 (if eep8byte slave then ecEstatR64 else 0)),s) := rfl
      refine (run_bind hread).trans ?_
      cases eep8byte slave <;> rfl
    · split_ifs <;> rfl
    · change (if eep8byte slave=true then ecEstatR64 else 0) &&& ecEstatR64≠0 ↔ eep8byte slave=true
      cases eep8byte slave <;> decide
  · intro word s
    have hword : get16 (readCommand word) 2=word := get16_le16 (le16 ecEcmdRead) word (le16 0)
    exact ⟨1,get16 (readCommand word) 2,rfl,by decide,hword⟩
  · intro word s h
    subst h
    exact ⟨1,s,rfl⟩

/-- Contents that differ from slave to slave. -/
def countingContents (slave : UInt16) (a : Nat) : UInt8 := UInt8.ofNat (16*slave.toNat+a)

/-- The first slave hands out eight bytes at once, the others four. -/
def mixedLine : SiiContext UInt16 := lineContext countingContents fun slave => decide (slave=1)

/-- Bytes of two slaves in turn. -/
theorem bytes_in_turn_read : ReadsThrough mixedLine 1 countingContents
    [(1,0),(2,4092),(1,1),(2,4093),(1,4089)] (SiiState.start 0) :=
  (sii_cache_iff (by simp [ecMaxEepBuf,ecMaxEepBitmap])
    (fun request _ => lineContext_readable _ _ 0 request.1) (start_cached _ _)).mpr
    (blocksFit_of_ends _ (by simp [lineContext,eepBlockSize,ecMaxEepBuf,ecMaxEepBitmap]) _)

/-- The last bytes of an EEPROM that hands out eight bytes at once: the block is stored past the
end of the buffer. -/
theorem last_bytes_pass_the_end :
    (∃ byte st',siigetbyte mixedLine 1 1 4092 (SiiState.start 0)=.ok (byte,st') ∧
      .esibuf 4096 ∈ st'.accesses ∧ .esimap 128 ∈ st'.accesses) ∧
    ¬ReadsThrough mixedLine 1 countingContents [(1,4092)] (SiiState.start 0) := by
  have hrun : (siigetbyte mixedLine 1 1 4092 (SiiState.start 0)).toOption.map
      (fun r => decide (.esibuf 4096 ∈ r.2.accesses ∧ .esimap 128 ∈ r.2.accesses))=some true := by
    decide +kernel
  obtain ⟨byte,st',hget,hpast⟩ := returned_of_map hrun
  obtain ⟨hbuf,hmap⟩ := of_decide_eq_true hpast
  refine ⟨⟨byte,st',hget,hbuf,hmap⟩,?_⟩
  rintro ⟨st2,new,hrun2,hnew,hall⟩
  obtain ⟨byte2,st3,hget2,hrest⟩ := bind_ok.mp hrun2
  cases hget.symm.trans hget2
  cases hrest
  have hmem : SiiAccess.esibuf 4096 ∈ new := by
    rw [hnew] at hbuf
    exact hbuf
  exact absurd (hall _ hmem) (Nat.lt_irrefl 4096)

end EtherCATMaster.Sii
