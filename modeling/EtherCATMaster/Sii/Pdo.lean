import EtherCATMaster.Sii.Search
import Mathlib.Algebra.Order.BigOperators.Group.List
import Mathlib.Algebra.Order.Ring.Nat

namespace EtherCATMaster.Sii
open EtherCATMaster.Framework

def ecMaxEepdo : UInt16 := 0x200
def ecMaxSm : UInt16 := 8

/-- `ec_eepromPDOt` -/
structure EepromPdo where
  startpos : UInt16
  length : UInt16
  nPdo : UInt16
  index : Nat → UInt16
  syncM : Nat → UInt16
  bitSize : Nat → UInt16
  sMbitsize : Nat → UInt16

/-- The record and the local variables of `ecx_siiPDO`: the byte cursor, the word counter and the
size so far. -/
structure PdoScan where
  pdo : EepromPdo
  a : UInt16
  c : UInt16
  size : UInt16

variable {σ : Type}

/-- `PDO->BitSize[PDO->nPDO] += bits` -/
def EepromPdo.addBits (pdo : EepromPdo) (bits : UInt16) : EepromPdo :=
  { pdo with
    bitSize := Function.update pdo.bitSize pdo.nPdo.toNat (pdo.bitSize pdo.nPdo.toNat+bits) }

def siiPdoEntries (ctx : SiiContext σ) (fuel : Nat) (slave : UInt16) :
    Nat → PdoScan → SiiM σ PdoScan
  | 0,s => pure s
  | e+1,s => do
    let bits ← siigetbyte ctx fuel slave (s.a+5)
    siiPdoEntries ctx fuel slave e
      { s with pdo := s.pdo.addBits bits.toUInt16,a := s.a+5+1+2,c := s.c+4 }

def EepromPdo.open (pdo : EepromPdo) (index syncM : UInt16) : EepromPdo :=
  { pdo with
    nPdo := pdo.nPdo+1
    index := Function.update pdo.index (pdo.nPdo+1).toNat index
    bitSize := Function.update pdo.bitSize (pdo.nPdo+1).toNat 0
    syncM := Function.update pdo.syncM (pdo.nPdo+1).toNat syncM }

/-- `PDO->SMbitsize[PDO->SyncM[PDO->nPDO]] += PDO->BitSize[PDO->nPDO]` -/
def EepromPdo.addSize (pdo : EepromPdo) : EepromPdo :=
  { pdo with
    sMbitsize := Function.update pdo.sMbitsize (pdo.syncM pdo.nPdo.toNat).toNat
      (pdo.sMbitsize (pdo.syncM pdo.nPdo.toNat).toNat+pdo.bitSize pdo.nPdo.toNat) }

/-- The entries of the PDO that the record ends with: read where it is active and its SyncManager in
range, passed over elsewhere. -/
def siiPdoContents (ctx : SiiContext σ) (fuel : Nat) (slave : UInt16) (e : UInt8) (s : PdoScan) :
    SiiM σ PdoScan := do
  if s.pdo.syncM s.pdo.nPdo.toNat<ecMaxSm then
    let s ← siiPdoEntries ctx fuel slave e.toNat s
    pure ⟨s.pdo.addSize,s.a,s.c+1,s.size+s.pdo.bitSize s.pdo.nPdo.toNat⟩
  else pure ⟨s.pdo,s.a+8*e.toUInt16,s.c+4*e.toUInt16+1,s.size⟩

/-- One round of the loop of `ecx_siiPDO`. -/
def siiPdoRound (ctx : SiiContext σ) (fuel : Nat) (slave : UInt16) (s : PdoScan) :
    SiiM σ PdoScan := do
  let low ← siigetbyte ctx fuel slave s.a
  let high ← siigetbyte ctx fuel slave (s.a+1)
  let e ← siigetbyte ctx fuel slave (s.a+1+1)
  let syncM ← siigetbyte ctx fuel slave (s.a+1+1+1)
  siiPdoContents ctx fuel slave e
    ⟨s.pdo.open (low.toUInt16+(high.toUInt16 <<< 8)) syncM.toUInt16,s.a+1+1+1+1+4,s.c+1+2,s.size⟩

def siiPdoLoop (ctx : SiiContext σ) (fuel : Nat) (slave : UInt16) :
    Nat → PdoScan → SiiM σ PdoScan
  | 0,_ => throw .unfinished
  | rounds+1,s => do
    let s ← siiPdoRound ctx fuel slave s
    -- limit number of PDO entries in buffer
    let s := if s.pdo.nPdo ≥ ecMaxEepdo-1 then { s with c := s.pdo.length } else s
    if s.c<s.pdo.length then siiPdoLoop ctx fuel slave rounds s else pure s

/-- The category of the receive or the transmit PDOs. -/
def siiPdoCategory (t : UInt8) : UInt16 := ectSiiPdo+(if t>1 then 1 else t).toUInt16

/-- `ecx_siiPDO` up to the end of its loop. The loop ends after `EC_MAXEEPDO` PDOs at the latest. -/
def siiPdoScan (ctx : SiiContext σ) (fuel steps : Nat) (slave : UInt16) (pdo : EepromPdo)
    (t : UInt8) : SiiM σ PdoScan := do
  let a ← siifind ctx fuel steps slave (siiPdoCategory t)
  let pdo := { pdo with
    nPdo := 0
    length := 0
    index := Function.update pdo.index 1 0
    sMbitsize := fun k => if k<ecMaxSm.toNat then 0 else pdo.sMbitsize k
    startpos := a.toUInt16 }
  if pdo.startpos>0 then
    let low ← siigetbyte ctx fuel slave pdo.startpos
    let high ← siigetbyte ctx fuel slave (pdo.startpos+1)
    siiPdoLoop ctx fuel slave ecMaxEepdo.toNat
      ⟨{ pdo with length := low.toUInt16+(high.toUInt16 <<< 8) },pdo.startpos+1+1,1,0⟩
  else pure ⟨pdo,0,0,0⟩

/-- `ecx_siiPDO`: the mapping size in bits, and the record. -/
def siiPdo (ctx : SiiContext σ) (fuel steps : Nat) (slave : UInt16) (pdo : EepromPdo)
    (t : UInt8) : SiiM σ (UInt32 × EepromPdo) := do
  let st ← get
  let eectl := st.eepPdi slave
  let s ← siiPdoScan ctx fuel steps slave pdo t
  if eectl then
    -- if EEPROM control was previously PDI then restore
    let _ ← eeprom2pdi ctx slave
    pure (s.size.toUInt32,s.pdo)
  else pure (s.size.toUInt32,s.pdo)

/-- A PDO as the category describes it: its index, its SyncManager, and the bit lengths of its
entries. -/
structure SiiPdo where
  index : UInt16
  syncM : UInt8
  bits : List UInt8

/-- The sum of the bit lengths, for a PDO that is active. -/
def SiiPdo.size (p : SiiPdo) : Nat :=
  if p.syncM.toUInt16<ecMaxSm then (p.bits.map UInt8.toNat).sum else 0

/-- The bytes of a PDO in the category: eight, and eight for each entry. -/
def SiiPdo.extent (p : SiiPdo) : Nat := 8+8*p.bits.length

/-- Entries of these bit lengths lie at `a`. -/
def EntriesAt (rom : Nat → UInt8) : Nat → List UInt8 → Prop
  | _,[] => True
  | a,bits::rest => rom (a+5)=bits ∧ EntriesAt rom (a+8) rest

def PdoAt (rom : Nat → UInt8) (a : Nat) (p : SiiPdo) : Prop :=
  (rom a).toUInt16+((rom (a+1)).toUInt16 <<< 8)=p.index ∧ (rom (a+2)).toNat=p.bits.length ∧
    rom (a+3)=p.syncM ∧ EntriesAt rom (a+8) p.bits

def PdosAt (rom : Nat → UInt8) : Nat → List SiiPdo → Prop
  | _,[] => True
  | a,p::ps => PdoAt rom a p ∧ PdosAt rom (a+p.extent) ps

/-- A well-formed PDO category whose section begins at `n`. -/
structure PdoCategory (rom : Nat → UInt8) (n : Nat) (ps : List SiiPdo) : Prop where
  nonempty : ps≠[]
  count : ps.length ≤ ecMaxEepdo.toNat-1
  length : 2*(siiWord rom (n+2)).toNat=(ps.map SiiPdo.extent).sum
  inside : n+4+(ps.map SiiPdo.extent).sum ≤ ecMaxEepBuf
  place : PdosAt rom (n+4) ps
  sums : (ps.map SiiPdo.size).sum<2^16

theorem EepromPdo.addBits_zero (pdo : EepromPdo) : pdo.addBits 0=pdo := by
  rw [EepromPdo.addBits,UInt16.add_zero,Function.update_eq_self]

theorem EepromPdo.addBits_add (pdo : EepromPdo) (x y : UInt16) :
    (pdo.addBits x).addBits y=pdo.addBits (x+y) := by
  rw [EepromPdo.addBits,EepromPdo.addBits,EepromPdo.addBits]
  dsimp only
  rw [Function.update_idem,Function.update_self,UInt16.add_assoc]

/-- The record with one more PDO. -/
def EepromPdo.add (pdo : EepromPdo) (p : SiiPdo) : EepromPdo where
  startpos := pdo.startpos
  length := pdo.length
  nPdo := pdo.nPdo+1
  index := Function.update pdo.index (pdo.nPdo+1).toNat p.index
  syncM := Function.update pdo.syncM (pdo.nPdo+1).toNat p.syncM.toUInt16
  bitSize := Function.update pdo.bitSize (pdo.nPdo+1).toNat (UInt16.ofNat p.size)
  sMbitsize := if p.syncM.toUInt16<ecMaxSm then
      Function.update pdo.sMbitsize p.syncM.toNat
        (pdo.sMbitsize p.syncM.toNat+UInt16.ofNat p.size)
    else pdo.sMbitsize

theorem EepromPdo.bitSize_active (pdo : EepromPdo) (index syncM x : UInt16) :
    ((pdo.open index syncM).addBits x).bitSize ((pdo.open index syncM).addBits x).nPdo.toNat=x := by
  simp only [EepromPdo.addBits,EepromPdo.open,Function.update_self,UInt16.zero_add]

theorem EepromPdo.add_active (pdo : EepromPdo) {p : SiiPdo} (h : p.syncM.toUInt16<ecMaxSm) :
    ((pdo.open p.index p.syncM.toUInt16).addBits (UInt16.ofNat p.size)).addSize=pdo.add p := by
  have hbits := pdo.bitSize_active p.index p.syncM.toUInt16 (UInt16.ofNat p.size)
  have hsync : ((pdo.open p.index p.syncM.toUInt16).addBits (UInt16.ofNat p.size)).syncM
      ((pdo.open p.index p.syncM.toUInt16).addBits (UInt16.ofNat p.size)).nPdo.toNat=
        p.syncM.toUInt16 := Function.update_self _ _ _
  have hcell : ((pdo.open p.index p.syncM.toUInt16).addBits (UInt16.ofNat p.size)).bitSize=
      Function.update pdo.bitSize (pdo.nPdo+1).toNat (UInt16.ofNat p.size) := by
    simp only [EepromPdo.addBits,EepromPdo.open,Function.update_self,Function.update_idem,
      UInt16.zero_add]
  rw [EepromPdo.addSize,hbits,hsync,UInt8.toNat_toUInt16,hcell,EepromPdo.add,if_pos h]
  rfl

theorem EepromPdo.add_inactive (pdo : EepromPdo) {p : SiiPdo} (h : ¬p.syncM.toUInt16<ecMaxSm) :
    pdo.open p.index p.syncM.toUInt16=pdo.add p := by
  rw [EepromPdo.add,if_neg h,SiiPdo.size,if_neg h]
  rfl

theorem EepromPdo.add_nPdo (pdo : EepromPdo) (p : SiiPdo)
    (h : pdo.nPdo.toNat+1 ≤ ecMaxEepdo.toNat-1) : (pdo.add p).nPdo.toNat=pdo.nPdo.toNat+1 := by
  have hmax : ecMaxEepdo.toNat=512 := rfl
  change (pdo.nPdo+1).toNat=_
  rw [UInt16.toNat_add,show (1 : UInt16).toNat=1 from rfl]
  exact Nat.mod_eq_of_lt (by omega)

section Parsing

variable {ctx : SiiContext σ} {fuel : Nat} {slave : UInt16} {contents : UInt16 → Nat → UInt8}
  {st : SiiState σ}

theorem siigetbyte_at (hs : Readable ctx fuel contents slave) (h : Cached contents st) {k : Nat}
    (hk : k<ecMaxEepBuf) : ∃ st',siigetbyte ctx fuel slave (UInt16.ofNat k) st=
      .ok (contents slave k,st') ∧ Cached contents st' := by
  have hbuf : ecMaxEepBuf=4096 := rfl
  obtain ⟨st',-,hget,h',-⟩ := siigetbyte_reads hs h (UInt16.ofNat k)
  have hnat : (UInt16.ofNat k).toNat=k := by
    rw [UInt16.toNat_ofNat']
    exact Nat.mod_eq_of_lt (by omega)
  rw [hnat,siiByte,if_pos hk] at hget
  exact ⟨st',hget,h'⟩

/-- The entries of a PDO: the sum of their bit lengths is added, and the cursor and the counter move
past them. -/
theorem siiPdoEntries_run (hs : Readable ctx fuel contents slave) (bits : List UInt8) :
    ∀ {k : Nat} (pdo : EepromPdo) (c size : UInt16) {st : SiiState σ},Cached contents st →
      EntriesAt (contents slave) k bits → k+8*bits.length ≤ ecMaxEepBuf →
      ∃ st',siiPdoEntries ctx fuel slave bits.length ⟨pdo,UInt16.ofNat k,c,size⟩ st=
          .ok (⟨pdo.addBits (UInt16.ofNat (bits.map UInt8.toNat).sum),
            UInt16.ofNat (k+8*bits.length),c+UInt16.ofNat (4*bits.length),size⟩,st') ∧
        Cached contents st' := by
  induction bits with
  | nil =>
    intro k pdo c size st h _ _
    refine ⟨st,?_,h⟩
    rw [List.map_nil,List.sum_nil,show UInt16.ofNat 0=0 from rfl,EepromPdo.addBits_zero,
      List.length_nil,show UInt16.ofNat (4*0)=0 from rfl,UInt16.add_zero]
    rfl
  | cons bits rest ih =>
    intro k pdo c size st h hat hroom
    rw [List.length_cons] at hroom
    obtain ⟨hbyte,hrest⟩ := hat
    obtain ⟨st1,hget,h1⟩ := siigetbyte_at hs h (show k+5<ecMaxEepBuf by omega)
    obtain ⟨st',hrun,h'⟩ := ih (pdo.addBits bits.toUInt16) (c+4) size h1 hrest (by omega)
    refine ⟨st',?_,h'⟩
    have ha : UInt16.ofNat k+5=UInt16.ofNat (k+5) := (UInt16.ofNat_add k 5).symm
    have hnext : UInt16.ofNat (k+5)+1+2=UInt16.ofNat (k+8) := by
      rw [UInt16.add_assoc]
      exact (UInt16.ofNat_add (k+5) 3).symm
    have hsum : bits.toUInt16+UInt16.ofNat (rest.map UInt8.toNat).sum=
        UInt16.ofNat ((bits::rest).map UInt8.toNat).sum := by
      rw [List.map_cons,List.sum_cons,UInt16.ofNat_add,UInt16.ofNat_uInt8ToNat]
    have hcount : c+4+UInt16.ofNat (4*rest.length)=c+UInt16.ofNat (4*(rest.length+1)) := by
      rw [UInt16.add_assoc,Nat.mul_add,Nat.add_comm (4*rest.length),UInt16.ofNat_add]
      rfl
    rw [List.length_cons,siiPdoEntries,ha,run_bind hget,hbyte]
    dsimp only
    rw [hnext,hrun,EepromPdo.addBits_add,hsum,hcount]
    congr 4
    omega

theorem SiiPdo.words (p : SiiPdo) (x : UInt16) :
    x+1+2+UInt16.ofNat (4*p.bits.length)+1=x+UInt16.ofNat (p.extent/2) := by
  have hhalf : p.extent/2=1+2+4*p.bits.length+1 := by
    rw [SiiPdo.extent]
    omega
  rw [hhalf,UInt16.ofNat_add,UInt16.ofNat_add,← UInt16.add_assoc,← UInt16.add_assoc]
  congr 2
  exact UInt16.add_assoc x 1 2

/-- The entries of a PDO that has been begun at `k`. -/
theorem siiPdoContents_run (hs : Readable ctx fuel contents slave) (h : Cached contents st)
    {k : Nat} {p : SiiPdo} {e : UInt8} (he : e.toNat=p.bits.length)
    (hentries : EntriesAt (contents slave) (k+8) p.bits) (hroom : k+p.extent ≤ ecMaxEepBuf)
    (pdo : EepromPdo) (c size : UInt16) :
    ∃ st',siiPdoContents ctx fuel slave e
        ⟨pdo.open p.index p.syncM.toUInt16,UInt16.ofNat (k+8),c+1+2,size⟩ st=
        .ok (⟨pdo.add p,UInt16.ofNat (k+p.extent),c+UInt16.ofNat (p.extent/2),
          size+UInt16.ofNat p.size⟩,st') ∧ Cached contents st' := by
  have hsync : (pdo.open p.index p.syncM.toUInt16).syncM
      (pdo.open p.index p.syncM.toUInt16).nPdo.toNat=p.syncM.toUInt16 := Function.update_self _ _ _
  have hextent : k+8+8*p.bits.length=k+p.extent := by
    rw [SiiPdo.extent]
    omega
  by_cases hactive : p.syncM.toUInt16<ecMaxSm
  · obtain ⟨st',hrun,h'⟩ := siiPdoEntries_run hs p.bits (pdo.open p.index p.syncM.toUInt16) (c+1+2)
      size h hentries (by omega)
    have hsize : (p.bits.map UInt8.toNat).sum=p.size := by
      rw [SiiPdo.size,if_pos hactive]
    rw [hsize,hextent] at hrun
    refine ⟨st',?_,h'⟩
    rw [siiPdoContents]
    dsimp only
    rw [hsync,if_pos hactive,he,run_bind hrun]
    dsimp only
    rw [p.words,pdo.add_active hactive,pdo.bitSize_active]
    rfl
  · have hnone : p.size=0 := by
      rw [SiiPdo.size,if_neg hactive]
    have hwide : e.toUInt16=UInt16.ofNat p.bits.length := by
      rw [← he,UInt16.ofNat_uInt8ToNat]
    refine ⟨st,?_,h⟩
    rw [siiPdoContents]
    dsimp only
    have height : 8*UInt16.ofNat p.bits.length=UInt16.ofNat (8*p.bits.length) :=
      (UInt16.ofNat_mul 8 _).symm
    have hfour : 4*UInt16.ofNat p.bits.length=UInt16.ofNat (4*p.bits.length) :=
      (UInt16.ofNat_mul 4 _).symm
    rw [hsync,if_neg hactive,hnone,hwide,height,hfour,p.words,← UInt16.ofNat_add,hextent,
      pdo.add_inactive hactive,show UInt16.ofNat 0=0 from rfl,UInt16.add_zero]
    rfl

theorem siiPdoRound_run (hs : Readable ctx fuel contents slave) (h : Cached contents st) {k : Nat}
    {p : SiiPdo} (hat : PdoAt (contents slave) k p) (hroom : k+p.extent ≤ ecMaxEepBuf)
    (pdo : EepromPdo) (c size : UInt16) :
    ∃ st',siiPdoRound ctx fuel slave ⟨pdo,UInt16.ofNat k,c,size⟩ st=
        .ok (⟨pdo.add p,UInt16.ofNat (k+p.extent),c+UInt16.ofNat (p.extent/2),
          size+UInt16.ofNat p.size⟩,st') ∧ Cached contents st' := by
  obtain ⟨hindex,hcount,hsync,hentries⟩ := hat
  have hextent : p.extent=8+8*p.bits.length := rfl
  obtain ⟨st1,hlow,h1⟩ := siigetbyte_at hs h (show k<ecMaxEepBuf by omega)
  obtain ⟨st2,hhigh,h2⟩ := siigetbyte_at hs h1 (show k+1<ecMaxEepBuf by omega)
  obtain ⟨st3,he,h3⟩ := siigetbyte_at hs h2 (show k+2<ecMaxEepBuf by omega)
  obtain ⟨st4,hsm,h4⟩ := siigetbyte_at hs h3 (show k+3<ecMaxEepBuf by omega)
  have ha1 : UInt16.ofNat k+1=UInt16.ofNat (k+1) := (UInt16.ofNat_add k 1).symm
  have ha2 : UInt16.ofNat (k+1)+1=UInt16.ofNat (k+2) := (UInt16.ofNat_add (k+1) 1).symm
  have ha3 : UInt16.ofNat (k+2)+1=UInt16.ofNat (k+3) := (UInt16.ofNat_add (k+2) 1).symm
  have ha8 : UInt16.ofNat (k+3)+1+4=UInt16.ofNat (k+8) := by
    rw [UInt16.add_assoc]
    exact (UInt16.ofNat_add (k+3) 5).symm
  obtain ⟨st',hrun,h'⟩ := siiPdoContents_run hs h4 hcount hentries hroom pdo c size
  refine ⟨st',?_,h'⟩
  rw [siiPdoRound]
  dsimp only
  rw [run_bind hlow,ha1,run_bind hhigh,ha2,run_bind he,ha3,run_bind hsm,hindex,hsync,ha8]
  exact hrun

/-- The loop records the PDOs one after the other and stops at the end of the last one. -/
theorem siiPdoLoop_run (hs : Readable ctx fuel contents slave) (ps : List SiiPdo) :
    ∀ {k j rounds : Nat} {pdo : EepromPdo} (size : UInt16) {st : SiiState σ},Cached contents st →
      ps≠[] → PdosAt (contents slave) k ps → k+(ps.map SiiPdo.extent).sum ≤ ecMaxEepBuf →
      2*j ≤ k → 2*pdo.length.toNat=2*j+(ps.map SiiPdo.extent).sum →
      pdo.nPdo.toNat+ps.length ≤ ecMaxEepdo.toNat-1 → ps.length ≤ rounds →
      ∃ c st',siiPdoLoop ctx fuel slave rounds ⟨pdo,UInt16.ofNat k,UInt16.ofNat (1+j),size⟩ st=
        .ok (⟨ps.foldl EepromPdo.add pdo,UInt16.ofNat (k+(ps.map SiiPdo.extent).sum),c,
          size+UInt16.ofNat (ps.map SiiPdo.size).sum⟩,st') ∧ Cached contents st' := by
  have hbuf : ecMaxEepBuf=4096 := rfl
  have hmax : ecMaxEepdo.toNat=512 := rfl
  induction ps with
  | nil => exact fun _ _ _ hne => absurd rfl hne
  | cons p rest ih =>
    intro k j rounds pdo size st h _ hat hroom hj hlength hcount hrounds
    obtain ⟨hp,hrest⟩ := hat
    rw [List.map_cons,List.sum_cons] at hroom hlength
    rw [List.length_cons] at hcount hrounds
    obtain ⟨rounds,rfl⟩ : ∃ m,rounds=m+1 := ⟨rounds-1,by omega⟩
    obtain ⟨st1,hround,h1⟩ := siiPdoRound_run hs h hp (by omega) pdo (UInt16.ofNat (1+j)) size
    have hextent : p.extent=8+8*p.bits.length := rfl
    have hc : UInt16.ofNat (1+j)+UInt16.ofNat (p.extent/2)=UInt16.ofNat (1+(j+p.extent/2)) := by
      rw [← UInt16.ofNat_add,Nat.add_assoc]
    have hsizes : size+UInt16.ofNat p.size+UInt16.ofNat (rest.map SiiPdo.size).sum=
        size+UInt16.ofNat ((p::rest).map SiiPdo.size).sum := by
      rw [List.map_cons,List.sum_cons,UInt16.ofNat_add,UInt16.add_assoc]
    have hend : k+((p::rest).map SiiPdo.extent).sum=k+p.extent+(rest.map SiiPdo.extent).sum := by
      rw [List.map_cons,List.sum_cons,Nat.add_assoc]
    have hnext := pdo.add_nPdo p (by omega)
    rw [hc] at hround
    rw [siiPdoLoop,run_bind hround,List.foldl_cons,← hsizes,hend]
    dsimp only
    by_cases hlimit : (pdo.add p).nPdo ≥ ecMaxEepdo-1
    · have hle : 511 ≤ (pdo.add p).nPdo.toNat := UInt16.le_iff_toNat_le.mp hlimit
      have hlast : rest=[] := List.eq_nil_of_length_eq_zero (by omega)
      subst hlast
      refine ⟨(pdo.add p).length,st1,?_,h1⟩
      rw [if_pos hlimit,if_neg (UInt16.lt_irrefl _),List.map_nil,List.sum_nil,List.map_nil,
        List.sum_nil,show UInt16.ofNat 0=0 from rfl,UInt16.add_zero]
      rfl
    · rw [if_neg hlimit]
      have hcounter : (UInt16.ofNat (1+(j+p.extent/2))).toNat=1+(j+p.extent/2) := by
        rw [UInt16.toNat_ofNat']
        exact Nat.mod_eq_of_lt (by omega)
      by_cases hlast : rest=[]
      · subst hlast
        rw [List.map_nil,List.sum_nil] at hlength
        have hstop : ¬UInt16.ofNat (1+(j+p.extent/2))<(pdo.add p).length := by
          rw [UInt16.lt_iff_toNat_lt,hcounter]
          change ¬_<pdo.length.toNat
          omega
        refine ⟨UInt16.ofNat (1+(j+p.extent/2)),st1,?_,h1⟩
        rw [if_neg hstop,List.map_nil,List.sum_nil,List.map_nil,
          List.sum_nil,show UInt16.ofNat 0=0 from rfl,UInt16.add_zero]
        rfl
      · obtain ⟨q,others,rfl⟩ := List.exists_cons_of_ne_nil hlast
        have hq : q.extent=8+8*q.bits.length := rfl
        have hmore : UInt16.ofNat (1+(j+p.extent/2))<(pdo.add p).length := by
          rw [List.map_cons,List.sum_cons] at hlength
          rw [UInt16.lt_iff_toNat_lt,hcounter]
          change _<pdo.length.toNat
          omega
        rw [if_pos hmore]
        refine ih _ h1 hlast hrest (by omega) (by omega) ?_ (by omega) (by omega)
        change 2*pdo.length.toNat=_
        omega

end Parsing

/-- Recorded PDOs stay as they are, and each further one gets the next cells. -/
theorem foldl_add_cells (ps : List SiiPdo) : ∀ pdo : EepromPdo,
    pdo.nPdo.toNat+ps.length ≤ ecMaxEepdo.toNat-1 →
    (ps.foldl EepromPdo.add pdo).nPdo.toNat=pdo.nPdo.toNat+ps.length ∧
    (∀ i ≤ pdo.nPdo.toNat,(ps.foldl EepromPdo.add pdo).index i=pdo.index i ∧
      (ps.foldl EepromPdo.add pdo).syncM i=pdo.syncM i ∧
      (ps.foldl EepromPdo.add pdo).bitSize i=pdo.bitSize i) ∧
    ∀ i p,ps[i]?=some p →
      (ps.foldl EepromPdo.add pdo).index (pdo.nPdo.toNat+i+1)=p.index ∧
      (ps.foldl EepromPdo.add pdo).syncM (pdo.nPdo.toNat+i+1)=p.syncM.toUInt16 ∧
      (ps.foldl EepromPdo.add pdo).bitSize (pdo.nPdo.toNat+i+1)=UInt16.ofNat p.size := by
  induction ps with
  | nil => exact fun _ _ => ⟨rfl,fun _ _ => ⟨rfl,rfl,rfl⟩,fun i p hp => absurd hp (by simp)⟩
  | cons q rest ih =>
    intro pdo hcount
    rw [List.length_cons] at hcount
    have hn := pdo.add_nPdo q (by omega)
    have hcell : (pdo.nPdo+1).toNat=pdo.nPdo.toNat+1 := hn
    obtain ⟨hnext,hkept,hnew⟩ := ih (pdo.add q) (by omega)
    rw [List.foldl_cons]
    refine ⟨by rw [hnext,hn,List.length_cons]; omega,?_,?_⟩
    · intro i hi
      obtain ⟨hindex,hsync,hbits⟩ := hkept i (by omega)
      have hne : i≠(pdo.nPdo+1).toNat := by omega
      exact ⟨hindex.trans (Function.update_of_ne hne _ _),
        hsync.trans (Function.update_of_ne hne _ _),hbits.trans (Function.update_of_ne hne _ _)⟩
    · intro i p hp
      cases i with
      | zero =>
        cases hp
        obtain ⟨hindex,hsync,hbits⟩ := hkept (pdo.nPdo.toNat+0+1) (by omega)
        rw [hindex,hsync,hbits,Nat.add_zero,← hcell]
        exact ⟨Function.update_self _ _ _,Function.update_self _ _ _,Function.update_self _ _ _⟩
      | succ i =>
        have hplace : (pdo.add q).nPdo.toNat+i+1=pdo.nPdo.toNat+(i+1)+1 := by omega
        rw [← hplace]
        exact hnew i p hp

theorem foldl_add_sMbitsize (ps : List SiiPdo) {k : Nat} (hk : k<ecMaxSm.toNat) :
    ∀ pdo : EepromPdo,(ps.foldl EepromPdo.add pdo).sMbitsize k=pdo.sMbitsize k+
      UInt16.ofNat ((ps.filter fun p => p.syncM.toNat=k).map SiiPdo.size).sum := by
  induction ps with
  | nil => exact fun pdo => (UInt16.add_zero _).symm
  | cons p rest ih =>
    intro pdo
    rw [List.foldl_cons,ih]
    by_cases hsync : p.syncM.toNat=k
    · have hactive : p.syncM.toUInt16<ecMaxSm := by
        rw [UInt16.lt_iff_toNat_lt,UInt8.toNat_toUInt16,hsync]
        exact hk
      have hcell : (pdo.add p).sMbitsize k=pdo.sMbitsize k+UInt16.ofNat p.size := by
        rw [EepromPdo.add,if_pos hactive,hsync]
        exact Function.update_self _ _ _
      rw [hcell,List.filter_cons_of_pos (by simpa using hsync),List.map_cons,List.sum_cons,
        UInt16.ofNat_add,UInt16.add_assoc]
    · have hcell : (pdo.add p).sMbitsize k=pdo.sMbitsize k := by
        rw [EepromPdo.add]
        dsimp only
        split_ifs
        · exact Function.update_of_ne (fun h => hsync h.symm) _ _
        · rfl
      rw [hcell,List.filter_cons_of_neg (by simpa using hsync)]

/-- The record and the size are those of the category, and the cursor is at its end. -/
structure PdoParsed (s : PdoScan) (n : Nat) (ps : List SiiPdo) : Prop where
  count : s.pdo.nPdo.toNat=ps.length
  recorded : ∀ i p,ps[i]?=some p → s.pdo.index (i+1)=p.index ∧
    s.pdo.syncM (i+1)=p.syncM.toUInt16 ∧ (s.pdo.bitSize (i+1)).toNat=p.size
  smSizes : ∀ k<ecMaxSm.toNat,(s.pdo.sMbitsize k).toNat=
    ((ps.filter fun p => p.syncM.toNat=k).map SiiPdo.size).sum
  size : s.size.toNat=(ps.map SiiPdo.size).sum
  stop : s.a.toNat=n+4+(ps.map SiiPdo.extent).sum

section Parsed

variable {ctx : SiiContext σ} {fuel : Nat} {slave : UInt16} {contents : UInt16 → Nat → UInt8}
  {st : SiiState σ}

/-- The part of `ecx_siiPDO` up to the end of its loop. -/
theorem siiPdoScan_run (hs : Readable ctx fuel contents slave) (h : Cached contents st) {t : UInt8}
    {n : Nat} {ps : List SiiPdo}
    (hplace : sectionEnd (contents slave) (siiPdoCategory t) (ectSiiStart <<< 1)=n)
    (hcat : siiWord (contents slave) n=siiPdoCategory t)
    (hwf : PdoCategory (contents slave) n ps) (pdo : EepromPdo) :
    ∃ steps start c st1,start.nPdo=0 ∧ (∀ k<ecMaxSm.toNat,start.sMbitsize k=0) ∧
      siiPdoScan ctx fuel steps slave pdo t st=
        .ok (⟨ps.foldl EepromPdo.add start,UInt16.ofNat (n+4+(ps.map SiiPdo.extent).sum),c,
          UInt16.ofNat (ps.map SiiPdo.size).sum⟩,st1) ∧ Cached contents st1 := by
  have hbuf : ecMaxEepBuf=4096 := rfl
  have hinside := hwf.inside
  obtain ⟨hwithin,-⟩ := cursorWalk_sectionEnd (contents slave) (siiPdoCategory t)
    (ectSiiStart <<< 1) (by decide)
  rw [hplace] at hwithin
  obtain ⟨steps,st1,hfind,h1⟩ := siifind_walks hs h (hwithin (by omega))
  rw [foundAddress,if_neg (not_not_intro hcat)] at hfind
  obtain ⟨st2,hlow,h2⟩ := siigetbyte_at hs h1 (show n+2<ecMaxEepBuf by omega)
  obtain ⟨st3,hhigh,h3⟩ := siigetbyte_at hs h2 (show n+2+1<ecMaxEepBuf by omega)
  have hword : (contents slave (n+2)).toUInt16+((contents slave (n+2+1)).toUInt16 <<< 8)=
      siiWord (contents slave) (n+2) := by
    rw [siiWord,siiByte,siiByte,if_pos (show n+2<ecMaxEepBuf by omega),
      if_pos (show n+2+1<ecMaxEepBuf by omega)]
  have hpositive : UInt16.ofNat (n+2)>0 := by
    apply UInt16.lt_iff_toNat_lt.mpr
    rw [UInt16.toNat_ofNat',Nat.mod_eq_of_lt (by omega)]
    exact Nat.succ_pos _
  have ha1 : UInt16.ofNat (n+2)+1=UInt16.ofNat (n+2+1) := (UInt16.ofNat_add (n+2) 1).symm
  have ha2 : UInt16.ofNat (n+2+1)+1=UInt16.ofNat (n+4) := (UInt16.ofNat_add (n+2+1) 1).symm
  let start : EepromPdo := { pdo with
    nPdo := 0
    length := siiWord (contents slave) (n+2)
    index := Function.update pdo.index 1 0
    sMbitsize := fun k => if k<ecMaxSm.toNat then 0 else pdo.sMbitsize k
    startpos := UInt16.ofNat (n+2) }
  have hlength : 2*start.length.toNat=2*0+(ps.map SiiPdo.extent).sum := by
    rw [Nat.mul_zero,Nat.zero_add]
    exact hwf.length
  have hcount : start.nPdo.toNat+ps.length ≤ ecMaxEepdo.toNat-1 := by
    rw [show start.nPdo.toNat=0 from rfl,Nat.zero_add]
    exact hwf.count
  have hcells : ps.length ≤ ecMaxEepdo.toNat := hwf.count.trans (Nat.sub_le _ _)
  obtain ⟨c,st4,hloop,h4⟩ := siiPdoLoop_run hs ps 0 h3 hwf.nonempty hwf.place hinside
    (Nat.zero_le _) hlength hcount hcells
  rw [UInt16.zero_add] at hloop
  refine ⟨steps,start,c,st4,rfl,fun k hk => if_pos hk,?_,h4⟩
  rw [siiPdoScan,run_bind hfind]
  dsimp only
  rw [Int16.toUInt16_ofNat',if_pos hpositive,run_bind hlow,ha1,run_bind hhigh,ha2,hword]
  exact hloop

/-- Every well-formed PDO category that the search finds is parsed to its end. -/
theorem sii_pdo_parsed (hs : Readable ctx fuel contents slave) (h : Cached contents st) {t : UInt8}
    {n : Nat} {ps : List SiiPdo}
    (hplace : sectionEnd (contents slave) (siiPdoCategory t) (ectSiiStart <<< 1)=n)
    (hcat : siiWord (contents slave) n=siiPdoCategory t)
    (hwf : PdoCategory (contents slave) n ps) (pdo : EepromPdo) :
    ∃ steps s st1 st2,siiPdoScan ctx fuel steps slave pdo t st=.ok (s,st1) ∧
      siiPdo ctx fuel steps slave pdo t st=.ok ((s.size.toUInt32,s.pdo),st2) ∧
      PdoParsed s n ps := by
  have hbuf : ecMaxEepBuf=4096 := rfl
  have hinside := hwf.inside
  obtain ⟨steps,start,c,st1,hn,hsm,hscan,h1⟩ := siiPdoScan_run hs h hplace hcat hwf pdo
  have hzero : start.nPdo.toNat=0 := by
    rw [hn]
    rfl
  obtain ⟨hcount,-,hcells⟩ := foldl_add_cells ps start (by
    rw [hzero,Nat.zero_add]
    exact hwf.count)
  rw [hzero] at hcount hcells
  have hsmall : ∀ sub : List SiiPdo,sub.Sublist ps →
      (UInt16.ofNat (sub.map SiiPdo.size).sum).toNat=(sub.map SiiPdo.size).sum := by
    intro sub hsub
    have hle := (hsub.map SiiPdo.size).sum_le_sum (fun a _ => Nat.zero_le a)
    rw [UInt16.toNat_ofNat']
    exact Nat.mod_eq_of_lt (hle.trans_lt hwf.sums)
  have hparsed : PdoParsed ⟨ps.foldl EepromPdo.add start,
      UInt16.ofNat (n+4+(ps.map SiiPdo.extent).sum),c,UInt16.ofNat (ps.map SiiPdo.size).sum⟩
      n ps := by
    refine ⟨hcount.trans (Nat.zero_add _),?_,?_,hsmall ps (List.Sublist.refl _),?_⟩
    · intro i p hp
      obtain ⟨hindex,hsync,hbits⟩ := hcells i p hp
      rw [Nat.zero_add] at hindex hsync hbits
      refine ⟨hindex,hsync,?_⟩
      have hone := hsmall [p] (List.singleton_sublist.mpr (List.mem_of_getElem? hp))
      rw [List.map_singleton,List.sum_singleton] at hone
      rw [← hone]
      exact congrArg UInt16.toNat hbits
    · intro k hk
      have hfold := foldl_add_sMbitsize ps hk start
      rw [hsm k hk,UInt16.zero_add] at hfold
      exact (congrArg UInt16.toNat hfold).trans (hsmall _ List.filter_sublist)
    · change (UInt16.ofNat _).toNat=_
      rw [UInt16.toNat_ofNat']
      exact Nat.mod_eq_of_lt (by omega)
  obtain ⟨pdi,env,hend⟩ := eeprom2pdi_end ctx slave (st.eepPdi slave) _ st1
  refine ⟨steps,_,st1,{ st1 with eepPdi := pdi,env := env },hscan,?_,hparsed⟩
  rw [siiPdo,run_bind (siiState_run st),run_bind hscan]
  exact hend

end Parsed

/-- The record as it is cleared before the first call. -/
def EepromPdo.zero : EepromPdo := ⟨0,0,0,fun _ => 0,fun _ => 0,fun _ => 0,fun _ => 0⟩

/-- A category of one active PDO with an entry of eight bits, and one that is not active. -/
def twoPdos : List UInt8 := [50,0,12,0,0x00,0x1a,1,3,0,0,0,0,0,0,0,0,0,8,0,0,
  0x01,0x1a,0,0xff,0,0,0,0]

theorem two_pdos_parsed : ∃ steps s st1 st2,
    siiPdoScan (lineContext (areaContents twoPdos) fun _ => true) 1 steps 1 EepromPdo.zero 0
      (SiiState.start 0)=.ok (s,st1) ∧
    siiPdo (lineContext (areaContents twoPdos) fun _ => true) 1 steps 1 EepromPdo.zero 0
      (SiiState.start 0)=.ok ((s.size.toUInt32,s.pdo),st2) ∧
    PdoParsed s 128 [⟨0x1a00,3,[8]⟩,⟨0x1a01,0xff,[]⟩] := by
  refine sii_pdo_parsed (lineContext_readable _ _ 0 1) (start_cached _ _) ?_ ?_ ?_ _
  · rw [sectionEnd,if_neg (by decide)]
    rfl
  · decide
  · exact ⟨List.cons_ne_nil _ _,by decide,by decide,by decide,
      ⟨⟨by decide,by decide,by decide,by decide,trivial⟩,⟨by decide,by decide,by decide,trivial⟩,
        trivial⟩,by decide⟩

end EtherCATMaster.Sii
