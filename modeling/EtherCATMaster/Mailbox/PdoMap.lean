import EtherCATMaster.Mailbox.SdoUpload

namespace EtherCATMaster.Mailbox

open EtherCATMaster.Framework

def ectSdoSmcommtype : UInt16 := 0x1c00
def ectSdoPdoassign : UInt16 := 0x1c10
def ecSmenablemask : UInt32 := 0xfffeffff
def ecMaxSm : UInt8 := 8

/-- The fields of the slave list that the mapping is entered in, for each SyncManager. -/
structure MapSlave where
  smType : Nat → UInt8
  smLength : Nat → UInt16
  smFlags : Nat → UInt32

/-- `Osize`, `Isize` and the record of the slave. -/
structure PdoMap where
  oSize : UInt32
  iSize : UInt32
  slave : MapSlave

/-- `LO_BYTE` -/
def loByte (w : UInt32) : UInt32 := w &&& 0x00ff

/-- The type of a SyncManager is entered. The enable flag of one that is unused is cleared. -/
def PdoMap.setType (m : PdoMap) (iSM : Nat) (tSM : UInt8) : PdoMap :=
  { m with
    slave := { m.slave with
      smType := Function.update m.slave.smType iSM tSM
      smFlags := if tSM=0 then
          Function.update m.slave.smFlags iSM (m.slave.smFlags iSM &&& ecSmenablemask)
        else m.slave.smFlags } }

def PdoMap.addMapping (m : PdoMap) (iSM : Nat) (tSM : UInt8) (tsize : UInt32) : PdoMap :=
  if tsize=0 then m
  else
    { oSize := if tSM=3 then m.oSize+tsize else m.oSize
      iSize := if tSM=3 then m.iSize else m.iSize+tsize
      slave := { m.slave with
        smLength := Function.update m.slave.smLength iSM ((tsize+7)/8).toUInt16 } }

/-- The correction for slaves that count the types from 0: it begins with SM2 of type 2 and adds to
the types that are in use. Returns what is added and the type. -/
def bugAdd (iSM : Nat) (tSM add : UInt8) : UInt8 × UInt8 :=
  let add := if iSM=2 ∧ tSM=2 then 1 else add
  (add,if tSM≠0 then tSM+add else tSM)

def bugUnused (iSM : Nat) (tSM : UInt8) : UInt8 :=
  let tSM := if iSM=2 ∧ tSM=0 then 3 else tSM
  if iSM=3 ∧ tSM=0 then 4 else tSM

variable {σ : Type} (port : Port σ) (cfg : SlaveCfg)

def mapSm {α : Type} (readAssign : MbxM σ (UInt32 × α)) (rest : α) (iSM : Nat) (tSM : UInt8)
    (m : PdoMap) : MbxM σ (PdoMap × α) :=
  let m := m.setType iSM tSM
  if tSM=3 ∨ tSM=4 then do
    let (tsize,rest) ← readAssign
    pure (m.addMapping iSM tSM tsize,rest)
  else pure (m,rest)

def readPdoEntries (fuel : Nat) (idx : UInt16) : Nat → Nat → UInt32 → MbxM σ UInt32
  | 0,_,bsize => pure bsize
  | n+1,subidxloop,bsize => do
    let r ← sdoRead port cfg fuel idx (UInt8.ofNat subidxloop) false 4
    let rdat2 := get32 (overwrite [0,0,0,0] r.data) 0
    readPdoEntries fuel idx n (subidxloop+1)
      (if loByte rdat2<0xff then bsize+loByte rdat2 else bsize+0xff)

def readPdoAssignLoop (fuel : Nat) (pdoAssign : UInt16) : Nat → Nat → UInt32 → MbxM σ UInt32
  | 0,_,bsize => pure bsize
  | n+1,idxloop,bsize => do
    let r ← sdoRead port cfg fuel pdoAssign (UInt8.ofNat idxloop) false 2
    let idx := get16 (overwrite [0,0] r.data) 0
    if idx>0 then do
      let r ← sdoRead port cfg fuel idx 0 false 1
      let subcnt := byteAt (overwrite [0] r.data) 0
      let bsize ← readPdoEntries port cfg fuel idx subcnt.toNat 1 bsize
      readPdoAssignLoop fuel pdoAssign n (idxloop+1) bsize
    else readPdoAssignLoop fuel pdoAssign n (idxloop+1) bsize

/-- `ecx_readPDOassign` -/
def readPdoAssign (fuel : Nat) (pdoAssign : UInt16) : MbxM σ UInt32 := do
  let r ← sdoRead port cfg fuel pdoAssign 0 false 2
  let rdat := get16 (overwrite [0,0] r.data) 0
  if r.wkc>0 ∧ rdat>0 then
    -- a counter of 16 bits never passes this number
    if rdat=0xffff then throw .unfinished
    else readPdoAssignLoop port cfg fuel pdoAssign rdat.toNat 1 0
  else pure 0

def readPdoMapLoop (fuel : Nat) : Nat → Nat → UInt8 → PdoMap → MbxM σ PdoMap
  | 0,_,_,m => pure m
  | n+1,iSM,add,m => do
    let r ← sdoRead port cfg fuel ectSdoSmcommtype (UInt8.ofNat (iSM+1)) false 1
    let tSM := byteAt (overwrite [0] r.data) 0
    if r.wkc>0 then do
      let (add,tSM) := bugAdd iSM tSM add
      let (m,_) ← mapSm (do
        let tsize ← readPdoAssign port cfg fuel (ectSdoPdoassign+UInt16.ofNat iSM)
        pure (tsize,())) () iSM (bugUnused iSM tSM) m
      readPdoMapLoop fuel n (iSM+1) add m
    else readPdoMapLoop fuel n (iSM+1) add m

def PdoMap.retVal (m : PdoMap) : Int := if m.iSize>0 ∨ m.oSize>0 then 1 else 0

/-- `ecx_readPDOmap` -/
def readPdoMap (fuel : Nat) (slave : MapSlave) : MbxM σ (Int × PdoMap) := do
  let r ← sdoRead port cfg fuel ectSdoSmcommtype 0 false 1
  let nSM := byteAt (overwrite [0] r.data) 0
  if r.wkc>0 ∧ nSM>2 then
    let nSM := if nSM>ecMaxSm then ecMaxSm else nSM
    let m ← readPdoMapLoop port cfg fuel (nSM.toNat-2) 2 0 ⟨0,0,slave⟩
    pure (m.retVal,m)
  else pure (0,⟨0,0,slave⟩)

/-- The buffers of the context that objects are read into with complete access. -/
structure CaBuffers where
  smCommtype : List UInt8
  pdoAssign : List UInt8
  pdoDesc : List UInt8

def intoBuffer (old data : List UInt8) : List UInt8 := overwrite (0::old.tail) data

def sumPdoDesc (buffer : List UInt8) : Nat → Nat → UInt32 → UInt32
  | 0,_,bsize => bsize
  | n+1,k,bsize => sumPdoDesc buffer n (k+1) (bsize+loByte (get32 buffer (2+4*k)))

def readPdoAssignCaLoop (fuel : Nat) :
    Nat → Nat → UInt32 → CaBuffers → MbxM σ (UInt32 × CaBuffers)
  | 0,_,bsize,b => pure (bsize,b)
  | n+1,k,bsize,b =>
    let idx := get16 b.pdoAssign (2+2*k)
    if idx>0 then do
      let r ← sdoRead port cfg fuel idx 0 true (2+4*256)
      let b := { b with pdoDesc := intoBuffer b.pdoDesc r.data }
      let subidx := byteAt b.pdoDesc 0
      readPdoAssignCaLoop fuel n (k+1) (sumPdoDesc b.pdoDesc subidx.toNat 0 bsize) b
    else readPdoAssignCaLoop fuel n (k+1) bsize b

/-- `ecx_readPDOassignCA` -/
def readPdoAssignCa (fuel : Nat) (pdoAssign : UInt16) (b : CaBuffers) :
    MbxM σ (UInt32 × CaBuffers) := do
  let r ← sdoRead port cfg fuel pdoAssign 0 true (2+2*256)
  let b := { b with pdoAssign := intoBuffer b.pdoAssign r.data }
  let n := byteAt b.pdoAssign 0
  if r.wkc>0 ∧ n>0 then readPdoAssignCaLoop port cfg fuel n.toNat 0 0 b else pure (0,b)

def readPdoMapCaLoop (fuel : Nat) :
    Nat → Nat → UInt8 → PdoMap → CaBuffers → MbxM σ (PdoMap × CaBuffers)
  | 0,_,_,m,b => pure (m,b)
  | n+1,iSM,add,m,b => do
    let (add,tSM) := bugAdd iSM (byteAt b.smCommtype (2+iSM)) add
    let (m,b) ← mapSm (readPdoAssignCa port cfg fuel (ectSdoPdoassign+UInt16.ofNat iSM) b) b iSM
      tSM m
    readPdoMapCaLoop fuel n (iSM+1) add m b

/-- `ecx_readPDOmapCA` -/
def readPdoMapCa (fuel : Nat) (slave : MapSlave) (b : CaBuffers) :
    MbxM σ (Int × PdoMap × CaBuffers) := do
  let r ← sdoRead port cfg fuel ectSdoSmcommtype 0 true (2+ecMaxSm.toNat)
  let b := { b with smCommtype := intoBuffer b.smCommtype r.data }
  let nSM := byteAt b.smCommtype 0
  if r.wkc>0 ∧ nSM>2 then
    if nSM>ecMaxSm then do
      -- more SyncManagers than there is room for
      pushError (.packet 0 0 10)
      let (m,b) ← readPdoMapCaLoop port cfg fuel (ecMaxSm.toNat-2) 2 0 ⟨0,0,slave⟩ b
      pure (m.retVal,m,b)
    else
      let (m,b) ← readPdoMapCaLoop port cfg fuel (nSM.toNat-2) 2 0 ⟨0,0,slave⟩ b
      pure (m.retVal,m,b)
  else pure (0,⟨0,0,slave⟩,b)

/-- An object with this list of entries that can be read entry by entry and with complete access. -/
structure ListObject (object : UInt16 → UInt8 → Bool → Option (List UInt8)) (index : UInt16)
    (entries : List (List UInt8)) : Prop where
  short : entries.length<256
  number : object index 0 false=some [UInt8.ofNat entries.length]
  single : ∀ i entry,entries[i]?=some entry → object index (UInt8.ofNat (i+1)) false=some entry
  complete : object index 0 true=some (UInt8.ofNat entries.length::0::entries.flatten)

/-- The types of the SyncManagers, the PDOs that are assigned to each, the entries of the PDOs. -/
structure PdoDictionary where
  smTypes : List UInt8
  assign : Nat → List UInt16
  mapping : UInt16 → List UInt32

def PdoDictionary.mapped (d : PdoDictionary) : List UInt8 := (d.smTypes.take ecMaxSm.toNat).drop 2

/-- `P` holds of the SyncManagers from one on, each with its corrected type. -/
def ForTypes (P : Nat → UInt8 → Prop) : List UInt8 → Nat → UInt8 → Prop
  | [],_,_ => True
  | t::ts,iSM,add => P iSM (bugAdd iSM t add).2 ∧ ForTypes P ts (iSM+1) (bugAdd iSM t add).1

/-- The assignment of a SyncManager can be read, and so can the PDOs in it. -/
structure PdoDictionary.Assigned (d : PdoDictionary)
    (object : UInt16 → UInt8 → Bool → Option (List UInt8)) (iSM : Nat) : Prop where
  pdos : ListObject object (ectSdoPdoassign+UInt16.ofNat iSM) ((d.assign iSM).map le16)
  entries : ∀ idx ∈ d.assign iSM,idx>0 → ListObject object idx ((d.mapping idx).map le32)

def PdoDictionary.AssignedIfUsed (d : PdoDictionary)
    (object : UInt16 → UInt8 → Bool → Option (List UInt8)) (iSM : Nat) (tSM : UInt8) : Prop :=
  bugUnused iSM tSM=3 ∨ bugUnused iSM tSM=4 → d.Assigned object iSM

/-- The slave has these objects, for both kinds of access. -/
structure PdoDictionary.Offered (d : PdoDictionary)
    (object : UInt16 → UInt8 → Bool → Option (List UInt8)) : Prop where
  types : ListObject object ectSdoSmcommtype (d.smTypes.map fun t => [t])
  assigned : ForTypes (d.AssignedIfUsed object) d.mapped 2 0

def addEntries (bsize : UInt32) (entries : List UInt32) : UInt32 :=
  entries.foldl (fun b entry => b+loByte entry) bsize

def PdoDictionary.addPdos (d : PdoDictionary) (bsize : UInt32) (pdos : List UInt16) : UInt32 :=
  pdos.foldl (fun b idx => if idx>0 then addEntries b (d.mapping idx) else b) bsize

def PdoDictionary.bits (d : PdoDictionary) (iSM : Nat) : UInt32 := d.addPdos 0 (d.assign iSM)

def PdoMap.enter (m : PdoMap) (iSM : Nat) (tSM : UInt8) (bits : UInt32) : PdoMap :=
  if tSM=3 ∨ tSM=4 then (m.setType iSM tSM).addMapping iSM tSM bits else m.setType iSM tSM

def mapTypes (fix : Nat → UInt8 → UInt8) (bits : Nat → UInt32) :
    List UInt8 → Nat → UInt8 → PdoMap → PdoMap
  | [],_,_,m => m
  | t::ts,iSM,add,m => mapTypes fix bits ts (iSM+1) (bugAdd iSM t add).1
      (m.enter iSM (fix iSM (bugAdd iSM t add).2) (bits iSM))

/-- The map of a slave, from its record on. -/
def PdoDictionary.map (d : PdoDictionary) (fix : Nat → UInt8 → UInt8) (slave : MapSlave) : PdoMap :=
  mapTypes fix d.bits d.mapped 2 0 ⟨0,0,slave⟩

section Reading

variable {port : Port σ} {cfg : SlaveCfg} {object : UInt16 → UInt8 → Bool → Option (List UInt8)}
  {view : σ → SlaveView} {v : SlaveView} {c : Client σ} {fuel : Nat} {d : PdoDictionary}

theorem Serving.reads (hs : Conforms port cfg object view) (hfuel : 1100 ≤ fuel)
    (h : Serving view [] v c) {index : UInt16} {subindex : UInt8} {ca : Bool} {data : List UInt8}
    (hobject : object index (requestedSub ca subindex) ca=some data) (psize : Int)
    (hsize : (data.length : Int) ≤ psize) (hshort : data.length<1100) :
    ∃ r v' c',sdoRead port cfg fuel index subindex ca psize c=.ok (r,c') ∧
      Serving view [] v' c' ∧ 0 < r.wkc ∧ r.data=data := by
  obtain ⟨rounds,rfl⟩ : ∃ rounds,fuel=rounds+1 := ⟨fuel-1,by omega⟩
  obtain ⟨r,v',c',hrun,h',hend⟩ :=
    short_upload_serving hs rounds psize h hobject (by omega) (by omega)
  rw [Concludes,if_pos hsize] at hend
  exact ⟨r,v',c',hrun,h',hend.1,hend.2.2⟩

theorem get16_front {xs rest : List UInt8} {x : UInt16} {offset : Nat}
    (h : xs.drop offset=le16 x++rest) : get16 xs offset=x := by
  have hread := get16_le16 [] x rest
  rw [List.nil_append,List.length_nil] at hread
  rw [← hread,get16,get16,h,List.drop_zero]

theorem get32_front {xs rest : List UInt8} {x : UInt32} {offset : Nat}
    (h : xs.drop offset=le32 x++rest) : get32 xs offset=x := by
  have hread := get32_le32 [] x rest
  rw [List.nil_append,List.length_nil] at hread
  rw [← hread,get32,get32,h,List.drop_zero]

theorem loByte_capped (w bsize : UInt32) :
    (if loByte w<0xff then bsize+loByte w else bsize+0xff)=bsize+loByte w := by
  by_cases hlow : loByte w<0xff
  · rw [if_pos hlow]
  · have hle : (loByte w).toNat ≤ 255 := by
      rw [loByte,UInt32.toNat_and]
      exact Nat.and_le_right
    have hge : 255 ≤ (loByte w).toNat := Nat.not_lt.mp fun h => hlow (UInt32.lt_iff_toNat_lt.mpr h)
    have hall : loByte w=0xff := UInt32.toNat_inj.mp (Nat.le_antisymm hle hge)
    rw [if_neg hlow,hall]

theorem readPdoEntries_run (hs : Conforms port cfg object view) (hfuel : 1100 ≤ fuel)
    {idx : UInt16} (entries : List UInt32) : ∀ {k : Nat} (bsize : UInt32) {v : SlaveView}
    {c : Client σ},Serving view [] v c →
    (∀ i entry,entries[i]?=some entry → object idx (UInt8.ofNat (k+i)) false=some (le32 entry)) →
    ∃ v' c',readPdoEntries port cfg fuel idx entries.length k bsize c=
      .ok (addEntries bsize entries,c') ∧ Serving view [] v' c' := by
  induction entries with
  | nil =>
    intro k bsize v c h _
    exact ⟨_,_,rfl,h⟩
  | cons entry rest ih =>
    intro k bsize v c h hentries
    have hlen := le32_length entry
    have hobject : object idx (requestedSub false (UInt8.ofNat k)) false=some (le32 entry) :=
      hentries 0 entry rfl
    obtain ⟨r,v1,c1,hread,h1,-,hdata⟩ := h.reads hs hfuel hobject 4 (by omega) (by omega)
    obtain ⟨v',c',hrun,h'⟩ := ih (bsize+loByte entry) h1 (k := k+1) (by
      intro i e he
      rw [Nat.add_right_comm,Nat.add_assoc]
      exact hentries (i+1) e he)
    refine ⟨v',c',?_,h'⟩
    have hentry : get32 (overwrite [0,0,0,0] r.data) 0=entry := get32_front (by rw [hdata]; rfl)
    rw [List.length_cons,readPdoEntries,run_bind hread,hentry,loByte_capped]
    exact hrun

theorem ListObject.readNumber {index : UInt16} {entries : List (List UInt8)}
    (ho : ListObject object index entries) (hs : Conforms port cfg object view)
    (hfuel : 1100 ≤ fuel) (h : Serving view [] v c) (psize : Int) (hsize : 1 ≤ psize) :
    ∃ r v' c',sdoRead port cfg fuel index 0 false psize c=.ok (r,c') ∧ Serving view [] v' c' ∧
      0 < r.wkc ∧ r.data=[UInt8.ofNat entries.length] := by
  have hobject : object index (requestedSub false 0) false=some [UInt8.ofNat entries.length] :=
    ho.number
  exact h.reads hs hfuel hobject psize hsize (by simp)

theorem ofNat_gt_iff {n : Nat} (hn : n<256) (b : UInt8) : UInt8.ofNat n>b ↔ b.toNat < n := by
  have hnat : (UInt8.ofNat n).toNat=n := by
    rw [UInt8.toNat_ofNat']
    exact Nat.mod_eq_of_lt hn
  rw [gt_iff_lt,UInt8.lt_iff_toNat_lt,hnat]

theorem ListObject.number_toNat {index : UInt16} {entries : List (List UInt8)}
    (ho : ListObject object index entries) :
    (UInt8.ofNat entries.length).toNat=entries.length := by
  rw [UInt8.toNat_ofNat']
  exact Nat.mod_eq_of_lt ho.short

theorem readPdoAssignLoop_run (hs : Conforms port cfg object view) (hfuel : 1100 ≤ fuel)
    {pdoAssign : UInt16} (pdos : List UInt16) : ∀ {k : Nat} (bsize : UInt32) {v : SlaveView}
    {c : Client σ},Serving view [] v c →
    (∀ i idx,pdos[i]?=some idx → object pdoAssign (UInt8.ofNat (k+i)) false=some (le16 idx)) →
    (∀ idx ∈ pdos,idx>0 → ListObject object idx ((d.mapping idx).map le32)) →
    ∃ v' c',readPdoAssignLoop port cfg fuel pdoAssign pdos.length k bsize c=
      .ok (d.addPdos bsize pdos,c') ∧ Serving view [] v' c' := by
  induction pdos with
  | nil =>
    intro k bsize v c h _ _
    exact ⟨_,_,rfl,h⟩
  | cons idx rest ih =>
    intro k bsize v c h hpdos hmapped
    have hlen := le16_length idx
    have hobject : object pdoAssign (requestedSub false (UInt8.ofNat k)) false=some (le16 idx) :=
      hpdos 0 idx rfl
    obtain ⟨r,v1,c1,hread,h1,-,hdata⟩ := h.reads hs hfuel hobject 2 (by omega) (by omega)
    have hidx : get16 (overwrite [0,0] r.data) 0=idx := get16_front (by rw [hdata]; rfl)
    have hrest : ∀ i e,rest[i]?=some e →
        object pdoAssign (UInt8.ofNat (k+1+i)) false=some (le16 e) := by
      intro i e he
      rw [Nat.add_right_comm,Nat.add_assoc]
      exact hpdos (i+1) e he
    have hothers : ∀ e ∈ rest,e>0 → ListObject object e ((d.mapping e).map le32) :=
      fun e he => hmapped e (List.mem_cons_of_mem _ he)
    rw [List.length_cons,readPdoAssignLoop,run_bind hread,hidx]
    by_cases hpos : idx>0
    · have ho := hmapped idx List.mem_cons_self hpos
      obtain ⟨r2,v2,c2,hnumber,h2,-,hcount⟩ := ho.readNumber hs hfuel h1 1 (by omega)
      have hsub : (byteAt (overwrite [0] r2.data) 0).toNat=(d.mapping idx).length := by
        rw [hcount,← List.length_map le32]
        exact ho.number_toNat
      obtain ⟨v3,c3,hentries,h3⟩ :=
        readPdoEntries_run hs hfuel (d.mapping idx) (k := 1) bsize h2 (by
          intro i entry he
          rw [Nat.add_comm]
          exact ho.single i (le32 entry) (by rw [List.getElem?_map,he]; rfl))
      obtain ⟨v',c',hrun,h'⟩ := ih (addEntries bsize (d.mapping idx)) h3 hrest hothers
      refine ⟨v',c',?_,h'⟩
      rw [if_pos hpos,run_bind hnumber,hsub,run_bind hentries,hrun,PdoDictionary.addPdos,
        PdoDictionary.addPdos,List.foldl_cons,if_pos hpos]
    · obtain ⟨v',c',hrun,h'⟩ := ih bsize h1 hrest hothers
      refine ⟨v',c',?_,h'⟩
      rw [if_neg hpos,hrun,PdoDictionary.addPdos,PdoDictionary.addPdos,List.foldl_cons,if_neg hpos]

theorem get16_byte (b : UInt8) : get16 [b,0] 0=b.toUInt16 := by
  have hvalue : leValue [b,0]=b.toNat := by
    simp [leValue]
  rw [get16,List.drop_zero,List.take_of_length_le (show [b,0].length ≤ 2 from Nat.le_refl 2),
    hvalue,UInt16.ofNat_uInt8ToNat]

/-- Without complete access the size of an assignment is that of its PDOs. -/
theorem readPdoAssign_run (hs : Conforms port cfg object view) (hfuel : 1100 ≤ fuel)
    (h : Serving view [] v c) {pdoAssign : UInt16} {pdos : List UInt16}
    (ho : ListObject object pdoAssign (pdos.map le16))
    (hmapped : ∀ idx ∈ pdos,idx>0 → ListObject object idx ((d.mapping idx).map le32)) :
    ∃ v' c',readPdoAssign port cfg fuel pdoAssign c=.ok (d.addPdos 0 pdos,c') ∧
      Serving view [] v' c' := by
  obtain ⟨r,v1,c1,hnumber,h1,hwkc,hcount⟩ := ho.readNumber hs hfuel h 2 (by omega)
  have hnat := ho.number_toNat
  rw [List.length_map] at hcount hnat
  have hrdat : get16 (overwrite [0,0] r.data) 0=(UInt8.ofNat pdos.length).toUInt16 := by
    rw [hcount]
    exact get16_byte _
  have hlen : (UInt8.ofNat pdos.length).toUInt16.toNat=pdos.length := by
    rw [UInt8.toNat_toUInt16,hnat]
  have hmax : (UInt8.ofNat pdos.length).toUInt16≠0xffff := by
    intro hbad
    have hshort := ho.short
    rw [List.length_map] at hshort
    rw [hbad] at hlen
    change 65535=_ at hlen
    omega
  rw [readPdoAssign,run_bind hnumber,hrdat]
  by_cases hpos : (UInt8.ofNat pdos.length).toUInt16>0
  · obtain ⟨v',c',hrun,h'⟩ := readPdoAssignLoop_run (d := d) hs hfuel pdos (k := 1) 0 h1 (by
      intro i idx hi
      rw [Nat.add_comm]
      exact ho.single i (le16 idx) (by rw [List.getElem?_map,hi]; rfl)) hmapped
    refine ⟨v',c',?_,h'⟩
    rw [if_pos ⟨hwkc,hpos⟩,if_neg hmax,hlen]
    exact hrun
  · have hnone : pdos=[] := by
      apply List.eq_nil_of_length_eq_zero
      rw [← hlen]
      exact Nat.eq_zero_of_not_pos fun h => hpos (UInt16.lt_iff_toNat_lt.mpr h)
    refine ⟨v1,c1,?_,h1⟩
    rw [if_neg (fun h => hpos h.2),hnone]
    rfl

theorem mapSm_run {α : Type} (readAssign : MbxM σ (UInt32 × α)) {rest : α} {P : α → Prop}
    (bits : UInt32) (iSM : Nat) (tSM : UInt8) (m : PdoMap) (h : Serving view [] v c)
    (hrest : P rest) (hread : tSM=3 ∨ tSM=4 → ∃ v' c' rest',readAssign c=.ok ((bits,rest'),c') ∧
      Serving view [] v' c' ∧ P rest') :
    ∃ v' c' rest',mapSm readAssign rest iSM tSM m c=.ok ((m.enter iSM tSM bits,rest'),c') ∧
      Serving view [] v' c' ∧ P rest' := by
  by_cases htype : tSM=3 ∨ tSM=4
  · obtain ⟨v',c',rest',hrun,h',hrest'⟩ := hread htype
    refine ⟨v',c',rest',?_,h',hrest'⟩
    rw [mapSm]
    dsimp only
    rw [if_pos htype,run_bind hrun,PdoMap.enter,if_pos htype]
    rfl
  · refine ⟨v,c,rest,?_,h,hrest⟩
    rw [mapSm]
    dsimp only
    rw [if_neg htype,PdoMap.enter,if_neg htype]
    rfl

/-- The loop over the SyncManagers, with a read for each type. -/
theorem readPdoMapLoop_run (hs : Conforms port cfg object view) (hfuel : 1100 ≤ fuel)
    (ts : List UInt8) : ∀ (iSM : Nat) (add : UInt8) (m : PdoMap) {v : SlaveView} {c : Client σ},
    Serving view [] v c →
    (∀ i t,ts[i]?=some t → object ectSdoSmcommtype (UInt8.ofNat (iSM+i+1)) false=some [t]) →
    ForTypes (d.AssignedIfUsed object) ts iSM add →
    ∃ v' c',readPdoMapLoop port cfg fuel ts.length iSM add m c=
      .ok (mapTypes bugUnused d.bits ts iSM add m,c') ∧ Serving view [] v' c' := by
  induction ts with
  | nil =>
    intro iSM add m v c h _ _
    exact ⟨_,_,rfl,h⟩
  | cons t rest ih =>
    intro iSM add m v c h htypes hassigned
    have hobject : object ectSdoSmcommtype (requestedSub false (UInt8.ofNat (iSM+1))) false=
        some [t] := htypes 0 t rfl
    obtain ⟨r,v1,c1,hread,h1,hwkc,hdata⟩ := h.reads hs hfuel hobject 1 (by simp) (by simp)
    have htype : byteAt (overwrite [0] r.data) 0=t := by
      rw [hdata]
      rfl
    obtain ⟨hhere,hothers⟩ := hassigned
    obtain ⟨v3,c3,u,hsm,h3,-⟩ := mapSm_run (P := fun _ : Unit => True) (do
        let tsize ← readPdoAssign port cfg fuel (ectSdoPdoassign+UInt16.ofNat iSM)
        pure (tsize,())) (d.bits iSM) iSM (bugUnused iSM (bugAdd iSM t add).2) m h1 trivial (by
        intro hused
        obtain ⟨v2,c2,hassign,h2⟩ :=
          readPdoAssign_run (d := d) hs hfuel h1 (hhere hused).pdos (hhere hused).entries
        exact ⟨v2,c2,(),run_bind hassign,h2,trivial⟩)
    obtain ⟨v',c',hrun,h'⟩ := ih (iSM+1) (bugAdd iSM t add).1
      (m.enter iSM (bugUnused iSM (bugAdd iSM t add).2) (d.bits iSM)) h3 (by
        intro i e he
        rw [Nat.add_right_comm iSM 1 i,Nat.add_assoc iSM i 1]
        exact htypes (i+1) e he) hothers
    refine ⟨v',c',?_,h'⟩
    rw [List.length_cons,readPdoMapLoop,run_bind hread,if_pos hwkc,htype]
    dsimp only
    rw [run_bind hsm]
    exact hrun

theorem ListObject.readAll {index : UInt16} {entries : List (List UInt8)}
    (ho : ListObject object index entries) (hs : Conforms port cfg object view)
    (hfuel : 1100 ≤ fuel) (h : Serving view [] v c) (psize : Int)
    (hsize : ((2+entries.flatten.length : Nat) : Int) ≤ psize)
    (hshort : 2+entries.flatten.length<1100) :
    ∃ r v' c',sdoRead port cfg fuel index 0 true psize c=.ok (r,c') ∧ Serving view [] v' c' ∧
      0 < r.wkc ∧ r.data=UInt8.ofNat entries.length::0::entries.flatten := by
  have hlen : (UInt8.ofNat entries.length::0::entries.flatten).length=
      2+entries.flatten.length := by
    rw [List.length_cons,List.length_cons]
    omega
  have hobject : object index (requestedSub true 0) true=
      some (UInt8.ofNat entries.length::0::entries.flatten) := ho.complete
  exact h.reads hs hfuel hobject psize (by rw [hlen]; exact hsize) (by rw [hlen]; exact hshort)

theorem intoBuffer_drop (old : List UInt8) (a b : UInt8) (entries : List UInt8) :
    ∃ rest,(intoBuffer old (a::b::entries)).drop 2=entries++rest :=
  ⟨_,rfl⟩

theorem encoded_length {α : Type} {encode : α → List UInt8} {width : Nat}
    (h : ∀ x,(encode x).length=width) (xs : List α) :
    (xs.map encode).flatten.length=width*xs.length := by
  induction xs with
  | nil => rfl
  | cons x xs ih =>
    rw [List.map_cons,List.flatten_cons,List.length_append,h,ih,List.length_cons,
      Nat.mul_add_one,Nat.add_comm]

theorem sumPdoDesc_run {buffer : List UInt8} (entries : List UInt32) : ∀ {k : Nat} (bsize : UInt32)
    {rest : List UInt8},buffer.drop (2+4*k)=(entries.map le32).flatten++rest →
    sumPdoDesc buffer entries.length k bsize=addEntries bsize entries := by
  induction entries with
  | nil =>
    intro k bsize rest _
    rfl
  | cons entry others ih =>
    intro k bsize rest h
    rw [List.map_cons,List.flatten_cons,List.append_assoc] at h
    have hnext : buffer.drop (2+4*(k+1))=(others.map le32).flatten++rest := by
      rw [Nat.mul_add,← Nat.add_assoc,← List.drop_drop,h,List.drop_left' (le32_length entry)]
    rw [List.length_cons,sumPdoDesc,get32_front h,ih _ hnext]
    rfl

theorem readPdoAssignCaLoop_run (hs : Conforms port cfg object view) (hfuel : 1100 ≤ fuel)
    (pdos : List UInt16) : ∀ {k : Nat} (bsize : UInt32) (b : CaBuffers) {v : SlaveView}
    {c : Client σ} {rest : List UInt8},Serving view [] v c →
    b.pdoAssign.drop (2+2*k)=(pdos.map le16).flatten++rest →
    (∀ idx ∈ pdos,idx>0 → ListObject object idx ((d.mapping idx).map le32)) →
    ∃ v' c' b',readPdoAssignCaLoop port cfg fuel pdos.length k bsize b c=
      .ok ((d.addPdos bsize pdos,b'),c') ∧ Serving view [] v' c' ∧
      b'.smCommtype=b.smCommtype := by
  induction pdos with
  | nil =>
    intro k bsize b v c rest h _ _
    exact ⟨_,_,b,rfl,h,rfl⟩
  | cons idx others ih =>
    intro k bsize b v c rest h hbuffer hmapped
    rw [List.map_cons,List.flatten_cons,List.append_assoc] at hbuffer
    have hnext : b.pdoAssign.drop (2+2*(k+1))=(others.map le16).flatten++rest := by
      rw [Nat.mul_add,← Nat.add_assoc,← List.drop_drop,hbuffer,List.drop_left' (le16_length idx)]
    have hothers : ∀ e ∈ others,e>0 → ListObject object e ((d.mapping e).map le32) :=
      fun e he => hmapped e (List.mem_cons_of_mem _ he)
    rw [List.length_cons,readPdoAssignCaLoop,get16_front hbuffer]
    dsimp only
    by_cases hpos : idx>0
    · have ho := hmapped idx List.mem_cons_self hpos
      have hshort := ho.short
      have hlen := encoded_length le32_length (d.mapping idx)
      rw [List.length_map] at hshort
      obtain ⟨r,v1,c1,hread,h1,-,hdata⟩ := ho.readAll hs hfuel h (2+4*256) (by omega) (by omega)
      obtain ⟨more,hentries⟩ := intoBuffer_drop b.pdoDesc
        (UInt8.ofNat ((d.mapping idx).map le32).length) 0 ((d.mapping idx).map le32).flatten
      rw [← hdata] at hentries
      have hsub : (byteAt (intoBuffer b.pdoDesc r.data) 0).toNat=(d.mapping idx).length := by
        rw [hdata,← List.length_map le32]
        exact ho.number_toNat
      obtain ⟨v',c',b',hrun,h',hkept⟩ := ih (addEntries bsize (d.mapping idx))
        { b with pdoDesc := intoBuffer b.pdoDesc r.data } h1 hnext hothers
      refine ⟨v',c',b',?_,h',hkept⟩
      rw [if_pos hpos,run_bind hread,hsub,sumPdoDesc_run (d.mapping idx) (k := 0) bsize hentries,
        hrun,PdoDictionary.addPdos,PdoDictionary.addPdos,List.foldl_cons,if_pos hpos]
    · obtain ⟨v',c',b',hrun,h',hkept⟩ := ih bsize b h hnext hothers
      refine ⟨v',c',b',?_,h',hkept⟩
      rw [if_neg hpos,hrun,PdoDictionary.addPdos,PdoDictionary.addPdos,List.foldl_cons,if_neg hpos]

theorem readPdoAssignCa_run (hs : Conforms port cfg object view) (hfuel : 1100 ≤ fuel)
    (h : Serving view [] v c) {pdoAssign : UInt16} {pdos : List UInt16}
    (ho : ListObject object pdoAssign (pdos.map le16))
    (hmapped : ∀ idx ∈ pdos,idx>0 → ListObject object idx ((d.mapping idx).map le32))
    (b : CaBuffers) : ∃ v' c' b',readPdoAssignCa port cfg fuel pdoAssign b c=
      .ok ((d.addPdos 0 pdos,b'),c') ∧ Serving view [] v' c' ∧ b'.smCommtype=b.smCommtype := by
  have hshort := ho.short
  have hnat := ho.number_toNat
  have hlen := encoded_length le16_length pdos
  rw [List.length_map] at hshort hnat
  obtain ⟨r,v1,c1,hread,h1,hwkc,hdata⟩ := ho.readAll hs hfuel h (2+2*256) (by omega) (by omega)
  obtain ⟨more,hentries⟩ := intoBuffer_drop b.pdoAssign
    (UInt8.ofNat (pdos.map le16).length) 0 (pdos.map le16).flatten
  rw [← hdata] at hentries
  have hnumber : byteAt (intoBuffer b.pdoAssign r.data) 0=UInt8.ofNat pdos.length := by
    rw [hdata,List.length_map]
    rfl
  rw [readPdoAssignCa,run_bind hread]
  dsimp only
  rw [hnumber]
  by_cases hpos : UInt8.ofNat pdos.length>0
  · obtain ⟨v',c',b',hrun,h',hkept⟩ := readPdoAssignCaLoop_run (d := d) hs hfuel pdos (k := 0) 0
      { b with pdoAssign := intoBuffer b.pdoAssign r.data } h1 hentries hmapped
    refine ⟨v',c',b',?_,h',hkept⟩
    rw [if_pos ⟨hwkc,hpos⟩,hnat]
    exact hrun
  · have hnone : pdos=[] := by
      apply List.eq_nil_of_length_eq_zero
      exact Nat.eq_zero_of_not_pos fun h => hpos ((ofNat_gt_iff hshort 0).mpr h)
    refine ⟨v1,c1,{ b with pdoAssign := intoBuffer b.pdoAssign r.data },?_,h1,rfl⟩
    rw [if_neg (fun h => hpos h.2),hnone]
    rfl

theorem bugUnused_ne_zero (iSM : Nat) {tSM : UInt8} (h : tSM≠0) : bugUnused iSM tSM=tSM := by
  simp [bugUnused,h]

theorem bugUnused_used (iSM : Nat) {tSM : UInt8} (h : tSM=3 ∨ tSM=4) :
    bugUnused iSM tSM=3 ∨ bugUnused iSM tSM=4 := by
  have hne : tSM≠0 := by
    rcases h with rfl|rfl
    · decide
    · decide
  rw [bugUnused_ne_zero iSM hne]
  exact h

theorem readPdoMapCaLoop_run (hs : Conforms port cfg object view) (hfuel : 1100 ≤ fuel)
    (ts : List UInt8) : ∀ (iSM : Nat) (add : UInt8) (m : PdoMap) (b : CaBuffers) {v : SlaveView}
    {c : Client σ} {rest : List UInt8},Serving view [] v c →
    b.smCommtype.drop (2+iSM)=ts++rest → ForTypes (d.AssignedIfUsed object) ts iSM add →
    ∃ v' c' b',readPdoMapCaLoop port cfg fuel ts.length iSM add m b c=
      .ok ((mapTypes (fun _ tSM => tSM) d.bits ts iSM add m,b'),c') ∧ Serving view [] v' c' := by
  induction ts with
  | nil =>
    intro iSM add m b v c rest h _ _
    exact ⟨_,_,b,rfl,h⟩
  | cons t others ih =>
    intro iSM add m b v c rest h hbuffer hassigned
    have htype : byteAt b.smCommtype (2+iSM)=t := by
      rw [byteAt,List.getD_eq_getElem?_getD,← Nat.add_zero (2+iSM),← List.getElem?_drop,hbuffer]
      rfl
    have hnext : b.smCommtype.drop (2+(iSM+1))=others++rest := by
      rw [← Nat.add_assoc,← List.drop_drop,hbuffer]
      rfl
    obtain ⟨hhere,hothers⟩ := hassigned
    obtain ⟨v1,c1,b1,hsm,h1,hkept⟩ := mapSm_run
      (P := fun b' : CaBuffers => b'.smCommtype=b.smCommtype)
      (readPdoAssignCa port cfg fuel (ectSdoPdoassign+UInt16.ofNat iSM) b) (d.bits iSM) iSM
      (bugAdd iSM t add).2 m h rfl (by
        intro hused
        have ho := hhere (bugUnused_used iSM hused)
        exact readPdoAssignCa_run (d := d) hs hfuel h ho.pdos ho.entries b)
    obtain ⟨v',c',b',hrun,h'⟩ := ih (iSM+1) (bugAdd iSM t add).1
      (m.enter iSM (bugAdd iSM t add).2 (d.bits iSM)) b1 h1 (by rw [hkept]; exact hnext) hothers
    refine ⟨v',c',b',?_,h'⟩
    rw [List.length_cons,readPdoMapCaLoop,htype]
    dsimp only
    rw [run_bind hsm]
    exact hrun

theorem flatten_singletons (ts : List UInt8) : (ts.map fun t => [t]).flatten=ts := by
  induction ts with
  | nil => rfl
  | cons t ts ih => rw [List.map_cons,List.flatten_cons,ih,List.singleton_append]

theorem PdoDictionary.mapped_length (d : PdoDictionary) :
    d.mapped.length=min 8 d.smTypes.length-2 := by
  rw [mapped,List.length_drop,List.length_take]
  rfl

theorem PdoDictionary.mapped_none (htwo : d.smTypes.length ≤ 2) : d.mapped=[] := by
  apply List.eq_nil_of_length_eq_zero
  rw [d.mapped_length]
  omega

theorem PdoDictionary.mapped_few (hfew : d.smTypes.length ≤ ecMaxSm.toNat) :
    d.mapped=d.smTypes.drop 2 := by
  rw [mapped,List.take_of_length_le hfew]

/-- What `ecx_readPDOmap` finds. -/
theorem readPdoMap_run (hs : Conforms port cfg object view) (hfuel : 1100 ≤ fuel)
    (h : Serving view [] v c) (ho : d.Offered object) (slave : MapSlave) :
    ∃ c',readPdoMap port cfg fuel slave c=
      .ok (((d.map bugUnused slave).retVal,d.map bugUnused slave),c') := by
  obtain ⟨r,v1,c1,hnumber,h1,hwkc,hcount⟩ := ho.types.readNumber hs hfuel h 1 (by omega)
  have hnat := ho.types.number_toNat
  have hshort := ho.types.short
  rw [List.length_map] at hcount hnat hshort
  have hnSM : byteAt (overwrite [0] r.data) 0=UInt8.ofNat d.smTypes.length := by
    rw [hcount]
    rfl
  rw [readPdoMap,run_bind hnumber]
  dsimp only
  rw [hnSM]
  by_cases hmany : UInt8.ofNat d.smTypes.length>2
  · have hlimit : (if UInt8.ofNat d.smTypes.length>ecMaxSm then ecMaxSm
        else UInt8.ofNat d.smTypes.length).toNat-2=d.mapped.length := by
      rw [d.mapped_length]
      by_cases hbig : UInt8.ofNat d.smTypes.length>ecMaxSm
      · have hnine : 8 < d.smTypes.length := (ofNat_gt_iff hshort ecMaxSm).mp hbig
        rw [if_pos hbig,Nat.min_eq_left (by omega)]
        rfl
      · have height : d.smTypes.length ≤ 8 :=
          Nat.not_lt.mp fun h => hbig ((ofNat_gt_iff hshort ecMaxSm).mpr h)
        rw [if_neg hbig,hnat,Nat.min_eq_right height]
    obtain ⟨v',c',hrun,-⟩ := readPdoMapLoop_run hs hfuel d.mapped 2 0 ⟨0,0,slave⟩ h1 (by
      intro i t hi
      rw [PdoDictionary.mapped,List.getElem?_drop,List.getElem?_take] at hi
      split_ifs at hi
      exact ho.types.single (2+i) [t] (by rw [List.getElem?_map,hi]; rfl)) ho.assigned
    refine ⟨c',?_⟩
    rw [if_pos ⟨hwkc,hmany⟩,hlimit,run_bind hrun]
    rfl
  · have hnone : d.mapped=[] :=
      d.mapped_none (Nat.not_lt.mp fun h => hmany ((ofNat_gt_iff hshort 2).mpr h))
    refine ⟨c1,?_⟩
    rw [if_neg (fun h => hmany h.2),PdoDictionary.map,hnone]
    rfl

/-- What `ecx_readPDOmapCA` finds, if there is room for the types. -/
theorem readPdoMapCa_run (hs : Conforms port cfg object view) (hfuel : 1100 ≤ fuel)
    (h : Serving view [] v c) (ho : d.Offered object) (slave : MapSlave) (b : CaBuffers)
    (hfew : d.smTypes.length ≤ ecMaxSm.toNat) :
    ∃ b' c',readPdoMapCa port cfg fuel slave b c=
      .ok (((d.map (fun _ tSM => tSM) slave).retVal,d.map (fun _ tSM => tSM) slave,b'),c') := by
  have hnat := ho.types.number_toNat
  have hshort := ho.types.short
  have height : d.smTypes.length ≤ 8 := hfew
  have hflat := flatten_singletons d.smTypes
  obtain ⟨r,v1,c1,hread,h1,hwkc,hdata⟩ := ho.types.readAll hs hfuel h (2+ecMaxSm.toNat)
    (by rw [hflat]; change ((2+d.smTypes.length : Nat) : Int) ≤ 2+8; omega)
    (by rw [hflat]; omega)
  rw [List.length_map] at hdata hnat hshort
  rw [hflat] at hdata
  obtain ⟨more,htypes⟩ := intoBuffer_drop b.smCommtype (UInt8.ofNat d.smTypes.length) 0 d.smTypes
  rw [← hdata] at htypes
  have hnSM : byteAt (intoBuffer b.smCommtype r.data) 0=UInt8.ofNat d.smTypes.length := by
    rw [hdata]
    rfl
  have hfits : ¬UInt8.ofNat d.smTypes.length>ecMaxSm := fun hbig =>
    absurd ((ofNat_gt_iff hshort ecMaxSm).mp hbig) (Nat.not_lt.mpr hfew)
  rw [readPdoMapCa,run_bind hread]
  dsimp only
  rw [hnSM]
  by_cases hmany : UInt8.ofNat d.smTypes.length>2
  · have hthree : 2 < d.smTypes.length := (ofNat_gt_iff hshort 2).mp hmany
    have hbuffer : (intoBuffer b.smCommtype r.data).drop (2+2)=d.mapped++more := by
      rw [← List.drop_drop,htypes,List.drop_append_of_le_length (by omega),
        PdoDictionary.mapped_few hfew]
    obtain ⟨v',c',b',hrun,-⟩ := readPdoMapCaLoop_run hs hfuel d.mapped 2 0 ⟨0,0,slave⟩
      { b with smCommtype := intoBuffer b.smCommtype r.data } h1 hbuffer ho.assigned
    refine ⟨b',c',?_⟩
    rw [d.mapped_length,Nat.min_eq_right height] at hrun
    rw [if_pos ⟨hwkc,hmany⟩,if_neg hfits,hnat,run_bind hrun]
    rfl
  · have hnone : d.mapped=[] :=
      d.mapped_none (Nat.not_lt.mp fun h => hmany ((ofNat_gt_iff hshort 2).mpr h))
    refine ⟨{ b with smCommtype := intoBuffer b.smCommtype r.data },c1,?_⟩
    rw [if_neg (fun h => hmany h.2),PdoDictionary.map,hnone]
    rfl

/-- With more types than there is room for, `ecx_readPDOmapCA` finds nothing. -/
theorem readPdoMapCa_refused (hs : Conforms port cfg object view) (hfuel : 1100 ≤ fuel)
    (h : Serving view [] v c) (ho : d.Offered object) (slave : MapSlave) (b : CaBuffers)
    (hmany : ecMaxSm.toNat < d.smTypes.length) :
    ∃ b' c',readPdoMapCa port cfg fuel slave b c=.ok ((0,⟨0,0,slave⟩,b'),c') := by
  have hnine : 8 < d.smTypes.length := hmany
  have hshort := ho.types.short
  rw [List.length_map] at hshort
  have hobject : object ectSdoSmcommtype (requestedSub true 0) true=
      some (UInt8.ofNat (d.smTypes.map fun t => [t]).length::0::d.smTypes) := by
    have hall := ho.types.complete
    rw [flatten_singletons] at hall
    exact hall
  have hlen : (UInt8.ofNat (d.smTypes.map fun t => [t]).length::0::d.smTypes).length=
      2+d.smTypes.length := by
    rw [List.length_cons,List.length_cons]
    omega
  obtain ⟨rounds,rfl⟩ : ∃ rounds,fuel=rounds+1 := ⟨fuel-1,by omega⟩
  obtain ⟨r,v',c',hrun,h',hend⟩ := short_upload_serving hs rounds (2+ecMaxSm.toNat) h hobject
    (by rw [hlen]; omega) (by rw [hlen]; omega)
  have hroom : ¬(((UInt8.ofNat (d.smTypes.map fun t => [t]).length::0::d.smTypes).length : Nat) :
      Int) ≤ 2+ecMaxSm.toNat := by
    rw [hlen]
    change ¬((2+d.smTypes.length : Nat) : Int) ≤ 2+8
    omega
  rw [Concludes,if_neg hroom] at hend
  have hwkc : ¬r.wkc>0 := by
    rw [hend.1]
    exact lt_irrefl 0
  refine ⟨{ b with smCommtype := intoBuffer b.smCommtype r.data },c',?_⟩
  rw [readPdoMapCa,run_bind hrun]
  dsimp only
  rw [if_neg (fun h => hwkc h.1)]
  rfl

end Reading

theorem PdoMap.enter_smType (m : PdoMap) (iSM : Nat) (tSM : UInt8) (bits : UInt32) :
    (m.enter iSM tSM bits).slave.smType=Function.update m.slave.smType iSM tSM := by
  rw [enter]
  by_cases hused : tSM=3 ∨ tSM=4
  · rw [if_pos hused,addMapping]
    by_cases hnone : bits=0
    · rw [if_pos hnone]
      rfl
    · rw [if_neg hnone]
      rfl
  · rw [if_neg hused]
    rfl

section Types

variable {fix f g : Nat → UInt8 → UInt8} {bits : Nat → UInt32} {P : Nat → UInt8 → Prop}

theorem mapTypes_before (ts : List UInt8) : ∀ {iSM : Nat} (add : UInt8) (m : PdoMap) {j : Nat},
    j < iSM → (mapTypes fix bits ts iSM add m).slave.smType j=m.slave.smType j := by
  induction ts with
  | nil =>
    intro iSM add m j _
    rfl
  | cons t ts ih =>
    intro iSM add m j hj
    rw [mapTypes,ih _ _ (Nat.lt_succ_of_lt hj),PdoMap.enter_smType,
      Function.update_of_ne (Nat.ne_of_lt hj)]

theorem mapTypes_first (t : UInt8) (ts : List UInt8) (iSM : Nat) (add : UInt8) (m : PdoMap) :
    (mapTypes fix bits (t::ts) iSM add m).slave.smType iSM=fix iSM (bugAdd iSM t add).2 := by
  rw [mapTypes,mapTypes_before ts _ _ (Nat.lt_succ_self iSM),PdoMap.enter_smType,
    Function.update_self]

theorem mapTypes_alike_iff (ts : List UInt8) : ∀ (iSM : Nat) (add : UInt8) (m : PdoMap),
    mapTypes f bits ts iSM add m=mapTypes g bits ts iSM add m ↔
      ForTypes (fun iSM tSM => f iSM tSM=g iSM tSM) ts iSM add := by
  induction ts with
  | nil => exact fun _ _ _ => ⟨fun _ => trivial,fun _ => rfl⟩
  | cons t ts ih =>
    intro iSM add m
    constructor
    · intro heq
      have hhere : f iSM (bugAdd iSM t add).2=g iSM (bugAdd iSM t add).2 := by
        have hfirst := congrArg (fun m' => m'.slave.smType iSM) heq
        rw [mapTypes_first,mapTypes_first] at hfirst
        exact hfirst
      rw [mapTypes,mapTypes,hhere] at heq
      exact ⟨hhere,(ih _ _ _).mp heq⟩
    · rintro ⟨hhere,hothers⟩
      rw [mapTypes,mapTypes,hhere]
      exact (ih _ _ _).mpr hothers

theorem forTypes_of (ts : List UInt8) : ∀ {iSM : Nat} (add : UInt8),
    (∀ i t,iSM ≤ i → i < iSM+ts.length → P i t) → ForTypes P ts iSM add := by
  induction ts with
  | nil => exact fun _ _ => trivial
  | cons t ts ih =>
    intro iSM add h
    refine ⟨h iSM _ (Nat.le_refl iSM) (by rw [List.length_cons]; omega),ih _ ?_⟩
    intro i t' hlow hhigh
    exact h i t' (by omega) (by rw [List.length_cons]; omega)

end Types

theorem bugUnused_eq_self_iff {iSM : Nat} (h : iSM=2 ∨ iSM=3) (tSM : UInt8) :
    bugUnused iSM tSM=tSM ↔ tSM≠0 := by
  constructor
  · rintro heq rfl
    rcases h with rfl|rfl
    · exact absurd heq (by decide)
    · exact absurd heq (by decide)
  · exact bugUnused_ne_zero iSM

theorem bugUnused_late {iSM : Nat} (h : 4 ≤ iSM) (tSM : UInt8) : bugUnused iSM tSM=tSM := by
  rw [bugUnused,if_neg (fun hb => by omega),if_neg (fun hb => by omega)]

theorem bugAdd_second (t : UInt8) : bugAdd 2 t 0=(if t=2 then 1 else 0,if t=2 then 3 else t) := by
  by_cases htwo : t=2
  · rw [htwo]
    rfl
  · simp [bugAdd,htwo]

theorem bugAdd_second_ne_zero (t : UInt8) : (bugAdd 2 t 0).2≠0 ↔ t≠0 := by
  rw [bugAdd_second]
  by_cases htwo : t=2
  · simp [htwo]
  · simp [htwo]

theorem bugAdd_third (t2 t3 : UInt8) :
    (bugAdd 3 t3 (bugAdd 2 t2 0).1).2≠0 ↔ t3≠0 ∧ ¬(t2=2 ∧ t3=255) := by
  rw [bugAdd_second]
  by_cases htwo : t2=2
  · by_cases hzero : t3=0
    · simp [bugAdd,hzero]
    · have hwrap : t3+1=0 ↔ t3=255 := by
        constructor
        · intro h
          have hnat := congrArg UInt8.toNat h
          rw [UInt8.toNat_add] at hnat
          change (t3.toNat+1)%256=0 at hnat
          have hlt := t3.toNat_lt
          exact UInt8.toNat_inj.mp (show t3.toNat=255 by omega)
        · rintro rfl
          rfl
      simp [bugAdd,htwo,hzero,hwrap]
  · by_cases hzero : t3=0
    · simp [bugAdd,hzero]
    · simp [bugAdd,htwo,hzero]

/-- SM2 and SM3 are in use, and the correction does not turn the type of SM3 to 0. -/
structure PdoDictionary.InUse (d : PdoDictionary) : Prop where
  second : ∀ t,d.smTypes[2]?=some t → t≠0
  third : ∀ t,d.smTypes[3]?=some t → t≠0 ∧ ¬(d.smTypes[2]?=some 2 ∧ t=255)

/-- The map is the same with and without the correction for unused types exactly if SM2 and SM3 are
in use. -/
theorem PdoDictionary.map_alike_iff (d : PdoDictionary) (slave : MapSlave)
    (hfew : d.smTypes.length ≤ ecMaxSm.toNat) :
    d.map bugUnused slave=d.map (fun _ tSM => tSM) slave ↔ d.InUse := by
  have hsecond : d.smTypes[2]?=d.mapped[0]? := by
    rw [d.mapped_few hfew,List.getElem?_drop]
  have hthird : d.smTypes[3]?=d.mapped[1]? := by
    rw [d.mapped_few hfew,List.getElem?_drop]
  rw [map,map,mapTypes_alike_iff]
  rcases hmapped : d.mapped with _|⟨t2,_|⟨t3,ts⟩⟩
  · rw [hmapped] at hsecond hthird
    exact ⟨fun _ => ⟨by simp [hsecond],by simp [hthird]⟩,fun _ => trivial⟩
  · rw [hmapped] at hsecond hthird
    rw [ForTypes,ForTypes,and_true,bugUnused_eq_self_iff (.inl rfl),bugAdd_second_ne_zero]
    constructor
    · intro hused
      exact ⟨by simpa [hsecond] using hused,by simp [hthird]⟩
    · intro h
      exact h.second t2 hsecond
  · rw [hmapped] at hsecond hthird
    have hlate : ForTypes (fun iSM tSM => bugUnused iSM tSM=tSM) ts 4
        (bugAdd 3 t3 (bugAdd 2 t2 0).1).1 :=
      forTypes_of ts _ fun _ tSM hfour _ => bugUnused_late hfour tSM
    rw [ForTypes,ForTypes,bugUnused_eq_self_iff (.inl rfl),bugUnused_eq_self_iff (.inr rfl),
      bugAdd_second_ne_zero,bugAdd_third]
    constructor
    · rintro ⟨hused2,hused3,-⟩
      refine ⟨by simpa [hsecond] using hused2,?_⟩
      intro t ht
      rw [hthird] at ht
      cases ht
      refine ⟨hused3.1,?_⟩
      rintro ⟨htwo,hwrap⟩
      rw [hsecond] at htwo
      cases htwo
      exact hused3.2 ⟨rfl,hwrap⟩
    · intro h
      obtain ⟨hused3,hwrap⟩ := h.third t3 hthird
      refine ⟨h.second t2 hsecond,⟨hused3,?_⟩,hlate⟩
      rintro ⟨rfl,rfl⟩
      exact hwrap ⟨hsecond,rfl⟩

section Agreement

variable {port : Port σ} {cfg : SlaveCfg} {object : UInt16 → UInt8 → Bool → Option (List UInt8)}
  {view : σ → SlaveView} {c : Client σ} {fuel : Nat} {d : PdoDictionary}

/-- From every record of the slave, both readers find the same sizes and enter the same. -/
def ReadersAgree (port : Port σ) (cfg : SlaveCfg) (fuel : Nat) (c : Client σ) : Prop :=
  ∀ (slave : MapSlave) (b : CaBuffers),∃ r r' m b' c1 c2,
    readPdoMap port cfg fuel slave c=.ok ((r,m),c1) ∧
    readPdoMapCa port cfg fuel slave b c=.ok ((r',m,b'),c2)

theorem readersAgree_few (hs : Conforms port cfg object view) (hfuel : 1100 ≤ fuel) {v : SlaveView}
    (h : Serving view [] v c) (ho : d.Offered object)
    (hfew : d.smTypes.length ≤ ecMaxSm.toNat) : ReadersAgree port cfg fuel c ↔ d.InUse := by
  constructor
  · intro hagree
    let slave : MapSlave := ⟨fun _ => 0,fun _ => 0,fun _ => 0⟩
    let b : CaBuffers := ⟨[],[],[]⟩
    obtain ⟨r,r',m,b',c1,c2,hone,hall⟩ := hagree slave b
    obtain ⟨c3,hmap⟩ := readPdoMap_run hs hfuel h ho slave
    obtain ⟨b'',c4,hmapCa⟩ := readPdoMapCa_run hs hfuel h ho slave b hfew
    rw [hone] at hmap
    rw [hall] at hmapCa
    cases hmap
    injection hmapCa with hpair
    exact (d.map_alike_iff slave hfew).mp (congrArg (fun p => p.1.2.1) hpair)
  · intro hused slave b
    obtain ⟨c1,hmap⟩ := readPdoMap_run hs hfuel h ho slave
    obtain ⟨b',c2,hmapCa⟩ := readPdoMapCa_run hs hfuel h ho slave b hfew
    rw [← (d.map_alike_iff slave hfew).mpr hused] at hmapCa
    exact ⟨_,_,_,b',c1,c2,hmap,hmapCa⟩

theorem readersAgree_many (hs : Conforms port cfg object view) (hfuel : 1100 ≤ fuel)
    {v : SlaveView} (h : Serving view [] v c) (ho : d.Offered object)
    (hmany : ecMaxSm.toNat < d.smTypes.length) : ¬ReadersAgree port cfg fuel c := by
  intro hagree
  have hnine : 8 < d.smTypes.length := hmany
  have hlen := d.mapped_length
  rcases hmapped : d.mapped with _|⟨t,ts⟩
  · rw [hmapped,List.length_nil] at hlen
    omega
  · let tSM := bugUnused 2 (bugAdd 2 t 0).2
    let slave : MapSlave := ⟨fun _ => tSM+1,fun _ => 0,fun _ => 0⟩
    let b : CaBuffers := ⟨[],[],[]⟩
    obtain ⟨r,r',m,b',c1,c2,hone,hall⟩ := hagree slave b
    obtain ⟨c3,hmap⟩ := readPdoMap_run hs hfuel h ho slave
    obtain ⟨b'',c4,hmapCa⟩ := readPdoMapCa_refused hs hfuel h ho slave b hmany
    rw [hone] at hmap
    rw [hall] at hmapCa
    cases hmap
    injection hmapCa with hpair
    have hsame : d.map bugUnused slave=⟨0,0,slave⟩ := congrArg (fun p => p.1.2.1) hpair
    rw [PdoDictionary.map,hmapped] at hsame
    have hentered : (mapTypes bugUnused d.bits (t::ts) 2 0 ⟨0,0,slave⟩).slave.smType 2=tSM :=
      mapTypes_first t ts 2 0 ⟨0,0,slave⟩
    rw [hsame] at hentered
    have hkept : tSM+1=tSM := hentered
    simp at hkept

/-- The two readers agree exactly on the dictionaries that have no more types than there is room for
and in which SM2 and SM3 are in use. -/
theorem pdo_readers_agree_iff (hs : Conforms port cfg object view) (hfuel : 1100 ≤ fuel)
    (hwf : c.pool.Wf) (htwo : 2 ≤ c.pool.listcount) (ho : d.Offered object) :
    ReadersAgree port cfg fuel c ↔ d.smTypes.length ≤ ecMaxSm.toNat ∧ d.InUse := by
  have h : Serving view [] (view c.env) c :=
    ⟨hwf.tail,hwf.cells,by simp,by simpa using htwo,rfl⟩
  by_cases hfew : d.smTypes.length ≤ ecMaxSm.toNat
  · rw [readersAgree_few hs hfuel h ho hfew]
    exact ⟨fun hused => ⟨hfew,hused⟩,And.right⟩
  · constructor
    · intro hagree
      exact absurd hagree (readersAgree_many hs hfuel h ho (Nat.lt_of_not_le hfew))
    · intro hcond
      exact absurd hcond.1 hfew

end Agreement

def listObject (entries : List (List UInt8)) (subindex : UInt8) (ca : Bool) :
    Option (List UInt8) :=
  if ca then
    if subindex=0 then some (UInt8.ofNat entries.length::0::entries.flatten) else none
  else if subindex=0 then some [UInt8.ofNat entries.length]
  else entries[subindex.toNat-1]?

theorem listObject_offered {object : UInt16 → UInt8 → Bool → Option (List UInt8)}
    {index : UInt16} {entries : List (List UInt8)} (hshort : entries.length<256)
    (h : ∀ subindex ca,object index subindex ca=listObject entries subindex ca) :
    ListObject object index entries where
  short := hshort
  number := by
    rw [h]
    rfl
  single := by
    intro i entry hi
    have hlt : i < entries.length := (List.getElem?_eq_some_iff.mp hi).1
    have hnat : (UInt8.ofNat (i+1)).toNat=i+1 := by
      rw [UInt8.toNat_ofNat']
      exact Nat.mod_eq_of_lt (by omega)
    have hne : UInt8.ofNat (i+1)≠0 := by
      intro hzero
      rw [hzero] at hnat
      change 0=i+1 at hnat
      omega
    rw [h,listObject,if_neg (by decide),if_neg hne,hnat]
    exact hi
  complete := by
    rw [h]
    rfl

theorem flatten_length_le (entries : List (List UInt8))
    (h : ∀ entry ∈ entries,entry.length ≤ 4) : entries.flatten.length ≤ 4*entries.length := by
  induction entries with
  | nil => exact Nat.le_refl 0
  | cons entry entries ih =>
    have hfirst := h entry List.mem_cons_self
    have hothers := ih fun e he => h e (List.mem_cons_of_mem _ he)
    rw [List.flatten_cons,List.length_append,List.length_cons]
    omega

theorem listObject_size {entries : List (List UInt8)} (hshort : entries.length<256)
    (hentries : ∀ entry ∈ entries,entry.length ≤ 4) {subindex : UInt8} {ca : Bool}
    {data : List UInt8} (h : listObject entries subindex ca=some data) : data.length<2^32 := by
  have hsum := flatten_length_le entries hentries
  rw [listObject] at h
  split_ifs at h
  · cases h
    simp only [List.length_cons]
    omega
  · cases h
    simp
  · have hle := hentries data (List.mem_of_getElem? h)
    omega

variable {d : PdoDictionary}

/-- What a slave with this dictionary answers. -/
def PdoDictionary.answers (d : PdoDictionary) (index : UInt16) :
    UInt8 → Bool → Option (List UInt8) :=
  if index=ectSdoSmcommtype then listObject (d.smTypes.map fun t => [t])
  else if ectSdoSmcommtype < index then
    listObject ((d.assign (index-ectSdoPdoassign).toNat).map le16)
  else listObject ((d.mapping index).map le32)

/-- No list is longer than its number can say, and the PDOs lie below the other objects. -/
structure PdoDictionary.WellFormed (d : PdoDictionary) : Prop where
  types : d.smTypes.length<256
  assigned : ∀ iSM,(d.assign iSM).length<256
  below : ∀ iSM,∀ idx ∈ d.assign iSM,idx<ectSdoSmcommtype
  mapped : ∀ idx,(d.mapping idx).length<256

theorem PdoDictionary.WellFormed.offered (h : d.WellFormed) : d.Offered d.answers where
  types := listObject_offered (by simpa using h.types) fun _ _ => by rw [answers,if_pos rfl]
  assigned := by
    refine forTypes_of d.mapped 0 ?_
    intro iSM tSM _ hhigh _
    rw [d.mapped_length] at hhigh
    have hnat : (ectSdoPdoassign+UInt16.ofNat iSM).toNat=0x1c10+iSM := by
      rw [UInt16.toNat_add,UInt16.toNat_ofNat']
      change (0x1c10+iSM%65536)%65536=_
      omega
    have hassign : ∀ subindex ca,d.answers (ectSdoPdoassign+UInt16.ofNat iSM) subindex ca=
        listObject ((d.assign iSM).map le16) subindex ca := by
      intro subindex ca
      have hback : (ectSdoPdoassign+UInt16.ofNat iSM-ectSdoPdoassign).toNat=iSM := by
        rw [UInt16.toNat_sub,hnat]
        change (65536-0x1c10+(0x1c10+iSM))%65536=iSM
        omega
      have habove : ectSdoSmcommtype<ectSdoPdoassign+UInt16.ofNat iSM := by
        rw [UInt16.lt_iff_toNat_lt,hnat]
        change 0x1c00 < _
        omega
      rw [answers,if_neg (UInt16.ne_of_lt habove).symm,if_pos habove,hback]
    refine ⟨listObject_offered (by simpa using h.assigned iSM) hassign,?_⟩
    intro idx hidx _
    have hbelow := h.below iSM idx hidx
    exact listObject_offered (by simpa using h.mapped idx) fun _ _ => by
      rw [answers,if_neg (UInt16.ne_of_lt hbelow),if_neg (UInt16.lt_asymm hbelow)]

theorem PdoDictionary.WellFormed.size (h : d.WellFormed) (index : UInt16) (subindex : UInt8)
    (ca : Bool) (data : List UInt8) (hobject : d.answers index subindex ca=some data) :
    data.length<2^32 := by
  rw [answers] at hobject
  split_ifs at hobject
  · exact listObject_size (by simpa using h.types) (by simp) hobject
  · exact listObject_size (by simpa using h.assigned _) (by simp [le16_length]) hobject
  · exact listObject_size (by simpa using h.mapped _) (by simp [le32_length]) hobject

/-- A slave with one PDO for each direction. -/
def twoPdos (smTypes : List UInt8) : PdoDictionary :=
  ⟨smTypes,fun iSM => if iSM=2 then [0x1600] else if iSM=3 then [0x1a00] else [],
    fun idx => if idx=0x1600 then [0x60400010] else [0x60410010,0x60640020]⟩

theorem twoPdos_wellFormed {smTypes : List UInt8} (h : smTypes.length<256) :
    (twoPdos smTypes).WellFormed where
  types := h
  assigned := by
    intro iSM
    rw [twoPdos]
    dsimp only
    split_ifs <;> decide
  below := by
    intro iSM idx hidx
    rw [twoPdos] at hidx
    dsimp only at hidx
    split_ifs at hidx
    · rw [List.mem_singleton.mp hidx]
      decide
    · rw [List.mem_singleton.mp hidx]
      decide
    · cases hidx
  mapped := by
    intro idx
    rw [twoPdos]
    dsimp only
    split_ifs <;> decide

theorem twoPdos_conforms {smTypes : List UInt8} (h : smTypes.length<256) :
    Conforms (uploadSlave (twoPdos smTypes).answers (show 16 ≤ cfg32.mbxRl.toNat by decide)) cfg32
      (twoPdos smTypes).answers UploadState.view :=
  uploadSlave_conforms _ (twoPdos_wellFormed h).size (by decide) _ (by decide)

theorem usual_types_agree :
    ReadersAgree (uploadSlave (twoPdos [1,2,3,4]).answers
      (show 16 ≤ cfg32.mbxRl.toNat by decide)) cfg32 1100
      (Client.start (UploadState.start 32)) := by
  refine (pdo_readers_agree_iff (twoPdos_conforms (by decide)) (Nat.le_refl 1100) initMbxPool_wf
    (by decide) (twoPdos_wellFormed (by decide)).offered).mpr ⟨by decide,?_,?_⟩
  · intro t ht
    cases ht
    decide
  · intro t ht
    cases ht
    decide

/-- SM2 of type 0 is corrected by one of the readers only. -/
theorem unused_sm2_disagrees :
    ¬ReadersAgree (uploadSlave (twoPdos [1,2,0,4]).answers
      (show 16 ≤ cfg32.mbxRl.toNat by decide)) cfg32 1100
      (Client.start (UploadState.start 32)) := by
  have h : Serving UploadState.view [] ⟨none,none⟩ (Client.start (UploadState.start 32)) :=
    ⟨by decide,initMbxPool_wf.cells,by simp,by decide,rfl⟩
  intro hagree
  have hused := (readersAgree_few (twoPdos_conforms (by decide)) (Nat.le_refl 1100) h
    (twoPdos_wellFormed (by decide)).offered (by decide)).mp hagree
  exact hused.second 0 rfl rfl

end EtherCATMaster.Mailbox
