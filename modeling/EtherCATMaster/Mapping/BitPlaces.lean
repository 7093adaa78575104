import EtherCATMaster.Mapping.FmmuNeed

namespace EtherCATMaster.Mapping

def byteBorder (pos : Nat) : Nat := (pos+7)/8*8

/-- The bits for one direction of a slave from a position on, the first one and the one behind the
last. -/
def bitPlace (bits pos : Nat) : Nat × Nat :=
  if bits ≤ 7 then (pos,pos+bits) else (byteBorder pos,byteBorder pos+(bits+7)/8*8)

def bitStop (packed : Bool) (bits pos : Nat) : Nat :=
  if packed=false then byteBorder (bitPlace bits pos).2 else (bitPlace bits pos).2

def Fmmu.bits (f : Fmmu) : Nat × Nat :=
  (f.logStart*8+f.logStartbit,(f.logStart+f.logLength-1)*8+f.logEndbit+1)

def LiesFor (bits : Nat) (r : Nat × Nat) : Prop :=
  if bits ≤ 7 then r.2=r.1+bits else r.1%8=0 ∧ r.2=r.1+(bits+7)/8*8

theorem bitPlace_lies (bits pos : Nat) : LiesFor bits (bitPlace bits pos) := by
  rw [LiesFor,bitPlace]
  by_cases hsmall : bits ≤ 7
  · rw [if_pos hsmall,if_pos hsmall]
  · rw [if_neg hsmall,if_neg hsmall]
    exact ⟨Nat.mul_mod_left _ _,rfl⟩

theorem le_byteBorder (pos : Nat) : pos ≤ byteBorder pos := by
  rw [byteBorder]
  omega

theorem le_bitPlace (bits pos : Nat) :
    pos ≤ (bitPlace bits pos).1 ∧ (bitPlace bits pos).1 ≤ (bitPlace bits pos).2 := by
  have hborder := le_byteBorder pos
  rw [bitPlace]
  split_ifs <;> simp only <;> omega

theorem bitPlace_le_stop (packed : Bool) (bits pos : Nat) :
    (bitPlace bits pos).2 ≤ bitStop packed bits pos := by
  have hborder := le_byteBorder (bitPlace bits pos).2
  rw [bitStop]
  split_ifs <;> omega

theorem bitPlace_byte (n : Nat) :
    bitPlace 8 (n*8)=(n*8,n*8+8) ∧ bitStop false 8 (n*8)=(n+1)*8 := by
  have hborder : byteBorder (n*8)=n*8 := by
    rw [byteBorder]
    omega
  have hplace : bitPlace 8 (n*8)=(n*8,n*8+8) := by
    rw [bitPlace,if_neg (by decide),hborder]
  refine ⟨hplace,?_⟩
  rw [bitStop,if_pos rfl,hplace,byteBorder]
  simp only
  omega

section Areas

variable {bits : Slave → UInt16} {packed : Bool} {group : Nat} {area : Slave → Nat × Nat}

/-- Slaves of a group whose areas follow on each other from a position to another. -/
inductive Follow (bits : Slave → UInt16) (packed : Bool) (group : Nat) (area : Slave → Nat × Nat) :
    Nat → List Slave → Nat → Prop
  | nil (pos : Nat) : Follow bits packed group area pos [] pos
  | skip (pos stop : Nat) (s : Slave) (rest : List Slave) : ¬(inGroup group s ∧ bits s≠0) →
      Follow bits packed group area pos rest stop → Follow bits packed group area pos (s::rest) stop
  | place (pos stop : Nat) (s : Slave) (rest : List Slave) : inGroup group s ∧ bits s≠0 →
      area s=bitPlace (bits s).toNat pos →
      Follow bits packed group area (bitStop packed (bits s).toNat pos) rest stop →
      Follow bits packed group area pos (s::rest) stop

def areas (bits : Slave → UInt16) (group : Nat) (area : Slave → Nat × Nat) (slaves : List Slave) :
    List (Nat × Nat) :=
  (slaves.filter fun s => decide (inGroup group s ∧ bits s≠0)).map area

theorem areas_place {s : Slave} (h : inGroup group s ∧ bits s≠0) (rest : List Slave) :
    areas bits group area (s::rest)=area s::areas bits group area rest := by
  rw [areas,List.filter_cons_of_pos (by exact decide_eq_true h)]
  rfl

theorem areas_skip {s : Slave} (h : ¬(inGroup group s ∧ bits s≠0)) (rest : List Slave) :
    areas bits group area (s::rest)=areas bits group area rest := by
  rw [areas,List.filter_cons_of_neg (by simpa using h)]
  rfl

variable {pos stop : Nat} {slaves : List Slave}

theorem Follow.le (h : Follow bits packed group area pos slaves stop) : pos ≤ stop := by
  induction h with
  | nil pos => exact le_rfl
  | skip pos stop s rest _ _ ih => exact ih
  | place pos stop s rest _ _ _ ih =>
    have hplace := le_bitPlace (bits s).toNat pos
    have hstop := bitPlace_le_stop packed (bits s).toNat pos
    omega

theorem Follow.within (h : Follow bits packed group area pos slaves stop) :
    ∀ r ∈ areas bits group area slaves,pos ≤ r.1 ∧ r.1 ≤ r.2 ∧ r.2 ≤ stop := by
  induction h with
  | nil pos => exact fun r hr => absurd hr List.not_mem_nil
  | skip pos stop s rest hskip _ ih =>
    rw [areas_skip hskip]
    exact ih
  | place pos stop s rest hin harea hrest ih =>
    have hplace := le_bitPlace (bits s).toNat pos
    have hstop := bitPlace_le_stop packed (bits s).toNat pos
    rw [areas_place hin,List.forall_mem_cons,harea]
    refine ⟨⟨hplace.1,hplace.2,hstop.trans hrest.le⟩,fun r hr => ?_⟩
    obtain ⟨hlow,hmid,hhigh⟩ := ih r hr
    exact ⟨by omega,hmid,hhigh⟩

theorem Follow.pairwise (h : Follow bits packed group area pos slaves stop) :
    (areas bits group area slaves).Pairwise fun r r' => r.2 ≤ r'.1 := by
  induction h with
  | nil pos => exact .nil
  | skip pos stop s rest hskip _ ih =>
    rw [areas_skip hskip]
    exact ih
  | place pos stop s rest hin harea hrest ih =>
    have hstop := bitPlace_le_stop packed (bits s).toNat pos
    rw [areas_place hin,List.pairwise_cons,harea]
    exact ⟨fun r hr => hstop.trans (hrest.within r hr).1,ih⟩

theorem Follow.lies (h : Follow bits packed group area pos slaves stop) :
    ∀ s ∈ slaves,inGroup group s → bits s≠0 → LiesFor (bits s).toNat (area s) := by
  induction h with
  | nil pos => exact fun s hs => absurd hs List.not_mem_nil
  | skip pos stop s rest hskip _ ih =>
    rw [List.forall_mem_cons]
    exact ⟨fun hin hbits => absurd ⟨hin,hbits⟩ hskip,ih⟩
  | place pos stop s rest hin harea _ ih =>
    rw [List.forall_mem_cons,harea]
    exact ⟨fun _ _ => bitPlace_lies _ _,ih⟩

theorem Follow.congr {slaves' : List Slave} (h : Follow bits packed group area pos slaves stop)
    (hsame : List.Forall₂ (fun s s' => s'.group=s.group ∧ bits s'=bits s ∧
      (bits s≠0 → area s'=area s)) slaves slaves') :
    Follow bits packed group area pos slaves' stop := by
  induction h generalizing slaves' with
  | nil pos =>
    cases hsame
    exact .nil pos
  | skip pos stop s rest hskip _ ih =>
    obtain _|⟨⟨hgroup,hbits,-⟩,hrest⟩ := hsame
    refine .skip _ _ _ _ ?_ (ih hrest)
    rw [inGroup,hgroup,hbits]
    exact hskip
  | place pos stop s rest hin harea _ ih =>
    obtain _|⟨⟨hgroup,hbits,hkept⟩,hrest⟩ := hsame
    refine .place _ _ _ _ ?_ ?_ ?_
    · rw [inGroup,hgroup,hbits]
      exact hin
    · rw [hkept hin.2,hbits]
      exact harea
    · rw [hbits]
      exact ih hrest

end Areas

section Run

variable {sm : Nat → Sm} {d : Direction} {base : Nat}

/-- The sync managers of a type are one contiguous run with room for the bits of a direction. It is
shorter than the address space of a slave. -/
structure OneRun (sm : Nat → Sm) (smType bits : Nat) : Prop where
  enough : bits ≤ smBytes (smsFrom sm smType 0)*8
  chain : List.IsChain Sm.Follows (smsFrom sm smType 0)
  short : smBytes (smsFrom sm smType 0) < 2^16

theorem stretch_run {bits : Nat} (tail : List Sm) {l : List Sm} : ∀ {x : Sm} (sum : Nat),
    List.IsChain Sm.Follows (x::l) → bits ≤ (sum+smBytes l)*8 →
    bits ≤ (stretch bits sum x (l++tail)).1*8 ∧
      (stretch bits sum x (l++tail)).1 ≤ sum+smBytes l := by
  induction l with
  | nil =>
    intro x sum _ hbits
    rw [smBytes_nil,Nat.add_zero] at hbits
    cases tail with
    | nil => exact ⟨hbits,Nat.le_add_right _ _⟩
    | cons y tail =>
      rw [List.nil_append,stretch,if_neg (by omega)]
      exact ⟨hbits,Nat.le_add_right _ _⟩
  | cons y rest ih =>
    intro x sum hchain hbits
    obtain ⟨hfollows,hrest⟩ := List.isChain_cons_cons.mp hchain
    rw [smBytes_cons] at hbits ⊢
    rw [List.cons_append,stretch]
    by_cases hmore : sum*8 < bits
    · rw [if_pos hmore,if_pos hfollows.connects]
      have hnext := ih (sum+y.smLength.toNat) hrest (by omega)
      omega
    · rw [if_neg hmore]
      exact ⟨Nat.not_lt.mp hmore,Nat.le_add_right _ _⟩

theorem takenFrom_start (sm : Nat → Sm) (smType : Nat) :
    ∃ tail,takenFrom sm smType 0=smsFrom sm smType 0++tail := by
  have hsplit : ∀ n smc,smsOf sm smType (n+1) smc=
      smsOf sm smType n smc++if (sm (smc+n)).smType=smType then [sm (smc+n)] else [] := by
    intro n
    induction n with
    | zero =>
      intro smc
      rw [smsOf,smsOf,Nat.add_zero]
      rfl
    | succ n ih =>
      intro smc
      rw [smsOf,ih (smc+1),show smc+1+n=smc+(n+1) by omega,smsOf]
      split_ifs <;> rfl
  have hall := hsplit 7 0
  rw [Nat.zero_add] at hall
  rw [smsFrom,show ecMaxSm-0=7+1 from rfl,hall,takenFrom,show ecMaxSm-1-0=7 from rfl,
    show ecMaxSm-1=7 from rfl]
  by_cases hlast : (sm 7).smType=smType
  · rw [if_pos hlast]
    exact ⟨[],(List.append_nil _).symm⟩
  · rw [if_neg hlast,List.append_nil]
    exact ⟨_,rfl⟩

theorem OneRun.fits {smType bits : Nat} (h : OneRun sm smType bits) (hbits : 0 < bits) :
    ∃ x rest,takenFrom sm smType 0=x::rest ∧
      (bits+7)/8 ≤ (stretch bits x.smLength.toNat x rest).1 ∧
      (stretch bits x.smLength.toNat x rest).1 < 2^16 := by
  obtain ⟨tail,htail⟩ := takenFrom_start sm smType
  have henough := h.enough
  have hchain := h.chain
  have hshort := h.short
  cases hl : smsFrom sm smType 0 with
  | nil =>
    rw [hl,smBytes_nil] at henough
    omega
  | cons x l =>
    rw [hl] at henough hchain hshort
    rw [smBytes_cons] at henough hshort
    obtain ⟨hreached,hle⟩ := stretch_run tail x.smLength.toNat hchain henough
    refine ⟨x,l++tail,by rw [htail,hl]; rfl,by omega,by omega⟩

theorem OneRun.fitsIn {smType bits : Nat} (h : OneRun sm smType bits) :
    FitsIn sm smType bits (if bits≠0 then 1 else 0) := by
  by_cases hzero : bits=0
  · subst hzero
    exact fitsIn_none sm smType
  · rw [if_pos hzero,FitsIn]
    by_cases hsmall : bits ≤ 7
    · rw [if_pos hsmall]
      omega
    · obtain ⟨x,rest,htaken,hfits,hshort⟩ := h.fits (Nat.pos_of_ne_zero hzero)
      rw [if_neg hsmall,htaken]
      simp only [byteSums,List.sum_cons,List.sum_nil,Nat.zero_add,Nat.mod_eq_of_lt hshort]
      exact hfits

/-- An FMMU that has come to map some bits. -/
structure Fmmu.Live (f : Fmmu) (fmmuType : Nat) (r : Nat × Nat) : Prop where
  bits : f.bits=r
  active : f.fmmuActive=1
  type : f.fmmuType=fmmuType

@[simp] theorem Fmmu.activate_bits (f : Fmmu) (fmmuType : Nat) :
    (f.activate fmmuType).bits=f.bits := by
  rw [Fmmu.activate]
  split_ifs <;> rfl

@[simp] theorem Fmmu.activate_logStartbit (f : Fmmu) (fmmuType : Nat) :
    (f.activate fmmuType).logStartbit=f.logStartbit := by
  rw [Fmmu.activate]
  split_ifs <;> rfl

theorem Fmmu.activate_live {f : Fmmu} (fmmuType : Nat) {r : Nat × Nat} (hlen : f.logLength≠0)
    (hbits : f.bits=r) : (f.activate fmmuType).Live fmmuType r := by
  refine ⟨(f.activate_bits fmmuType).trans hbits,?_,?_⟩
  · rw [Fmmu.activate,if_pos hlen]
  · rw [Fmmu.activate,if_pos hlen]

theorem bitRange_bits (logAddr : Nat) {bitPos bits : Nat} (hpos : bitPos ≤ 7)
    (hbits : 0 < bits ∧ bits ≤ 7) :
    logAddr ≤ (bitRange logAddr bitPos bits).1.1 ∧
      (bitRange logAddr bitPos bits).1.1*8+(bitRange logAddr bitPos bits).1.2+1=
        logAddr*8+bitPos+bits ∧
      (bitRange logAddr bitPos bits).2.1*8+(bitRange logAddr bitPos bits).2.2=
        logAddr*8+bitPos+bits ∧ (bitRange logAddr bitPos bits).2.2 ≤ 7 := by
  simp only [bitRange]
  split_ifs <;> simp only <;> omega

/-- What one FMMU for a whole direction leaves. -/
structure MappedOne (d : Direction) (base : Nat) (r r' : MapRun) (f : Fmmu) : Prop where
  fmmuc : r'.fmmuc=r.fmmuc+1
  fmmu : r'.fmmu=Function.update r.fmmu r.fmmuc f
  live : f.Live d.fmmuType (bitPlace d.bits (r.logAddr*8+r.bitPos))
  first : f.logStartbit ≤ 7
  stop : r'.logAddr*8+r'.bitPos=(bitPlace d.bits (r.logAddr*8+r.bitPos)).2
  bitPos : r'.bitPos ≤ 7
  pointer : r'.pointer=if r.pointer=.null 0 then .ioMap (f.logStart-base) else r.pointer
  startbit : r'.startbit=if r.pointer=.null 0 then f.logStartbit else r.startbit

theorem mapFmmu_bitsOne (sm : Nat → Sm) (base : Nat) (hsome : 0 < d.bits) (hbytes : d.bytes=0) (hsmall : d.bits ≤ 7)
    {r : MapRun} (hpos : r.bitPos ≤ 7) : ∃ f,MappedOne d base r (mapFmmu sm d base r) f := by
  obtain ⟨hlow,hlast,hnext,hbit⟩ := bitRange_bits r.logAddr hpos ⟨hsome,hsmall⟩
  refine ⟨_,rfl,rfl,?_,?_,?_,?_,rfl,rfl⟩
  · simp only [if_pos hbytes]
    refine Fmmu.activate_live _ (Nat.succ_ne_zero _) ?_
    rw [Fmmu.bits,bitPlace,if_pos hsmall]
    refine Prod.ext rfl ?_
    simp only
    omega
  · simp only [if_pos hbytes,Fmmu.activate_logStartbit]
    exact hpos
  · simp only [mapFmmu,if_pos hbytes,bitPlace,if_pos hsmall]
    exact hnext
  · simp only [mapFmmu,if_pos hbytes]
    exact hbit

theorem mapFmmu_bytesOne (hbytes : d.bytes=(d.bits+7)/8) (hsmall : ¬d.bits ≤ 7) {r : MapRun}
    (hpos : r.bitPos ≤ 7) (hdone : (mapFmmu sm d base r).fmmuDone=d.bytes) (hzero : r.fmmuDone=0) :
    ∃ f,MappedOne d base r (mapFmmu sm d base r) f := by
  have hne : d.bytes≠0 := by omega
  have hborder : (if r.bitPos≠0 then r.logAddr+1 else r.logAddr)*8=
      byteBorder (r.logAddr*8+r.bitPos) := by
    rw [byteBorder]
    split_ifs <;> omega
  simp only [mapFmmu,if_neg hne,Fmmu.activate_logLength,hzero,Nat.zero_add] at hdone
  refine ⟨_,rfl,rfl,?_,?_,?_,?_,rfl,rfl⟩
  · simp only [if_neg hne,hzero,hdone]
    refine Fmmu.activate_live _ hne ?_
    rw [Fmmu.bits,bitPlace,if_neg hsmall,← hborder,← hbytes]
    refine Prod.ext rfl ?_
    simp only
    omega
  · simp only [if_neg hne,Fmmu.activate_logStartbit]
    exact Nat.zero_le 7
  · simp only [mapFmmu,if_neg hne,hzero,hdone,bitPlace,if_neg hsmall]
    rw [← hborder,← hbytes]
    omega
  · simp only [mapFmmu,if_neg hne]
    exact Nat.zero_le 7

theorem mapFmmus_one (base : Nat) (hd : d.Sized) (hrun : OneRun sm d.smType d.bits) {r : MapRun}
    (hsms : r.sms=smsStart) (hdone : r.fmmuDone=0) (hroom : r.fmmuc < ecMaxFmmu)
    (hpos : r.bitPos ≤ 7) :
    ∃ r' f,mapFmmus sm d base ecMaxFmmu r=some r' ∧ MappedOne d base r r' f := by
  have hsome := hd.some
  have hbytes := hd.bytes
  have hmore : r.sms.smc < ecMaxSm ∧ r.fmmuDone<(d.bits+7)/8 := by
    rw [hsms]
    exact ⟨by decide,by omega⟩
  have hone : ¬((mapFmmu sm d base r).sms.smc < ecMaxSm ∧
      (mapFmmu sm d base r).fmmuDone<(d.bits+7)/8) →
      mapFmmus sm d base ecMaxFmmu r=some (mapFmmu sm d base r) := by
    intro hstop
    rw [show ecMaxFmmu=3+1 from rfl,mapFmmus,if_pos hmore,if_pos hroom,mapFmmus,if_neg hstop]
  by_cases hsmall : d.bits ≤ 7
  · have hzero : d.bytes=0 := by
      rw [hbytes,if_neg (by omega)]
    obtain ⟨f,hf⟩ := mapFmmu_bitsOne sm base hsome hzero hsmall hpos
    exact ⟨_,f,hone (mapFmmu_bits sm base r hzero hsmall),hf⟩
  · rw [if_pos (by omega)] at hbytes
    have htaken : TakenFor sm d 0 (takenFrom sm d.smType 0) r.sms := hsms ▸ smsStart_taken sm d
    obtain ⟨x,rest,hl,hnext⟩ := mapFmmu_taken base htaken
    obtain ⟨y,rest',hl',hfits,hshort⟩ := hrun.fits hsome
    rw [hl] at hl'
    cases hl'
    have hne : d.bytes≠0 := by omega
    have hsize := mapFmmu_done sm base (r := r) hne (by omega)
    rw [hnext.bytes,Nat.zero_add,Nat.mod_eq_of_lt hshort] at hsize
    have hall : (mapFmmu sm d base r).fmmuDone=d.bytes := by omega
    obtain ⟨f,hf⟩ := mapFmmu_bytesOne hbytes hsmall hpos hall hdone
    refine ⟨_,f,hone ?_,hf⟩
    rintro ⟨-,hlt⟩
    omega

end Run

end EtherCATMaster.Mapping
