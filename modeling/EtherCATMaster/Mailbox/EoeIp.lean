import EtherCATMaster.Mailbox.EoeRoundTrip

namespace EtherCATMaster.Mailbox

open EtherCATMaster.Framework

variable {a b mbx : List UInt8} {n : Nat}

def eoeFixedParams : List (UInt8 × Nat) :=
  [(0x01,eoeEthaddrLength),(0x02,4),(0x04,4),(0x08,4),(0x10,4)]

/-- Where `ecx_EOEgetIp` reads those that are flagged, from an offset on: first byte and number. -/
def eoeFixedReads (mbx : List UInt8) : List (UInt8 × Nat) → Nat → List (Nat × Nat)
  | [],_ => []
  | (flag,size)::rest,offset =>
      if byteAt mbx 10 &&& flag≠0 then (10+offset,size)::eoeFixedReads mbx rest (offset+size)
      else eoeFixedReads mbx rest offset

def eoeFixedEnd (mbx : List UInt8) : List (UInt8 × Nat) → Nat → Nat
  | [],offset => offset
  | (flag,size)::rest,offset =>
      eoeFixedEnd mbx rest (if byteAt mbx 10 &&& flag≠0 then offset+size else offset)

/-- `data_offset` and `dns_len` where the name is copied. -/
def eoeNameOffset (mbx : List UInt8) : Nat := eoeFixedEnd mbx eoeFixedParams eoeParamOffset

def eoeNameLength (mbx : List UInt8) : UInt16 :=
  let eoedatasize := (sdoLength mbx-4).toNat
  if (eoedatasize : Int)-eoeNameOffset mbx<eoeDnsNameLength then
    toUInt16 ((eoedatasize : Int)-eoeNameOffset mbx)
  else UInt16.ofNat eoeDnsNameLength

def eoeNameFlagged (mbx : List UInt8) : Prop := byteAt mbx 10 &&& 0x20≠0

instance eoeNameFlagged.decidable (mbx : List UInt8) : Decidable (eoeNameFlagged mbx) :=
  inferInstanceAs (Decidable (_≠_))

def isGetIpAnswer (mbx : List UInt8) : Prop :=
  mbxType mbx=ectMbxtEoe ∧ eoeFrameType mbx=eoeGetIpParamResp

instance isGetIpAnswer.decidable (mbx : List UInt8) : Decidable (isGetIpAnswer mbx) :=
  inferInstanceAs (Decidable (_ ∧ _))

/-- All that `ecx_EOEgetIp` reads in an answer, in the order of the source. -/
def eoeGetIpReads (mbx : List UInt8) : List (Nat × Nat) :=
  (5,1)::if mbxType mbx=ectMbxtEoe then
      (6,2)::(0,2)::if eoeFrameType mbx=eoeGetIpParamResp then
          (10,1)::(eoeFixedReads mbx eoeFixedParams eoeParamOffset++
            if eoeNameFlagged mbx then [(10+eoeNameOffset mbx,(eoeNameLength mbx).toNat)] else [])
        else []
    else []

/-- The bytes it writes to `dns_name`. -/
def eoeNameWritten (mbx : List UInt8) : Nat :=
  if isGetIpAnswer mbx ∧ eoeNameFlagged mbx then (eoeNameLength mbx).toNat else 0

/-- Some parameter is flagged, and the length announced ends before the last one of them does. -/
def isAnnouncedShort (mbx : List UInt8) : Prop :=
  ((∃ param ∈ eoeFixedParams,byteAt mbx 10 &&& param.1≠0) ∨ eoeNameFlagged mbx) ∧
    (sdoLength mbx).toNat<
      4+(eoeNameOffset mbx+if eoeNameFlagged mbx then eoeDnsNameLength else 0)

/-- The first `n` bytes of the answer have been received. It is read in there only, the name has
room in `dns_name`, and an announced length that is too short is an error. -/
structure ReadsIpSafely (n : Nat) (mbx : List UInt8) : Prop where
  reads : ∀ span ∈ eoeGetIpReads mbx,span.2=0 ∨ span.1+span.2 ≤ n
  name : eoeNameWritten mbx ≤ eoeDnsNameLength
  short : isAnnouncedShort mbx → ∀ (σ : Type) (reply : Received) (c c' : Client σ)
    (r : Int × Option EoeParam),reply.data=mbx → eoeGetIpReply reply c=.ok (r,c') → r.1 ≤ 0

section Parsing

/-- The offset after the first `k` parameters. -/
def eoeOffset (mbx : List UInt8) (k : Nat) : Nat :=
  eoeFixedEnd mbx (eoeFixedParams.take k) eoeParamOffset

theorem eoeGetIp4_end (mbx : List UInt8) (flag : UInt8) (offset : Nat) :
    (eoeGetIp4 mbx flag offset).2=if byteAt mbx 10 &&& flag≠0 then offset+4 else offset := by
  rw [eoeGetIp4]
  split_ifs <;> rfl

theorem eoeParseParam_eq (mbx : List UInt8) : eoeParseParam mbx=
    (⟨if byteAt mbx 10 &&& 0x01≠0 then some (bytesAt mbx (10+eoeOffset mbx 0) 6) else none,
      (eoeGetIp4 mbx 0x02 (eoeOffset mbx 1)).1,(eoeGetIp4 mbx 0x04 (eoeOffset mbx 2)).1,
      (eoeGetIp4 mbx 0x08 (eoeOffset mbx 3)).1,(eoeGetIp4 mbx 0x10 (eoeOffset mbx 4)).1,
      if eoeNameFlagged mbx then
        some (bytesAt mbx (10+eoeNameOffset mbx) (eoeNameLength mbx).toNat) else none⟩,
      eoeNameOffset mbx+if eoeNameFlagged mbx then eoeDnsNameLength else 0) := by
  have h1 : (if byteAt mbx 10 &&& 0x01≠0 then
        (some (bytesAt mbx (10+eoeParamOffset) eoeEthaddrLength),eoeParamOffset+eoeEthaddrLength)
      else (none,eoeParamOffset))=
      (if byteAt mbx 10 &&& 0x01≠0 then some (bytesAt mbx (10+eoeOffset mbx 0) 6) else none,
        eoeOffset mbx 1) := by
    rw [show eoeOffset mbx 1=if byteAt mbx 10 &&& 0x01≠0 then eoeParamOffset+eoeEthaddrLength
      else eoeParamOffset from rfl]
    split_ifs <;> rfl
  have h2 : (eoeGetIp4 mbx 0x02 (eoeOffset mbx 1)).2=eoeOffset mbx 2 := eoeGetIp4_end _ _ _
  have h3 : (eoeGetIp4 mbx 0x04 (eoeOffset mbx 2)).2=eoeOffset mbx 3 := eoeGetIp4_end _ _ _
  have h4 : (eoeGetIp4 mbx 0x08 (eoeOffset mbx 3)).2=eoeOffset mbx 4 := eoeGetIp4_end _ _ _
  have h5 : (eoeGetIp4 mbx 0x10 (eoeOffset mbx 4)).2=eoeNameOffset mbx := eoeGetIp4_end _ _ _
  simp only [eoeParseParam,h1,h2,h3,h4,h5]
  by_cases hname : eoeNameFlagged mbx
  · rw [if_pos hname,if_pos hname,if_pos (show byteAt mbx 10 &&& 0x20≠0 from hname)]
    rfl
  · rw [if_neg hname,if_neg hname,if_neg (show ¬(byteAt mbx 10 &&& 0x20≠0) from hname)]
    rfl

theorem eoeParseParam_end (mbx : List UInt8) :
    (eoeParseParam mbx).2=eoeNameOffset mbx+if eoeNameFlagged mbx then eoeDnsNameLength else 0 :=
  congrArg Prod.snd (eoeParseParam_eq mbx)

theorem eoeFixedEnd_le (mbx : List UInt8) (params : List (UInt8 × Nat)) : ∀ offset : Nat,
    offset ≤ eoeFixedEnd mbx params offset ∧
      eoeFixedEnd mbx params offset ≤ offset+(params.map Prod.snd).sum := by
  induction params with
  | nil => exact fun offset => ⟨le_refl _,le_refl _⟩
  | cons param rest ih =>
    intro offset
    obtain ⟨flag,size⟩ := param
    simp only [eoeFixedEnd,List.map_cons,List.sum_cons]
    by_cases hflag : byteAt mbx 10 &&& flag≠0
    · rw [if_pos hflag]
      have := ih (offset+size)
      omega
    · rw [if_neg hflag]
      have := ih offset
      omega

theorem eoeNameOffset_le (mbx : List UInt8) : 4 ≤ eoeNameOffset mbx ∧ eoeNameOffset mbx ≤ 26 :=
  eoeFixedEnd_le mbx eoeFixedParams eoeParamOffset

/-- The flagged parameters are read one after the other, so that the last one ends last. -/
theorem eoeFixedReads_within (mbx : List UInt8) (params : List (UInt8 × Nat))
    (hpos : ∀ param ∈ params,0 < param.2) : ∀ offset : Nat,
    (∀ span ∈ eoeFixedReads mbx params offset,span.2=0 ∨ span.1+span.2 ≤ n) ↔
      ((∃ param ∈ params,byteAt mbx 10 &&& param.1≠0) →
        10+eoeFixedEnd mbx params offset ≤ n) := by
  induction params with
  | nil => simp [eoeFixedReads]
  | cons param rest ih =>
    intro offset
    obtain ⟨flag,size⟩ := param
    have hrest := ih fun param hmem => hpos param (List.mem_cons_of_mem _ hmem)
    have hsize : 0 < size := hpos _ List.mem_cons_self
    simp only [eoeFixedReads,eoeFixedEnd,List.mem_cons,exists_eq_or_imp]
    by_cases hflag : byteAt mbx 10 &&& flag≠0
    · rw [if_pos hflag,if_pos hflag]
      have hle := (eoeFixedEnd_le mbx rest (offset+size)).1
      simp only [List.mem_cons,forall_eq_or_imp,hrest]
      constructor
      · rintro ⟨hfirst,hothers⟩ -
        by_cases hmore : ∃ param ∈ rest,byteAt mbx 10 &&& param.1≠0
        · exact hothers hmore
        · have hend : eoeFixedEnd mbx rest (offset+size)=offset+size := by
            clear hrest ih hpos hle hothers
            induction rest with
            | nil => rfl
            | cons other rest ih =>
              rw [eoeFixedEnd,if_neg fun h => hmore ⟨other,List.mem_cons_self,h⟩]
              exact ih fun ⟨param,hmem,h⟩ => hmore ⟨param,List.mem_cons_of_mem _ hmem,h⟩
          omega
      · intro h
        have hend := h (.inl hflag)
        exact ⟨by omega,fun _ => hend⟩
    · rw [if_neg hflag,if_neg hflag,hrest]
      have hnot : ¬(byteAt mbx 10 &&& flag≠0) := hflag
      simp only [hnot,false_or]

end Parsing

section Reads

theorem bytesAt_one (mbx : List UInt8) (offset : Nat) :
    bytesAt mbx offset 1=[byteAt mbx offset] := by
  rw [bytesAt,byteAt,List.getD_eq_getElem?_getD,← List.head?_drop]
  cases mbx.drop offset <;> rfl

theorem get16_bytesAt (mbx : List UInt8) (offset : Nat) :
    get16 mbx offset=UInt16.ofNat (leValue (bytesAt mbx offset 2)) := by
  rw [get16,bytesAt]
  rcases mbx.drop offset with _|⟨x,_|⟨y,rest⟩⟩
  · rfl
  · rfl
  · rfl

theorem eoeFixedReads_mem {params : List (UInt8 × Nat)} {flag : UInt8} {size : Nat}
    (hflag : byteAt mbx 10 &&& flag≠0) : ∀ (before after : List (UInt8 × Nat)) (offset : Nat),
    params=before++(flag,size)::after →
    (10+eoeFixedEnd mbx before offset,size) ∈ eoeFixedReads mbx params offset := by
  induction params with
  | nil => simp
  | cons param rest ih =>
    intro before after offset h
    cases before with
    | nil =>
      cases h
      rw [eoeFixedReads,if_pos hflag]
      exact List.mem_cons_self
    | cons _ before =>
      obtain ⟨other,number⟩ := param
      cases h
      rw [eoeFixedReads,eoeFixedEnd]
      by_cases hother : byteAt mbx 10 &&& other≠0
      · rw [if_pos hother,if_pos hother]
        exact List.mem_cons_of_mem _ (ih _ _ _ rfl)
      · rw [if_neg hother,if_neg hother]
        exact ih _ _ _ rfl

theorem eoeFixedEnd_congr (h : byteAt a 10=byteAt b 10) (params : List (UInt8 × Nat)) :
    ∀ offset : Nat,eoeFixedEnd a params offset=eoeFixedEnd b params offset := by
  induction params with
  | nil => exact fun _ => rfl
  | cons param rest ih =>
    intro offset
    rw [eoeFixedEnd,eoeFixedEnd,h]
    exact ih _

/-- The parameters taken from an answer depend on nothing that is not read. -/
theorem eoeParseParam_congr (ha : isGetIpAnswer a)
    (h : ∀ span ∈ eoeGetIpReads a,bytesAt a span.1 span.2=bytesAt b span.1 span.2) :
    eoeParseParam a=eoeParseParam b := by
  rw [eoeGetIpReads,if_pos ha.1,if_pos ha.2] at h
  simp only [List.forall_mem_cons,List.forall_mem_append] at h
  obtain ⟨-,-,hlength,hflags,hfixed,hname⟩ := h
  have hlen : sdoLength a=sdoLength b := by
    rw [sdoLength,sdoLength,get16_bytesAt,get16_bytesAt,hlength]
  have hflag : byteAt a 10=byteAt b 10 := by
    rw [bytesAt_one,bytesAt_one] at hflags
    exact List.head_eq_of_cons_eq hflags
  have hoffset : ∀ k,eoeOffset a k=eoeOffset b k := fun k => eoeFixedEnd_congr hflag _ _
  have hend : eoeNameOffset a=eoeNameOffset b := eoeFixedEnd_congr hflag _ _
  have hsize : eoeNameLength a=eoeNameLength b := by
    rw [eoeNameLength,eoeNameLength,hlen,hend]
  have hsame : eoeNameFlagged a ↔ eoeNameFlagged b := by
    rw [eoeNameFlagged,eoeNameFlagged,hflag]
  have hip : ∀ (flag : UInt8) (k : Nat),eoeFixedParams.drop k=(flag,4)::eoeFixedParams.drop (k+1) →
      (eoeGetIp4 a flag (eoeOffset a k)).1=(eoeGetIp4 b flag (eoeOffset b k)).1 := by
    intro flag k hk
    rw [eoeGetIp4,eoeGetIp4,← hflag,← hoffset]
    by_cases hset : byteAt a 10 &&& flag≠0
    · rw [if_pos hset,if_pos hset]
      have hread := hfixed _ (eoeFixedReads_mem hset _ _ eoeParamOffset
        (hk ▸ (List.take_append_drop k eoeFixedParams).symm))
      exact congrArg (fun bytes => some (eoeIpFromByte bytes)) hread
    · rw [if_neg hset,if_neg hset]
  have hmac : (if byteAt a 10 &&& 0x01≠0 then some (bytesAt a (10+eoeOffset a 0) 6) else none)=
      if byteAt b 10 &&& 0x01≠0 then some (bytesAt b (10+eoeOffset b 0) 6) else none := by
    rw [← hflag,← hoffset]
    by_cases hset : byteAt a 10 &&& 0x01≠0
    · rw [if_pos hset,if_pos hset]
      exact congrArg some (hfixed _ (eoeFixedReads_mem hset [] _ _ rfl))
    · rw [if_neg hset,if_neg hset]
  have hnames : (if eoeNameFlagged a then
        some (bytesAt a (10+eoeNameOffset a) (eoeNameLength a).toNat) else none)=
      if eoeNameFlagged b then
        some (bytesAt b (10+eoeNameOffset b) (eoeNameLength b).toNat) else none := by
    by_cases hset : eoeNameFlagged a
    · rw [if_pos hset,List.forall_mem_singleton] at hname
      rw [if_pos hset,if_pos (hsame.mp hset),← hend,← hsize]
      exact congrArg some hname
    · rw [if_neg hset,if_neg (mt hsame.mpr hset)]
  rw [eoeParseParam_eq,eoeParseParam_eq,hmac,hip 0x02 1 rfl,hip 0x04 2 rfl,hip 0x08 3 rfl,
    hip 0x10 4 rfl,hnames,hend]
  simp only [hsame]

theorem eoeGetIpReply_congr (wkc : Int) (m : Option Nat)
    (h : ∀ span ∈ eoeGetIpReads a,bytesAt a span.1 span.2=bytesAt b span.1 span.2) :
    (eoeGetIpReply ⟨wkc,m,a⟩ : MbxM Unit _)=eoeGetIpReply ⟨wkc,m,b⟩ := by
  have htype : mbxType a=mbxType b := by
    have hread := h (5,1) List.mem_cons_self
    rw [bytesAt_one,bytesAt_one] at hread
    rw [mbxType,mbxType,List.head_eq_of_cons_eq hread]
  rw [eoeGetIpReply,eoeGetIpReply]
  by_cases hw : wkc>0
  · rw [if_pos hw,if_pos hw]
    by_cases heoe : mbxType a=ectMbxtEoe
    · have hinfo : eoeFrameType a=eoeFrameType b := by
        have hread := h (6,2) (by simp [eoeGetIpReads,heoe])
        rw [eoeFrameType,eoeFrameType,eoeInfo1,eoeInfo1,get16_bytesAt,get16_bytesAt,hread]
      have hlen : sdoLength a=sdoLength b := by
        have hread := h (0,2) (by simp [eoeGetIpReads,heoe])
        rw [sdoLength,sdoLength,get16_bytesAt,get16_bytesAt,hread]
      have hb : mbxType b=ectMbxtEoe := htype ▸ heoe
      rw [if_pos heoe,if_pos hb]
      dsimp only
      rw [hinfo,hlen]
      by_cases hresp : eoeFrameType a=eoeGetIpParamResp
      · rw [eoeParseParam_congr ⟨heoe,hresp⟩ h]
      · have hother : eoeFrameType b≠eoeGetIpParamResp := hinfo ▸ hresp
        rw [if_pos hother,if_pos hother]
    · have hb : mbxType b≠ectMbxtEoe := htype ▸ heoe
      rw [if_neg heoe,if_neg hb]
  · rw [if_neg hw,if_neg hw]

end Reads

/-- `eoedatasize`, a difference of 16 bits. -/
theorem eoedatasize_eq (mbx : List UInt8) : (sdoLength mbx-4).toNat=
    if 4 ≤ (sdoLength mbx).toNat then (sdoLength mbx).toNat-4
    else 65532+(sdoLength mbx).toNat := by
  have hlt := (sdoLength mbx).toNat_lt
  rw [UInt16.toNat_sub]
  have hfour : (4 : UInt16).toNat=4 := rfl
  rw [hfour]
  split_ifs <;> omega

/-- The length of the name, where the length announced is at least the offset of the name, and
where it is not. -/
theorem eoeNameLength_toNat (mbx : List UInt8) :
    (4+eoeNameOffset mbx ≤ (sdoLength mbx).toNat →
      (eoeNameLength mbx).toNat=min 32 ((sdoLength mbx).toNat-4-eoeNameOffset mbx)) ∧
    (4 ≤ (sdoLength mbx).toNat → (sdoLength mbx).toNat<4+eoeNameOffset mbx →
      32<(eoeNameLength mbx).toNat) := by
  have hlt := (sdoLength mbx).toNat_lt
  obtain ⟨hlow,hhigh⟩ := eoeNameOffset_le mbx
  have hsize := eoedatasize_eq mbx
  have hnat : (eoeNameLength mbx).toNat=
      if ((sdoLength mbx-4).toNat : Int)-eoeNameOffset mbx<32 then
        ((((sdoLength mbx-4).toNat : Int)-eoeNameOffset mbx)%65536).toNat%65536 else 32 := by
    rw [eoeNameLength]
    by_cases hless : ((sdoLength mbx-4).toNat : Int)-eoeNameOffset mbx<32
    · rw [if_pos hless,if_pos (show _<((eoeDnsNameLength : Nat) : Int) from hless)]
      exact UInt16.toNat_ofNat'
    · rw [if_neg hless,if_neg (show ¬_<((eoeDnsNameLength : Nat) : Int) from hless)]
      rfl
  rw [hnat,hsize]
  constructor
  · intro hle
    rw [if_pos (show 4 ≤ (sdoLength mbx).toNat by omega)]
    split_ifs <;> omega
  · intro hfour hless
    rw [if_pos hfour,if_pos (by omega)]
    omega

/-- The length announced reaches to where the name begins, and all that is read has been
received. -/
structure IpAnswerFits (n : Nat) (mbx : List UInt8) : Prop where
  flags : 11 ≤ n
  fixed : (∃ param ∈ eoeFixedParams,byteAt mbx 10 &&& param.1≠0) →
    4 ≤ (sdoLength mbx).toNat ∧ 10+eoeNameOffset mbx ≤ n
  name : eoeNameFlagged mbx → 4+eoeNameOffset mbx ≤ (sdoLength mbx).toNat ∧
    (4+eoeNameOffset mbx<(sdoLength mbx).toNat →
      10+min (eoeNameOffset mbx+32) ((sdoLength mbx).toNat-4) ≤ n)

theorem getIp_short_iff (hanswer : isGetIpAnswer mbx) :
    (isAnnouncedShort mbx → ∀ (σ : Type) (reply : Received) (c c' : Client σ)
      (r : Int × Option EoeParam),reply.data=mbx → eoeGetIpReply reply c=.ok (r,c') → r.1 ≤ 0) ↔
    ((∃ param ∈ eoeFixedParams,byteAt mbx 10 &&& param.1≠0) ∨ eoeNameFlagged mbx →
      4 ≤ (sdoLength mbx).toNat) := by
  obtain ⟨hlow,hhigh⟩ := eoeNameOffset_le mbx
  have hsize := eoedatasize_eq mbx
  have hend := eoeParseParam_end mbx
  have hmax : (eoeParseParam mbx).2 ≤ 58 := by
    rw [hend]
    split_ifs
    · simp only [eoeDnsNameLength]
      omega
    · omega
  constructor
  · intro h hflagged
    by_contra hless
    have hshort : isAnnouncedShort mbx := ⟨hflagged,by omega⟩
    have hrun : eoeGetIpReply ⟨1,none,mbx⟩ (Client.start ())=
        .ok ((1,some (eoeParseParam mbx).1),Client.start ()) := by
      rw [if_neg hless] at hsize
      rw [eoeGetIpReply,if_pos Int.one_pos,if_pos hanswer.1,if_neg (not_not.mpr hanswer.2)]
      apply congrFun (if_neg ?_)
      show ¬((eoeParseParam mbx).2>(sdoLength mbx-4).toNat)
      omega
    have := h hshort Unit _ _ _ _ rfl hrun
    simp at this
  · intro h hshort σ reply c c' r hdata hr
    have hfour := h hshort.1
    have hless := hshort.2
    rw [← hend] at hless
    rw [if_pos hfour] at hsize
    by_cases hw : reply.wkc>0
    · rw [eoeGetIpReply,if_pos hw,hdata,if_pos hanswer.1,if_neg (not_not.mpr hanswer.2)] at hr
      have herror := (congrFun (if_pos (show _>_ by omega)) c).symm.trans hr
      cases pure_ok.mp herror
      exact (by decide : errMbxError ≤ 0)
    · rw [eoeGetIpReply,if_neg hw] at hr
      cases pure_ok.mp hr
      exact Int.not_lt.mp hw

theorem eoeGetIpReads_within (hanswer : isGetIpAnswer mbx) :
    (∀ span ∈ eoeGetIpReads mbx,span.2=0 ∨ span.1+span.2 ≤ n) ↔ 11 ≤ n ∧
      ((∃ param ∈ eoeFixedParams,byteAt mbx 10 &&& param.1≠0) → 10+eoeNameOffset mbx ≤ n) ∧
      (eoeNameFlagged mbx → (eoeNameLength mbx).toNat=0 ∨
        10+eoeNameOffset mbx+(eoeNameLength mbx).toNat ≤ n) := by
  have hfixed := eoeFixedReads_within (n := n) mbx eoeFixedParams (by decide) eoeParamOffset
  rw [eoeGetIpReads,if_pos hanswer.1,if_pos hanswer.2]
  simp only [List.forall_mem_cons,List.forall_mem_append]
  rw [hfixed]
  have hname : (∀ span,span ∈ (if eoeNameFlagged mbx then
      [(10+eoeNameOffset mbx,(eoeNameLength mbx).toNat)] else []) →
        span.2=0 ∨ span.1+span.2 ≤ n) ↔ (eoeNameFlagged mbx → (eoeNameLength mbx).toNat=0 ∨
          10+eoeNameOffset mbx+(eoeNameLength mbx).toNat ≤ n) := by
    by_cases hflag : eoeNameFlagged mbx
    · simp [hflag]
    · simp [hflag]
  rw [hname]
  constructor
  · rintro ⟨-,-,-,hflags,hparams,hnames⟩
    exact ⟨by omega,hparams,hnames⟩
  · rintro ⟨hflags,hparams,hnames⟩
    exact ⟨by omega,by omega,by omega,by omega,hparams,hnames⟩

/-- An answer is read safely exactly if it fits, as far as it is one to GET IP. -/
theorem reads_ip_safely_iff (n : Nat) (mbx : List UInt8) :
    ReadsIpSafely n mbx ↔ 6 ≤ n ∧ (mbxType mbx=ectMbxtEoe → 8 ≤ n ∧
      (eoeFrameType mbx=eoeGetIpParamResp → IpAnswerFits n mbx)) := by
  by_cases hanswer : isGetIpAnswer mbx
  · obtain ⟨hfits,hwraps⟩ := eoeNameLength_toNat mbx
    have hwritten : eoeNameWritten mbx=
        if eoeNameFlagged mbx then (eoeNameLength mbx).toNat else 0 := by
      rw [eoeNameWritten]
      simp only [hanswer,true_and]
    have hmax : eoeDnsNameLength=32 := rfl
    constructor
    · rintro ⟨hreads,hname,hshort⟩
      obtain ⟨hflags,hparams,hnames⟩ := (eoeGetIpReads_within hanswer).mp hreads
      have hfour := (getIp_short_iff hanswer).mp hshort
      refine ⟨by omega,fun _ => ⟨by omega,fun _ => ⟨hflags,?_,?_⟩⟩⟩
      · exact fun hflagged => ⟨hfour (.inl hflagged),hparams hflagged⟩
      · intro hflagged
        rw [hwritten,if_pos hflagged,hmax] at hname
        have hlength := hfour (.inr hflagged)
        have hreach : 4+eoeNameOffset mbx ≤ (sdoLength mbx).toNat := by
          by_contra hless
          have := hwraps hlength (by omega)
          omega
        have hcopied := hfits hreach
        have hend := hnames hflagged
        exact ⟨hreach,by omega⟩
    · rintro ⟨-,hall⟩
      obtain ⟨-,hall⟩ := hall hanswer.1
      obtain ⟨hflags,hparams,hnames⟩ := hall hanswer.2
      refine ⟨(eoeGetIpReads_within hanswer).mpr ⟨hflags,fun h => (hparams h).2,?_⟩,?_,?_⟩
      · intro hflagged
        obtain ⟨hreach,hend⟩ := hnames hflagged
        have hcopied := hfits hreach
        omega
      · rw [hwritten]
        by_cases hflagged : eoeNameFlagged mbx
        · rw [if_pos hflagged,hfits (hnames hflagged).1]
          omega
        · rw [if_neg hflagged]
          omega
      · refine (getIp_short_iff hanswer).mpr ?_
        rintro (hflagged|hflagged)
        · exact (hparams hflagged).1
        · have := (hnames hflagged).1
          omega
  · -- the answer is refused after the header
    have hwritten : eoeNameWritten mbx=0 := if_neg fun h => hanswer h.1
    have hshort : ∀ (σ : Type) (reply : Received) (c c' : Client σ) (r : Int × Option EoeParam),
        reply.data=mbx → eoeGetIpReply reply c=.ok (r,c') → r.1 ≤ 0 := by
      intro σ reply c c' r hdata hr
      rw [eoeGetIpReply,hdata] at hr
      by_cases hw : reply.wkc>0
      · rw [if_pos hw] at hr
        by_cases htype : mbxType mbx=ectMbxtEoe
        · rw [if_pos htype,if_pos fun h => hanswer ⟨htype,h⟩] at hr
          cases pure_ok.mp hr
          decide
        · rw [if_neg htype] at hr
          cases pure_ok.mp hr
          decide
      · rw [if_neg hw] at hr
        cases pure_ok.mp hr
        exact Int.not_lt.mp hw
    have hreads : (∀ span ∈ eoeGetIpReads mbx,span.2=0 ∨ span.1+span.2 ≤ n) ↔
        6 ≤ n ∧ (mbxType mbx=ectMbxtEoe → 8 ≤ n) := by
      rw [eoeGetIpReads]
      by_cases htype : mbxType mbx=ectMbxtEoe
      · rw [if_pos htype,if_neg fun h => hanswer ⟨htype,h⟩]
        simp [htype]
        omega
      · rw [if_neg htype]
        simp [htype]
    constructor
    · rintro ⟨hall,-,-⟩
      obtain ⟨hsix,height⟩ := hreads.mp hall
      exact ⟨hsix,fun htype => ⟨height htype,fun h => absurd ⟨htype,h⟩ hanswer⟩⟩
    · rintro ⟨hsix,hall⟩
      exact ⟨hreads.mpr ⟨hsix,fun htype => (hall htype).1⟩,by omega,
        fun _ => hshort⟩

theorem infoExchange_replied {σ α : Type} {port : Port σ} {cfg : SlaveCfg} {out : Nat}
    {m : Option Nat} {failed : Int → α} {onReply : Received → MbxM σ α} {r : α} {c c' : Client σ}
    (h : infoExchange port cfg out m failed onReply c=.ok (r,c')) :
    (∃ wkc,wkc ≤ 0 ∧ r=failed wkc) ∨ ∃ reply c1 c2,onReply reply c1=.ok (r,c2) := by
  obtain ⟨wkc,c1,-,h⟩ := bind_ok.mp h
  by_cases hw : wkc>0
  · rw [if_pos hw] at h
    obtain ⟨_,c2,-,h⟩ := bind_ok.mp h
    obtain ⟨reply,c3,-,h⟩ := bind_ok.mp h
    obtain ⟨result,c4,hreply,h⟩ := bind_ok.mp h
    obtain ⟨_,c5,-,h⟩ := bind_ok.mp h
    cases pure_ok.mp h
    exact .inr ⟨reply,c3,c4,hreply⟩
  · rw [if_neg hw] at h
    obtain ⟨_,c2,-,h⟩ := bind_ok.mp h
    cases pure_ok.mp h
    exact .inl ⟨wkc,Int.not_lt.mp hw,rfl⟩

/-- `ecx_EOEgetIp` reports success for an answer only. -/
theorem eoeGetIp_replied {σ : Type} {port : Port σ} {cfg : SlaveCfg} {eoePort : UInt8}
    {r : Int × Option EoeParam} {c c' : Client σ} (h : eoeGetIp port cfg eoePort c=.ok (r,c')) :
    r.1 ≤ 0 ∨ ∃ reply c1 c2,eoeGetIpReply (σ := σ) reply c1=.ok (r,c2) := by
  obtain ⟨stale,c1,-,h⟩ := bind_ok.mp h
  obtain ⟨out,c2,-,h⟩ := bind_ok.mp h
  cases out with
  | none => cases h
  | some out =>
    obtain ⟨_,c3,-,h⟩ := bind_ok.mp h
    obtain ⟨cnt,c4,-,h⟩ := bind_ok.mp h
    obtain ⟨_,c5,-,h⟩ := bind_ok.mp h
    obtain ⟨wkc,hw,rfl⟩|hreply := infoExchange_replied h
    · exact .inl hw
    · exact .inr hreply

/-- An answer with the flags for the hardware address and the name, and no room for either. -/
def shortIpAnswer (length : UInt16) : List UInt8 :=
  eoeFrame length 1 (eoeGetIpParamResp ||| 0x100) 0 ([0x21,0,0,0]++List.replicate 1472 7)

/-- A length of 8 has 65530 bytes copied into the name. A length of 0 lets the parameters pass. -/
theorem short_ip_answer_read :
    eoeNameWritten (shortIpAnswer 8)=65530 ∧
    eoeGetIpReply ⟨1,none,shortIpAnswer 0⟩ (Client.start ())=
      .ok ((1,some (eoeParseParam (shortIpAnswer 0)).1),Client.start ()) ∧
    ¬∀ mbx : List UInt8,mbx.length=ecMaxMbx → ReadsIpSafely ecMaxMbx mbx := by
  have hcopied : eoeNameWritten (shortIpAnswer 8)=65530 := by decide +kernel
  refine ⟨hcopied,rfl,fun hall => ?_⟩
  have hname := (hall (shortIpAnswer 8) (by decide +kernel)).name
  rw [hcopied] at hname
  exact absurd hname (by decide)

/-- One with the flag for the name only is read safely if it announces 40 bytes. -/
theorem name_answer_read_safely :
    ReadsIpSafely 46 (eoeFrame 40 1 (eoeGetIpParamResp ||| 0x100) 0
      ([0x20,0,0,0]++List.replicate 32 7)) :=
  (reads_ip_safely_iff _ _).mpr ⟨by decide,fun _ => ⟨by decide,fun _ =>
    ⟨by decide,by decide +kernel,by decide +kernel⟩⟩⟩

end EtherCATMaster.Mailbox
