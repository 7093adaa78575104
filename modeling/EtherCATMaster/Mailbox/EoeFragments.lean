import EtherCATMaster.Mailbox.Eoe
import EtherCATMaster.Mailbox.Dialogue

namespace EtherCATMaster.Mailbox

open EtherCATMaster.Framework

/-- What a caller of `ecx_EOEreadfragment` keeps between two calls: number of the fragment expected,
size of the frame, offset and number, the size of its buffer and the buffer. -/
structure EoeFragment where
  rxfragmentno : UInt8
  rxframesize : UInt16
  rxframeoffset : UInt16
  rxframeno : UInt16
  psize : Int
  buffer : List UInt8

def EoeFragment.reset (s : EoeFragment) : EoeFragment :=
  { s with rxfragmentno := 0, rxframesize := 0, rxframeoffset := 0, rxframeno := 0 }

def copyAt (buffer : List UInt8) (offset : Nat) (bytes : List UInt8) : List UInt8 :=
  buffer.take offset++bytes++buffer.drop (offset+bytes.length)

/-- The data of a fragment, once it is the one expected. -/
def eoeStoreFragment (mbx : List UInt8) (s : EoeFragment) : Int × EoeFragment :=
  let eoedatasize := sdoLength mbx-4
  let s := if s.rxframeoffset.toNat+eoedatasize.toNat ≤ s.rxframesize.toNat ∧
      ((s.rxframeoffset.toNat+eoedatasize.toNat : Nat) : Int) ≤ s.psize then
      { s with
        buffer := copyAt s.buffer s.rxframeoffset.toNat (bytesAt mbx 10 eoedatasize.toNat)
        rxframeoffset := s.rxframeoffset+eoedatasize
        rxfragmentno := s.rxfragmentno+1 }
    else s
  if eoeLastFragment mbx=true then
    let size : UInt16 := if eoeTimeAppend mbx=true then s.rxframeoffset-4 else s.rxframeoffset
    (1,{ s.reset with psize := size.toNat })
  else (0,s)

/-- `ecx_EOEreadfragment` on a mailbox that was received. -/
def eoeReadFragment (mbx : List UInt8) (s : EoeFragment) : Int × EoeFragment :=
  if mbxType mbx=ectMbxtEoe then
    let other : Bool := decide (s.rxfragmentno.toUInt16≠eoeFragNo mbx)
    let s := if other=true ∧ s.rxfragmentno≠0 then s.reset else s
    if other=true ∧ eoeFragNo mbx>0 then (errEoeInvalidRxData,s)
    else if s.rxfragmentno=0 then
      eoeStoreFragment mbx { s with
        rxframesize := eoeFrameOffset mbx <<< 5
        rxframeoffset := 0
        rxframeno := eoeFrameNo mbx }
    else if s.rxframeno≠eoeFrameNo mbx then (errEoeInvalidRxData,s.reset)
    else if s.rxframeoffset.toNat≠(eoeFrameOffset mbx).toNat <<< 5 then
      (errEoeInvalidRxData,s.reset)
    else eoeStoreFragment mbx s
  else (errPacketError,s)

/-- The mailboxes one after the other, with what is reported for each. -/
def eoeReadFragments : EoeFragment → List (List UInt8) → List Int × EoeFragment
  | s,[] => ([],s)
  | s,mbx::rest =>
      let r := eoeReadFragment mbx s
      let more := eoeReadFragments r.2 rest
      (r.1::more.1,more.2)

/-- The two words of a fragment as `ecx_EOEsend` builds them. -/
def fragmentInfo1 (eoePort : UInt8) (last : Bool) : UInt16 :=
  (if last=true then (0x100 : UInt16) else 0) ||| ((eoePort.toUInt16 &&& 0xf) <<< 4)

def fragmentInfo2 (fragment : UInt8) (place : Nat) (no : UInt8) : UInt16 :=
  (fragment.toUInt16 &&& (0x3f : UInt16)) ||| ((UInt16.ofNat place &&& (0x3f : UInt16)) <<< 6) |||
    ((no.toUInt16 &&& (0xf : UInt16)) <<< 12)

def carriesFragment (eoePort no : UInt8) (fragment place : Nat) (data : List UInt8) (last : Bool)
    (mbx : List UInt8) : Prop :=
  ∃ cnt,eoeFrame (UInt16.ofNat (4+data.length)) cnt (fragmentInfo1 eoePort last)
    (fragmentInfo2 (UInt8.ofNat fragment) place no) data <+: mbx

def fragmentPlace (p : List UInt8) (offset k : Nat) : Nat :=
  if 0 < k then offset >>> 5 else (p.length+31) >>> 5

/-- The fragments of a frame from the one with number `k` on. All but the last carry `block` bytes,
which is a multiple of 32. -/
inductive Fragmented (eoePort no : UInt8) (block : Nat) (p : List UInt8) :
    Nat → List (List UInt8) → Prop
  | last (k : Nat) (mbx : List UInt8) : k*block<p.length →
      carriesFragment eoePort no k (fragmentPlace p (k*block) k) (p.drop (k*block)) true mbx →
      Fragmented eoePort no block p k [mbx]
  | more (k : Nat) (mbx : List UInt8) (rest : List (List UInt8)) : (k+1)*block<p.length →
      carriesFragment eoePort no k (fragmentPlace p (k*block) k) ((p.drop (k*block)).take block) false
        mbx →
      Fragmented eoePort no block p (k+1) rest → Fragmented eoePort no block p k (mbx::rest)

section Fields

theorem info1_bits (last : Bool) (a : BitVec 16) :
    ((if last=true then 0x100#16 else 0#16) ||| ((a &&& 0xf#16) <<< 4)) &&& 0xf#16=0#16 ∧
    (((if last=true then 0x100#16 else 0#16) ||| ((a &&& 0xf#16) <<< 4)) >>> 4) &&& 0xf#16=
      a &&& 0xf#16 ∧
    (((if last=true then 0x100#16 else 0#16) ||| ((a &&& 0xf#16) <<< 4)) >>> 8) &&& 1#16=
      (if last=true then 1#16 else 0#16) ∧
    (((if last=true then 0x100#16 else 0#16) ||| ((a &&& 0xf#16) <<< 4)) >>> 9) &&& 1#16=0#16 := by
  cases last
  all_goals
    refine ⟨?_,?_,?_,?_⟩
    all_goals
      apply BitVec.eq_of_getLsbD_eq
      intro i hi
      interval_cases i <;> simp

theorem info2_bits (a b c : BitVec 16) :
    ((a &&& 0x3f#16) ||| ((b &&& 0x3f#16) <<< 6) ||| ((c &&& 0xf#16) <<< 12)) &&& 0x3f#16=
      a &&& 0x3f#16 ∧
    (((a &&& 0x3f#16) ||| ((b &&& 0x3f#16) <<< 6) ||| ((c &&& 0xf#16) <<< 12)) >>> 6) &&& 0x3f#16=
      b &&& 0x3f#16 ∧
    (((a &&& 0x3f#16) ||| ((b &&& 0x3f#16) <<< 6) ||| ((c &&& 0xf#16) <<< 12)) >>> 12) &&& 0xf#16=
      c &&& 0xf#16 := by
  refine ⟨?_,?_,?_⟩
  all_goals
    apply BitVec.eq_of_getLsbD_eq
    intro i hi
    interval_cases i <;> simp

theorem fragmentInfo1_fields (eoePort : UInt8) (last : Bool) :
    fragmentInfo1 eoePort last &&& 0xf=0 ∧
    (fragmentInfo1 eoePort last >>> 4) &&& 0xf=eoePort.toUInt16 &&& 0xf ∧
    (fragmentInfo1 eoePort last >>> 8) &&& 1=(if last=true then 1 else 0) ∧
    (fragmentInfo1 eoePort last >>> 9) &&& 1=0 := by
  obtain ⟨h1,h2,h3,h4⟩ := info1_bits last eoePort.toUInt16.toBitVec
  cases last
  all_goals
    refine ⟨?_,?_,?_,?_⟩
    · exact UInt16.toBitVec_inj.mp h1
    · exact UInt16.toBitVec_inj.mp h2
    · exact UInt16.toBitVec_inj.mp h3
    · exact UInt16.toBitVec_inj.mp h4

theorem fragmentInfo2_fields (fragment : UInt8) (place : Nat) (no : UInt8) :
    fragmentInfo2 fragment place no &&& 0x3f=fragment.toUInt16 &&& 0x3f ∧
    (fragmentInfo2 fragment place no >>> 6) &&& 0x3f=UInt16.ofNat place &&& 0x3f ∧
    (fragmentInfo2 fragment place no >>> 12) &&& 0xf=no.toUInt16 &&& 0xf := by
  obtain ⟨h1,h2,h3⟩ := info2_bits fragment.toUInt16.toBitVec (UInt16.ofNat place).toBitVec
    no.toUInt16.toBitVec
  exact ⟨UInt16.toBitVec_inj.mp h1,UInt16.toBitVec_inj.mp h2,UInt16.toBitVec_inj.mp h3⟩

theorem low_six {n : Nat} (hn : n<64) : UInt16.ofNat n &&& 0x3f=UInt16.ofNat n := by
  interval_cases n <;> decide

theorem low_four {eoePort : UInt8} (h : eoePort.toNat<16) :
    eoePort.toUInt16 &&& 0xf=eoePort.toUInt16 := by
  have hnat : eoePort=UInt8.ofNat eoePort.toNat := by simp
  generalize eoePort.toNat=n at h hnat
  subst hnat
  interval_cases n <;> decide

theorem mbxType_eoe (cnt : UInt8) : (ectMbxtEoe+(cnt <<< 4)) &&& 0x0f=ectMbxtEoe := by
  have h : ∀ v : BitVec 8,(2#8+(v <<< 4)) &&& 0x0f#8=2#8 := by decide +kernel
  apply UInt8.toBitVec_inj.mp
  simpa [ectMbxtEoe] using h cnt.toBitVec

theorem eoeFrame_length (length : UInt16) (cnt : UInt8) (info1 info2 : UInt16)
    (data : List UInt8) : (eoeFrame length cnt info1 info2 data).length=10+data.length := by
  simp [eoeFrame,mbxHeader]
  omega

/-- What a receiver reads in a fragment. -/
structure FragmentFields (eoePort no : UInt8) (fragment place : Nat) (data : List UInt8)
    (last : Bool) (mbx : List UInt8) : Prop where
  type : mbxType mbx=ectMbxtEoe
  length : sdoLength mbx=UInt16.ofNat (4+data.length)
  fragno : eoeFragNo mbx=UInt16.ofNat fragment
  offset : eoeFrameOffset mbx=UInt16.ofNat place
  frameno : eoeFrameNo mbx=no.toUInt16 &&& 0xf
  port : eoeFramePort mbx=eoePort.toUInt16
  last : eoeLastFragment mbx=last
  time : eoeTimeAppend mbx=false
  bytes : bytesAt mbx 10 data.length=data

theorem carriesFragment.fields {eoePort no : UInt8} {fragment place : Nat} {data mbx : List UInt8}
    {last : Bool} (h : carriesFragment eoePort no fragment place data last mbx)
    (hport : eoePort.toNat<16) (hfragment : fragment<64) (hplace : place<64) :
    FragmentFields eoePort no fragment place data last mbx := by
  obtain ⟨cnt,hfront⟩ := h
  have hlen := eoeFrame_length (UInt16.ofNat (4+data.length)) cnt (fragmentInfo1 eoePort last)
    (fragmentInfo2 (UInt8.ofNat fragment) place no) data
  have htype : byteAt mbx 5=_ := byteAt_of_front hfront (by omega)
  have hlength : get16 mbx 0=_ := get16_of_front hfront (by omega)
  have hinfo1 : eoeInfo1 mbx=fragmentInfo1 eoePort last := by
    have hread : get16 mbx 6=_ := get16_of_front hfront (by omega)
    exact hread.trans (get16_le16 (mbxHeader (UInt16.ofNat (4+data.length)) ectMbxtEoe cnt) _
      (le16 (fragmentInfo2 (UInt8.ofNat fragment) place no)++data))
  have hinfo2 : eoeInfo2 mbx=fragmentInfo2 (UInt8.ofNat fragment) place no := by
    have hread : get16 mbx 8=_ := get16_of_front hfront (by omega)
    exact hread.trans (get16_le16 (mbxHeader (UInt16.ofNat (4+data.length)) ectMbxtEoe cnt++
      le16 (fragmentInfo1 eoePort last)) _ data)
  obtain ⟨-,h4,h8,h9⟩ := fragmentInfo1_fields eoePort last
  obtain ⟨h0,h6,h12⟩ := fragmentInfo2_fields (UInt8.ofNat fragment) place no
  have hno : (UInt8.ofNat fragment).toUInt16=UInt16.ofNat fragment := by
    interval_cases fragment <;> decide
  constructor
  · rw [mbxType,htype]
    exact mbxType_eoe cnt
  · exact hlength.trans (get16_le16 [] _ _)
  · rw [eoeFragNo,hinfo2,h0,hno,low_six hfragment]
  · rw [eoeFrameOffset,hinfo2,h6,low_six hplace]
  · rw [eoeFrameNo,hinfo2,h12]
  · rw [eoeFramePort,hinfo1,h4,low_four hport]
  · rw [eoeLastFragment,hinfo1,h8]
    cases last <;> decide
  · rw [eoeTimeAppend,hinfo1,h9]
    decide
  · rw [bytesAt_of_front hfront (by omega)]
    exact List.take_length

def bringsContent (frame mbx : List UInt8) : Prop := frame.take (6+(sdoLength frame).toNat) <+: mbx

theorem carriesFragment.brought {eoePort no : UInt8} {fragment place : Nat}
    {data frame mbx : List UInt8} {last : Bool}
    (h : carriesFragment eoePort no fragment place data last frame)
    (hdata : data.length ≤ 2016) (hmbx : bringsContent frame mbx) :
    carriesFragment eoePort no fragment place data last mbx := by
  obtain ⟨cnt,hfront⟩ := h
  have hlen := eoeFrame_length (UInt16.ofNat (4+data.length)) cnt (fragmentInfo1 eoePort last)
    (fragmentInfo2 (UInt8.ofNat fragment) place no) data
  have hread : get16 frame 0=_ := get16_of_front hfront (by omega)
  have hlength : sdoLength frame=UInt16.ofNat (4+data.length) :=
    hread.trans (get16_le16 [] _ _)
  have hsize : (UInt16.ofNat (4+data.length)).toNat=4+data.length :=
    UInt16.toNat_ofNat_of_lt' (by simp only [UInt16.size]; omega)
  refine ⟨cnt,List.IsPrefix.trans ?_ hmbx⟩
  rw [List.prefix_take_iff,hlength,hsize]
  exact ⟨hfront,by omega⟩

end Fields

/-- The frame has the size of an Ethernet frame at most, and the fragments end on a border of 32
bytes. -/
structure Fragmentable (block : Nat) (p : List UInt8) : Prop where
  small : p.length ≤ 2016
  large : 32 ≤ block
  border : block%32=0

section Places

variable {block k : Nat} {p : List UInt8}

theorem Fragmentable.count (hp : Fragmentable block p) (hk : k*block<p.length) : k<64 := by
  have hsmall := hp.small
  have hlarge := Nat.mul_le_mul_left k hp.large
  omega

theorem Fragmentable.place (hp : Fragmentable block p) (hk : k*block<p.length) :
    fragmentPlace p (k*block) k<64 := by
  have hsmall := hp.small
  simp only [fragmentPlace,Nat.shiftRight_eq_div_pow]
  split_ifs <;> omega

theorem Fragmentable.offset (hp : Fragmentable block p) (hpos : 0 < k) :
    fragmentPlace p (k*block) k <<< 5=k*block := by
  have hborder : k*block%32=0 := by
    rw [Nat.mul_mod,hp.border,Nat.mul_zero,Nat.zero_mod]
  simp only [fragmentPlace,if_pos hpos,Nat.shiftRight_eq_div_pow,Nat.shiftLeft_eq]
  omega

theorem fragmentPlace_zero : fragmentPlace p (0*block) 0 <<< 5=(p.length+31)/32*32 := by
  simp only [fragmentPlace,Nat.lt_irrefl,if_false,Nat.shiftRight_eq_div_pow,Nat.shiftLeft_eq]

theorem place_toNat {n : Nat} (hn : n<64) : (UInt16.ofNat n).toNat=n :=
  UInt16.toNat_ofNat_of_lt' (by simp only [UInt16.size]; omega)

theorem place_shift {n : Nat} (hn : n<64) : (UInt16.ofNat n <<< 5).toNat=n <<< 5 := by
  interval_cases n <;> decide

theorem fragment_succ (k : Nat) : UInt8.ofNat k+1=UInt8.ofNat (k+1) := by simp

theorem fragment_ne_zero (hpos : 0 < k) (hk : k<64) : UInt8.ofNat k≠0 := by
  interval_cases k <;> decide

theorem fragment_toUInt16 (hk : k<64) : (UInt8.ofNat k).toUInt16=UInt16.ofNat k := by
  interval_cases k <;> decide

theorem dataSize {data mbx : List UInt8} (hlen : data.length ≤ 2016)
    (h : sdoLength mbx=UInt16.ofNat (4+data.length)) :
    (sdoLength mbx).toNat=4+data.length ∧ (sdoLength mbx-4).toNat=data.length := by
  have hlt : (UInt16.ofNat (4+data.length)).toNat=4+data.length :=
    UInt16.toNat_ofNat_of_lt' (by simp only [UInt16.size]; omega)
  have hfour : (4 : UInt16).toNat=4 := rfl
  refine ⟨by rw [h,hlt],?_⟩
  rw [h,UInt16.toNat_sub_of_le]
  · omega
  · rw [UInt16.le_iff_toNat_le]
    omega

end Places

section Reading

variable {eoePort no : UInt8} {block k : Nat} {p old : List UInt8} {mbx : List UInt8}
  {s : EoeFragment}

/-- The caller's variables within a frame, when the fragment with number `k` comes next. -/
structure Opened (no : UInt8) (block : Nat) (p old : List UInt8) (k : Nat) (s : EoeFragment) :
    Prop where
  fragment : s.rxfragmentno=UInt8.ofNat k
  size : s.rxframesize.toNat=(p.length+31)/32*32
  offset : s.rxframeoffset.toNat=k*block
  frameno : s.rxframeno=no.toUInt16 &&& 0xf
  room : (p.length : Int) ≤ s.psize
  buffer : s.buffer=p.take (k*block)++old.drop (k*block)

theorem eoeReadFragment_expected {data : List UInt8} {last : Bool} (hp : Fragmentable block p)
    (hk : k*block<p.length)
    (h : FragmentFields eoePort no k (fragmentPlace p (k*block) k) data last mbx)
    (hfirst : k=0 → s.rxfragmentno=0 ∧ (p.length : Int) ≤ s.psize ∧ s.buffer=old)
    (hnext : 0 < k → Opened no block p old k s) :
    ∃ s',eoeReadFragment mbx s=eoeStoreFragment mbx s' ∧ Opened no block p old k s' := by
  have hcount := hp.count hk
  have hplace := hp.place hk
  rw [eoeReadFragment,if_pos h.type]
  rcases Nat.eq_zero_or_pos k with rfl|hpos
  · obtain ⟨hzero,hroom,hbuffer⟩ := hfirst rfl
    have hsame : decide (s.rxfragmentno.toUInt16≠eoeFragNo mbx)=false := by
      rw [hzero,h.fragno]
      rfl
    simp only [hsame,Bool.false_eq_true,false_and,if_false]
    rw [if_pos hzero]
    refine ⟨_,rfl,hzero,?_,by simp,h.frameno,hroom,by simpa using hbuffer⟩
    simp only
    rw [h.offset,place_shift hplace]
    exact fragmentPlace_zero
  · have hopen := hnext hpos
    have hsame : decide (s.rxfragmentno.toUInt16≠eoeFragNo mbx)=false := by
      rw [hopen.fragment,h.fragno,fragment_toUInt16 hcount]
      exact decide_eq_false (not_not.mpr rfl)
    have hinside : s.rxfragmentno≠0 := by
      rw [hopen.fragment]
      exact fragment_ne_zero hpos hcount
    have hframe : s.rxframeno=eoeFrameNo mbx := by rw [hopen.frameno,h.frameno]
    have hoffset : s.rxframeoffset.toNat=(eoeFrameOffset mbx).toNat <<< 5 := by
      rw [hopen.offset,h.offset,place_toNat hplace]
      exact (hp.offset hpos).symm
    simp only [hsame,Bool.false_eq_true,false_and,if_false]
    rw [if_neg hinside,if_neg (not_not.mpr hframe),if_neg (not_not.mpr hoffset)]
    exact ⟨s,rfl,hopen⟩

theorem Opened.stored {data : List UInt8} (hopen : Opened no block p old k s)
    (hsize : (sdoLength mbx-4).toNat=data.length) (hbytes : bytesAt mbx 10 data.length=data)
    (hdata : p.take (k*block)++data=p.take (k*block+data.length))
    (hend : k*block+data.length ≤ p.length) (hsmall : p.length ≤ 2016) :
    s.rxframeoffset.toNat+(sdoLength mbx-4).toNat ≤ s.rxframesize.toNat ∧
      ((s.rxframeoffset.toNat+(sdoLength mbx-4).toNat : Nat) : Int) ≤ s.psize ∧
      (s.rxframeoffset+(sdoLength mbx-4)).toNat=k*block+data.length ∧
      copyAt s.buffer s.rxframeoffset.toNat (bytesAt mbx 10 (sdoLength mbx-4).toNat)=
        p.take (k*block+data.length)++old.drop (k*block+data.length) := by
  have hroom := hopen.room
  have hoff := hopen.offset
  have htake : (p.take (k*block)).length=k*block := by
    rw [List.length_take]
    omega
  refine ⟨?_,?_,?_,?_⟩
  · rw [hopen.size]
    omega
  · rw [hoff,hsize]
    omega
  · rw [UInt16.toNat_add,hoff,hsize]
    exact Nat.mod_eq_of_lt (by omega)
  · rw [hsize,hbytes,hoff,copyAt,hopen.buffer,List.take_left' htake,hdata]
    congr 1
    rw [← List.drop_drop,List.drop_left' htake,List.drop_drop]

theorem eoeStoreFragment_more {data : List UInt8} (hopen : Opened no block p old k s)
    (h : FragmentFields eoePort no k (fragmentPlace p (k*block) k) data false mbx)
    (hdata : data=(p.drop (k*block)).take block) (hmore : (k+1)*block<p.length)
    (hsmall : p.length ≤ 2016) :
    ∃ s',eoeStoreFragment mbx s=(0,s') ∧ Opened no block p old (k+1) s' := by
  have hnext : (k+1)*block=k*block+block := Nat.succ_mul k block
  have hlen : data.length=block := by
    rw [hdata,List.length_take,List.length_drop]
    omega
  obtain ⟨-,hsize⟩ := dataSize (by omega) h.length
  have hjoin : p.take (k*block)++data=p.take (k*block+data.length) := by
    rw [hlen,hdata,List.take_add]
  obtain ⟨hframe,hroom,hoffset,hbuffer⟩ :=
    hopen.stored hsize h.bytes hjoin (by omega) hsmall
  rw [hlen,← hnext] at hoffset hbuffer
  have hlast : ¬eoeLastFragment mbx=true := by
    rw [h.last]
    decide
  have hno : s.rxfragmentno+1=UInt8.ofNat (k+1) := by
    rw [hopen.fragment]
    exact fragment_succ k
  simp only [eoeStoreFragment,if_pos (And.intro hframe hroom)]
  rw [if_neg hlast]
  exact ⟨_,rfl,hno,hopen.size,hoffset,hopen.frameno,hopen.room,hbuffer⟩

theorem eoeStoreFragment_last {data : List UInt8} (hopen : Opened no block p old k s)
    (h : FragmentFields eoePort no k (fragmentPlace p (k*block) k) data true mbx)
    (hdata : data=p.drop (k*block)) (hk : k*block<p.length) (hsmall : p.length ≤ 2016) :
    ∃ s',eoeStoreFragment mbx s=(1,s') ∧ s'.rxfragmentno=0 ∧ s'.psize=p.length ∧
      s'.buffer=p++old.drop p.length := by
  have hlen : data.length=p.length-k*block := by rw [hdata,List.length_drop]
  have hall : k*block+data.length=p.length := by omega
  obtain ⟨-,hsize⟩ := dataSize (by omega) h.length
  have hjoin : p.take (k*block)++data=p.take (k*block+data.length) := by
    rw [hall,hdata,List.take_append_drop,List.take_length]
  obtain ⟨hframe,hroom,hoffset,hbuffer⟩ :=
    hopen.stored hsize h.bytes hjoin (by omega) hsmall
  rw [hall] at hoffset hbuffer
  rw [List.take_length] at hbuffer
  have htime : ¬eoeTimeAppend mbx=true := by
    rw [h.time]
    decide
  simp only [eoeStoreFragment,if_pos (And.intro hframe hroom)]
  rw [if_pos h.last,if_neg htime]
  exact ⟨_,rfl,rfl,by simp only [hoffset],hbuffer⟩

theorem eoeReadFragments_run (hp : Fragmentable block p) (hport : eoePort.toNat<16)
    {frames : List (List UInt8)} (hframes : Fragmented eoePort no block p k frames) :
    ∀ s : EoeFragment,
    (k=0 → s.rxfragmentno=0 ∧ (p.length : Int) ≤ s.psize ∧ s.buffer=old) →
    (0 < k → Opened no block p old k s) →
    ∃ s',eoeReadFragments s frames=(List.replicate (frames.length-1) 0++[1],s') ∧
      s'.rxfragmentno=0 ∧ s'.psize=p.length ∧ s'.buffer=p++old.drop p.length := by
  induction hframes with
  | last k mbx hk hmbx =>
    intro s hfirst hnext
    have hfields := hmbx.fields hport (hp.count hk) (hp.place hk)
    obtain ⟨s1,hread,hopen⟩ := eoeReadFragment_expected hp hk hfields hfirst hnext
    obtain ⟨s2,hstore,hdone⟩ := eoeStoreFragment_last hopen hfields rfl hk hp.small
    refine ⟨s2,?_,hdone⟩
    simp only [eoeReadFragments,hread,hstore]
    rfl
  | more k mbx rest hmore hmbx hrest ih =>
    intro s hfirst hnext
    have hk : k*block<p.length := by
      have : (k+1)*block=k*block+block := Nat.succ_mul k block
      omega
    have hfields := hmbx.fields hport (hp.count hk) (hp.place hk)
    obtain ⟨s1,hread,hopen⟩ := eoeReadFragment_expected hp hk hfields hfirst hnext
    obtain ⟨s2,hstore,hopen2⟩ := eoeStoreFragment_more hopen hfields rfl hmore hp.small
    obtain ⟨s3,hrun,hdone⟩ := ih s2 (by simp) (fun _ => hopen2)
    refine ⟨s3,?_,hdone⟩
    have hne : 0 < rest.length := by
      cases hrest <;> simp
    have hcount : (mbx::rest).length-1=(rest.length-1)+1 := by
      simp only [List.length_cons]
      omega
    simp only [eoeReadFragments,hread,hstore,hrun,hcount,List.replicate_succ,List.cons_append]

end Reading

section Receiving

variable {σ τ : Type} {port : Port σ} {cfg : SlaveCfg} {view : σ → List (List UInt8) × τ}
  {eoePort no : UInt8} {block : Nat} {p : List UInt8}

/-- What `ecx_EOErecv` has before the fragment with number `k`. -/
structure Gathered (no : UInt8) (block : Nat) (p : List UInt8) (k : Nat) (s : EoeRecv) : Prop where
  fragment : s.fragment=UInt8.ofNat k
  frameno : 0 < k → s.frameno=no.toUInt16 &&& 0xf
  data : s.data=p.take (k*block)

theorem Gathered.expects {k : Nat} {s : EoeRecv} {data mbx : List UInt8} {last : Bool}
    {buffersize : Int} (hp : Fragmentable block p) (hk : k*block<p.length)
    (hbuffer : ((p.length+31)/32*32 : Nat) ≤ buffersize) (hs : Gathered no block p k s)
    (h : FragmentFields eoePort no k (fragmentPlace p (k*block) k) data last mbx) :
    eoeRecvExpects eoePort buffersize s mbx := by
  have hcount := hp.count hk
  have hplace := hp.place hk
  refine ⟨.inl ?_,?_⟩
  · rw [hs.fragment,h.fragno,fragment_toUInt16 hcount]
  · rcases Nat.eq_zero_or_pos k with rfl|hpos
    · rw [if_pos (show s.fragment=0 from hs.fragment),h.offset,place_toNat hplace,fragmentPlace_zero]
      exact ⟨hbuffer,h.port.symm⟩
    · have hinside : s.fragment≠0 := by
        rw [hs.fragment]
        exact fragment_ne_zero hpos hcount
      have htake : (p.take (k*block)).length=k*block := by
        rw [List.length_take]
        omega
      rw [if_neg hinside,h.offset,place_toNat hplace,hp.offset hpos,hs.data,htake,h.frameno]
      exact ⟨hs.frameno hpos,rfl⟩

theorem Gathered.stores {k : Nat} {s : EoeRecv} {data mbx : List UInt8} {last : Bool}
    {buffersize : Int} (c : Client σ) (hk : k*block<p.length)
    (hbuffer : (p.length : Int) ≤ buffersize) (hs : Gathered no block p k s)
    (h : FragmentFields eoePort no k (fragmentPlace p (k*block) k) data last mbx)
    (hend : k*block+data.length ≤ p.length) (hsmall : p.length ≤ 2016) :
    ∃ s',eoeRecvStore buffersize s mbx c=.ok (s',c) ∧ s'.fragment=UInt8.ofNat (k+1) ∧
      s'.frameno=no.toUInt16 &&& 0xf ∧ s'.data=p.take (k*block)++data := by
  obtain ⟨hlength,-⟩ := dataSize (by omega) h.length
  have htake : (p.take (k*block)).length=k*block := by
    rw [List.length_take]
    omega
  have hfour : ((4+data.length : Nat) : Int)-4=data.length := by omega
  have hfits : ((p.take (k*block)).length : Int)+data.length ≤ buffersize := by omega
  have hneg : ¬(data.length : Int)<0 := by omega
  simp only [eoeRecvStore,hlength,hfour,hs.data]
  rw [if_pos hfits,if_neg hneg,Int.toNat_natCast,h.bytes]
  refine ⟨_,rfl,?_,?_,rfl⟩
  · simp only [hs.fragment]
    exact fragment_succ k
  · simp only
    split_ifs with hzero
    · exact h.frameno
    · apply hs.frameno
      apply Nat.pos_of_ne_zero
      rintro rfl
      exact hzero hs.fragment

/-- The fragments that wait in the slave are received one after the other and put together. -/
theorem eoeRecvLoop_run (hs : Line port cfg view) (hp : Fragmentable block p)
    (hport : eoePort.toNat<16) {buffersize : Int}
    (hbuffer : ((p.length+31)/32*32 : Nat) ≤ buffersize) {k : Nat} {frames : List (List UInt8)}
    (hframes : Fragmented eoePort no block p k frames) :
    ∀ (fuel : Nat) (s : EoeRecv) (r : Received) (m : Nat) (t : τ) (c : Client σ),
    frames.length ≤ fuel → Gathered no block p k s → 0 < r.wkc → r.mbx=some m →
    frames.headD [] <+: r.data → Talking view 1 [m] (frames.tail,t) c →
    ∃ m' w c',eoeRecvLoop port cfg eoePort buffersize fuel r s c=
        .ok ((some m',⟨w,p.length,p⟩),c') ∧ 0 < w ∧ Talking view 1 [m'] ([],t) c' := by
  have hroom : (p.length : Int) ≤ buffersize := by omega
  induction hframes with
  | last k mbx hk hmbx =>
    intro fuel s r m t c hf hgathered hr hm hfront h
    obtain ⟨fuel,rfl⟩ : ∃ n,fuel=n+1 := ⟨fuel-1,by simp at hf; omega⟩
    have hdata : carriesFragment eoePort no k (fragmentPlace p (k*block) k) (p.drop (k*block)) true
        r.data := by
      obtain ⟨cnt,hcnt⟩ := hmbx
      exact ⟨cnt,hcnt.trans hfront⟩
    have hfields := hdata.fields hport (hp.count hk) (hp.place hk)
    have hend : k*block+(p.drop (k*block)).length=p.length := by
      rw [List.length_drop]
      omega
    obtain ⟨s',hstore,-,-,hall⟩ := hgathered.stores c hk hroom hfields (by omega) hp.small
    rw [List.take_append_drop] at hall
    have htime : ¬eoeTimeAppend r.data=true := by
      rw [hfields.time]
      decide
    refine ⟨m,r.wkc,c,?_,hr,h⟩
    rw [eoeRecvLoop,if_pos hr,if_pos hfields.type,
      if_pos (hgathered.expects hp hk hbuffer hfields),run_bind hstore,if_pos hfields.last,
      if_neg htime,hall,hm]
    rfl
  | more k mbx rest hmore hmbx hrest ih =>
    intro fuel s r m t c hf hgathered hr hm hfront h
    obtain ⟨fuel,rfl⟩ : ∃ n,fuel=n+1 := ⟨fuel-1,by simp at hf; omega⟩
    have hnext : (k+1)*block=k*block+block := Nat.succ_mul k block
    have hk : k*block<p.length := by omega
    have hdata : carriesFragment eoePort no k (fragmentPlace p (k*block) k)
        ((p.drop (k*block)).take block) false r.data := by
      obtain ⟨cnt,hcnt⟩ := hmbx
      exact ⟨cnt,hcnt.trans hfront⟩
    have hfields := hdata.fields hport (hp.count hk) (hp.place hk)
    have hlen : ((p.drop (k*block)).take block).length=block := by
      rw [List.length_take,List.length_drop]
      omega
    obtain ⟨s',hstore,hno,hframeno,hjoined⟩ :=
      hgathered.stores c hk hroom hfields (by omega) hp.small
    have hgathered' : Gathered no block p (k+1) s' :=
      ⟨hno,fun _ => hframeno,by rw [hjoined,hnext,List.take_add]⟩
    have hgo : ¬eoeLastFragment r.data=true := by
      rw [hfields.last]
      decide
    obtain ⟨c1,hdrop,h1,-⟩ := h.drop hs
    obtain ⟨x,q,hx⟩ : ∃ x q,rest=x::q := by
      cases hrest <;> exact ⟨_,_,rfl⟩
    have hqueue : Talking view 1 [] (x::q,t) c1 := by
      rw [← hx]
      exact h1
    obtain ⟨r',m',c2,hreceive,hr',hm',hfront',h2,-⟩ := hqueue.receive hs (by simp)
    obtain ⟨m'',w,c3,hrun,hw,h3⟩ := ih fuel s' r' m' t c2 (by simpa using hf) hgathered' hr' hm'
      (by rw [hx]; exact hfront') (by rw [hx]; exact h2)
    refine ⟨m'',w,c3,?_,hw,h3⟩
    rw [eoeRecvLoop,if_pos hr,if_pos hfields.type,
      if_pos (hgathered.expects hp hk hbuffer hfields),run_bind hstore,if_neg hgo,hm,
      run_bind (show dropMbxIn port (some m) c=.ok ((),c1) from hdrop),run_bind hreceive]
    exact hrun

end Receiving

end EtherCATMaster.Mailbox
