import EtherCATMaster.Framework.Telegrams
import EtherCATMaster.Nicdrv.ProcessFrames
import Mathlib.Data.List.GetD

namespace EtherCATMaster.Nicdrv

open EtherCATMaster.Framework
open EtherCATMaster.Mapping (ecBufsize ethHeadersize ecHeadersize ecElengthsize writeBytes readBytes
  setupDatagram addDatagram shorten)

/-- The arguments of a datagram. The buffer at `data` has `length` bytes. -/
structure Order where
  com : UInt8
  adp : UInt16
  ado : UInt16
  data : List UInt8
  deriving DecidableEq, Repr

/-- `txbuf` and `txbuflength` of an index. -/
structure Txframe where
  bytes : Buffer
  length : Nat

/-- `ecx_setupdatagram` -/
def setupdatagram (idx : UInt8) (o : Order) (frame : Buffer) : Txframe :=
  ⟨setupFrame frame o.com idx o.adp.toNat o.ado.toNat o.data.length o.data,
    setupDatagram o.data.length⟩

/-- `ecx_adddatagram`, and the offset it returns. -/
def adddatagram (idx : UInt8) (more : Bool) (o : Order) (frame : Txframe) : Nat × Txframe :=
  let prevlength := shorten frame.length
  let length := o.data.length
  let bytes := writeBytes frame.bytes ethHeadersize
    (leBytes 2 (leWord frame.bytes ethHeadersize+ecHeadersize+length))
  -- the bit for the next datagram is set in the first one
  let dlength := ethHeadersize+8
  let bytes := writeBytes bytes dlength (leBytes 2 (leWord bytes dlength ||| ecDatagramFollows))
  let bytes := writeBytes bytes prevlength
    ([o.com,idx]++leBytes 2 o.adp.toNat++leBytes 2 o.ado.toNat++
      leBytes 2 (if more=true then length ||| ecDatagramFollows else length))
  let bytes := writeBytes bytes (prevlength+10) (datagramData o.com length o.data)
  let bytes := writeBytes bytes (prevlength+10+length) [0,0]
  (shorten (prevlength+ecHeadersize-ecElengthsize-ethHeadersize),
    ⟨bytes,addDatagram frame.length length⟩)

def addAll (idx : UInt8) : List Order → Txframe → List Nat × Txframe
  | [],frame => ([],frame)
  | o::rest,frame =>
      let (offset,frame) := adddatagram idx (!rest.isEmpty) o frame
      let (offsets,frame) := addAll idx rest frame
      (offset::offsets,frame)

def buildFrame (idx : UInt8) (first : Order) (rest : List Order) (frame : Buffer) :
    List Nat × Txframe :=
  addAll idx rest (setupdatagram idx first frame)

section Windows

variable (b : Buffer)

theorem readBytes_add (start m n : Nat) :
    readBytes b start (m+n)=readBytes b start m++readBytes b (start+m) n := by
  simp only [readBytes,List.range_add,List.map_append,List.map_map]
  congr 1
  apply List.map_congr_left
  intro i _
  rw [Function.comp_apply,Nat.add_assoc]

theorem readBytes_written (dest : Nat) (bytes : List UInt8) {n : Nat} (hn : n=bytes.length) :
    readBytes (writeBytes b dest bytes) dest n=bytes := by
  subst hn
  apply List.ext_getElem
  · rw [readBytes,List.length_map,List.length_range]
  · intro i hi hi'
    simp only [readBytes,List.getElem_map,List.getElem_range]
    rw [writeBytes,if_pos ⟨by omega,by omega⟩,Nat.add_sub_cancel_left,
      List.getD_eq_getElem _ _ hi']

theorem readBytes_apart {dest start n : Nat} {bytes : List UInt8}
    (h : start+n ≤ dest ∨ dest+bytes.length ≤ start) :
    readBytes (writeBytes b dest bytes) start n=readBytes b start n := by
  apply List.map_congr_left
  intro i hi
  have := List.mem_range.mp hi
  rw [writeBytes,if_neg (by omega)]

theorem leWord_eq_leValue (offset : Nat) : leWord b offset=leValue (readBytes b offset 2) := rfl

end Windows

theorem le16_get16 {bs : List UInt8} (h : bs.length=2) : le16 (get16 bs 0)=bs := by
  have hlt := leValue_lt bs
  rw [h] at hlt
  have hall : (bs.drop 0).take 2=bs := List.take_of_length_le (Nat.le_of_eq h)
  have hnat : (UInt16.ofNat (leValue bs)).toNat=leValue bs := by
    rw [UInt16.toNat_ofNat']
    exact Nat.mod_eq_of_lt hlt
  rw [get16,hall,le16,hnat,← h]
  exact leBytes_leValue bs

/-- The telegram of a datagram as it is set up, over an interrupt field that stays. -/
def Order.telegram (idx : UInt8) (o : Order) (irpt : UInt16) : Telegram :=
  ⟨o.com,idx,o.adp,o.ado,irpt,datagramData o.com o.data.length o.data,0⟩

theorem datagramData_length (com : UInt8) (data : List UInt8) :
    (datagramData com data.length data).length=data.length := by
  rw [datagramData]
  split_ifs
  · rw [List.length_replicate]
  · rw [List.take_length]

theorem Order.telegram_size (idx : UInt8) (o : Order) (irpt : UInt16) :
    (o.telegram idx irpt).size=12+o.data.length := by
  rw [Telegram.size,Order.telegram,datagramData_length]

/-- A telegram lies at a place in a buffer, with a word for its length. The windows are what the
builder writes at once. -/
structure Placed (b : Buffer) (place : Nat) (t : Telegram) (word : Nat) : Prop where
  address : readBytes b place 6=[t.command,t.index]++le16 t.adp++le16 t.ado
  length : readBytes b (place+6) 2=leBytes 2 word
  content : readBytes b (place+8) (t.data.length+4)=le16 t.irpt++t.data++le16 t.wkc

section Placed

variable {b : Buffer} {place : Nat} {t : Telegram} {word : Nat} {follows : Bool}

theorem Placed.bytes (h : Placed b place t (t.lengthWord follows)) :
    readBytes b place t.size=t.encode follows := by
  have hsize : t.size=6+(2+(t.data.length+4)) := by
    rw [Telegram.size]
    omega
  have hplace : place+6+2=place+8 := by omega
  rw [hsize,readBytes_add,readBytes_add,hplace,h.address,h.length,h.content,Telegram.encode,
    Telegram.header]
  simp only [List.append_assoc]

theorem Placed.apart (h : Placed b place t word) {dest : Nat} {bytes : List UInt8}
    (ha : place+t.size ≤ dest ∨ dest+bytes.length ≤ place) :
    Placed (writeBytes b dest bytes) place t word := by
  rw [Telegram.size] at ha
  refine ⟨?_,?_,?_⟩
  · rw [readBytes_apart b (by omega),h.address]
  · rw [readBytes_apart b (by omega),h.length]
  · rw [readBytes_apart b (by omega),h.content]

theorem Placed.relength (h : Placed b place t word) (word' : Nat) :
    Placed (writeBytes b (place+6) (leBytes 2 word')) place t word' := by
  have htwo : (leBytes 2 word').length=2 := leBytes_length _ _
  refine ⟨?_,?_,?_⟩
  · rw [readBytes_apart b (by omega),h.address]
  · exact readBytes_written b _ _ htwo.symm
  · rw [readBytes_apart b (by omega),h.content]

theorem writeBytes_append (b : Buffer) (dest : Nat) (xs ys : List UInt8) :
    writeBytes b dest (xs++ys)=writeBytes (writeBytes b dest xs) (dest+xs.length) ys := by
  funext i
  simp only [writeBytes,List.length_append]
  by_cases hx : i < dest+xs.length
  · rw [if_neg (by omega : ¬(dest+xs.length ≤ i ∧ i < dest+xs.length+ys.length))]
    by_cases hd : dest ≤ i
    · rw [if_pos ⟨hd,by omega⟩,if_pos ⟨hd,hx⟩,List.getD_append _ _ _ _ (by omega)]
    · rw [if_neg (fun hc => hd hc.1),if_neg (fun hc => hd hc.1)]
  · rw [if_neg (by omega : ¬(dest ≤ i ∧ i < dest+xs.length))]
    by_cases hy : i < dest+xs.length+ys.length
    · rw [if_pos ⟨by omega,by omega⟩,if_pos ⟨by omega,hy⟩,
        List.getD_append_right _ _ _ _ (by omega)]
      congr 1
      omega
    · rw [if_neg (by omega),if_neg (by omega)]

/-- What both builders write for a datagram: its header, its data and a working counter of zero. -/
def writeDatagram (b : Buffer) (place : Nat) (idx : UInt8) (o : Order) (word : Nat) : Buffer :=
  let b := writeBytes b place
    ([o.com,idx]++leBytes 2 o.adp.toNat++leBytes 2 o.ado.toNat++leBytes 2 word)
  let b := writeBytes b (place+10) (datagramData o.com o.data.length o.data)
  writeBytes b (place+10+o.data.length) [0,0]

theorem writeDatagram_placed (b : Buffer) (place : Nat) (idx : UInt8) (o : Order) (word : Nat) :
    ∃ irpt,Placed (writeDatagram b place idx o word) place (o.telegram idx irpt) word := by
  have hdata := datagramData_length o.com o.data
  have hsix : ([o.com,idx]++le16 o.adp++le16 o.ado).length=6 := rfl
  have htwo : (leBytes 2 word).length=2 := leBytes_length _ _
  have hwkc : ([0,0] : List UInt8).length=2 := rfl
  have height : ([o.com,idx]++le16 o.adp++le16 o.ado++leBytes 2 word).length=8 := rfl
  have hirpt : le16 (get16 (readBytes b (place+8) 2) 0)=readBytes b (place+8) 2 := by
    apply le16_get16
    rw [readBytes,List.length_map,List.length_range]
  refine ⟨get16 (readBytes b (place+8) 2) 0,?_,?_,?_⟩
  · change readBytes (writeBytes (writeBytes (writeBytes b place
      (([o.com,idx]++le16 o.adp++le16 o.ado)++leBytes 2 word)) _ _) _ _) place 6=_
    rw [readBytes_apart _ (by omega),readBytes_apart _ (by omega),writeBytes_append,hsix,
      readBytes_apart _ (by omega)]
    exact readBytes_written b place _ hsix.symm
  · change readBytes (writeBytes (writeBytes (writeBytes b place
      (([o.com,idx]++le16 o.adp++le16 o.ado)++leBytes 2 word)) _ _) _ _) (place+6) 2=_
    rw [readBytes_apart _ (by omega),readBytes_apart _ (by omega),writeBytes_append,hsix]
    exact readBytes_written _ _ _ htwo.symm
  · have hsplit : (o.telegram idx (get16 (readBytes b (place+8) 2) 0)).data.length+4=
        2+(o.data.length+2) := by
      rw [Order.telegram,hdata]
      omega
    have hstays : readBytes (writeDatagram b place idx o word) (place+8) 2=
        readBytes b (place+8) 2 := by
      rw [writeDatagram,readBytes_apart _ (by omega),readBytes_apart _ (by omega)]
      exact readBytes_apart _ (.inr (Nat.le_of_eq rfl))
    have hwritten : readBytes (writeDatagram b place idx o word) (place+10) o.data.length=
        datagramData o.com o.data.length o.data := by
      rw [writeDatagram,readBytes_apart _ (by omega)]
      exact readBytes_written _ _ _ hdata.symm
    have hzero : readBytes (writeDatagram b place idx o word) (place+10+o.data.length) 2=[0,0] :=
      readBytes_written _ _ _ hwkc.symm
    have hnone : le16 0=[0,0] := by decide
    rw [hsplit,readBytes_add,readBytes_add,hstays,hwritten,hzero,List.append_assoc,Order.telegram,
      hnone,hirpt]

theorem writeDatagram_front (b : Buffer) {place start n : Nat} (h : start+n ≤ place) (idx : UInt8)
    (o : Order) (word : Nat) :
    readBytes (writeDatagram b place idx o word) start n=readBytes b start n := by
  rw [writeDatagram,readBytes_apart _ (by omega),readBytes_apart _ (by omega),
    readBytes_apart _ (by omega)]

theorem Placed.behind (h : Placed b place t word) {place' : Nat} (hp : place+t.size ≤ place')
    (idx : UInt8) (o : Order) (word' : Nat) :
    Placed (writeDatagram b place' idx o word') place t word := by
  rw [writeDatagram]
  exact ((h.apart (.inl hp)).apart (.inl (by omega))).apart (.inl (by omega))

end Placed

/-- A frame with a first telegram, and the bytes of the others. -/
structure Txframe.Holds (f : Txframe) (t : Telegram) (follows : Bool) (tail : List UInt8) : Prop where
  length : f.length=16+t.size+tail.length
  total : readBytes f.bytes 14 2=leBytes 2 (0x1000+(t.size+tail.length))
  first : Placed f.bytes 16 t (t.lengthWord follows)
  tail : readBytes f.bytes (16+t.size) tail.length=tail

section Builder

variable {f : Txframe} {t : Telegram} {follows : Bool} {tail : List UInt8} {idx : UInt8} {o : Order}

theorem Txframe.Holds.bytes (h : f.Holds t follows tail) :
    readBytes f.bytes 14 (f.length-14)=
      leBytes 2 (0x1000+(t.size+tail.length))++(t.encode follows++tail) := by
  have hsize : f.length-14=2+(t.size+tail.length) := by
    rw [h.length]
    omega
  rw [hsize,readBytes_add,readBytes_add,h.total,h.first.bytes,h.tail]

theorem setupdatagram_holds (idx : UInt8) (o : Order) (frame : Buffer) :
    ∃ irpt,(setupdatagram idx o frame).Holds (o.telegram idx irpt) false [] := by
  have hbytes : (setupdatagram idx o frame).bytes=writeDatagram
      (writeBytes frame 14 (leBytes 2 (0x1000+12+o.data.length))) 16 idx o o.data.length := by
    have hheader := writeBytes_append frame 14 (leBytes 2 (0x1000+12+o.data.length))
      ([o.com,idx]++leBytes 2 o.adp.toNat++leBytes 2 o.ado.toNat++leBytes 2 o.data.length)
    change _=writeBytes _ 16 _ at hheader
    rw [writeDatagram,← hheader]
    rfl
  obtain ⟨irpt,hplaced⟩ := writeDatagram_placed
    (writeBytes frame 14 (leBytes 2 (0x1000+12+o.data.length))) 16 idx o o.data.length
  have hsize := o.telegram_size idx irpt
  have hword : (o.telegram idx irpt).lengthWord false=o.data.length :=
    datagramData_length o.com o.data
  have htwo : (leBytes 2 (0x1000+12+o.data.length)).length=2 := leBytes_length _ _
  refine ⟨irpt,?_,?_,?_,?_⟩
  · rw [hsize]
    exact (by omega : 14+12+2+o.data.length=16+(12+o.data.length)+0)
  · rw [hbytes,writeDatagram,readBytes_apart _ (by omega),readBytes_apart _ (by omega),
      readBytes_apart _ (by omega),readBytes_written _ _ _ htwo.symm,hsize,List.length_nil,Nat.add_assoc]
    rfl
  · rw [hbytes,hword]
    exact hplaced
  · rfl

theorem or_follows {n : Nat} (h : n < 2^11) (follows : Bool) :
    (n+if follows=true then 2^15 else 0) ||| ecDatagramFollows=n+2^15 := by
  have hor : n ||| ecDatagramFollows=n+2^15 := by
    have hadd := Nat.two_pow_add_eq_or_of_lt (by omega : n < 2^15) 1
    rw [Nat.mul_one] at hadd
    rw [ecDatagramFollows,Nat.or_comm,← hadd,Nat.add_comm]
  cases follows
  · exact hor
  · rw [if_pos rfl,← hor,Nat.or_assoc,Nat.or_self]

/-- One more datagram. -/
theorem adddatagram_holds (h : f.Holds t follows tail) (hlong : f.length ≤ ecBufsize)
    (idx : UInt8) (more : Bool) (o : Order) (ho : o.data.length < 2^11) :
    ∃ irpt,(adddatagram idx more o f).2.Holds t true (tail++(o.telegram idx irpt).encode more) ∧
      (adddatagram idx more o f).1=2+(t.size+tail.length+10) := by
  rw [ecBufsize] at hlong
  have hlength := h.length
  have hprev : shorten f.length=f.length := Nat.mod_eq_of_lt (by omega)
  have hshort : t.data.length < 2^11 := by
    rw [Telegram.size] at hlength
    omega
  have htotal : leWord f.bytes 14=0x1000+(t.size+tail.length) := by
    rw [leWord_eq_leValue,h.total]
    exact leValue_leBytes _ _ (by omega)
  let b1 := writeBytes f.bytes 14 (leBytes 2 (0x1000+(t.size+tail.length)+12+o.data.length))
  let b2 := writeBytes b1 22 (leBytes 2 (t.lengthWord true))
  have htwo : ∀ n,(leBytes 2 n).length=2 := leBytes_length 2
  have hfirst1 : Placed b1 16 t (t.lengthWord follows) := h.first.apart (.inr (by rw [htwo]))
  have hfirst2 : Placed b2 16 t (t.lengthWord true) := hfirst1.relength _
  have hword : leWord b1 22 ||| ecDatagramFollows=t.lengthWord true := by
    have hread : leWord b1 22=t.lengthWord follows := by
      rw [leWord_eq_leValue]
      have hwindow : readBytes b1 22 2=leBytes 2 (t.lengthWord follows) := hfirst1.length
      rw [hwindow]
      exact leValue_leBytes _ _ (t.lengthWord_lt hshort follows)
    rw [hread,Telegram.lengthWord,or_follows hshort]
    rfl
  have hdata : ∀ irpt,(o.telegram idx irpt).data.length=o.data.length :=
    fun _ => datagramData_length o.com o.data
  have hmore : (if more=true then o.data.length ||| ecDatagramFollows else o.data.length)=
      (o.telegram idx 0).lengthWord more := by
    rw [Telegram.lengthWord,hdata]
    cases more
    · rfl
    · exact or_follows ho false
  have hbytes : (adddatagram idx more o f).2.bytes=
      writeDatagram b2 f.length idx o ((o.telegram idx 0).lengthWord more) := by
    rw [adddatagram]
    simp only [hprev]
    change writeDatagram (writeBytes (writeBytes f.bytes 14
      (leBytes 2 (leWord f.bytes 14+12+o.data.length))) 22 (leBytes 2 (leWord (writeBytes f.bytes 14
      (leBytes 2 (leWord f.bytes 14+12+o.data.length))) 22 ||| ecDatagramFollows))) f.length idx o
      (if more=true then o.data.length ||| ecDatagramFollows else o.data.length)=_
    rw [htotal,hword,hmore]
  obtain ⟨irpt,hplaced⟩ := writeDatagram_placed b2 f.length idx o
    ((o.telegram idx 0).lengthWord more)
  have hsize := o.telegram_size idx irpt
  have hsixteen : 16+t.size ≤ f.length := by omega
  have hheader : 28 ≤ 16+t.size := by
    rw [Telegram.size]
    omega
  have hbehind : (tail++(o.telegram idx irpt).encode more).length=
      tail.length+(o.telegram idx irpt).size := by
    rw [List.length_append,Telegram.encode_length]
  refine ⟨irpt,⟨?_,?_,?_,?_⟩,?_⟩
  · rw [hbehind,hsize]
    change shorten f.length+12-2+2+o.data.length=_
    rw [hprev]
    omega
  · rw [hbytes,writeDatagram_front b2 (by omega),readBytes_apart b1 (.inl (by omega)),
      readBytes_written _ _ _ (htwo _).symm,hbehind,hsize]
    congr 1
    omega
  · rw [hbytes]
    exact hfirst2.behind hsixteen idx o _
  · rw [hbytes,hbehind,readBytes_add,writeDatagram_front b2 (by omega),
      readBytes_apart b1 (.inr (by rw [htwo]; omega)),
      readBytes_apart f.bytes (.inr (by rw [htwo]; omega)),h.tail,← hlength]
    exact congrArg _ hplaced.bytes
  · change shorten (shorten f.length+12-2-14)=_
    rw [hprev,shorten]
    omega

end Builder

/-- The bytes of datagrams in a frame. -/
def framed : List Order → Nat
  | [] => 0
  | o::rest => 12+o.data.length+framed rest

/-- A telegram is what was ordered: its command, its address, its length and its data, of which
there is none for a command that reads. Nothing has worked on it. -/
structure Carries (idx : UInt8) (o : Order) (t : Telegram) : Prop where
  command : t.command=o.com
  index : t.index=idx
  adp : t.adp=o.adp
  ado : t.ado=o.ado
  length : t.data.length=o.data.length
  data : t.data=if o.com ∈ readCodes then List.replicate o.data.length 0 else o.data
  wkc : t.wkc=0

theorem telegram_carries (idx : UInt8) (o : Order) (irpt : UInt16) :
    Carries idx o (o.telegram idx irpt) := by
  refine ⟨rfl,rfl,rfl,rfl,datagramData_length o.com o.data,?_,rfl⟩
  rw [Order.telegram,datagramData,List.take_length]

theorem Carries.framed {idx : UInt8} {os : List Order} {ts : List Telegram}
    (h : List.Forall₂ (Carries idx) os ts) : (encodeTelegrams ts).length=framed os := by
  induction h with
  | nil => rfl
  | cons ht _ ih =>
    rw [encodeTelegrams,List.length_append,Telegram.encode_length,Telegram.size,ht.length,ih,
      Nicdrv.framed]

theorem Carries.get {idx : UInt8} {os : List Order} {ts : List Telegram}
    (h : List.Forall₂ (Carries idx) os ts) {i : Nat} {o : Order} (ho : os[i]?=some o) :
    ∃ t,ts[i]?=some t ∧ Carries idx o t := by
  induction h generalizing i with
  | nil => cases ho
  | cons hcarry _ ih =>
    cases i with
    | zero =>
      cases ho
      exact ⟨_,rfl,hcarry⟩
    | succ i => exact ih ho

theorem Carries.isEmpty {idx : UInt8} {os : List Order} {ts : List Telegram}
    (h : List.Forall₂ (Carries idx) os ts) : ts.isEmpty=os.isEmpty := by
  cases h <;> rfl

theorem addAll_holds {t : Telegram} (idx : UInt8) (rest : List Order) :
    ∀ {f : Txframe} {follows : Bool} {tail : List UInt8},f.Holds t follows tail →
      f.length+framed rest ≤ ecBufsize →
      ∃ us,List.Forall₂ (Carries idx) rest us ∧
        (addAll idx rest f).2.Holds t (follows || !rest.isEmpty) (tail++encodeTelegrams us) ∧
        (addAll idx rest f).1.length=rest.length ∧
        ∀ k offset,(addAll idx rest f).1[k]?=some offset →
          offset=2+(t.size+tail.length+dataPlace us k) := by
  induction rest with
  | nil =>
    intro f follows tail h hfits
    refine ⟨[],.nil,?_,rfl,fun k offset hk => ?_⟩
    · rw [List.isEmpty_nil,Bool.not_true,Bool.or_false,encodeTelegrams,List.append_nil]
      exact h
    · cases hk
  | cons o rest ih =>
    intro f follows tail h hfits
    rw [framed] at hfits
    have ho : o.data.length < 2^11 := by
      rw [ecBufsize] at hfits
      omega
    obtain ⟨irpt,hadd,hoffset⟩ := adddatagram_holds h (by omega) idx (!rest.isEmpty) o ho
    have hlength : (adddatagram idx (!rest.isEmpty) o f).2.length=f.length+(12+o.data.length) := by
      rw [hadd.length,h.length,List.length_append,Telegram.encode_length,o.telegram_size]
      omega
    obtain ⟨us,hcarries,hholds,hcount,hoffsets⟩ := ih hadd (by rw [hlength]; omega)
    have hempty := Carries.isEmpty hcarries
    refine ⟨o.telegram idx irpt::us,.cons (telegram_carries idx o irpt) hcarries,?_,?_,?_⟩
    · rw [encodeTelegrams,hempty,← List.append_assoc,List.isEmpty_cons,Bool.not_false,Bool.or_true]
      rw [Bool.true_or] at hholds
      exact hholds
    · exact congrArg Nat.succ hcount
    · intro k offset hk
      cases k with
      | zero =>
        cases hk
        exact hoffset.trans (by rw [dataPlace])
      | succ k =>
        have hlater := hoffsets k offset hk
        rw [List.length_append,Telegram.encode_length] at hlater
        rw [hlater,dataPlace]
        omega

/-- The frame of a list of datagrams is that of their telegrams, and the offsets are the places of
their data in it. -/
theorem buildFrame_holds (idx : UInt8) (first : Order) (rest : List Order) (frame : Buffer)
    (hfits : 16+framed (first::rest) ≤ ecBufsize) :
    ∃ ts,List.Forall₂ (Carries idx) (first::rest) ts ∧
      readBytes (buildFrame idx first rest frame).2.bytes 14
        ((buildFrame idx first rest frame).2.length-14)=frameBytes ts ∧
      (buildFrame idx first rest frame).2.length=16+framed (first::rest) ∧
      (buildFrame idx first rest frame).1.length=rest.length ∧
      ∀ k offset,(buildFrame idx first rest frame).1[k]?=some offset →
        offset=2+dataPlace ts (k+1) := by
  obtain ⟨irpt,hfirst⟩ := setupdatagram_holds idx first frame
  have hsize := first.telegram_size idx irpt
  have hlength := hfirst.length
  rw [List.length_nil,hsize] at hlength
  have hframed : framed (first::rest)=12+first.data.length+framed rest := rfl
  obtain ⟨us,hcarries,hholds,hcount,hoffsets⟩ := addAll_holds idx rest hfirst (by omega)
  have hall : List.Forall₂ (Carries idx) (first::rest) (first.telegram idx irpt::us) :=
    .cons (telegram_carries idx first irpt) hcarries
  have hlen := hholds.length
  rw [List.nil_append,Carries.framed hcarries,hsize] at hlen
  refine ⟨first.telegram idx irpt::us,hall,?_,?_,hcount,?_⟩
  · have hbytes := hholds.bytes
    rw [Bool.false_or,List.nil_append,← Carries.isEmpty hcarries] at hbytes
    refine hbytes.trans ?_
    rw [frameBytes,encodeTelegrams,List.length_append,Telegram.encode_length]
  · rw [hframed]
    exact hlen.trans (Nat.add_assoc ..)
  · intro k offset hk
    have hoffset := hoffsets k offset hk
    rw [List.length_nil,Nat.add_zero] at hoffset
    exact hoffset

end EtherCATMaster.Nicdrv
