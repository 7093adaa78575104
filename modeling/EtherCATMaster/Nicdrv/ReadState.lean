import EtherCATMaster.Nicdrv.StatusReading

namespace EtherCATMaster.Nicdrv

open EtherCATMaster.Framework
open EtherCATMaster.Mapping (ecBufsize ethHeadersize ecHeadersize writeBytes readBytes)

/-- The part of `ec_slavet` that `ecx_readstate` works on. -/
structure StateEntry where
  configadr : UInt16
  state : UInt16
  alStatuscode : UInt16

/-- `EC_STATE_ERROR`, which is also `EC_STATE_ACK`. -/
def ecStateError : UInt16 := 0x10

def sameStates : List UInt16 := [1,2,4,8]

def alStates : List UInt16 := [1,2,3,4,8]

/-- `ecx_BRD` -/
def brd (srconfirm : Port → Nat → Int × Port) (port : Port) (adp ado : UInt16) (data : List UInt8) :
    Int × List UInt8 × Port :=
  let (idx,port) := port.getindex
  let (wkc,port) := srconfirm (port.load idx
    (setupdatagram (UInt8.ofNat idx) ⟨brdCode,adp,ado,data⟩ (port.txbuf idx))) idx
  let data := if 0 < wkc then readBytes (port.stack.rxbuf idx) ecHeadersize data.length else data
  (wkc,data,port.setbufstat idx .empty)

/-- The lowest state so far, and `slavelist`. -/
structure StateRead where
  lowest : UInt16
  slavelist : Nat → StateEntry

def lower (lowest rval : UInt16) : UInt16 :=
  if rval &&& 0xf < lowest then rval &&& 0xf else lowest

def StateRead.store (r : StateRead) (slave : Nat) (sl : AlStatus) : StateRead :=
  let slavelist := Function.update r.slavelist slave
    { r.slavelist slave with state := sl.alstatus, alStatuscode := sl.alstatuscode }
  { lowest := lower r.lowest sl.alstatus
    slavelist := Function.update slavelist 0
      { slavelist 0 with alStatuscode := (slavelist 0).alStatuscode ||| sl.alstatuscode } }

/-- The statuses of a chunk, from the slave `fslave` on. -/
def StateRead.storeChunk (sl : Nat → AlStatus) (fslave : Nat) : Nat → StateRead → StateRead
  | 0,r => r
  | n+1,r => (storeChunk sl fslave n r).store (fslave+n) (sl n)

/-- The last slave of the chunk that begins with `fslave`. -/
def lastSlave (slavecount fslave : Nat) : Nat :=
  if (slavecount : Int)-fslave ≥ maxFprdMulti then fslave+maxFprdMulti-1 else slavecount

theorem lastSlave_gt {slavecount fslave : Nat} (h : lastSlave slavecount fslave < slavecount) :
    fslave ≤ lastSlave slavecount fslave ∧ lastSlave slavecount fslave+1-fslave=maxFprdMulti := by
  rw [lastSlave,maxFprdMulti] at h ⊢
  split_ifs at h ⊢
  · omega
  · omega

/-- The loop of `ecx_readstate` over chunks of slaves. -/
def readChunks (srconfirm : Port → Nat → Int × Port) (slavecount fslave : Nat) (port : Port)
    (r : StateRead) : StateRead × Port :=
  let lslave := lastSlave slavecount fslave
  let n := lslave+1-fslave
  let (_,sl,port) := fprdMulti srconfirm port n (fun i => (r.slavelist (fslave+i)).configadr)
    fun _ => .zero
  let r := r.storeChunk sl fslave n
  if lslave < slavecount then readChunks srconfirm slavecount (lslave+1) port r else (r,port)
  termination_by slavecount+1-fslave
  decreasing_by
    have := (lastSlave_gt ‹_›).1
    omega

/-- One datagram for each slave. -/
def readEach (srconfirm : Port → Nat → Int × Port) (port : Port) (slavecount : Nat)
    (slavelist : Nat → StateEntry) : StateRead × Port :=
  let slavelist := Function.update slavelist 0 { slavelist 0 with alStatuscode := 0 }
  let (r,port) := readChunks srconfirm slavecount 1 port ⟨0xff,slavelist⟩
  (⟨r.lowest,Function.update r.slavelist 0 { r.slavelist 0 with state := r.lowest }⟩,port)

def broadcastEntries (rval : UInt16) (slavelist : Nat → StateEntry) : Nat → StateEntry :=
  let slavelist := if rval &&& ecStateError=0 then
      Function.update slavelist 0 { slavelist 0 with alStatuscode := 0 }
    else slavelist
  if rval &&& 0x0f ∈ sameStates then
    Function.update slavelist 0 { slavelist 0 with state := rval &&& 0x0f }
  else slavelist

/-- `ecx_readstate` -/
def readstate (srconfirm : Port → Nat → Int × Port) (port : Port) (slavecount : Nat)
    (slavelist : Nat → StateEntry) : StateRead × Port :=
  let (wkc,data,port) := brd srconfirm port 0 ectRegAlstat [0,0]
  let rval := get16 data 0
  let bitwisestate := rval &&& 0x0f
  let slavelist := broadcastEntries rval slavelist
  if rval &&& ecStateError=0 ∧ bitwisestate ∈ sameStates ∧ (slavecount : Int) ≤ wkc then
    (⟨bitwisestate,fun slave => if 1 ≤ slave ∧ slave ≤ slavecount then
        { slavelist slave with state := bitwisestate, alStatuscode := 0 }
      else slavelist slave⟩,port)
  else readEach srconfirm port slavecount slavelist

def lowestOf (words : List UInt16) : UInt16 := words.foldl lower 0xff

def LineSlave.word (s : LineSlave) : UInt16 := s.alStatus.alstatus

section Each

variable (slaves : List LineSlave)

/-- The first `k` slaves have been read. -/
structure Done (k : Nat) (r : StateRead) : Prop where
  configadr : ∀ i s,slaves[i]?=some s → (r.slavelist (i+1)).configadr=s.configadr
  state : ∀ i < k,∀ s,slaves[i]?=some s → (r.slavelist (i+1)).state=s.word
  lowest : r.lowest=lowestOf ((slaves.take k).map LineSlave.word)

variable {slaves} {k : Nat} {r : StateRead}

theorem Done.store (h : Done slaves k r) {s : LineSlave} (hs : slaves[k]?=some s) :
    Done slaves (k+1) (r.store (k+1) s.alStatus) := by
  have hslave : ∀ i,(r.store (k+1) s.alStatus).slavelist (i+1)=
      if i=k then ⟨(r.slavelist (k+1)).configadr,s.word,s.alStatus.alstatuscode⟩
      else r.slavelist (i+1) := by
    intro i
    rw [StateRead.store]
    simp only [Function.update_of_ne (Nat.succ_ne_zero i)]
    split_ifs with hi
    · rw [hi,Function.update_self]
      rfl
    · exact Function.update_of_ne (by omega) ..
  refine ⟨fun i s' hs' => ?_,fun i hi s' hs' => ?_,?_⟩
  · have hadr := h.configadr i s' hs'
    rw [hslave]
    split_ifs with hik
    · rw [hik] at hadr
      exact hadr
    · exact hadr
  · rw [hslave]
    split_ifs with hik
    · rw [hik,hs] at hs'
      cases hs'
      rfl
    · exact h.state i (by omega) s' hs'
  · rw [List.take_add_one,hs,Option.toList_some,List.map_append,lowestOf,List.foldl_append]
    change lower r.lowest s.word=_
    rw [h.lowest]
    rfl

theorem Done.storeChunk (h : Done slaves k r) (sl : Nat → AlStatus) (n : Nat)
    (hn : k+n ≤ slaves.length)
    (hsl : ∀ j < n,∀ s,slaves[k+j]?=some s → sl j=s.alStatus) :
    Done slaves (k+n) (r.storeChunk sl (k+1) n) := by
  induction n with
  | zero => exact h
  | succ n ih =>
    have hprev := ih (by omega) fun j hj => hsl j (by omega)
    have hlt : k+n < slaves.length := by omega
    have hget := List.getElem?_eq_getElem hlt
    have hstored := hprev.store hget
    rw [← hsl n (by omega) _ hget] at hstored
    rw [StateRead.storeChunk,show k+1+n=k+n+1 by omega]
    exact hstored

theorem lastSlave_le {slavecount fslave : Nat} (h : fslave ≤ slavecount+1) :
    fslave ≤ lastSlave slavecount fslave+1 ∧ lastSlave slavecount fslave ≤ slavecount ∧
      lastSlave slavecount fslave+1-fslave ≤ maxFprdMulti := by
  rw [lastSlave,maxFprdMulti]
  split_ifs
  · omega
  · omega

theorem Done.chunk (hnodup : (slaves.map LineSlave.configadr).Nodup) {fslave : Nat} (port : Port)
    (hpos : 1 ≤ fslave) (hle : fslave ≤ slaves.length+1) (h : Done slaves (fslave-1) r) :
    Done slaves (lastSlave slaves.length fslave)
      (r.storeChunk (fprdMulti (lossless slaves) port (lastSlave slaves.length fslave+1-fslave)
        (fun i => (r.slavelist (fslave+i)).configadr) fun _ => .zero).2.1 fslave
        (lastSlave slaves.length fslave+1-fslave)) := by
  obtain ⟨hfrom,hto,hmax⟩ := lastSlave_le hle
  have hsum : fslave-1+(lastSlave slaves.length fslave+1-fslave)=lastSlave slaves.length fslave := by
    omega
  have hnext : fslave-1+1=fslave := Nat.sub_add_cancel hpos
  have hstored := h.storeChunk (fprdMulti (lossless slaves) port
    (lastSlave slaves.length fslave+1-fslave) (fun i => (r.slavelist (fslave+i)).configadr)
    fun _ => .zero).2.1 (lastSlave slaves.length fslave+1-fslave) (by omega) (by
      intro j hj s hs
      have hadr := h.configadr _ s hs
      rw [show fslave-1+j+1=fslave+j by omega] at hadr
      exact fprdMulti_own hnodup port (by omega) hmax _ _ hj (List.mem_of_getElem? hs) hadr)
  rw [hsum,hnext] at hstored
  exact hstored

theorem Done.readChunks (hnodup : (slaves.map LineSlave.configadr).Nodup) :
    ∀ (fslave : Nat) (port : Port) (r : StateRead),1 ≤ fslave → fslave ≤ slaves.length+1 →
      Done slaves (fslave-1) r →
      Done slaves slaves.length (readChunks (lossless slaves) slaves.length fslave port r).1 := by
  intro fslave port r
  induction fslave,port,r using Nicdrv.readChunks.induct (lossless slaves) slaves.length with
  | case1 fslave port r lslave n wkc sl port' hmulti r' hmore ih =>
    intro hpos hle h
    have hchunk := h.chunk hnodup port hpos hle
    simp only [n,lslave] at hmulti
    rw [hmulti] at hchunk
    rw [Nicdrv.readChunks]
    simp only [hmulti]
    rw [if_pos hmore]
    exact ih (by omega) (by omega) hchunk
  | case2 fslave port r lslave n wkc sl port' hmulti hlast =>
    intro hpos hle h
    have hchunk := h.chunk hnodup port hpos hle
    have hend : lslave=slaves.length := by
      have := (lastSlave_le hle).2.1
      omega
    simp only [n,lslave] at hmulti
    rw [hmulti] at hchunk
    rw [Nicdrv.readChunks]
    simp only [hmulti]
    rw [if_neg hlast]
    exact Eq.subst (motive := fun k => Done slaves k _) hend hchunk

theorem readEach_spec (hnodup : (slaves.map LineSlave.configadr).Nodup) (port : Port)
    (slavelist : Nat → StateEntry)
    (hadr : ∀ i s,slaves[i]?=some s → (slavelist (i+1)).configadr=s.configadr) :
    (∀ i s,slaves[i]?=some s →
      ((readEach (lossless slaves) port slaves.length slavelist).1.slavelist (i+1)).state=s.word) ∧
    (readEach (lossless slaves) port slaves.length slavelist).1.lowest=
      lowestOf (slaves.map LineSlave.word) := by
  have hstart : Done slaves 0
      ⟨0xff,Function.update slavelist 0 { slavelist 0 with alStatuscode := 0 }⟩ := by
    refine ⟨fun i s hs => ?_,fun i hi => absurd hi (Nat.not_lt_zero i),rfl⟩
    simp only [Function.update_of_ne (Nat.succ_ne_zero i)]
    exact hadr i s hs
  have hdone := Done.readChunks hnodup 1 port _ (Nat.le_refl 1) (by omega) hstart
  constructor
  · intro i s hs
    have hlt := (List.getElem?_eq_some_iff.mp hs).1
    rw [readEach]
    simp only [Function.update_of_ne (Nat.succ_ne_zero i)]
    exact hdone.state i hlt s hs
  · have hlowest := hdone.lowest
    rw [List.take_length] at hlowest
    exact hlowest

end Each

/-- The words of valid states, with and without the error flag. -/
def validStatuses : List UInt16 := alStates++alStates.map (· ||| ecStateError)

def orOf (words : List UInt16) : UInt16 := words.foldl (· ||| ·) 0

section Broadcast

theorem foldl_or_start (words : List UInt16) (x : UInt16) :
    words.foldl (· ||| ·) x=x ||| orOf words := by
  rw [orOf]
  induction words generalizing x with
  | nil => exact UInt16.or_zero.symm
  | cons w rest ih => rw [List.foldl_cons,List.foldl_cons,ih (x ||| w),ih (0 ||| w),UInt16.zero_or,
      UInt16.or_assoc]

theorem orOf_cons (w : UInt16) (rest : List UInt16) : orOf (w::rest)=w ||| orOf rest := by
  rw [orOf,List.foldl_cons,foldl_or_start,UInt16.zero_or]

theorem orOf_mem {words : List UInt16} {w : UInt16} (h : w ∈ words) : w ||| orOf words=orOf words := by
  induction words with
  | nil => cases h
  | cons x rest ih =>
    rw [orOf_cons]
    rcases List.mem_cons.mp h with rfl|hin
    · rw [← UInt16.or_assoc,UInt16.or_self]
    · rw [← UInt16.or_assoc,UInt16.or_comm w x,UInt16.or_assoc,ih hin]

theorem and_or_absorb (a b : UInt16) : a &&& (a ||| b)=a := by
  apply UInt16.toBitVec_inj.mp
  rw [UInt16.toBitVec_and,UInt16.toBitVec_or]
  ext i hi
  rw [BitVec.getElem_and,BitVec.getElem_or]
  cases a.toBitVec[i] <;> rfl

theorem and_or_split (a b c : UInt16) : a &&& (b ||| c)=(a &&& b) ||| (a &&& c) :=
  UInt16.toBitVec_inj.mp BitVec.and_or_distrib_left

theorem forall_mem_of_all {words : List UInt16} {p : UInt16 → Prop} [DecidablePred p]
    (h : (words.all fun w => decide (p w))=true) : ∀ w ∈ words,p w :=
  fun w hw => of_decide_eq_true (List.all_eq_true.mp h w hw)

theorem word_of_or {words : List UInt16} (hvalid : ∀ w ∈ words,w ∈ validStatuses)
    (herror : orOf words &&& ecStateError=0) (hsame : orOf words &&& 0xf ∈ sameStates) :
    ∀ w ∈ words,w=orOf words &&& 0xf := by
  intro w hw
  have hstates : ∀ w ∈ validStatuses,∀ b ∈ sameStates,w &&& b=w → w=b := by
    have hall : (validStatuses.all fun w => sameStates.all fun b =>
        decide (w &&& b=w → w=b))=true := by decide
    intro w hw b hb
    exact of_decide_eq_true (List.all_eq_true.mp (List.all_eq_true.mp hall w hw) b hb)
  have hmask : ∀ w ∈ validStatuses,w &&& (0xf ||| ecStateError)=w :=
    forall_mem_of_all (by decide)
  have hpart : w &&& orOf words=w := by
    have habsorb := and_or_absorb w (orOf words)
    rw [orOf_mem hw] at habsorb
    exact habsorb
  apply hstates w (hvalid w hw) _ hsame
  calc w &&& (orOf words &&& 0xf)
      = w &&& (orOf words &&& (0xf ||| ecStateError)) := by
        rw [and_or_split (orOf words),herror,UInt16.or_zero]
    _ = (w &&& orOf words) &&& (0xf ||| ecStateError) := (UInt16.and_assoc ..).symm
    _ = w := by rw [hpart,hmask w (hvalid w hw)]

theorem lowestOf_same {words : List UInt16} {b : UInt16} (hb : b ∈ sameStates) (hne : words≠[])
    (h : ∀ w ∈ words,w=b) : lowestOf words=b := by
  have hstart : ∀ b ∈ sameStates,lower 0xff b=b := forall_mem_of_all (by decide)
  have hstay : ∀ b ∈ sameStates,lower b b=b := forall_mem_of_all (by decide)
  have hrest : ∀ words : List UInt16,(∀ w ∈ words,w=b) → words.foldl lower b=b := by
    intro words h
    induction words with
    | nil => rfl
    | cons w rest ih =>
      rw [List.foldl_cons,h w List.mem_cons_self,hstay b hb]
      exact ih fun x hx => h x (List.mem_cons_of_mem _ hx)
  cases words with
  | nil => exact absurd rfl hne
  | cons w rest =>
    rw [lowestOf,List.foldl_cons,h w List.mem_cons_self,hstart b hb]
    exact hrest rest fun x hx => h x (List.mem_cons_of_mem _ hx)

theorem get16_or {xs ys : List UInt8} (hx : xs.length=2) (hy : ys.length=2) :
    get16 (List.zipWith (· ||| ·) xs ys) 0=get16 xs 0 ||| get16 ys 0 := by
  match xs,ys,hx,hy with
  | [a,b],[c,d],_,_ =>
    have hword : ∀ x y : UInt8,leValue [x,y]=2^8*y.toNat ||| x.toNat := by
      intro x y
      rw [← Nat.two_pow_add_eq_or_of_lt x.toNat_lt]
      simp only [leValue]
      omega
    have hhigh : 2^8*(b.toNat ||| d.toNat)=2^8*b.toNat ||| 2^8*d.toNat := by
      have hshift := Nat.shiftLeft_or_distrib (i := 8) (a := b.toNat) (b := d.toNat)
      simp only [Nat.shiftLeft_eq] at hshift
      rw [Nat.mul_comm,hshift,Nat.mul_comm (2^8),Nat.mul_comm (2^8)]
    change UInt16.ofNat (leValue [a ||| c,b ||| d])=UInt16.ofNat (leValue [a,b]) |||
      UInt16.ofNat (leValue [c,d])
    rw [← UInt16.ofNat_or,hword,hword,hword,UInt8.toNat_or,UInt8.toNat_or,hhigh]
    congr 1
    ac_rfl

theorem pass_broadcast (slaves : List LineSlave) (t : Telegram) (hc : t.command=brdCode)
    (ha : t.ado=ectRegAlstat) (hd : t.data.length=2) :
    (pass slaves t).data.length=2 ∧
    get16 (pass slaves t).data 0=get16 t.data 0 ||| orOf (slaves.map LineSlave.word) ∧
    (pass slaves t).wkc=t.wkc+UInt16.ofNat slaves.length := by
  induction slaves generalizing t with
  | nil => exact ⟨hd,UInt16.or_zero.symm,(UInt16.add_zero _).symm⟩
  | cons s rest ih =>
    have hwork : s.work t={ t with
        adp := t.adp+1
        data := List.zipWith (· ||| ·) t.data (s.read t.ado t.data.length)
        wkc := t.wkc+1 } := by
      rw [LineSlave.work,if_neg (by rw [hc]; decide),if_pos hc]
    have hlength := s.work_length t
    rw [hd] at hlength
    obtain ⟨hdata,hword,hwkc⟩ := ih (s.work t) (by rw [hwork]; exact hc) (by rw [hwork]; exact ha)
      hlength
    have hown : get16 (s.work t).data 0=get16 t.data 0 ||| s.word := by
      rw [hwork,ha,hd]
      exact get16_or hd rfl
    refine ⟨hdata,hword.trans ?_,hwkc.trans ?_⟩
    · rw [hown,List.map_cons,orOf_cons,UInt16.or_assoc]
    · rw [hwork,List.length_cons,UInt16.ofNat_add,UInt16.add_assoc,UInt16.add_comm 1]
      rfl

theorem bufferWkc_single (b : Buffer) {u : Telegram} (h : u.Short) :
    bufferWkc (writeBytes b 0 (frameBytes [u]))=u.wkc.toNat := by
  have hframe : frameBytes [u]=
      leBytes 2 (0x1000+u.size)++((u.header false++u.data)++le16 u.wkc) := by
    rw [frameBytes,encodeTelegrams,encodeTelegrams,List.append_nil,Telegram.encode_length,
      Telegram.encode,List.append_assoc]
    rfl
  have hsize : u.size=12+u.data.length := rfl
  rw [Telegram.Short] at h
  have hlength : (frameBytes [u]).length=2+u.size := by
    rw [hframe]
    simp only [List.length_append,leBytes_length,le16_length,Telegram.header_length]
    omega
  have htotal : leWord (writeBytes b 0 (frameBytes [u])) 0=0x1000+u.size := by
    rw [leWord_eq_leValue,readBytes_part b (by omega),List.drop_zero,hframe,
      List.take_left' (leBytes_length _ _)]
    exact leValue_leBytes _ _ (by omega)
  have hplace : (0x1000+u.size)%0x1000=2+(10+u.data.length) := by omega
  have hfront : (u.header false++u.data).length=10+u.data.length := by
    rw [List.length_append,Telegram.header_length]
  have hback : leWord (writeBytes b 0 (frameBytes [u])) (2+(10+u.data.length))=u.wkc.toNat := by
    rw [leWord_eq_leValue,readBytes_part b (by omega),hframe,← List.drop_drop,
      List.drop_left' (leBytes_length _ _),List.drop_left' hfront]
    exact leValue_leBytes 2 u.wkc.toNat u.wkc.toNat_lt
  rw [bufferWkc,htotal,hplace,hback]

/-- What the broadcast brings: the number of slaves, and their words together. -/
theorem brd_spec {slaves : List LineSlave} (hcount : slaves.length < 2^16) (port : Port) :
    (brd (lossless slaves) port 0 ectRegAlstat [0,0]).1=slaves.length ∧
    get16 (brd (lossless slaves) port 0 ectRegAlstat [0,0]).2.1 0=
      orOf (slaves.map LineSlave.word) := by
  let idx := port.getindex.1
  let o : Order := ⟨brdCode,0,ectRegAlstat,[0,0]⟩
  let frame := setupdatagram (UInt8.ofNat idx) o (port.getindex.2.txbuf idx)
  let loaded := port.getindex.2.load idx frame
  obtain ⟨irpt,hholds⟩ := setupdatagram_holds (UInt8.ofNat idx) o (port.getindex.2.txbuf idx)
  let t := o.telegram (UInt8.ofNat idx) irpt
  have hloaded : readBytes (loaded.txbuf idx) 14 (loaded.txbuflength idx-14)=frameBytes [t] := by
    have htx : loaded.txbuf idx=frame.bytes := Function.update_self ..
    have hlength : loaded.txbuflength idx=frame.length := Function.update_self ..
    rw [htx,hlength]
    exact hholds.bytes
  have htwo : t.data.length=2 := datagramData_length o.com o.data
  have hshort : (encodeTelegrams [t]).length < 2^11 := by
    rw [encodeTelegrams,encodeTelegrams,List.append_nil,Telegram.encode_length,Telegram.size,htwo]
    decide
  have hback := returned_built slaves (List.cons_ne_nil t []) hshort hloaded
  obtain ⟨hdata,hword,hwkc⟩ := pass_broadcast slaves t rfl rfl htwo
  have hrx : (lossless slaves loaded idx).2.stack.rxbuf idx=
      writeBytes (loaded.stack.rxbuf idx) 0 (frameBytes [pass slaves t]) := by
    rw [← List.map_singleton,← hback]
    exact Function.update_self ..
  have hcounter : (lossless slaves loaded idx).1=slaves.length := by
    have hvalue : (lossless slaves loaded idx).1=
        bufferWkc (writeBytes (loaded.stack.rxbuf idx) 0 (returned slaves (loaded.frame idx))) := rfl
    have hnone : t.wkc=0 := rfl
    rw [hvalue,hback,List.map_singleton,bufferWkc_single _ (by rw [Telegram.Short,hdata]; decide),
      hwkc,hnone,UInt16.zero_add,UInt16.toNat_ofNat',Nat.mod_eq_of_lt hcount]
  refine ⟨hcounter,?_⟩
  change get16 (if 0 < (lossless slaves loaded idx).1 then
    readBytes ((lossless slaves loaded idx).2.stack.rxbuf idx) 12 2 else [0,0]) 0=_
  rw [hcounter]
  cases slaves with
  | nil =>
    rw [if_neg (by decide)]
    rfl
  | cons s rest =>
    have hreceived := received_data (loaded.stack.rxbuf idx)
      (show [pass (s::rest) t][0]?=some (pass (s::rest) t) from rfl) (by
        intro hnil
        rw [hnil] at hdata
        cases hdata)
    rw [hdata] at hreceived
    have hzero : get16 t.data 0=0 := rfl
    rw [hzero,UInt16.zero_or] at hword
    rw [if_pos (by rw [List.length_cons]; omega),hrx]
    exact (congrArg (get16 · 0) hreceived).trans hword

end Broadcast

/-- The broadcast is enough, or there is one datagram for each slave. Entry 0 apart, nothing has
changed before. -/
theorem readstate_cases {slaves : List LineSlave} (hcount : slaves.length < 2^16) (port : Port)
    (slavelist : Nat → StateEntry) :
    ∃ rval,rval=orOf (slaves.map LineSlave.word) ∧
    ∃ (entries : Nat → StateEntry) (port1 : Port),(∀ i,entries (i+1)=slavelist (i+1)) ∧
      readstate (lossless slaves) port slaves.length slavelist=
        if rval &&& ecStateError=0 ∧ rval &&& 0xf ∈ sameStates then
          (⟨rval &&& 0xf,fun slave => if 1 ≤ slave ∧ slave ≤ slaves.length then
              { entries slave with state := rval &&& 0xf, alStatuscode := 0 }
            else entries slave⟩,port1)
        else readEach (lossless slaves) port1 slaves.length entries := by
  obtain ⟨hwkc,hword⟩ := brd_spec hcount port
  refine ⟨_,rfl,broadcastEntries (orOf (slaves.map LineSlave.word)) slavelist,
    (brd (lossless slaves) port 0 ectRegAlstat [0,0]).2.2,fun i => ?_,?_⟩
  · rw [broadcastEntries]
    split_ifs
    all_goals simp only [Function.update_of_ne (Nat.succ_ne_zero i)]
  · rw [readstate]
    simp only [hwkc,hword,Int.le_refl,and_true]

/-- The states and the lowest of them are the same with the broadcast as with one datagram for each
slave. -/
theorem readstate_agrees {slaves : List LineSlave} (hnodup : (slaves.map LineSlave.configadr).Nodup)
    (hcount : slaves.length < 2^16) (slavelist : Nat → StateEntry)
    (hadr : ∀ i s,slaves[i]?=some s → (slavelist (i+1)).configadr=s.configadr)
    (hvalid : ∀ s ∈ slaves,s.word ∈ validStatuses) (port port' : Port) :
    (readstate (lossless slaves) port slaves.length slavelist).1.lowest=
      (readEach (lossless slaves) port' slaves.length slavelist).1.lowest ∧
    ∀ i,1 ≤ i → i ≤ slaves.length →
      ((readstate (lossless slaves) port slaves.length slavelist).1.slavelist i).state=
        ((readEach (lossless slaves) port' slaves.length slavelist).1.slavelist i).state := by
  obtain ⟨heach,hlowest⟩ := readEach_spec hnodup port' slavelist hadr
  obtain ⟨rval,hrval,entries,port1,hentries,hread⟩ := readstate_cases hcount port slavelist
  have hslave : ∀ i,1 ≤ i → i ≤ slaves.length → ∃ k s,i=k+1 ∧ slaves[k]?=some s := by
    intro i hpos hle
    have hlt : i-1 < slaves.length := by omega
    exact ⟨i-1,_,(Nat.sub_add_cancel hpos).symm,List.getElem?_eq_getElem hlt⟩
  rw [hread,hlowest]
  split_ifs with hfast
  · obtain ⟨herror,hsame⟩ := hfast
    have hwords : ∀ w ∈ slaves.map LineSlave.word,w=rval &&& 0xf := by
      rw [hrval] at herror hsame ⊢
      refine word_of_or (fun w hw => ?_) herror hsame
      obtain ⟨s,hs,rfl⟩ := List.mem_map.mp hw
      exact hvalid s hs
    have hne : slaves.map LineSlave.word≠[] := by
      intro hnil
      rw [hrval,hnil] at hsame
      exact absurd hsame (by decide)
    refine ⟨(lowestOf_same hsame hne hwords).symm,fun i hpos hle => ?_⟩
    obtain ⟨k,s,rfl,hs⟩ := hslave i hpos hle
    rw [heach k s hs,hwords s.word (List.mem_map_of_mem (List.mem_of_getElem? hs))]
    simp only [hpos,hle,and_self,if_true]
  · obtain ⟨heach',hlowest'⟩ := readEach_spec hnodup port1 entries (by
      intro i s hs
      rw [hentries]
      exact hadr i s hs)
    refine ⟨hlowest',fun i hpos hle => ?_⟩
    obtain ⟨k,s,rfl,hs⟩ := hslave i hpos hle
    rw [heach k s hs,heach' k s hs]

/-- Two slaves have reached PRE_OP. -/
def bothPreOp : List LineSlave := [slaveIn 0x1001 2,slaveIn 0x1002 2]

def bothEntries (i : Nat) : StateEntry := ⟨UInt16.ofNat (0x1000+i),0,0⟩

theorem pre_op_agrees :
    (readstate (lossless bothPreOp) quietPort bothPreOp.length bothEntries).1.lowest=
      (readEach (lossless bothPreOp) quietPort bothPreOp.length bothEntries).1.lowest ∧
    ∀ i,1 ≤ i → i ≤ bothPreOp.length →
      ((readstate (lossless bothPreOp) quietPort bothPreOp.length bothEntries).1.slavelist i).state=
        ((readEach (lossless bothPreOp) quietPort bothPreOp.length bothEntries).1.slavelist
          i).state := by
  have hnodup : (bothPreOp.map LineSlave.configadr).Nodup := by decide
  have hvalid : ∀ s ∈ bothPreOp,s.word ∈ validStatuses := by decide
  refine readstate_agrees hnodup (by decide) bothEntries (fun i s hs => ?_) hvalid quietPort quietPort
  match i,hs with
  | 0,hs => cases hs; rfl
  | 1,hs => cases hs; rfl
  | _+2,hs => cases hs

end EtherCATMaster.Nicdrv
