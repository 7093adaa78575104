import EtherCATMaster.Nicdrv.Indices
import EtherCATMaster.Nicdrv.Redundancy
import EtherCATMaster.Mapping.Losses

namespace EtherCATMaster.Nicdrv

open EtherCATMaster.Framework
open EtherCATMaster.Mapping (ecMaxBuf ecNoFrame ecBufsize ethHeadersize ecHeadersize ecMaxLrwData
  writeBytes readBytes setupDatagram addDatagram shorten Datagram readBytes_length)

section Filling

variable {c : Context}

theorem writeBytes_below (b : Buffer) {dest i : Nat} (bytes : List UInt8) (h : i < dest) :
    writeBytes b dest bytes i=b i := by
  rw [writeBytes,if_neg (by omega)]

theorem setupFrame_get (b : Buffer) (com idx : UInt8) (adp ado length : Nat) (data : List UInt8)
    {i : Nat} (hi : i ≤ indexOffset) :
    setupFrame b com idx adp ado length data i=
      if i=14 then UInt8.ofNat (ecEcatType+ecHeadersize+length)
      else if i=15 then UInt8.ofNat ((ecEcatType+ecHeadersize+length)/256)
      else if i=16 then com else if i=17 then idx else b i := by
  have heth : ethHeadersize=14 := rfl
  have hec : ecHeadersize=12 := rfl
  rw [indexOffset] at hi
  rw [setupFrame,writeBytes_below _ _ (by omega),writeBytes_below _ _ (by omega),writeBytes]
  by_cases h : i < 14
  · rw [if_neg (by omega),if_neg (by omega),if_neg (by omega),if_neg (by omega),if_neg (by omega)]
  · rw [if_pos ⟨by omega,by rw [heth]; simp; omega⟩]
    have hcases : i=14 ∨ i=15 ∨ i=16 ∨ i=17 := by omega
    rcases hcases with rfl|rfl|rfl|rfl <;> rfl

theorem addToFrame_get (b : Buffer) {prevlength : Nat} (com idx : UInt8) (adp ado length : Nat)
    (data : List UInt8) {i : Nat} (hp : 28 ≤ prevlength) (hi : i ≤ indexOffset)
    (h14 : i≠14) (h15 : i≠15) :
    addToFrame b prevlength com idx adp ado length data i=b i := by
  have heth : ethHeadersize=14 := rfl
  rw [indexOffset] at hi
  rw [addToFrame,writeBytes_below _ _ (by omega),writeBytes_below _ _ (by omega),
    writeBytes_below _ _ (by omega),writeBytes_below _ _ (by omega),writeBytes,if_neg]
  rw [leBytes_length]
  omega

theorem leBytes_two (n : Nat) (h : n < 2^16) :
    (UInt8.ofNat n).toNat+256*(UInt8.ofNat (n/256)).toNat=n := by
  rw [UInt8.toNat_ofNat',UInt8.toNat_ofNat']
  omega

/-- A filled transmit buffer: the ethernet header is left alone. -/
structure Filled (before after : Buffer) (idx : Nat) (d : Datagram) : Prop where
  etype : netWord after etypeOffset=netWord before etypeOffset
  command : after commandOffset=commandCode d.command
  index : after indexOffset=UInt8.ofNat idx
  elength : d.dc=false → leWord after ethHeadersize%0x1000=ecHeadersize+d.length

theorem setupFrame_filled (b : Buffer) (adp ado idx : Nat) (d : Datagram) (data : List UInt8)
    (hlen : d.length ≤ ecMaxLrwData) :
    Filled b (setupFrame b (commandCode d.command) (UInt8.ofNat idx) adp ado d.length data) idx
      d := by
  have hmax : ecMaxLrwData=1486 := rfl
  have hec : ecHeadersize=12 := rfl
  have htype : ecEcatType=0x1000 := rfl
  refine ⟨netWord_congr ?_ ?_,?_,?_,fun _ => ?_⟩
  · exact setupFrame_get b _ _ adp ado d.length data (by decide)
  · exact setupFrame_get b _ _ adp ado d.length data (by decide)
  · exact setupFrame_get b _ _ adp ado d.length data (by decide)
  · exact setupFrame_get b _ _ adp ado d.length data (by decide)
  · have h14 := setupFrame_get b (commandCode d.command) (UInt8.ofNat idx) adp ado d.length data
      (i := 14) (by decide)
    have h15 := setupFrame_get b (commandCode d.command) (UInt8.ofNat idx) adp ado d.length data
      (i := 15) (by decide)
    rw [if_pos rfl] at h14
    rw [if_neg (by decide),if_pos rfl] at h15
    change ((setupFrame b _ _ adp ado d.length data 14).toNat+
      256*(setupFrame b _ _ adp ado d.length data 15).toNat)%0x1000=_
    rw [h14,h15,leBytes_two _ (by omega),htype]
    omega

theorem Filled.add {before after : Buffer} {idx prevlength : Nat} {d : Datagram}
    (h : Filled before after idx d) (hp : 28 ≤ prevlength) (hdc : d.dc=true) (com i : UInt8)
    (adp ado length : Nat) (data : List UInt8) :
    Filled before (addToFrame after prevlength com i adp ado length data) idx d := by
  have hget : ∀ j,j ≤ indexOffset → j≠14 → j≠15 →
      addToFrame after prevlength com i adp ado length data j=after j :=
    fun j hj h14 h15 => addToFrame_get after com i adp ado length data hp hj h14 h15
  refine ⟨(netWord_congr ?_ ?_).trans h.etype,?_,?_,fun hno => ?_⟩
  · exact hget _ (by decide) (by decide) (by decide)
  · exact hget _ (by decide) (by decide) (by decide)
  · exact (hget _ (by decide) (by decide) (by decide)).trans h.command
  · exact (hget _ (by decide) (by decide) (by decide)).trans h.index
  · rw [hdc] at hno
    cases hno

def dcOffset (d : Datagram) : Nat := if d.dc=true then d.length+24 else 0

theorem fillFrame_filled (configadr idx : Nat) (d : Datagram) (hlen : d.length ≤ ecMaxLrwData) :
    Filled (c.port.txbuf idx) ((c.fillFrame configadr idx d).1.txbuf idx) idx d ∧
      (c.fillFrame configadr idx d).1.txbuflength idx=d.txbuflength ∧
      (c.fillFrame configadr idx d).2=dcOffset d := by
  have hmax : ecMaxLrwData=1486 := rfl
  have hset : setupDatagram d.length=28+d.length := rfl
  have hshort : shorten (setupDatagram d.length)=28+d.length := by
    rw [hset,shorten]
    omega
  have hfilled := setupFrame_filled (c.port.txbuf idx) (d.logAdr%2^16) (d.logAdr/2^16%2^16) idx d
    (readBytes c.iomap d.data d.length) hlen
  rw [Context.fillFrame,Datagram.txbuflength,dcOffset]
  by_cases hdc : d.dc=true
  · rw [if_pos hdc,if_pos hdc,if_pos hdc]
    simp only [Function.update_self]
    refine ⟨hfilled.add (by rw [hshort]; omega) hdc _ _ _ _ _ _,trivial,?_⟩
    have heth : ethHeadersize=14 := rfl
    rw [hshort,heth,shorten]
    omega
  · rw [if_neg hdc,if_neg hdc,if_neg hdc]
    simp only [Function.update_self]
    exact ⟨hfilled,trivial,trivial⟩

theorem fillFrame_other (configadr idx : Nat) (d : Datagram) {j : Nat} (hj : j≠idx) :
    (c.fillFrame configadr idx d).1.txbuf j=c.port.txbuf j ∧
      (c.fillFrame configadr idx d).1.txbuflength j=c.port.txbuflength j := by
  rw [Context.fillFrame]
  split_ifs
  · exact ⟨Function.update_of_ne hj _ _,Function.update_of_ne hj _ _⟩
  · exact ⟨Function.update_of_ne hj _ _,Function.update_of_ne hj _ _⟩

theorem fillFrame_redport (configadr idx : Nat) (d : Datagram) :
    (c.fillFrame configadr idx d).1.redport=c.port.redport := by
  rw [Context.fillFrame]
  split_ifs <;> rfl

end Filling

section Sending

variable {c : Context}

/-- A frame that was sent, as the port has it: the index, the length, and the bytes that slaves leave
alone. -/
structure Outgoing (p : Port) (out : Nat × Sent) (d : Datagram) : Prop where
  known : out.1 < ecMaxBuf
  txbuflength : p.txbuflength out.1=d.txbuflength
  length : ∀ sent,out.2.primary=some sent → sent.length=d.txbuflength
  etype : ∀ sent,out.2.primary=some sent → netWord (packetBuffer sent) etypeOffset=ethPEcat
  command : ∀ sent,out.2.primary=some sent →
    packetBuffer sent commandOffset=commandCode d.command
  index : ∀ sent,out.2.primary=some sent → (packetBuffer sent indexOffset).toNat=out.1
  elength : ∀ sent,out.2.primary=some sent → d.dc=false →
    leWord (packetBuffer sent) ethHeadersize%0x1000=ecHeadersize+d.length

theorem Outgoing.of_length {p p' : Port} {out : Nat × Sent} {d : Datagram} (h : Outgoing p out d)
    (hlen : p'.txbuflength out.1=p.txbuflength out.1) : Outgoing p' out d :=
  ⟨h.known,hlen.trans h.txbuflength,h.length,h.etype,h.command,h.index,h.elength⟩

def entryOf (idx : Nat) (d : Datagram) : Entry := ⟨idx,d.dest,d.length,dcOffset d⟩

/-- What sending a frame does to the context, for a port without redundancy whose next index is
free. -/
structure SendsFrame (c c' : Context) (idx : Nat) (out : Sent) (d : Datagram) : Prop where
  outgoing : Outgoing c'.port (idx,out) d
  idxstack : c'.idxstack=pushindex c.idxstack (entryOf idx d)
  iomap : c'.iomap=c.iomap
  dcTime : c'.dcTime=c.dcTime
  redport : c'.port.redport=none
  lastidx : c'.port.lastidx=idx
  socket : c'.port.stack.socket=c.port.stack.socket
  rcvd : ∀ j,c'.port.stack.rxbufstat j=.rcvd → c.port.stack.rxbufstat j=.rcvd
  other : ∀ j,j≠idx → c'.port.stack.rxbufstat j=c.port.stack.rxbufstat j ∧
    c'.port.txbuflength j=c.port.txbuflength j
  etype : ∀ j,netWord (c'.port.txbuf j) etypeOffset=netWord (c.port.txbuf j) etypeOffset
  waiting : out.primary≠none → c'.port.stack.rxbufstat idx=.tx

/-- The frame that leaves the primary socket is the transmit buffer with its `sa1`. -/
theorem outframeRed_single {p : Port} (hred : p.redport=none) (idx : Nat) (sent : Bool × Bool) :
    p.outframeRed idx sent.1 sent.2=
      (⟨if sent.1=true then some (p.dataFrame idx) else none,none⟩,
        { p with
          txbuf := Function.update p.txbuf idx (p.primaryFrame idx)
          stack := p.stack.transmitted idx sent.1 }) := by
  rw [Port.outframeRed]
  simp only [hred]
  rfl

theorem sendFrame_sends (configadr : Nat) (d : Datagram) (sent : Bool × Bool)
    (hred : c.port.redport=none) (hlen : d.length ≤ ecMaxLrwData)
    (hidx : c.port.nextFree < ecMaxBuf)
    (hetype : netWord (c.port.txbuf c.port.nextFree) etypeOffset=ethPEcat) :
    SendsFrame c (c.sendFrame configadr d sent).2.2 c.port.nextFree
      (c.sendFrame configadr d sent).2.1 d := by
  let c1 : Context := { c with port := c.port.getindex.2 }
  let p := (c1.fillFrame configadr c.port.nextFree d).1
  have hstack : p.stack=c1.port.stack :=
    (fillFrame_stack (c := c1) configadr c.port.nextFree d).1
  have hlast : p.lastidx=c.port.nextFree :=
    (fillFrame_stack (c := c1) configadr c.port.nextFree d).2
  have hp : p.redport=none := by
    refine (fillFrame_redport (c := c1) configadr c.port.nextFree d).trans ?_
    change c.port.redport.map _=none
    rw [hred]
    rfl
  obtain ⟨hfilled,htx,hdco⟩ := fillFrame_filled (c := c1) configadr c.port.nextFree d hlen
  have hrun : c.sendFrame configadr d sent=(c.port.nextFree,
      ⟨if sent.1=true then some (p.dataFrame c.port.nextFree) else none,none⟩,
      { c1 with
        port := { p with
          txbuf := Function.update p.txbuf c.port.nextFree (p.primaryFrame c.port.nextFree)
          stack := p.stack.transmitted c.port.nextFree sent.1 }
        idxstack := pushindex c.idxstack ⟨c.port.nextFree,d.dest,d.length,dcOffset d⟩ }) := by
    rw [Context.sendFrame]
    change (c.port.nextFree,(p.outframeRed c.port.nextFree sent.1 sent.2).1,
      ({ c1 with
        port := (p.outframeRed c.port.nextFree sent.1 sent.2).2
        idxstack := pushindex c.idxstack ⟨c.port.nextFree,d.dest,d.length,
          (c1.fillFrame configadr c.port.nextFree d).2⟩ } : Context))=_
    rw [outframeRed_single hp,hdco]
  have hlong : indexOffset < p.txbuflength c.port.nextFree := by
    rw [htx,Datagram.txbuflength]
    have hset : setupDatagram d.length=28+d.length := rfl
    have hadd : 20 ≤ addDatagram (setupDatagram d.length) 8 := by
      rw [addDatagram,Mapping.ecHeadersize,Mapping.ecElengthsize,Mapping.ecWkcsize]
      omega
    rw [indexOffset]
    split_ifs <;> omega
  have hbyte : ∀ i,sa1Offset+2 ≤ i → i ≤ indexOffset →
      packetBuffer (p.dataFrame c.port.nextFree) i=p.txbuf c.port.nextFree i := by
    intro i hlow hhigh
    rw [Port.dataFrame,packetBuffer_read _ (Nat.lt_of_le_of_lt hhigh hlong),
      primaryFrame_other _ _ hlow]
  rw [hrun]
  have hsent : ∀ q,(if sent.1=true then some (p.dataFrame c.port.nextFree) else none)=some q →
      q=p.dataFrame c.port.nextFree := by
    intro q hq
    split_ifs at hq
    exact (Option.some.inj hq).symm
  have hothers : ∀ j,j≠c.port.nextFree → p.txbuf j=c.port.txbuf j ∧
      p.txbuflength j=c.port.txbuflength j :=
    fun j hj => fillFrame_other (c := c1) configadr c.port.nextFree d hj
  refine ⟨⟨hidx,htx,?_,?_,?_,?_,?_⟩,rfl,rfl,rfl,hp,hlast,?_,?_,?_,?_,?_⟩
  · intro q hq
    rw [hsent q hq,Port.dataFrame,readBytes_length,htx]
  · intro q hq
    rw [hsent q hq]
    refine (netWord_congr ?_ ?_).trans (hfilled.etype.trans hetype)
    · exact hbyte _ (by decide) (by decide)
    · exact hbyte _ (by decide) (by decide)
  · intro q hq
    rw [hsent q hq,hbyte _ (by decide) (by decide)]
    exact hfilled.command
  · intro q hq
    rw [hsent q hq,hbyte _ (by decide) (Nat.le_refl _)]
    refine (congrArg UInt8.toNat hfilled.index).trans ?_
    rw [UInt8.toNat_ofNat']
    rw [ecMaxBuf] at hidx
    omega
  · intro q hq hdc
    rw [hsent q hq,leWord,hbyte _ (by decide) (by decide),hbyte _ (by decide) (by decide)]
    exact hfilled.elength hdc
  · change (p.stack.transmitted c.port.nextFree sent.1).socket=_
    rw [hstack]
    rfl
  · intro j hj
    change (p.stack.transmitted c.port.nextFree sent.1).rxbufstat j=.rcvd at hj
    by_cases hown : j=c.port.nextFree
    · rw [hown,Stack.transmitted,Stack.mark_self] at hj
      split_ifs at hj
    · rw [Stack.transmitted,Stack.mark_other hown,hstack] at hj
      exact (Stack.mark_other hown _).symm.trans hj
  · intro j hj
    refine ⟨?_,(hothers j hj).2⟩
    change (p.stack.transmitted c.port.nextFree sent.1).rxbufstat j=_
    rw [Stack.transmitted,Stack.mark_other hj,hstack]
    exact Stack.mark_other hj _
  · intro j
    by_cases hown : j=c.port.nextFree
    · change netWord (Function.update p.txbuf c.port.nextFree _ j) etypeOffset=_
      rw [hown,Function.update_self]
      refine (netWord_congr ?_ ?_).trans hfilled.etype
      · exact primaryFrame_other _ _ (by decide)
      · exact primaryFrame_other _ _ (by decide)
    · change netWord (Function.update p.txbuf c.port.nextFree _ j) etypeOffset=_
      rw [Function.update_of_ne hown,(hothers j hown).1]
  · intro hsome
    change (p.stack.transmitted c.port.nextFree sent.1).rxbufstat _=_
    rw [Stack.transmitted,Stack.mark_self]
    refine if_pos ?_
    by_contra hno
    exact hsome (if_neg hno)

def nextIndices (lastidx n : Nat) : List Nat :=
  (List.range n).map (ringIndex ecMaxBuf (ringNext ecMaxBuf lastidx))

theorem nextIndices_succ {lastidx n : Nat} (hlast : lastidx < ecMaxBuf) (hn : n < ecMaxBuf) :
    nextIndices lastidx (n+1)=
      ringNext ecMaxBuf lastidx::nextIndices (ringNext ecMaxBuf lastidx) n := by
  have hnext := ringNext_lt hlast
  rw [nextIndices,List.range_succ_eq_map,List.map_cons,List.map_map,ringIndex_zero hnext]
  refine congrArg (ringNext ecMaxBuf lastidx::·) ?_
  apply List.map_congr_left
  intro k hk
  have hk' := List.mem_range.mp hk
  exact (ringIndex_next hnext (by omega)).symm

theorem nextIndices_nodup {lastidx n : Nat} (hlast : lastidx < ecMaxBuf) (hn : n ≤ ecMaxBuf) :
    (nextIndices lastidx n).Nodup := by
  have hnext := ringNext_lt hlast
  refine List.Nodup.map_on ?_ List.nodup_range
  intro x hx y hy heq
  have hx' := List.mem_range.mp hx
  have hy' := List.mem_range.mp hy
  rw [← ringOffset_index hnext (k := x) (by omega),heq,ringOffset_index hnext (by omega)]

/-- Sending the frames of a group whose indices are free. -/
structure SendsGroup (c c' : Context) (outs : List (Nat × Sent)) (ds : List Datagram) : Prop where
  indices : outs.map Prod.fst=nextIndices c.port.lastidx ds.length
  outgoing : List.Forall₂ (Outgoing c'.port) outs ds
  idxstack : c'.idxstack=c.idxstack++List.zipWith (fun out d => entryOf out.1 d) outs ds
  iomap : c'.iomap=c.iomap
  dcTime : c'.dcTime=c.dcTime
  redport : c'.port.redport=none
  socket : c'.port.stack.socket=c.port.stack.socket
  rcvd : ∀ j,c'.port.stack.rxbufstat j=.rcvd → c.port.stack.rxbufstat j=.rcvd
  other : ∀ j,j ∉ outs.map Prod.fst → c'.port.stack.rxbufstat j=c.port.stack.rxbufstat j ∧
    c'.port.txbuflength j=c.port.txbuflength j
  waiting : ∀ out ∈ outs,out.2.primary≠none → c'.port.stack.rxbufstat out.1=.tx

theorem nextFree_eq (p : Port)
    (h : p.stack.rxbufstat (ringNext ecMaxBuf p.lastidx)=.empty) :
    p.nextFree=ringNext ecMaxBuf p.lastidx := by
  rw [Port.nextFree]
  change search p.stack.rxbufstat _ (15+1)=_
  rw [search,if_neg (not_not.mpr h)]

theorem sendGroup_sends (configadr : Nat) (sends : Nat → Bool × Bool) (ds : List Datagram)
    (k : Nat) (c : Context) (hred : c.port.redport=none)
    (hlens : ∀ d ∈ ds,d.length ≤ ecMaxLrwData) (hlast : c.port.lastidx < ecMaxBuf)
    (hfree : ∀ idx ∈ nextIndices c.port.lastidx ds.length,c.port.stack.rxbufstat idx=.empty)
    (hetype : ∀ idx,idx < ecMaxBuf → netWord (c.port.txbuf idx) etypeOffset=ethPEcat)
    (hroom : c.idxstack.length+ds.length ≤ ecMaxBuf) :
    SendsGroup c (Context.sendGroup configadr sends ds k c).2
      (Context.sendGroup configadr sends ds k c).1 ds := by
  induction ds generalizing k c with
  | nil =>
    exact ⟨rfl,.nil,(List.append_nil _).symm,rfl,rfl,hred,rfl,fun _ h => h,
      fun _ _ => ⟨rfl,rfl⟩,fun _ h => absurd h List.not_mem_nil⟩
  | cons d rest ih =>
    have hcount : rest.length < ecMaxBuf := by
      rw [List.length_cons] at hroom
      omega
    have hnext := ringNext_lt hlast
    rw [List.length_cons,nextIndices_succ hlast hcount] at hfree
    obtain ⟨hfirst,hlater⟩ := List.forall_mem_cons.mp hfree
    obtain ⟨hd,hrest⟩ := List.forall_mem_cons.mp hlens
    have hidx := nextFree_eq c.port hfirst
    have hsends := sendFrame_sends (c := c) configadr d (sends k) hred hd (by rw [hidx]; exact hnext)
      (hetype _ (by rw [hidx]; exact hnext))
    have hnodup := nextIndices_nodup hlast (n := rest.length+1) hcount
    rw [nextIndices_succ hlast hcount,List.nodup_cons] at hnodup
    have hpush : (c.sendFrame configadr d (sends k)).2.2.idxstack=
        c.idxstack++[entryOf c.port.nextFree d] := by
      rw [hsends.idxstack,pushindex,if_pos]
      rw [List.length_cons] at hroom
      omega
    have hgroup := ih (k+1) (c.sendFrame configadr d (sends k)).2.2 hsends.redport hrest
      (by rw [hsends.lastidx,hidx]; exact hnext)
      (by
        intro idx hmem
        rw [hsends.lastidx,hidx] at hmem
        rw [(hsends.other idx ?_).1]
        · exact hlater idx hmem
        · intro heq
          rw [heq,hidx] at hmem
          exact hnodup.1 hmem)
      (fun idx h => (hsends.etype idx).trans (hetype idx h))
      (by
        rw [hpush,List.length_append,List.length_singleton]
        rw [List.length_cons] at hroom
        omega)
    have hindices := hgroup.indices
    rw [hsends.lastidx,hidx] at hindices
    rw [Context.sendGroup]
    have hfresh : c.port.nextFree ∉
        (Context.sendGroup configadr sends rest (k+1)
          (c.sendFrame configadr d (sends k)).2.2).1.map Prod.fst := by
      rw [hindices,hidx]
      exact hnodup.1
    refine ⟨?_,?_,?_,hgroup.iomap.trans hsends.iomap,hgroup.dcTime.trans hsends.dcTime,
      hgroup.redport,hgroup.socket.trans hsends.socket,
      fun j hj => hsends.rcvd j (hgroup.rcvd j hj),?_,?_⟩
    · rw [List.length_cons,nextIndices_succ hlast hcount]
      simp only [List.map_cons]
      rw [hindices]
      exact congrArg (·::_) hidx
    · exact .cons (hsends.outgoing.of_length (hgroup.other _ hfresh).2) hgroup.outgoing
    · simp only [List.zipWith_cons_cons]
      rw [hgroup.idxstack,hpush,List.append_assoc]
      rfl
    · intro j hj
      simp only [List.map_cons,List.mem_cons,not_or] at hj
      obtain ⟨hstat,hlen⟩ := hgroup.other j hj.2
      obtain ⟨hstat',hlen'⟩ := hsends.other j hj.1
      exact ⟨hstat.trans hstat',hlen.trans hlen'⟩
    · intro out hout hsome
      rcases List.mem_cons.mp hout with rfl|hout
      · exact (hgroup.other _ hfresh).1.trans (hsends.waiting hsome)
      · exact hgroup.waiting out hout hsome

end Sending

end EtherCATMaster.Nicdrv
