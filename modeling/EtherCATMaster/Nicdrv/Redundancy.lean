import EtherCATMaster.Nicdrv.Port

namespace EtherCATMaster.Nicdrv

open EtherCATMaster.Framework
open EtherCATMaster.Mapping (ecMaxBuf ecNoFrame ecBufsize ethHeadersize writeBytes readBytes
  readBytes_length)

def packetBuffer (q : Packet) : Buffer := (q.getD · 0)

def commandOffset : Nat := 16
def adoOffset : Nat := 20

/-- `EC_CMD_BRD` -/
def brdCode : UInt8 := 7

def Dummy (q : Packet) : Prop :=
  packetBuffer q commandOffset=brdCode ∧ leWord (packetBuffer q) adoOffset=0

/-- A slave in a ring, and how often it has processed a data frame. -/
structure RingSlave (σ : Type*) where
  state : σ
  passes : Nat

/-- What slaves leave alone in a frame: its length, `sa1`, `etype`, `elength`, `command` and
`index`. -/
structure Keeps (q q' : Packet) : Prop where
  length : q'.length=q.length
  header : ∀ i,sa1Offset ≤ i → i ≤ indexOffset → packetBuffer q' i=packetBuffer q i

section Ring

variable {σ : Type*} (process : σ → Packet → σ × Packet)

/-- How slaves process frames: they do not look at the ethernet header, and a dummy frame changes
nothing in them. -/
structure Processing : Prop where
  keeps : ∀ s q,Keeps q (process s q).2
  payload : ∀ s q r,q.drop ethHeadersize=r.drop ethHeadersize →
    (process s q).1=(process s r).1 ∧
      (process s q).2.drop ethHeadersize=(process s r).2.drop ethHeadersize
  dummy : ∀ s q,Dummy q → (process s q).1=s ∧ Dummy (process s q).2

def forward (data : Bool) : List (RingSlave σ) → Packet → List (RingSlave σ) × Packet
  | [],q => ([],q)
  | s::rest,q =>
      let r := process s.state q
      let t := forward data rest r.2
      (⟨r.1,if data=true then s.passes+1 else s.passes⟩::t.1,t.2)

/-- The slaves of the ring, and what arrives at its ends. -/
structure Transit (σ : Type*) where
  slaves : List (RingSlave σ)
  primary : List Packet
  secondary : List Packet

/-- A data frame from the primary socket. The broken link, if there is one, is behind `k` slaves: the
last slave before it sends the frame back. -/
def fromPrimary (slaves : List (RingSlave σ)) (broken : Option Nat) (q : Packet) : Transit σ :=
  match broken with
  | none =>
      let r := forward process true slaves q
      ⟨r.1,[],[r.2]⟩
  | some k =>
      if k=0 then ⟨slaves,[],[]⟩
      else
        let r := forward process true (slaves.take k) q
        ⟨r.1++slaves.drop k,[r.2],[]⟩

/-- A frame from the secondary socket. It passes the slaves backward without being processed, up to
the broken link, and comes back from there. -/
def fromSecondary (data : Bool) (slaves : List (RingSlave σ)) (broken : Option Nat) (q : Packet) :
    Transit σ :=
  match broken with
  | none => ⟨slaves,[q],[]⟩
  | some k =>
      if slaves.length ≤ k then ⟨slaves,[],[]⟩
      else
        let r := forward process data (slaves.drop k) q
        ⟨slaves.take k++r.1,[],[r.2]⟩

/-- The two frames of `ecx_outframe_red` on the ring. -/
def transit (slaves : List (RingSlave σ)) (broken : Option Nat) (out : Sent) : Transit σ :=
  let t1 : Transit σ := match out.primary with
    | none => ⟨slaves,[],[]⟩
    | some q => fromPrimary process slaves broken q
  let t2 : Transit σ := match out.secondary with
    | none => ⟨t1.slaves,[],[]⟩
    | some q => fromSecondary process false t1.slaves broken q
  ⟨t2.slaves,t1.primary++t2.primary,t1.secondary++t2.secondary⟩

def afterWait (slaves : List (RingSlave σ)) (broken : Option Nat) (w : Waited) :
    List (RingSlave σ) :=
  match w.resent with
  | none => slaves
  | some q => (fromSecondary process true slaves broken q).slaves

end Ring

section Frames

variable (txbuflength : Nat → Nat) {idx : Nat} {s : Stack} {q : Packet}

/-- A frame with an index. -/
structure Own (idx : Nat) (q : Packet) : Prop where
  etype : netWord (packetBuffer q) etypeOffset=ethPEcat
  index : (packetBuffer q indexOffset).toNat=idx
  long : indexOffset < q.length
  fits : q.length ≤ ecBufsize

theorem writeBytes_zero (b : Buffer) (q : Packet) {i : Nat} (h : i < q.length) :
    writeBytes b 0 q i=packetBuffer q i := by
  rw [writeBytes,if_pos ⟨Nat.zero_le i,by omega⟩]
  rfl

theorem readBytes_get (b : Buffer) (data n : Nat) {i : Nat} (h : i < n) :
    (readBytes b data n).getD i 0=b (data+i) := by
  rw [readBytes,List.getD_eq_getElem?_getD,List.getElem?_map,List.getElem?_range h]
  rfl

theorem netWord_congr {b b' : Buffer} {offset : Nat} (h0 : b offset=b' offset)
    (h1 : b (offset+1)=b' (offset+1)) : netWord b offset=netWord b' offset := by
  rw [netWord,netWord,h0,h1]

/-- A stack that has read a frame. -/
structure Got (idx : Nat) (q : Packet) (f : Int × Stack) : Prop where
  wkc : f.1=leWord (f.2.rxbuf idx) (leWord (packetBuffer q) ethHeadersize%0x1000)
  rxsa : f.2.rxsa idx=netWord (packetBuffer q) sa1Offset
  socket : f.2.socket=[]
  contents : ∀ i,i < txbuflength idx-ethHeadersize → ethHeadersize+i < q.length →
    f.2.rxbuf idx i=packetBuffer q (ethHeadersize+i)

/-- The frame that is waited for comes in. -/
theorem inframe_own (h : Own idx q) (hsocket : s.socket=[q]) (hstat : s.rxbufstat idx≠.rcvd) :
    Got txbuflength idx q (s.inframe txbuflength idx) := by
  have hlong := h.long
  have htemp : ∀ i,i < q.length → writeBytes s.tempbuf 0 (q.take ecBufsize) i=packetBuffer q i := by
    intro i hi
    rw [List.take_of_length_le h.fits]
    exact writeBytes_zero s.tempbuf q hi
  have hne : q≠[] := by
    intro hnil
    rw [hnil] at hlong
    cases hlong
  have hrecv : s.recvpkt=(true,{ s with
      tempbuf := writeBytes s.tempbuf 0 (q.take ecBufsize), socket := [] }) := by
    rw [Stack.recvpkt,hsocket]
    simp only [decide_eq_true hne]
  have htype : netWord (writeBytes s.tempbuf 0 (q.take ecBufsize)) etypeOffset=ethPEcat := by
    refine (netWord_congr ?_ ?_).trans h.etype
    · exact htemp _ (by rw [indexOffset] at hlong; rw [etypeOffset]; omega)
    · exact htemp _ (by rw [indexOffset] at hlong; rw [etypeOffset]; omega)
  have hindex : (writeBytes s.tempbuf 0 (q.take ecBufsize) indexOffset).toNat=idx := by
    rw [htemp _ hlong]
    exact h.index
  have helength : leWord (writeBytes s.tempbuf 0 (q.take ecBufsize)) ethHeadersize=
      leWord (packetBuffer q) ethHeadersize := by
    rw [indexOffset] at hlong
    rw [leWord,leWord,htemp _ (by rw [ethHeadersize]; omega),htemp _ (by rw [ethHeadersize]; omega)]
  have hread : s.inframe txbuflength idx=((leWord ((({ s with
      tempbuf := writeBytes s.tempbuf 0 (q.take ecBufsize), socket := [] } : Stack).store
        txbuflength idx .complete).rxbuf idx) (leWord (packetBuffer q) ethHeadersize%0x1000) : Int),
      ({ s with
      tempbuf := writeBytes s.tempbuf 0 (q.take ecBufsize), socket := [] } : Stack).store
        txbuflength idx .complete) := by
    rw [Stack.inframe,if_neg (fun hc => hstat hc.2),hrecv]
    simp only [htype,hindex,helength,if_true]
  rw [hread]
  refine ⟨rfl,?_,rfl,?_⟩
  · rw [Stack.store]
    simp only [Function.update_self]
    apply netWord_congr
    · exact htemp _ (by rw [indexOffset] at hlong; rw [sa1Offset]; omega)
    · exact htemp _ (by rw [indexOffset] at hlong; rw [sa1Offset]; omega)
  · intro i hi hlen
    rw [Stack.store]
    simp only [Function.update_self]
    rw [writeBytes,readBytes_length,if_pos ⟨Nat.zero_le i,by omega⟩,Nat.sub_zero,
      readBytes_get _ _ _ hi]
    exact htemp _ hlen

theorem inframe_nothing (hsocket : s.socket=[]) (hstat : s.rxbufstat idx≠.rcvd) :
    s.inframe txbuflength idx=(ecNoFrame,s) := by
  rw [Stack.inframe,if_neg (fun hc => hstat hc.2),Stack.recvpkt,hsocket]

def reads (idx : Nat) (s : Stack) (qs : List Packet) : Int × Stack :=
  if qs=[] then (ecNoFrame,s) else (s.arrive qs).inframe txbuflength idx

/-- A stack on which frames for an index are still to come, or have been read. -/
inductive Pending (idx : Nat) (final : Int × Stack) : List Packet → Int × Stack → Prop
  | nothing {s : Stack} (hsocket : s.socket=[]) (hstat : s.rxbufstat idx≠.rcvd)
      (hfinal : final=(ecNoFrame,s)) : Pending idx final [] (ecNoFrame,s)
  | coming {s : Stack} {q : Packet} (hsocket : s.socket=[]) (hstat : s.rxbufstat idx≠.rcvd)
      (hown : Own idx q) (hfinal : final=(s.arrive [q]).inframe txbuflength idx) :
      Pending idx final [q] (ecNoFrame,s)
  | done (hwkc : ecNoFrame < final.1) : Pending idx final [] final

variable {txbuflength}

theorem Stack.arrive_nil (s : Stack) : s.arrive []=s := by
  rw [Stack.arrive,List.append_nil]

theorem leWord_back (b : Buffer) (l : Nat) : ecNoFrame < (leWord b l : Int) := by
  have : (0 : Int) ≤ leWord b l := Int.natCast_nonneg _
  exact Int.lt_of_lt_of_le (by decide) this

theorem Pending.poll {final cur : Int × Stack} {qs : List Packet} (a rest : List Packet)
    (h : Pending txbuflength idx final qs cur) (hqs : qs=a++rest) :
    Pending txbuflength idx final rest ((cur.2.arrive a).poll txbuflength idx cur.1) := by
  cases h with
  | nothing hsocket hstat hfinal =>
    obtain ⟨rfl,rfl⟩ := List.append_eq_nil_iff.mp hqs.symm
    rw [Stack.arrive_nil,Stack.poll,if_pos (le_refl _),inframe_nothing _ hsocket hstat]
    exact .nothing hsocket hstat hfinal
  | coming hsocket hstat hown hfinal =>
    rename_i s q
    cases a with
    | nil =>
      rw [List.nil_append] at hqs
      rw [Stack.arrive_nil,Stack.poll,if_pos (le_refl _),inframe_nothing _ hsocket hstat,← hqs]
      exact .coming hsocket hstat hown hfinal
    | cons q' a =>
      rw [List.cons_append,List.cons.injEq] at hqs
      obtain ⟨rfl,rfl⟩ := List.append_eq_nil_iff.mp hqs.2.symm
      rw [← hqs.1,Stack.poll,if_pos (le_refl _),← hfinal]
      have hgot := inframe_own txbuflength hown (s := s.arrive [q])
        (by rw [Stack.arrive,hsocket]; rfl) hstat
      exact .done (by rw [hfinal,hgot.wkc]; exact leWord_back _ _)
  | done hwkc =>
    obtain ⟨rfl,rfl⟩ := List.append_eq_nil_iff.mp hqs.symm
    rw [Stack.arrive_nil,Stack.poll,if_neg (Int.not_le.mpr hwkc)]
    exact .done hwkc

theorem Pending.finished {final cur : Int × Stack} (h : Pending txbuflength idx final [] cur) :
    cur=final := by
  cases h with
  | nothing hsocket hstat hfinal => exact hfinal.symm
  | done hwkc => rfl

theorem Pending.back {final cur : Int × Stack} {qs : List Packet}
    (h : Pending txbuflength idx final qs cur) (hback : ecNoFrame < cur.1) : cur=final := by
  cases h with
  | nothing hsocket hstat hfinal => exact absurd hback (Int.lt_irrefl _)
  | coming hsocket hstat hown hfinal => exact absurd hback (Int.lt_irrefl _)
  | done hwkc => rfl

theorem waitLoop_reads {polls : List Arrivals} {f1 f2 prim sec : Int × Stack}
    (h1 : Pending txbuflength idx f1 (polls.flatMap Arrivals.primary) prim)
    (h2 : Pending txbuflength idx f2 (polls.flatMap Arrivals.secondary) sec) :
    waitLoop txbuflength idx polls prim sec=(f1,f2) := by
  induction polls generalizing prim sec with
  | nil => rw [waitLoop,h1.finished,h2.finished]
  | cons a rest ih =>
    have h1' := h1.poll a.primary (rest.flatMap Arrivals.primary) List.flatMap_cons
    have h2' := h2.poll a.secondary (rest.flatMap Arrivals.secondary) List.flatMap_cons
    rw [waitLoop]
    split_ifs with hmore
    · exact ih h1' h2'
    · rw [not_or,Int.not_le,Int.not_le] at hmore
      rw [h1'.back hmore.1,h2'.back hmore.2]

theorem retrieve_reads {final : Int × Stack} (first : List Packet) (later : List (List Packet))
    (h : Pending txbuflength idx final (first++later.flatten) (ecNoFrame,s)) :
    retrieve txbuflength idx first later s=final := by
  induction later generalizing first s with
  | nil =>
    have h' := h.poll first [] (by rw [List.flatten_nil])
    rw [Stack.poll,if_pos (le_refl _)] at h'
    exact h'.finished
  | cons next later ih =>
    have h' := h.poll first (next++later.flatten) (by rw [List.flatten_cons])
    rw [Stack.poll,if_pos (le_refl _)] at h'
    rw [retrieve]
    split_ifs with hmore
    · apply ih
      -- nothing was read, so the loop goes on with the same result
      cases hr : (s.arrive first).inframe txbuflength idx with
      | mk wkc s' =>
        rw [hr] at h' hmore
        cases hall : next++later.flatten with
        | nil =>
          rw [hall] at h'
          cases h' with
          | nothing hsocket hstat hfinal => exact .nothing hsocket hstat hfinal
          | done hwkc => exact absurd hmore (Int.not_le.mpr hwkc)
        | cons q' rest' =>
          rw [hall] at h'
          cases h' with
          | coming hsocket hstat hown hfinal => exact .coming hsocket hstat hown hfinal
    · exact h'.back (Int.not_le.mp hmore)

end Frames

section Forward

variable {σ : Type*} {process : σ → Packet → σ × Packet}

theorem Keeps.refl (q : Packet) : Keeps q q := ⟨rfl,fun _ _ _ => rfl⟩

theorem Keeps.trans {q r t : Packet} (h : Keeps q r) (h' : Keeps r t) : Keeps q t :=
  ⟨h'.length.trans h.length,fun i hlow hhigh => (h'.header i hlow hhigh).trans (h.header i hlow hhigh)⟩

theorem Keeps.own {idx : Nat} {q r : Packet} (h : Keeps q r) (ho : Own idx q) : Own idx r := by
  refine ⟨?_,?_,?_,?_⟩
  · refine (netWord_congr ?_ ?_).trans ho.etype
    · exact h.header _ (by decide) (by decide)
    · exact h.header _ (by decide) (by decide)
  · rw [h.header _ (by decide) (le_refl _)]
    exact ho.index
  · rw [h.length]
    exact ho.long
  · rw [h.length]
    exact ho.fits

theorem Keeps.sa1 {q r : Packet} (h : Keeps q r) :
    netWord (packetBuffer r) sa1Offset=netWord (packetBuffer q) sa1Offset :=
  netWord_congr (h.header _ (le_refl _) (by decide)) (h.header _ (by decide) (by decide))

theorem forward_append (data : Bool) (xs ys : List (RingSlave σ)) (q : Packet) :
    forward process data (xs++ys) q=
      ((forward process data xs q).1++
        (forward process data ys (forward process data xs q).2).1,
      (forward process data ys (forward process data xs q).2).2) := by
  induction xs generalizing q with
  | nil => rfl
  | cons s rest ih =>
    rw [List.cons_append,forward,forward]
    simp only [ih]
    rfl

theorem forward_length (data : Bool) (slaves : List (RingSlave σ)) (q : Packet) :
    (forward process data slaves q).1.length=slaves.length := by
  induction slaves generalizing q with
  | nil => rfl
  | cons s rest ih =>
    rw [forward]
    simp only [List.length_cons,ih]

theorem forward_keeps (hp : Processing process) (data : Bool) (slaves : List (RingSlave σ))
    (q : Packet) : Keeps q (forward process data slaves q).2 := by
  induction slaves generalizing q with
  | nil => exact Keeps.refl q
  | cons s rest ih => exact (hp.keeps s.state q).trans (ih _)

theorem forward_payload (hp : Processing process) (data : Bool) (slaves : List (RingSlave σ))
    {q r : Packet} (h : q.drop ethHeadersize=r.drop ethHeadersize) :
    (forward process data slaves q).1=(forward process data slaves r).1 ∧
      (forward process data slaves q).2.drop ethHeadersize=
        (forward process data slaves r).2.drop ethHeadersize := by
  induction slaves generalizing q r with
  | nil => exact ⟨rfl,h⟩
  | cons s rest ih =>
    obtain ⟨hstate,hdrop⟩ := hp.payload s.state q r h
    obtain ⟨hslaves,hrest⟩ := ih hdrop
    rw [forward,forward]
    simp only [hstate,hslaves]
    exact ⟨trivial,hrest⟩

theorem forward_dummy (hp : Processing process) (slaves : List (RingSlave σ)) {q : Packet}
    (h : Dummy q) : (forward process false slaves q).1=slaves := by
  induction slaves generalizing q with
  | nil => rfl
  | cons s rest ih =>
    obtain ⟨hstate,hdummy⟩ := hp.dummy s.state q h
    rw [forward]
    simp only [hstate,ih hdummy]
    rfl

theorem forward_passes (slaves : List (RingSlave σ)) (q : Packet) :
    (forward process true slaves q).1.map RingSlave.passes=slaves.map (fun s => s.passes+1) := by
  induction slaves generalizing q with
  | nil => rfl
  | cons s rest ih =>
    rw [forward]
    simp only [List.map_cons,ih]
    rfl

end Forward

section Ready

variable {p : Port} {red : Stack} {idx : Nat}

/-- A port with a frame to send: nothing is left in the sockets, and the transmit buffers hold what
`ec_setupheader`, `ecx_setupdatagram` and `ecx_init_redundant` have put there. -/
structure Port.Ready (p : Port) (red : Stack) (idx : Nat) : Prop where
  secondary : p.redport=some red
  socket : p.stack.socket=[]
  socket2 : red.socket=[]
  known : idx < ecMaxBuf
  etype : netWord (p.txbuf idx) etypeOffset=ethPEcat
  index : (p.txbuf idx indexOffset).toNat=idx
  fits : p.txbuflength idx ≤ ecBufsize
  long : indexOffset < p.txbuflength idx
  elength : leWord (p.txbuf idx) ethHeadersize%0x1000+2+ethHeadersize=p.txbuflength idx
  etype2 : netWord p.txbuf2 etypeOffset=ethPEcat
  command2 : p.txbuf2 commandOffset=brdCode
  ado2 : leWord p.txbuf2 adoOffset=0
  fits2 : p.txbuflength2 ≤ ecBufsize
  long2 : adoOffset+1 < p.txbuflength2

def Port.dataFrame (p : Port) (idx : Nat) : Packet :=
  readBytes (p.primaryFrame idx) 0 (p.txbuflength idx)

def Port.dummyPacket (p : Port) (idx : Nat) : Packet :=
  readBytes (p.dummyFrame idx) 0 p.txbuflength2

theorem packetBuffer_read (b : Buffer) {n i : Nat} (h : i < n) :
    packetBuffer (readBytes b 0 n) i=b i := by
  rw [packetBuffer,readBytes_get _ _ _ h,Nat.zero_add]

theorem primaryFrame_other (p : Port) (idx : Nat) {i : Nat} (h : sa1Offset+2 ≤ i) :
    p.primaryFrame idx i=p.txbuf idx i := by
  rw [Port.primaryFrame,writeBytes,if_neg]
  have hlen : (netBytes rxPrim).length=2 := by decide
  rw [hlen]
  omega

theorem primaryFrame_sa1 (p : Port) (idx : Nat) :
    p.primaryFrame idx sa1Offset=1 ∧ p.primaryFrame idx (sa1Offset+1)=1 := by
  have hnet : netBytes rxPrim=[1,1] := by decide
  rw [Port.primaryFrame,hnet,writeBytes,writeBytes]
  exact ⟨rfl,rfl⟩

theorem Port.Ready.data_own (h : p.Ready red idx) :
    Own idx (p.dataFrame idx) ∧ netWord (packetBuffer (p.dataFrame idx)) sa1Offset=rxPrim := by
  have hlong := h.long
  rw [indexOffset] at hlong
  refine ⟨⟨?_,?_,?_,?_⟩,?_⟩
  · refine (netWord_congr ?_ ?_).trans h.etype
    · rw [Port.dataFrame,packetBuffer_read _ (by rw [etypeOffset]; omega),
        primaryFrame_other _ _ (by decide)]
    · rw [Port.dataFrame,packetBuffer_read _ (by rw [etypeOffset]; omega),
        primaryFrame_other _ _ (by decide)]
  · rw [Port.dataFrame,packetBuffer_read _ h.long,primaryFrame_other _ _ (by decide)]
    exact h.index
  · rw [Port.dataFrame,readBytes_length]
    exact h.long
  · rw [Port.dataFrame,readBytes_length]
    exact h.fits
  · rw [Port.dataFrame,netWord,packetBuffer_read _ (by rw [sa1Offset]; omega),
      packetBuffer_read _ (by rw [sa1Offset]; omega),(primaryFrame_sa1 p idx).1,
      (primaryFrame_sa1 p idx).2]
    decide

theorem dummyFrame_get (p : Port) (idx i : Nat) :
    p.dummyFrame idx i=if i=sa1Offset ∨ i=sa1Offset+1 then 4
      else if i=indexOffset then UInt8.ofNat idx else p.txbuf2 i := by
  have hnet : netBytes rxSec=[4,4] := by decide
  rw [Port.dummyFrame,hnet,writeBytes]
  simp only [List.length_cons,List.length_nil]
  by_cases hsa : i=sa1Offset ∨ i=sa1Offset+1
  · rw [if_pos hsa,if_pos (by omega)]
    rcases hsa with rfl|rfl
    · rfl
    · rfl
  · rw [if_neg hsa,if_neg (by omega),writeBytes]
    simp only [List.length_singleton]
    by_cases hi : i=indexOffset
    · rw [if_pos hi,if_pos (by omega),hi]
      rfl
    · rw [if_neg hi,if_neg (by omega)]

theorem Port.Ready.dummy_own (h : p.Ready red idx) :
    Own idx (p.dummyPacket idx) ∧ Dummy (p.dummyPacket idx) ∧
      netWord (packetBuffer (p.dummyPacket idx)) sa1Offset=rxSec := by
  have hlong := h.long2
  have hknown := h.known
  rw [adoOffset] at hlong
  have hget : ∀ i,i < 22 → packetBuffer (p.dummyPacket idx) i=p.dummyFrame idx i := fun i hi =>
    packetBuffer_read _ (by omega)
  refine ⟨⟨?_,?_,?_,?_⟩,⟨?_,?_⟩,?_⟩
  · refine (netWord_congr ?_ ?_).trans h.etype2
    · rw [hget _ (by decide),dummyFrame_get]
      rfl
    · rw [hget _ (by decide),dummyFrame_get]
      rfl
  · rw [hget _ (by decide),dummyFrame_get,if_neg (by decide),if_pos rfl]
    rw [ecMaxBuf] at hknown
    rw [UInt8.toNat_ofNat']
    omega
  · rw [Port.dummyPacket,readBytes_length,indexOffset]
    omega
  · rw [Port.dummyPacket,readBytes_length]
    exact h.fits2
  · rw [hget _ (by decide),dummyFrame_get]
    exact h.command2
  · have hado := h.ado2
    rw [leWord] at hado ⊢
    rw [hget _ (by decide),hget _ (by decide),dummyFrame_get,dummyFrame_get]
    exact hado
  · rw [netWord,hget _ (by decide),hget _ (by decide),dummyFrame_get,dummyFrame_get,
      if_pos (.inl rfl),if_pos (.inr rfl)]
    decide

/-- What `ecx_outframe_red` sends, and the port after it. -/
theorem Port.Ready.outframe (h : p.Ready red idx) (sent sent2 : Bool) :
    (p.outframeRed idx sent sent2).1=⟨if sent=true then some (p.dataFrame idx) else none,
        if sent2=true then some (p.dummyPacket idx) else none⟩ ∧
      (p.outframeRed idx sent sent2).2.redport=some (red.transmitted idx sent2) ∧
      (p.outframeRed idx sent sent2).2.stack=p.stack.transmitted idx sent ∧
      (p.outframeRed idx sent sent2).2.txbuf idx=p.primaryFrame idx ∧
      (p.outframeRed idx sent sent2).2.txbuflength=p.txbuflength := by
  simp only [Port.outframeRed,h.secondary,Function.update_self,and_true]
  rfl

theorem transmitted_stat (s : Stack) (idx : Nat) (sent : Bool) :
    (s.transmitted idx sent).rxbufstat idx≠.rcvd := by
  rw [Stack.transmitted,Stack.mark]
  simp only [Function.update_self]
  split_ifs <;> decide

end Ready

section Routes

variable {p : Port} {red : Stack} {idx : Nat} {f1 f2 : Int × Stack} {q1 q2 : Packet}

theorem Got.back {txbuflength : Nat → Nat} {q : Packet} {f : Int × Stack}
    (h : Got txbuflength idx q f) : f.1>ecNoFrame := by
  rw [h.wkc]
  exact leWord_back _ _

def Port.withStack (p : Port) (s : Stack) : Port := { p with stack := s }

theorem reroute_normal (h1 : Got p.txbuflength idx q1 f1) (h2 : Got p.txbuflength idx q2 f2)
    (hsa1 : netWord (packetBuffer q1) sa1Offset=rxSec)
    (hsa2 : netWord (packetBuffer q2) sa1Offset=rxPrim) (resend : Packet → Resent) :
    (p.withStack f1.2).reroute f2.2 idx f1.1 f2.1 resend=
      ⟨f2.1,none,(p.withStack f1.2).copySecondary f2.2 idx⟩ := by
  have hprim : (p.withStack f1.2).stack.rxsa idx=rxSec := h1.rxsa.trans hsa1
  rw [Port.reroute]
  simp only [if_pos h1.back,if_pos h2.back,hprim,h2.rxsa.trans hsa2]
  rfl

theorem reroute_kept (h1 : Got p.txbuflength idx q1 f1)
    (hsa1 : netWord (packetBuffer q1) sa1Offset=rxPrim) (h2 : f2.1=ecNoFrame)
    (resend : Packet → Resent) :
    (p.withStack f1.2).reroute f2.2 idx f1.1 f2.1 resend=
      ⟨f1.1,none,{ p.withStack f1.2 with redport := some f2.2 }⟩ := by
  have hprim : (p.withStack f1.2).stack.rxsa idx=rxPrim := h1.rxsa.trans hsa1
  have hno : ¬f2.1>ecNoFrame := by
    rw [h2]
    exact Int.lt_irrefl _
  rw [Port.reroute]
  simp only [if_pos h1.back,if_neg hno,hprim]
  rfl

theorem reroute_lost (h1 : f1.1=ecNoFrame) (h2 : Got p.txbuflength idx q2 f2)
    (hsa2 : netWord (packetBuffer q2) sa1Offset=rxSec) (resend : Packet → Resent) :
    (p.withStack f1.2).reroute f2.2 idx f1.1 f2.1 resend=
      (p.withStack f1.2).sendAgain f2.2 idx f1.1 resend := by
  have hno : ¬f1.1>ecNoFrame := by
    rw [h1]
    exact Int.lt_irrefl _
  rw [Port.reroute]
  simp only [if_neg hno,if_pos h2.back,h2.rxsa.trans hsa2]
  rfl

theorem reroute_parted (h1 : Got p.txbuflength idx q1 f1) (h2 : Got p.txbuflength idx q2 f2)
    (hsa1 : netWord (packetBuffer q1) sa1Offset=rxPrim)
    (hsa2 : netWord (packetBuffer q2) sa1Offset=rxSec) (resend : Packet → Resent) :
    (p.withStack f1.2).reroute f2.2 idx f1.1 f2.1 resend=
      ((p.withStack f1.2).copyReceived idx).sendAgain f2.2 idx f1.1 resend := by
  have hprim : (p.withStack f1.2).stack.rxsa idx=rxPrim := h1.rxsa.trans hsa1
  rw [Port.reroute]
  simp only [if_pos h1.back,if_pos h2.back,hprim,h2.rxsa.trans hsa2]
  rfl

theorem sendAgain_back {q : Packet} (hsocket : red.socket=[]) (wkc : Int)
    {resend : Packet → Resent} (hsent : (resend (p.frame idx)).sent=true)
    (hback : (resend (p.frame idx)).first++(resend (p.frame idx)).later.flatten=[q])
    (hown : Own idx q) :
    ∃ f,Got p.txbuflength idx q f ∧
      p.sendAgain red idx wkc resend=⟨f.1,some (p.frame idx),p.copySecondary f.2 idx⟩ := by
  have hstat := transmitted_stat red idx (resend (p.frame idx)).sent
  have hgot := inframe_own p.txbuflength hown
    (s := (red.transmitted idx (resend (p.frame idx)).sent).arrive [q])
    (by rw [Stack.arrive]; exact congrArg (· ++[q]) hsocket) hstat
  have hpending : Pending p.txbuflength idx
      (((red.transmitted idx (resend (p.frame idx)).sent).arrive [q]).inframe p.txbuflength idx)
      ((resend (p.frame idx)).first++(resend (p.frame idx)).later.flatten)
      (ecNoFrame,red.transmitted idx (resend (p.frame idx)).sent) := by
    rw [hback]
    exact .coming hsocket hstat hown rfl
  refine ⟨_,hgot,?_⟩
  rw [Port.sendAgain,retrieve_reads _ _ hpending]
  simp only [if_pos hgot.back,if_pos hsent]

end Routes

section Transparent

variable {σ : Type*} {process : σ → Packet → σ × Packet} {slaves : List (RingSlave σ)}
variable {p : Port} {red : Stack} {idx : Nat} {broken : Option Nat}

/-- A frame that is sent and waited for on a ring: the broken link, if there is one, the results of
`send`, and what arrives while the master waits. -/
structure Passage where
  broken : Option Nat
  sent : Bool
  sent2 : Bool
  polls : List Arrivals
  resend : Packet → Resent

/-- The ring after `ecx_outframe_red`. -/
def Passage.transit (x : Passage) (process : σ → Packet → σ × Packet)
    (slaves : List (RingSlave σ)) (p : Port) (idx : Nat) : Transit σ :=
  Nicdrv.transit process slaves x.broken (p.outframeRed idx x.sent x.sent2).1

/-- The result of `ecx_waitinframe_red`. -/
def Passage.waited (x : Passage) (p : Port) (idx : Nat) : Waited :=
  (p.outframeRed idx x.sent x.sent2).2.waitinframe idx x.polls x.resend

/-- The slaves after `ecx_waitinframe_red`. -/
def Passage.after (x : Passage) (process : σ → Packet → σ × Packet)
    (slaves : List (RingSlave σ)) (p : Port) (idx : Nat) : List (RingSlave σ) :=
  afterWait process (x.transit process slaves p idx).slaves x.broken (x.waited p idx)

/-- No frame is lost but on the broken link: what the ring brings back arrives before the timer
expires. A link of the master that is broken may make `send` fail. -/
structure Passage.NoLoss (x : Passage) (process : σ → Packet → σ × Packet)
    (slaves : List (RingSlave σ)) (p : Port) (idx : Nat) : Prop where
  link : ∀ k,x.broken=some k → k ≤ slaves.length
  sent : x.sent=true ∨ x.broken=some 0
  sent2 : x.sent2=true ∨ x.broken=some slaves.length
  primary : x.polls.flatMap Arrivals.primary=(x.transit process slaves p idx).primary
  secondary : x.polls.flatMap Arrivals.secondary=(x.transit process slaves p idx).secondary
  again : ∀ q,(x.resend q).sent=true ∧ (x.resend q).first++(x.resend q).later.flatten=
    (fromSecondary process true (x.transit process slaves p idx).slaves x.broken q).secondary

def intact (process : σ → Packet → σ × Packet) (slaves : List (RingSlave σ)) (p : Port)
    (idx : Nat) : List (RingSlave σ) × Packet := forward process true slaves (p.dataFrame idx)

/-- The frame behind its ethernet header. -/
def payload (q : Packet) : Buffer := fun i => packetBuffer q (ethHeadersize+i)

/-- A wait ends as it does on an intact ring. -/
structure Through (process : σ → Packet → σ × Packet) (slaves : List (RingSlave σ)) (p : Port)
    (idx : Nat) (w : Waited) (after : List (RingSlave σ)) : Prop where
  wkc : w.wkc=bufferWkc (payload (intact process slaves p idx).2)
  rxbuf : readBytes (w.port.stack.rxbuf idx) 0 (p.txbuflength idx-ethHeadersize)=
    (intact process slaves p idx).2.drop ethHeadersize
  slaves : after=(intact process slaves p idx).1

theorem dataFrame_length (p : Port) (idx : Nat) :
    (p.dataFrame idx).length=p.txbuflength idx := readBytes_length _ _ _

theorem payload_contents {b : Buffer} {q : Packet}
    (helength : leWord (payload q) 0%0x1000+2+ethHeadersize=q.length)
    (hb : ∀ i,i < q.length-ethHeadersize → b i=payload q i) :
    (leWord b (leWord (payload q) 0%0x1000) : Int)=bufferWkc (payload q) ∧
      readBytes b 0 (q.length-ethHeadersize)=q.drop ethHeadersize := by
  have hword : ∀ l,l+1 < q.length-ethHeadersize → leWord b l=leWord (payload q) l := by
    intro l hl
    rw [leWord,leWord,hb l (by omega),hb (l+1) hl]
  constructor
  · rw [bufferWkc,hword _ (by omega)]
  · apply List.ext_getElem
    · rw [readBytes_length,List.length_drop]
    · intro i hi hi'
      rw [readBytes_length] at hi
      have hread := readBytes_get b 0 (q.length-ethHeadersize) hi
      rw [List.getD_eq_getElem?_getD,List.getElem?_eq_getElem (by rw [readBytes_length]; exact hi),
        Option.getD_some,Nat.zero_add] at hread
      rw [hread,hb i hi,payload,packetBuffer,List.getD_eq_getElem?_getD,
        List.getElem?_eq_getElem (by omega),Option.getD_some,List.getElem_drop]

theorem contents_eq {b : Buffer} {q : Packet} (h : p.Ready red idx)
    (hkeeps : Keeps (p.dataFrame idx) q)
    (hb : ∀ i,i < p.txbuflength idx-ethHeadersize → ethHeadersize+i < q.length →
      b i=packetBuffer q (ethHeadersize+i)) :
    (leWord b (leWord (packetBuffer q) ethHeadersize%0x1000) : Int)=bufferWkc (payload q) ∧
      readBytes b 0 (p.txbuflength idx-ethHeadersize)=q.drop ethHeadersize := by
  have hlen : q.length=p.txbuflength idx := hkeeps.length.trans (dataFrame_length p idx)
  have hbyte : ∀ i,ethHeadersize ≤ i → i ≤ indexOffset → packetBuffer q i=p.txbuf idx i := by
    intro i hlow hhigh
    have hlong := h.long
    rw [hkeeps.header i (le_trans (by decide) hlow) hhigh,Port.dataFrame,
      packetBuffer_read _ (by omega),primaryFrame_other _ _ (le_trans (by decide) hlow)]
  have hword : leWord (payload q) 0=leWord (p.txbuf idx) ethHeadersize := by
    rw [leWord,leWord,payload,payload,hbyte _ (by decide) (by decide),
      hbyte _ (by decide) (by decide)]
    rfl
  rw [← hlen]
  apply payload_contents
  · rw [hword,hlen]
    exact h.elength
  · intro i hi
    exact hb i (by rw [← hlen]; exact hi) (by omega)

theorem copySecondary_rxbuf (p : Port) (s2 : Stack) (idx : Nat) :
    readBytes ((p.copySecondary s2 idx).stack.rxbuf idx) 0 (p.txbuflength idx-ethHeadersize)=
      readBytes (s2.rxbuf idx) 0 (p.txbuflength idx-ethHeadersize) := by
  apply List.map_congr_left
  intro i hi
  have hi := List.mem_range.mp hi
  rw [Port.copySecondary]
  simp only [Function.update_self,Nat.zero_add]
  rw [writeBytes,readBytes_length,if_pos ⟨Nat.zero_le i,by omega⟩,Nat.sub_zero,readBytes_get _ _ _ hi,
    Nat.zero_add]

theorem pending_one (txbuflength : Nat → Nat) {s : Stack} {q : Packet} (hsocket : s.socket=[])
    (hstat : s.rxbufstat idx≠.rcvd) (hown : Own idx q) :
    ∃ f,Got txbuflength idx q f ∧ Pending txbuflength idx f [q] (ecNoFrame,s) := by
  refine ⟨_,inframe_own txbuflength hown (s := s.arrive [q]) ?_ hstat,
    .coming hsocket hstat hown rfl⟩
  rw [Stack.arrive,hsocket]
  rfl

/-- The wait of a port behind `ecx_outframe_red`, when the frames on both stacks are known. -/
theorem waited_eq (h : p.Ready red idx) (x : Passage) (f1 f2 : Int × Stack)
    (h1 : Pending p.txbuflength idx f1 (x.polls.flatMap Arrivals.primary)
      (ecNoFrame,p.stack.transmitted idx x.sent))
    (h2 : Pending p.txbuflength idx f2 (x.polls.flatMap Arrivals.secondary)
      (ecNoFrame,red.transmitted idx x.sent2)) :
    x.waited p idx=((p.outframeRed idx x.sent x.sent2).2.withStack f1.2).reroute f2.2 idx f1.1 f2.1
      x.resend := by
  obtain ⟨-,hred,hstack,-,hlen⟩ := h.outframe x.sent x.sent2
  rw [Passage.waited,Port.waitinframe]
  simp only [hred]
  rw [hlen,hstack,waitLoop_reads h1 h2]
  simp only [Port.withStack,hred,hlen]

theorem afterWait_none {w : Waited} (h : w.resent=none) (slaves : List (RingSlave σ)) :
    afterWait process slaves broken w=slaves := by
  rw [afterWait,h]

theorem afterWait_some {w : Waited} {q : Packet} (h : w.resent=some q)
    (slaves : List (RingSlave σ)) :
    afterWait process slaves broken w=(fromSecondary process true slaves broken q).slaves := by
  rw [afterWait,h]

section Breaks

variable {x : Passage}

theorem through_intact (hp : Processing process) (h : p.Ready red idx)
    (hx : x.NoLoss process slaves p idx) (hbroken : x.broken=none) :
    Through process slaves p idx (x.waited p idx) (x.after process slaves p idx) := by
  obtain ⟨hout,-,-,-,hlen⟩ := h.outframe x.sent x.sent2
  have hsent : x.sent=true := hx.sent.resolve_right (fun hc => by rw [hbroken] at hc; cases hc)
  have hsent2 : x.sent2=true := hx.sent2.resolve_right (fun hc => by rw [hbroken] at hc; cases hc)
  have hring : x.transit process slaves p idx=⟨(intact process slaves p idx).1,
      [p.dummyPacket idx],[(intact process slaves p idx).2]⟩ := by
    rw [Passage.transit,hout,hbroken,if_pos hsent,if_pos hsent2]
    rfl
  have hkeeps := forward_keeps hp true slaves (p.dataFrame idx)
  obtain ⟨hdata,hprim⟩ := h.data_own
  obtain ⟨hdummy,-,hsec⟩ := h.dummy_own
  obtain ⟨f1,hf1,hpend1⟩ := pending_one p.txbuflength
    (s := p.stack.transmitted idx x.sent) h.socket (transmitted_stat _ _ _) hdummy
  obtain ⟨f2,hf2,hpend2⟩ := pending_one p.txbuflength
    (s := red.transmitted idx x.sent2) h.socket2 (transmitted_stat _ _ _) (hkeeps.own hdata)
  have hwait := waited_eq h x f1 f2 (by rw [hx.primary,hring]; exact hpend1)
    (by rw [hx.secondary,hring]; exact hpend2)
  rw [reroute_normal (by rw [hlen]; exact hf1) (by rw [hlen]; exact hf2) hsec
    (hkeeps.sa1.trans hprim)] at hwait
  obtain ⟨hwkc,hbuf⟩ := contents_eq h hkeeps hf2.contents
  refine ⟨?_,?_,?_⟩
  · rw [hwait]
    exact hf2.wkc.trans hwkc
  · rw [hwait,← hlen]
    refine (copySecondary_rxbuf _ f2.2 idx).trans ?_
    rw [Port.withStack,hlen]
    exact hbuf
  · rw [Passage.after,afterWait_none (by rw [hwait]),hring]

theorem fromPrimary_broken (slaves : List (RingSlave σ)) {k : Nat} (hk : k≠0) (q : Packet) :
    fromPrimary process slaves (some k) q=
      ⟨(forward process true (slaves.take k) q).1++slaves.drop k,
        [(forward process true (slaves.take k) q).2],[]⟩ := by
  simp only [fromPrimary]
  rw [if_neg hk]

theorem fromSecondary_broken (data : Bool) {slaves : List (RingSlave σ)} {k : Nat}
    (hk : k < slaves.length) (q : Packet) :
    fromSecondary process data slaves (some k) q=
      ⟨slaves.take k++(forward process data (slaves.drop k) q).1,[],
        [(forward process data (slaves.drop k) q).2]⟩ := by
  simp only [fromSecondary]
  rw [if_neg (Nat.not_le.mpr hk)]

/-- The link of the primary socket is broken: the data frame is sent again on the other side. -/
theorem through_primary (hp : Processing process) (hne : slaves≠[]) (h : p.Ready red idx)
    (hx : x.NoLoss process slaves p idx) (hbroken : x.broken=some 0) :
    Through process slaves p idx (x.waited p idx) (x.after process slaves p idx) := by
  obtain ⟨hout,hred,hstack,htxbuf,hlen⟩ := h.outframe x.sent x.sent2
  have hpos : 0 < slaves.length := List.length_pos_of_ne_nil hne
  have hsent2 : x.sent2=true := by
    apply hx.sent2.resolve_right
    intro hc
    rw [hbroken] at hc
    exact hpos.ne (Option.some.inj hc)
  obtain ⟨hdata,hprim⟩ := h.data_own
  obtain ⟨hdummy,hbrd,hsec⟩ := h.dummy_own
  have hring : x.transit process slaves p idx=⟨slaves,[],
      [(forward process false slaves (p.dummyPacket idx)).2]⟩ := by
    have hlost : (match (if x.sent=true then some (p.dataFrame idx) else none) with
        | none => ⟨slaves,[],[]⟩
        | some q => fromPrimary process slaves (some 0) q)=(⟨slaves,[],[]⟩ : Transit σ) := by
      split_ifs <;> rfl
    rw [Passage.transit,hout,hbroken,transit,hlost,if_pos hsent2]
    simp only [fromSecondary_broken false hpos,List.drop_zero,List.take_zero,List.nil_append,
      forward_dummy hp slaves hbrd]
  have hkeeps := forward_keeps hp true slaves (p.dataFrame idx)
  have hkeeps2 := forward_keeps hp false slaves (p.dummyPacket idx)
  obtain ⟨f2,hf2,hpend2⟩ := pending_one p.txbuflength
    (s := red.transmitted idx x.sent2) h.socket2 (transmitted_stat _ _ _) (hkeeps2.own hdummy)
  have hwait := waited_eq h x (ecNoFrame,p.stack.transmitted idx x.sent) f2
    (by rw [hx.primary,hring]; exact .nothing h.socket (transmitted_stat _ _ _) rfl)
    (by rw [hx.secondary,hring]; exact hpend2)
  rw [reroute_lost rfl (by rw [hlen]; exact hf2) (hkeeps2.sa1.trans hsec)] at hwait
  -- the frame that is sent again is the data frame
  have hframe : ((p.outframeRed idx x.sent x.sent2).2.withStack
      (p.stack.transmitted idx x.sent)).frame idx=p.dataFrame idx := by
    rw [Port.frame,Port.withStack]
    simp only [htxbuf,hlen]
    rfl
  obtain ⟨hagain,hback⟩ := hx.again (p.dataFrame idx)
  rw [hring,hbroken,fromSecondary_broken true hpos,List.drop_zero] at hback
  obtain ⟨f3,hf3,hsend⟩ := sendAgain_back (p := (p.outframeRed idx x.sent x.sent2).2.withStack
    (p.stack.transmitted idx x.sent)) hf2.socket ecNoFrame
    (by rw [hframe]; exact hagain) (by rw [hframe]; exact hback) (hkeeps.own hdata)
  rw [hsend] at hwait
  obtain ⟨hwkc,hbuf⟩ := contents_eq h hkeeps (by rw [← hlen]; exact hf3.contents)
  refine ⟨?_,?_,?_⟩
  · rw [hwait]
    exact hf3.wkc.trans hwkc
  · rw [hwait,← hlen]
    refine (copySecondary_rxbuf _ f3.2 idx).trans ?_
    rw [Port.withStack,hlen]
    exact hbuf
  · rw [Passage.after,afterWait_some (by rw [hwait,hframe]),hring,hbroken,
      fromSecondary_broken true hpos,List.drop_zero,List.take_zero]
    rfl

/-- The link of the secondary socket is broken: the data frame comes back through all slaves. -/
theorem through_secondary (hp : Processing process) (hne : slaves≠[]) (h : p.Ready red idx)
    (hx : x.NoLoss process slaves p idx) (hbroken : x.broken=some slaves.length) :
    Through process slaves p idx (x.waited p idx) (x.after process slaves p idx) := by
  obtain ⟨hout,-,-,-,hlen⟩ := h.outframe x.sent x.sent2
  have hpos : slaves.length≠0 := (List.length_pos_of_ne_nil hne).ne'
  have hsent : x.sent=true := by
    apply hx.sent.resolve_right
    intro hc
    rw [hbroken] at hc
    exact hpos (Option.some.inj hc)
  obtain ⟨hdata,hprim⟩ := h.data_own
  have hring : x.transit process slaves p idx=⟨(intact process slaves p idx).1,
      [(intact process slaves p idx).2],[]⟩ := by
    have hlost : ∀ t : List (RingSlave σ),t.length=slaves.length →
        (match (if x.sent2=true then some (p.dummyPacket idx) else none) with
        | none => ⟨t,[],[]⟩
        | some q => fromSecondary process false t (some slaves.length) q)=
          (⟨t,[],[]⟩ : Transit σ) := by
      intro t ht
      split_ifs
      · simp only [fromSecondary]
        rw [if_pos (le_of_eq ht)]
      · rfl
    rw [Passage.transit,hout,hbroken,transit,if_pos hsent]
    simp only [fromPrimary_broken slaves hpos,List.take_length,List.drop_length,List.append_nil]
    rw [hlost _ (forward_length true slaves _)]
    rfl
  have hkeeps := forward_keeps hp true slaves (p.dataFrame idx)
  obtain ⟨f1,hf1,hpend1⟩ := pending_one p.txbuflength
    (s := p.stack.transmitted idx x.sent) h.socket (transmitted_stat _ _ _) (hkeeps.own hdata)
  have hwait := waited_eq h x f1 (ecNoFrame,red.transmitted idx x.sent2)
    (by rw [hx.primary,hring]; exact hpend1)
    (by rw [hx.secondary,hring]; exact .nothing h.socket2 (transmitted_stat _ _ _) rfl)
  rw [reroute_kept (by rw [hlen]; exact hf1) (hkeeps.sa1.trans hprim) rfl] at hwait
  obtain ⟨hwkc,hbuf⟩ := contents_eq h hkeeps hf1.contents
  refine ⟨?_,?_,?_⟩
  · rw [hwait]
    exact hf1.wkc.trans hwkc
  · rw [hwait]
    exact hbuf
  · rw [Passage.after,afterWait_none (by rw [hwait]),hring]

theorem payload_congr {q r : Packet} (h : q.drop ethHeadersize=r.drop ethHeadersize) :
    payload q=payload r := by
  funext i
  rw [payload,payload,packetBuffer,packetBuffer,List.getD_eq_getElem?_getD,
    List.getD_eq_getElem?_getD,← List.getElem?_drop,← List.getElem?_drop,h]

/-- What has come back on the primary socket, with the header of the frame that was sent. -/
theorem copyReceived_frame (h : p.Ready red idx) {r : Packet} (hkeeps : Keeps (p.dataFrame idx) r)
    {f : Int × Stack} (hf : Got p.txbuflength idx r f) (sent sent2 : Bool) :
    Keeps (p.dataFrame idx)
        ((((p.outframeRed idx sent sent2).2.withStack f.2).copyReceived idx).frame idx) ∧
      ((((p.outframeRed idx sent sent2).2.withStack f.2).copyReceived idx).frame idx).drop
        ethHeadersize=r.drop ethHeadersize := by
  obtain ⟨-,-,-,htxbuf,hlen⟩ := h.outframe sent sent2
  have hlong := h.long
  have hsize : r.length=p.txbuflength idx := hkeeps.length.trans (dataFrame_length p idx)
  have hframe : (((p.outframeRed idx sent sent2).2.withStack f.2).copyReceived idx).frame idx=
      readBytes (writeBytes (p.primaryFrame idx) ethHeadersize
        (readBytes (f.2.rxbuf idx) 0 (p.txbuflength idx-ethHeadersize))) 0
        (p.txbuflength idx) := by
    rw [Port.frame,Port.copyReceived,Port.withStack]
    simp only [Function.update_self,htxbuf,hlen]
  have hget : ∀ i,i < p.txbuflength idx →
      writeBytes (p.primaryFrame idx) ethHeadersize
        (readBytes (f.2.rxbuf idx) 0 (p.txbuflength idx-ethHeadersize)) i=
      if i < ethHeadersize then p.primaryFrame idx i else packetBuffer r i := by
    intro i hi
    rw [writeBytes,readBytes_length]
    by_cases hlow : i < ethHeadersize
    · rw [if_pos hlow,if_neg (by omega)]
    · rw [if_neg hlow,if_pos (by omega),readBytes_get _ _ _ (by omega),Nat.zero_add,
        hf.contents _ (by omega) (by rw [hsize]; omega)]
      congr 1
      omega
  rw [hframe]
  constructor
  · refine ⟨by rw [readBytes_length,dataFrame_length],?_⟩
    intro i hlow hhigh
    rw [packetBuffer_read _ (by omega),hget i (by omega)]
    split_ifs
    · rw [Port.dataFrame,packetBuffer_read _ (by omega)]
    · exact hkeeps.header i hlow hhigh
  · apply List.ext_getElem
    · rw [List.length_drop,List.length_drop,readBytes_length,hsize]
    · intro i hi hi'
      rw [List.length_drop] at hi'
      have hin : ethHeadersize+i < p.txbuflength idx := by rw [← hsize]; omega
      have hread := readBytes_get (writeBytes (p.primaryFrame idx) ethHeadersize
        (readBytes (f.2.rxbuf idx) 0 (p.txbuflength idx-ethHeadersize))) 0
        (p.txbuflength idx) hin
      rw [Nat.zero_add,hget _ hin,if_neg (by omega),packetBuffer,List.getD_eq_getElem?_getD,
        List.getD_eq_getElem?_getD,List.getElem?_eq_getElem (by rw [readBytes_length]; exact hin),
        List.getElem?_eq_getElem (by rw [hsize]; exact hin),Option.getD_some,
        Option.getD_some] at hread
      rw [List.getElem_drop,List.getElem_drop]
      exact hread

/-- A link between slaves is broken: what the first slaves have made of the data frame is sent to the
others. -/
theorem through_parted (hp : Processing process) (h : p.Ready red idx)
    (hx : x.NoLoss process slaves p idx) {k : Nat} (hbroken : x.broken=some k) (hk : k≠0)
    (hlast : k < slaves.length) :
    Through process slaves p idx (x.waited p idx) (x.after process slaves p idx) := by
  obtain ⟨hout,-,-,htxbuf,hlen⟩ := h.outframe x.sent x.sent2
  have hsent : x.sent=true := by
    apply hx.sent.resolve_right
    intro hc
    rw [hbroken] at hc
    exact hk (Option.some.inj hc)
  have hsent2 : x.sent2=true := by
    apply hx.sent2.resolve_right
    intro hc
    rw [hbroken] at hc
    exact hlast.ne (Option.some.inj hc)
  obtain ⟨hdata,hprim⟩ := h.data_own
  obtain ⟨hdummy,hbrd,hsec⟩ := h.dummy_own
  -- the slaves before the broken link, and those behind it
  obtain ⟨front,r,hfront⟩ : ∃ front r,
      forward process true (slaves.take k) (p.dataFrame idx)=(front,r) := ⟨_,_,rfl⟩
  have hfrontlen : front.length=k := by
    have hlength : (forward process true (slaves.take k) (p.dataFrame idx)).1.length=
        (slaves.take k).length := forward_length true _ _
    rw [hfront,List.length_take,Nat.min_eq_left hlast.le] at hlength
    exact hlength
  have hkeeps1 : Keeps (p.dataFrame idx) r := by
    have := forward_keeps hp true (slaves.take k) (p.dataFrame idx)
    rw [hfront] at this
    exact this
  have hwhole : intact process slaves p idx=
      (front++(forward process true (slaves.drop k) r).1,
        (forward process true (slaves.drop k) r).2) := by
    rw [intact,← List.take_append_drop k slaves,forward_append,hfront,List.take_append_drop]
  have hall : k < (front++slaves.drop k).length := by
    rw [List.length_append,List.length_drop,hfrontlen]
    omega
  have htake : (front++slaves.drop k).take k=front := List.take_left' hfrontlen
  have hdrop : (front++slaves.drop k).drop k=slaves.drop k := List.drop_left' hfrontlen
  have hring : x.transit process slaves p idx=⟨front++slaves.drop k,[r],
      [(forward process false (slaves.drop k) (p.dummyPacket idx)).2]⟩ := by
    rw [Passage.transit,hout,hbroken,transit,if_pos hsent,if_pos hsent2]
    simp only [fromPrimary_broken slaves hk,hfront,fromSecondary_broken false hall,htake,hdrop,
      forward_dummy hp _ hbrd,List.append_nil,List.nil_append]
  have hkeeps2 := forward_keeps hp false (slaves.drop k) (p.dummyPacket idx)
  obtain ⟨f1,hf1,hpend1⟩ := pending_one p.txbuflength
    (s := p.stack.transmitted idx x.sent) h.socket (transmitted_stat _ _ _) (hkeeps1.own hdata)
  obtain ⟨f2,hf2,hpend2⟩ := pending_one p.txbuflength
    (s := red.transmitted idx x.sent2) h.socket2 (transmitted_stat _ _ _) (hkeeps2.own hdummy)
  have hwait := waited_eq h x f1 f2 (by rw [hx.primary,hring]; exact hpend1)
    (by rw [hx.secondary,hring]; exact hpend2)
  rw [reroute_parted (by rw [hlen]; exact hf1) (by rw [hlen]; exact hf2) (hkeeps1.sa1.trans hprim)
    (hkeeps2.sa1.trans hsec)] at hwait
  obtain ⟨hkeeps3,hpayload⟩ := copyReceived_frame h hkeeps1 hf1 x.sent x.sent2
  generalize hport : ((p.outframeRed idx x.sent x.sent2).2.withStack f1.2).copyReceived idx=p' at *
  have hlen' : p'.txbuflength=p.txbuflength := by
    rw [← hport]
    exact hlen
  -- the slaves behind the link go on with what has come back
  obtain ⟨hslaves,hrest⟩ := forward_payload hp true (slaves.drop k) hpayload
  have hkeeps := hkeeps3.trans (forward_keeps hp true (slaves.drop k) (p'.frame idx))
  obtain ⟨hagain,hback⟩ := hx.again (p'.frame idx)
  rw [hring,hbroken,fromSecondary_broken true hall,hdrop] at hback
  obtain ⟨f3,hf3,hsend⟩ := sendAgain_back hf2.socket f1.1 hagain hback (hkeeps.own hdata)
  rw [hsend] at hwait
  obtain ⟨hwkc,hbuf⟩ := contents_eq h hkeeps (by rw [← hlen']; exact hf3.contents)
  refine ⟨?_,?_,?_⟩
  · rw [hwait,hwhole,← payload_congr hrest]
    exact hf3.wkc.trans hwkc
  · rw [hwait,← hlen',hwhole,← hrest]
    refine (copySecondary_rxbuf _ f3.2 idx).trans ?_
    rw [hlen']
    exact hbuf
  · rw [Passage.after,afterWait_some (by rw [hwait]),hring,hbroken,fromSecondary_broken true hall,
      htake,hdrop,hwhole,hslaves]

end Breaks

/-- Wherever the ring is broken, a frame is handed back as from an intact ring, and every slave has
processed it once. -/
theorem ring_transparent (hp : Processing process) (hne : slaves≠[]) (h : p.Ready red idx)
    {x y : Passage} (hx : x.NoLoss process slaves p idx) (hy : y.NoLoss process slaves p idx)
    (hintact : y.broken=none) :
    (x.waited p idx).wkc=(y.waited p idx).wkc ∧
      readBytes ((x.waited p idx).port.stack.rxbuf idx) 0 (p.txbuflength idx-ethHeadersize)=
        readBytes ((y.waited p idx).port.stack.rxbuf idx) 0 (p.txbuflength idx-ethHeadersize) ∧
      x.after process slaves p idx=y.after process slaves p idx ∧
      (x.after process slaves p idx).map RingSlave.passes=slaves.map (fun s => s.passes+1) := by
  have hthrough : Through process slaves p idx (x.waited p idx) (x.after process slaves p idx) := by
    cases hbroken : x.broken with
    | none => exact through_intact hp h hx hbroken
    | some k =>
      have hle := hx.link k hbroken
      by_cases hk : k=0
      · exact through_primary hp hne h hx (by rw [hbroken,hk])
      · by_cases hlast : k=slaves.length
        · exact through_secondary hp hne h hx (by rw [hbroken,hlast])
        · exact through_parted hp h hx hbroken hk (by omega)
  have hwhole := through_intact hp h hy hintact
  refine ⟨hthrough.wkc.trans hwhole.wkc.symm,hthrough.rxbuf.trans hwhole.rxbuf.symm,
    hthrough.slaves.trans hwhole.slaves.symm,?_⟩
  rw [hthrough.slaves]
  exact forward_passes slaves (p.dataFrame idx)

/-- A slave that takes the first byte of a data frame, and counts in the working counter. -/
def countingSlave (s : UInt8) (q : Packet) : UInt8 × Packet :=
  let wkc := ethHeadersize+leWord (payload q) 0%0x1000
  (if payload q 2=brdCode then s else payload q 12,
    if 22 ≤ wkc then q.set wkc (packetBuffer q wkc+1) else q)

theorem countingSlave_processing : Processing countingSlave := by
  have hother : ∀ (q : Packet) (wkc i : Nat) (v : UInt8),i < wkc →
      packetBuffer (q.set wkc v) i=packetBuffer q i := by
    intro q wkc i v hi
    rw [packetBuffer,packetBuffer,List.getD_eq_getElem?_getD,List.getD_eq_getElem?_getD,
      List.getElem?_set_ne (by omega)]
  refine ⟨?_,?_,?_⟩
  · intro s q
    simp only [countingSlave]
    split_ifs with hwkc
    · refine ⟨List.length_set,fun i _ hi => ?_⟩
      rw [indexOffset] at hi
      exact hother q _ i _ (by omega)
    · exact Keeps.refl q
  · intro s q r hdrop
    have hpayload := payload_congr hdrop
    have hbyte : ∀ l,packetBuffer q (ethHeadersize+l)=packetBuffer r (ethHeadersize+l) :=
      fun l => congrFun hpayload l
    simp only [countingSlave,hpayload,true_and]
    split_ifs
    · rw [List.drop_set,List.drop_set,hdrop,hbyte]
    · exact hdrop
  · intro s q hdummy
    have hcommand : payload q 2=brdCode := hdummy.1
    simp only [countingSlave,if_pos hcommand,true_and]
    split_ifs with hwkc
    · refine ⟨?_,?_⟩
      · rw [hother q _ _ _ (by rw [commandOffset]; omega)]
        exact hdummy.1
      · rw [leWord,hother q _ _ _ (by rw [adoOffset]; omega),
          hother q _ _ _ (by rw [adoOffset]; omega)]
        exact hdummy.2
    · exact hdummy

/-- A redundant port with a frame LWR for index 3, with one byte of data. -/
def ringPort : Port where
  stack := ⟨fun _ => .alloc,fun _ _ => 0,fun _ => 0,fun _ => 0,[]⟩
  redport := some ⟨fun _ => .alloc,fun _ _ => 0,fun _ => 0,fun _ => 0,[]⟩
  txbuf := fun _ => packetBuffer [255,255,255,255,255,255,1,1,1,1,1,1,0x88,0xA4,
    13,16,11,3,0,0,1,0,1,0,0,0,7,0,0]
  txbuflength := fun _ => 29
  txbuf2 := packetBuffer [255,255,255,255,255,255,1,1,4,4,1,1,0x88,0xA4,
    14,16,7,0,0,0,0,0,2,0,0,0,0,0,0,0]
  txbuflength2 := 30
  lastidx := 3

/-- Everything comes in at once. -/
def directPassage (slaves : List (RingSlave UInt8)) (broken : Option Nat) : Passage :=
  let t := transit countingSlave slaves broken (ringPort.outframeRed 3 true true).1
  ⟨broken,true,true,[⟨t.primary,t.secondary⟩],
    fun q => ⟨true,(fromSecondary countingSlave true t.slaves broken q).secondary,[]⟩⟩

theorem directPassage_noLoss (slaves : List (RingSlave UInt8)) (broken : Option Nat)
    (hlink : ∀ k,broken=some k → k ≤ slaves.length) :
    (directPassage slaves broken).NoLoss countingSlave slaves ringPort 3 :=
  ⟨hlink,.inl rfl,.inl rfl,List.append_nil _,List.append_nil _,fun _ => ⟨rfl,List.append_nil _⟩⟩

theorem split_ring_transparent :
    ((directPassage [⟨0,0⟩,⟨0,0⟩] (some 1)).waited ringPort 3).wkc=2 ∧
      (directPassage [⟨0,0⟩,⟨0,0⟩] (some 1)).after countingSlave [⟨0,0⟩,⟨0,0⟩] ringPort 3=
        (directPassage [⟨0,0⟩,⟨0,0⟩] none).after countingSlave [⟨0,0⟩,⟨0,0⟩] ringPort 3 := by
  have hready : ringPort.Ready ⟨fun _ => .alloc,fun _ _ => 0,fun _ => 0,fun _ => 0,[]⟩ 3 :=
    ⟨rfl,rfl,rfl,by decide,by decide,by decide,by decide,by decide,by decide,by decide,by decide,
      by decide,by decide,by decide⟩
  have h := ring_transparent countingSlave_processing (by decide) hready
    (directPassage_noLoss [⟨0,0⟩,⟨0,0⟩] (some 1) (by decide))
    (directPassage_noLoss [⟨0,0⟩,⟨0,0⟩] none (by decide)) rfl
  refine ⟨h.1.trans ?_,h.2.2.1⟩
  decide +kernel

end Transparent

end EtherCATMaster.Nicdrv
