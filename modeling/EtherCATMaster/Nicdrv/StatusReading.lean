import EtherCATMaster.Nicdrv.Line

namespace EtherCATMaster.Nicdrv

open EtherCATMaster.Framework
open EtherCATMaster.Mapping (ecBufsize ethHeadersize ecHeadersize writeBytes readBytes)

/-- `ec_alstatust` -/
structure AlStatus where
  alstatus : UInt16
  unused : UInt16
  alstatuscode : UInt16
  deriving DecidableEq, Repr

def AlStatus.zero : AlStatus := ⟨0,0,0⟩

def AlStatus.bytes (s : AlStatus) : List UInt8 := le16 s.alstatus++(le16 s.unused++le16 s.alstatuscode)

def AlStatus.ofBytes (bytes : List UInt8) : AlStatus := ⟨get16 bytes 0,get16 bytes 2,get16 bytes 4⟩

/-- `ECT_REG_ALSTAT` -/
def ectRegAlstat : UInt16 := 0x0130

def maxFprdMulti : Nat := 64

/-- The status of a slave. -/
def LineSlave.alStatus (s : LineSlave) : AlStatus := .ofBytes (s.read ectRegAlstat 6)

def statusOrder (configadr : UInt16) (status : AlStatus) : Order :=
  ⟨fprdCode,configadr,ectRegAlstat,status.bytes⟩

/-- The datagrams of `ecx_FPRD_multi` behind the first one. -/
def statusOrders (n : Nat) (configlst : Nat → UInt16) (slstatlst : Nat → AlStatus) : List Order :=
  (List.range (n-1)).map fun i => statusOrder (configlst (i+1)) (slstatlst (i+1))

def Port.load (port : Port) (idx : Nat) (frame : Txframe) : Port :=
  { port with
    txbuf := Function.update port.txbuf idx frame.bytes
    txbuflength := Function.update port.txbuflength idx frame.length }

/-- `ecx_FPRD_multi`, with `ecx_srconfirm` as it is on the line. -/
def fprdMulti (srconfirm : Port → Nat → Int × Port) (port : Port) (n : Nat)
    (configlst : Nat → UInt16) (slstatlst : Nat → AlStatus) : Int × (Nat → AlStatus) × Port :=
  let (idx,port) := port.getindex
  let (offsets,frame) := buildFrame (UInt8.ofNat idx) (statusOrder (configlst 0) (slstatlst 0))
    (statusOrders n configlst slstatlst) (port.txbuf idx)
  let (wkc,port) := srconfirm (port.load idx frame) idx
  let sldatapos := ecHeadersize::offsets
  let slstatlst := if 0 ≤ wkc then fun i =>
      if i < n then .ofBytes (readBytes (port.stack.rxbuf idx) (sldatapos.getD i 0) 6)
      else slstatlst i
    else slstatlst
  (wkc,slstatlst,port.setbufstat idx .empty)

theorem framed_six {os : List Order} (h : ∀ o ∈ os,o.data.length=6) : framed os=18*os.length := by
  induction os with
  | nil => rfl
  | cons o rest ih =>
    rw [framed,h o List.mem_cons_self,ih fun x hx => h x (List.mem_cons_of_mem _ hx),
      List.length_cons]
    omega

theorem fprdMulti_fits {n : Nat} (hn : 1 ≤ n) (hmax : n ≤ maxFprdMulti) (configlst : Nat → UInt16)
    (slstatlst : Nat → AlStatus) :
    16+framed (statusOrder (configlst 0) (slstatlst 0)::statusOrders n configlst slstatlst) ≤
      ecBufsize := by
  have hsix : ∀ o ∈ statusOrder (configlst 0) (slstatlst 0)::statusOrders n configlst slstatlst,
      o.data.length=6 := by
    intro o ho
    rcases List.mem_cons.mp ho with rfl|hin
    · rfl
    · obtain ⟨i,-,rfl⟩ := List.mem_map.mp hin
      rfl
  have hlength : (statusOrders n configlst slstatlst).length=n-1 := by
    rw [statusOrders,List.length_map,List.length_range]
  rw [maxFprdMulti] at hmax
  rw [framed_six hsix,List.length_cons,hlength,ecBufsize]
  omega

theorem statusOrders_get {n i : Nat} (hi : i < n) (configlst : Nat → UInt16)
    (slstatlst : Nat → AlStatus) :
    (statusOrder (configlst 0) (slstatlst 0)::statusOrders n configlst slstatlst)[i]?=
      some (statusOrder (configlst i) (slstatlst i)) := by
  cases i with
  | zero => rfl
  | succ i =>
    rw [List.getElem?_cons_succ,statusOrders,List.getElem?_map,List.getElem?_range (by omega)]
    rfl

theorem bufferWkc_nonneg (b : Buffer) : 0 ≤ bufferWkc b := Int.natCast_nonneg _

/-- Every slave in a multiple read gets its own status. -/
theorem fprdMulti_own {line : List LineSlave} (hnodup : (line.map LineSlave.configadr).Nodup)
    (port : Port) {n : Nat} (hn : 1 ≤ n) (hmax : n ≤ maxFprdMulti) (configlst : Nat → UInt16)
    (slstatlst : Nat → AlStatus) {i : Nat} (hi : i < n) {s : LineSlave} (hs : s ∈ line)
    (ha : configlst i=s.configadr) :
    (fprdMulti (lossless line) port n configlst slstatlst).2.1 i=s.alStatus := by
  let idx := port.getindex.1
  let built := buildFrame (UInt8.ofNat idx) (statusOrder (configlst 0) (slstatlst 0))
    (statusOrders n configlst slstatlst) (port.getindex.2.txbuf idx)
  let loaded := port.getindex.2.load idx built.2
  have hfits := fprdMulti_fits hn hmax configlst slstatlst
  obtain ⟨ts,hcarries,hbytes,-,hcount,hoffsets⟩ := buildFrame_holds (UInt8.ofNat idx) _ _
    (port.getindex.2.txbuf idx) hfits
  have hshort : (encodeTelegrams ts).length < 2^11 := by
    rw [Carries.framed hcarries]
    rw [ecBufsize] at hfits
    omega
  have hne : ts≠[] := by
    rintro rfl
    cases hcarries
  have hloaded : readBytes (loaded.txbuf idx) 14 (loaded.txbuflength idx-14)=frameBytes ts := by
    have htx : loaded.txbuf idx=built.2.bytes := Function.update_self ..
    have hlength : loaded.txbuflength idx=built.2.length := Function.update_self ..
    rw [htx,hlength]
    exact hbytes
  have hback := returned_built line hne hshort hloaded
  -- the telegram of the slave
  obtain ⟨t,ht,hcarry⟩ := Carries.get hcarries (statusOrders_get hi configlst slstatlst)
  have hpassed : (ts.map (pass line))[i]?=some (pass line t) := by
    rw [List.getElem?_map,ht]
    rfl
  have hsix : t.data.length=6 := hcarry.length
  have hdata : (pass line t).data=s.read ectRegAlstat 6 := by
    rw [pass_own hcarry.command hnodup hs (hcarry.adp.trans ha),hsix,hcarry.ado]
    rfl
  have hplace : (ecHeadersize::built.1).getD i 0=2+dataPlace (ts.map (pass line)) i := by
    rw [dataPlace_congr (map_pass_size line ts)]
    cases i with
    | zero =>
      cases ts with
      | nil => exact absurd rfl hne
      | cons u us => rfl
    | succ i =>
      have hlt : i < built.1.length := by
        rw [hcount,statusOrders,List.length_map,List.length_range]
        omega
      rw [List.getD_cons_succ,List.getD_eq_getElem _ _ hlt]
      exact hoffsets i _ (List.getElem?_eq_getElem hlt)
  have hread : readBytes ((lossless line loaded idx).2.stack.rxbuf idx)
      ((ecHeadersize::built.1).getD i 0) 6=s.read ectRegAlstat 6 := by
    have hrx : (lossless line loaded idx).2.stack.rxbuf idx=
        writeBytes (loaded.stack.rxbuf idx) 0 (frameBytes (ts.map (pass line))) := by
      rw [← hback]
      exact Function.update_self ..
    have hlen : (pass line t).data.length=6 := by
      rw [hdata]
      rfl
    have hreceived := received_data (loaded.stack.rxbuf idx) hpassed (by
      intro hnil
      rw [hnil] at hlen
      cases hlen)
    rw [hlen,hdata] at hreceived
    rw [hrx,hplace]
    exact hreceived
  change (if 0 ≤ (lossless line loaded idx).1 then fun i =>
      if i < n then AlStatus.ofBytes (readBytes ((lossless line loaded idx).2.stack.rxbuf idx)
        ((ecHeadersize::built.1).getD i 0) 6)
      else slstatlst i
    else slstatlst) i=_
  rw [if_pos (show 0 ≤ (lossless line loaded idx).1 from bufferWkc_nonneg _)]
  simp only [hi,if_true,hread]
  rfl

/-- A frame that is built holds what was ordered: the rules give it back, the length field and
`txbuflength` agree, and every offset is that of the data in the frame as it is received. A multiple
read gives every slave its own status. -/
theorem datagram_frames :
    (∀ (idx : UInt8) (first : Order) (rest : List Order) (frame : Buffer),
      16+framed (first::rest) ≤ ecBufsize →
      ∃ ts,parseFrame (readBytes (buildFrame idx first rest frame).2.bytes ethHeadersize
          ((buildFrame idx first rest frame).2.length-ethHeadersize))=some ts ∧
        List.Forall₂ (Carries idx) (first::rest) ts ∧
        (buildFrame idx first rest frame).2.length=
          ethHeadersize+2+leWord (buildFrame idx first rest frame).2.bytes ethHeadersize%2^11 ∧
        (buildFrame idx first rest frame).1.length=rest.length ∧
        ∀ us,us.map Telegram.size=ts.map Telegram.size → ∀ k offset u,
          (buildFrame idx first rest frame).1[k]?=some offset → us[k+1]?=some u →
          ((frameBytes us).drop offset).take u.data.length=u.data) ∧
    ∀ (line : List LineSlave) (port : Port) (n : Nat) (configlst : Nat → UInt16)
      (slstatlst : Nat → AlStatus) (slaves : Nat → LineSlave),
      (line.map LineSlave.configadr).Nodup → 1 ≤ n → n ≤ maxFprdMulti →
      (∀ i < n,slaves i ∈ line ∧ configlst i=(slaves i).configadr) →
      ∀ i < n,(fprdMulti (lossless line) port n configlst slstatlst).2.1 i=(slaves i).alStatus := by
  constructor
  · intro idx first rest frame hfits
    obtain ⟨ts,hcarries,hbytes,hlength,hcount,hoffsets⟩ :=
      buildFrame_holds idx first rest frame hfits
    have hframed := Carries.framed hcarries
    have hshort : (encodeTelegrams ts).length < 2^11 := by
      rw [hframed]
      rw [ecBufsize] at hfits
      omega
    have hne : ts≠[] := by
      rintro rfl
      cases hcarries
    have hword : leWord (buildFrame idx first rest frame).2.bytes 14=
        0x1000+(encodeTelegrams ts).length := by
      have hsplit : (buildFrame idx first rest frame).2.length-14=2+framed (first::rest) := by
        rw [hlength]
        omega
      rw [hsplit,readBytes_add,frameBytes] at hbytes
      have htwo := (List.append_inj hbytes (leBytes_length _ _).symm).1
      rw [leWord_eq_leValue,htwo]
      exact leValue_leBytes _ _ (by omega)
    refine ⟨ts,?_,hcarries,?_,hcount,?_⟩
    · change parseFrame (readBytes _ 14 (_-14))=_
      rw [hbytes]
      exact parseFrame_frameBytes hne hshort
    · change _=14+2+leWord _ 14%2^11
      rw [hword,hlength,← hframed]
      omega
    · intro us hsize k offset u hk hu
      rw [hoffsets k offset hk,← dataPlace_congr hsize]
      exact frame_data hu
  · intro line port n configlst slstatlst slaves hnodup hn hmax hall i hi
    obtain ⟨hs,ha⟩ := hall i hi
    exact fprdMulti_own hnodup port hn hmax configlst slstatlst hi hs ha

/-- A slave with an AL status. -/
def slaveIn (configadr : UInt16) (state : UInt8) : LineSlave :=
  ⟨configadr,fun a => if a=0x0130 then state else 0⟩

/-- A port that has not been used. -/
def quietPort : Port where
  stack := ⟨fun _ => .empty,fun _ _ => 0,fun _ => 0,fun _ => 0,[]⟩
  redport := none
  txbuf := fun _ _ => 0
  txbuflength := fun _ => 0
  txbuf2 := fun _ => 0
  txbuflength2 := 0
  lastidx := 0

/-- The last slave of three has left SAFE_OP with an error. -/
theorem third_status_read :
    (fprdMulti (lossless [slaveIn 0x1001 8,slaveIn 0x1002 8,slaveIn 0x1003 0x14]) quietPort 3
      (fun i => UInt16.ofNat (0x1001+i)) fun _ => .zero).2.1 2=(slaveIn 0x1003 0x14).alStatus := by
  refine datagram_frames.2 [slaveIn 0x1001 8,slaveIn 0x1002 8,slaveIn 0x1003 0x14] quietPort 3 _ _
    (fun i => if i=0 then slaveIn 0x1001 8 else if i=1 then slaveIn 0x1002 8 else
      slaveIn 0x1003 0x14) (by decide) (by decide) (by decide) (fun i hi => ?_) 2 (by decide)
  match i,hi with
  | 0,_ => exact ⟨List.mem_cons_self,rfl⟩
  | 1,_ => exact ⟨List.mem_cons_of_mem _ List.mem_cons_self,rfl⟩
  | 2,_ => exact ⟨List.mem_cons_of_mem _ (List.mem_cons_of_mem _ List.mem_cons_self),rfl⟩

end EtherCATMaster.Nicdrv
