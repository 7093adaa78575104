import EtherCATMaster.Mailbox.Soe
import EtherCATMaster.Mailbox.Dialogue
import Mathlib.Data.List.Rotate
import Mathlib.Data.List.GetD

namespace EtherCATMaster.Mailbox

open EtherCATMaster.Framework

section Frames

def soePayload (mbx : List UInt8) : List UInt8 :=
  (mbx.drop soeSize).take ((sdoLength mbx).toNat-4)

/-- A fragment of an answer, in a mailbox as it is read from the slave. -/
structure isSoeFragment (cfg : SlaveCfg) (driveNo elementflags : UInt8) (mbx : List UInt8) :
    Prop where
  response : isSoeResponse ectSoeReadres driveNo elementflags mbx
  full : mbx.length=cfg.mbxRl.toNat
  header : 4 ≤ (sdoLength mbx).toNat
  fits : (sdoLength mbx).toNat+6 ≤ cfg.mbxRl.toNat

/-- The fragments of one IDN: all but the last one are marked as incomplete. -/
inductive isSoeAnswer (cfg : SlaveCfg) (driveNo elementflags : UInt8) : List (List UInt8) → Prop
  | last (mbx : List UInt8) : isSoeFragment cfg driveNo elementflags mbx → soeIncomplete mbx=0 →
      isSoeAnswer cfg driveNo elementflags [mbx]
  | more (mbx : List UInt8) (rest : List (List UInt8)) :
      isSoeFragment cfg driveNo elementflags mbx → soeIncomplete mbx≠0 →
      isSoeAnswer cfg driveNo elementflags rest → isSoeAnswer cfg driveNo elementflags (mbx::rest)

variable {cfg : SlaveCfg} {driveNo elementflags : UInt8} {mbx ys : List UInt8}

theorem isSoeFragment.payload_length (h : isSoeFragment cfg driveNo elementflags mbx) :
    (soePayload mbx).length=(sdoLength mbx).toNat-4 := by
  have hfull := h.full
  have hheader := h.header
  have hfits := h.fits
  rw [soePayload,List.length_take,List.length_drop,soeSize]
  omega

theorem isSoeFragment.front (h : isSoeFragment cfg driveNo elementflags mbx)
    (hfront : mbx <+: ys) : isSoeResponse ectSoeReadres driveNo elementflags ys ∧
      sdoLength ys=sdoLength mbx ∧ soeIncomplete ys=soeIncomplete mbx := by
  have hfull := h.full
  have hheader := h.header
  have hfits := h.fits
  obtain ⟨htype,hcode,herror,hdrive,hflags⟩ := h.response
  have h5 : byteAt ys 5=byteAt mbx 5 := byteAt_of_front hfront (by omega)
  have h6 : byteAt ys 6=byteAt mbx 6 := byteAt_of_front hfront (by omega)
  have h7 : byteAt ys 7=byteAt mbx 7 := byteAt_of_front hfront (by omega)
  refine ⟨⟨?_,?_,?_,?_,?_⟩,?_,?_⟩
  · rw [mbxType,h5]
    exact htype
  · rw [soeOpcode,h6]
    exact hcode
  · rw [soeError,h6]
    exact herror
  · rw [soeDriveNo,h6]
    exact hdrive
  · rw [soeElementflags,h7]
    exact hflags
  · rw [sdoLength,get16_of_front hfront (by omega)]
    rfl
  · rw [soeIncomplete,h6]
    rfl

theorem mbxType_soe (cnt : UInt8) : (ectMbxtSoe+(cnt <<< 4)) &&& 0x0f=ectMbxtSoe := by
  have h : ∀ v : BitVec 8,(5#8+(v <<< 4)) &&& 0x0f#8=5#8 := by decide +kernel
  apply UInt8.toBitVec_inj.mp
  simpa [ectMbxtSoe] using h cnt.toBitVec

theorem readreq_byte {driveNo : UInt8} (hd : driveNo<8) :
    (ectSoeReadreq+((0 : UInt8) <<< 3)+(driveNo <<< 5)) &&& 0x07=ectSoeReadreq ∧
      (ectSoeReadreq+((0 : UInt8) <<< 3)+(driveNo <<< 5)) >>> 5=driveNo := by
  have h : ∀ v : BitVec 8,v<8#8 →
      (1#8+(0#8 <<< 3)+(v <<< 5)) &&& 0x07#8=1#8 ∧ (1#8+(0#8 <<< 3)+(v <<< 5)) >>> 5=v := by
    decide +kernel
  obtain ⟨hcode,hdrive⟩ := h driveNo.toBitVec hd
  constructor
  · apply UInt8.toBitVec_inj.mp
    simpa [ectSoeReadreq] using hcode
  · apply UInt8.toBitVec_inj.mp
    simpa [ectSoeReadreq] using hdrive

/-- A request to read an IDN. -/
structure isSoeReadRequest (driveNo elementflags : UInt8) (idn : UInt16) (mbx : List UInt8) :
    Prop where
  type : mbxType mbx=ectMbxtSoe
  code : soeOpcode mbx=ectSoeReadreq
  drive : soeDriveNo mbx=driveNo
  elements : soeElementflags mbx=elementflags
  idn : get16 mbx 8=idn

theorem isSoeReadRequest_of_front {length : UInt16} {cnt : UInt8} {idn : UInt16} (hd : driveNo<8)
    (h : soeFrame length cnt ectSoeReadreq 0 driveNo elementflags idn [] <+: mbx) :
    isSoeReadRequest driveNo elementflags idn mbx := by
  have hlen : (soeFrame length cnt ectSoeReadreq 0 driveNo elementflags idn []).length=10 := rfl
  have htype : byteAt mbx 5=_ := byteAt_of_front h (by omega)
  have hcode : byteAt mbx 6=_ := byteAt_of_front h (by omega)
  have hflags : byteAt mbx 7=_ := byteAt_of_front h (by omega)
  have hidn : get16 mbx 8=_ := get16_of_front h (by omega)
  obtain ⟨hopcode,hdrive⟩ := readreq_byte hd
  constructor
  · rw [mbxType,htype]
    exact mbxType_soe cnt
  · rw [soeOpcode,hcode]
    exact hopcode
  · rw [soeDriveNo,hcode]
    exact hdrive
  · exact hflags
  · exact hidn.trans (get16_le16 (mbxHeader length ectMbxtSoe cnt++
      [ectSoeReadreq+((0 : UInt8) <<< 3)+(driveNo <<< 5),elementflags]) idn [])

end Frames

/-- A slave that answers each request for an IDN with all its fragments. A drive number has three
bits. -/
structure ServesIdns {σ τ : Type} (port : Port σ) (cfg : SlaveCfg)
    (answers : UInt8 → UInt8 → UInt16 → Option (List (List UInt8)))
    (view : σ → List (List UInt8) × τ) : Prop where
  line : Line port cfg view
  inbox : 10 ≤ cfg.mbxL.toNat
  whole : ∀ e,∀ mbx ∈ (view e).1,mbx.length=cfg.mbxRl.toNat
  conforms : ∀ driveNo elementflags idn mbxs,answers driveNo elementflags idn=some mbxs →
    driveNo<8 ∧ isSoeAnswer cfg driveNo elementflags mbxs
  serves : ∀ e t frame driveNo elementflags idn mbxs,view e=([],t) →
    isSoeReadRequest driveNo elementflags idn frame →
    answers driveNo elementflags idn=some mbxs → ∃ t',view (port.write e frame).2=(mbxs,t')

/-- The free list as it turns: the mailbox drawn is its first one, the one given back its last. -/
structure Turning (own ring : List Nat) (pool : MbxPool) : Prop where
  wf : pool.Wf
  free : pool.free=ring
  items : ∀ m ∈ own,m < mbxPoolSize
  distinct : (own++ring).Nodup

theorem Turning.get {own ring : List Nat} {pool pool' : MbxPool} {m : Nat}
    (h : Turning own ring pool) (hget : getMbx pool=(some m,pool')) :
    ∃ rest,ring=m::rest ∧ Turning (m::own) rest pool' := by
  have hone : (getMbx pool).1=some m := congrArg Prod.fst hget
  have htwo : (getMbx pool).2=pool' := congrArg Prod.snd hget
  obtain ⟨hfree,hwf⟩ := getMbx_some h.wf hone
  rw [htwo] at hfree hwf
  have hring : ring=m::pool'.free := h.free.symm.trans hfree
  refine ⟨pool'.free,hring,hwf,rfl,?_,?_⟩
  · intro x hx
    rcases List.mem_cons.mp hx with rfl|hx
    · apply h.wf.items
      rw [hfree]
      exact List.mem_cons_self
    · exact h.items x hx
  · have hdistinct := h.distinct
    rw [hring] at hdistinct
    exact List.perm_middle.nodup_iff.mp hdistinct

theorem Turning.drop {own ring : List Nat} {pool : MbxPool} {m : Nat}
    (h : Turning (m::own) ring pool) : Turning own (ring++[m]) (dropMbx pool m) := by
  have hm := h.items m List.mem_cons_self
  have hdistinct := h.distinct
  have hone : (m::pool.free).Nodup := by
    rw [h.free]
    exact hdistinct.sublist (List.Sublist.cons_cons m (List.sublist_append_right own ring))
  obtain ⟨hfree,hwf⟩ := dropMbx_free h.wf hm (count_lt_of_nodup h.wf hm hone)
  refine ⟨hwf,?_,fun x hx => h.items x (List.mem_cons_of_mem m hx),?_⟩
  · rw [hfree,h.free]
  · have hperm : (own++(ring++[m])).Perm (m::own++ring) := by
      rw [← List.append_assoc]
      exact List.perm_append_singleton m (own++ring)
    exact hperm.nodup_iff.mpr hdistinct

section Source

def soeStored : Nat → List (List UInt8) → List (List UInt8)
  | _,[] => []
  | room,mbx::rest =>
      (soePayload mbx).take room::soeStored (room-(soePayload mbx).length) rest

/-- What a mailbox of the pool holds after `k` more have been read. It is one of `free` that are
used in turn; `boxes` are its own contents and what is read from then on. -/
def soeBox (free : Nat) (boxes : List (List UInt8)) (k : Nat) : List UInt8 :=
  boxes.getD (free*(k/free)) []

/-- The mailbox out of which fragment `k` is copied: the one that was waiting when the call began,
as it is by now. -/
def soeSource (free : Nat) (waiting mbxs : List (List UInt8)) (k : Nat) : Option (List UInt8) :=
  waiting.head?.map (fun stale => soeBox free (stale::mbxs) (k+1))

/-- The mailbox copied from has the bytes of the fragment, for each fragment with bytes to store. -/
def SoeSourced (free capacity : Nat) (waiting mbxs : List (List UInt8)) : Prop :=
  ∀ (k : Nat) (piece : List UInt8),(soeStored capacity mbxs)[k]?=some piece → piece=[] ∨
    ∃ box,soeSource free waiting mbxs k=some box ∧ (box.drop soeSize).take piece.length=piece

variable {room : Nat} {mbxs boxes : List (List UInt8)}

theorem soeStored_flatten : ∀ {room : Nat} {mbxs : List (List UInt8)},
    (soeStored room mbxs).flatten=((mbxs.map soePayload).flatten).take room
  | _,[] => by simp [soeStored]
  | room,mbx::rest => by
      rw [soeStored,List.flatten_cons,soeStored_flatten,List.map_cons,List.flatten_cons,
        List.take_append]

theorem soeStored_nil : (soeStored room mbxs).flatten=[] ↔
    ∀ (k : Nat) (piece : List UInt8),(soeStored room mbxs)[k]?=some piece → piece=[] := by
  rw [List.flatten_eq_nil_iff]
  constructor
  · intro h k piece hk
    exact h piece (List.mem_of_getElem? hk)
  · intro h piece hpiece
    obtain ⟨k,hk⟩ := List.mem_iff_getElem?.mp hpiece
    exact h k piece hk

theorem soeBox_zero (free : Nat) (stale : List UInt8) :
    soeBox free (stale::mbxs) 0=stale := by
  simp [soeBox]

theorem soeBox_succ {free k : Nat} : soeBox free boxes (k+1)=
    if free ∣ k+1 then boxes.getD (k+1) [] else soeBox free boxes k := by
  rw [soeBox]
  split_ifs with hturn
  · rw [Nat.mul_div_cancel' hturn]
  · rw [Nat.succ_div_of_not_dvd hturn]
    rfl

theorem soeBox_mem {free k : Nat} (hk : k<boxes.length) : soeBox free boxes k ∈ boxes := by
  have hle : free*(k/free) ≤ k := Nat.mul_div_le k free
  rw [soeBox,List.getD_eq_getElem _ _ (by omega)]
  exact List.getElem_mem _

theorem rotate_step {ring rest : List Nat} {i m : Nat} (h : ring.rotate i=m::rest) :
    rest++[m]=ring.rotate (i+1) := by
  rw [← List.rotate_rotate,h,List.rotate_cons_succ,List.rotate_zero]

theorem rotate_last {front rest : List Nat} {m0 i m : Nat} (hnd : (front++[m0]).Nodup)
    (h : (front++[m0]).rotate i=m::rest) : m=m0 ↔ (front++[m0]).length ∣ i+1 := by
  have hlen : (front++[m0]).length=front.length+1 := by simp
  have hpos : 0 < (front++[m0]).length := by omega
  have hmod := Nat.mod_lt i hpos
  have hm : (front++[m0])[i%(front++[m0]).length]?=some m := by
    have hfirst : ((front++[m0]).rotate i)[0]?=some m := by
      rw [h]
      rfl
    rw [List.getElem?_rotate hpos,Nat.zero_add] at hfirst
    exact hfirst
  have hm0 : (front++[m0])[front.length]?=some m0 := List.getElem?_concat_length
  have hlast : m=m0 ↔ i%(front++[m0]).length=front.length := by
    rw [← List.getElem?_inj hmod hnd,hm,hm0]
    exact Option.some_inj.symm
  rw [hlast,hlen,Nat.dvd_iff_mod_eq_zero,Nat.add_mod,← hlen]
  rw [hlen] at hmod ⊢
  generalize i%(front.length+1)=r at *
  constructor
  · intro hr
    rw [hr]
    by_cases hone : front.length=0
    · simp [hone]
    · rw [Nat.mod_eq_of_lt (show 1<front.length+1 by omega),Nat.mod_self]
  · intro hr
    by_contra hne
    rw [Nat.mod_eq_of_lt (show 1<front.length+1 by omega),
      Nat.mod_eq_of_lt (show r+1<front.length+1 by omega)] at hr
    omega

end Source

section Reading

variable {σ τ : Type} {port : Port σ} {cfg : SlaveCfg}
  {answers : UInt8 → UInt8 → UInt16 → Option (List (List UInt8))}
  {view : σ → List (List UInt8) × τ} {driveNo elementflags : UInt8} {idn : UInt16}

theorem mbxSend_pool (h : Alone port) {out : Nat} {c c' : Client σ} {w : Int}
    (hr : mbxSend port cfg out c=.ok (w,c')) : c'.pool=dropMbx c.pool out := by
  rw [mbxSend] at hr
  obtain ⟨w',c1,hwrite,hr⟩ := bind_ok.mp hr
  have h1 : c1.pool=c.pool := (quiet_writeMailbox cfg out c w' c1 hwrite).1
  obtain ⟨u,c2,hdrop,hr⟩ := bind_ok.mp hr
  cases pure_ok.mp hr
  rw [← h1,← interfere_pool h c1]
  cases hdrop
  rfl

theorem soeRead_asked (hs : ServesIdns port cfg answers view) {mbxs : List (List UInt8)}
    (hmbxs : answers driveNo elementflags idn=some mbxs) (fuel : Nat) (psize : Int)
    {stale : Received} {t : τ} {c c1 : Client σ} (hstale : mbxReceive port cfg c=.ok (stale,c1))
    (h1 : Talking view 2 (stale.mbx.toList++[]) ([],t) c1) :
    ∃ (out : Nat) (pool : MbxPool) (t' : τ) (c' : Client σ),getMbx c1.pool=(some out,pool) ∧
      c'.pool=dropMbx pool out ∧ (∀ m,m≠out → c'.buffers m=c1.buffers m) ∧
      Talking view 2 (stale.mbx.toList++[]) (mbxs,t') c' ∧
      soeRead port cfg fuel driveNo elementflags idn psize c=(do
        let r ← soeReadLoop port cfg stale.mbx driveNo elementflags idn psize fuel stale.mbx 0 []
        dropMbxIn port r.1
        pure r.2) c' := by
  have hin := hs.inbox
  obtain ⟨hdrive,-⟩ := hs.conforms _ _ _ _ hmbxs
  have hone : (stale.mbx.toList++[]).length<2 := by
    cases stale.mbx <;> simp
  obtain ⟨out,c2,hget,h2,hk2⟩ := h1.get hs.line hone
  obtain ⟨hout,hpool⟩ := getMbxM_pool hs.line.alone hget
  have h3 := h2.store out (List.replicate ecMaxMbx 0)
  obtain ⟨cnt,c4,hcnt,h4,hk4⟩ := h3.count cfg
  let frame := soeFrame (UInt16.ofNat (soeSize-6)) cnt ectSoeReadreq 0 driveNo elementflags idn []
  have h5 := h4.store out frame
  obtain ⟨wkc,c6,hsend,hwkc,h6,hk6⟩ := h5.send hs.line
  have hfront : frame <+: ((c4.store out frame).buffers out).take cfg.mbxL.toNat := by
    simp only [Client.store,Function.update_self]
    exact request_front _ hin
  obtain ⟨t',hview⟩ := hs.serves _ _ _ _ _ _ mbxs h5.seen
    (isSoeReadRequest_of_front hdrive hfront) hmbxs
  rw [hview] at h6
  have hp4 : c4.pool=c2.pool := (quiet_nextMbxCnt cfg _ cnt c4 hcnt).1
  refine ⟨out,c2.pool,t',c6,Prod.ext hout.symm hpool.symm,?_,?_,h6,?_⟩
  · have hp6 := mbxSend_pool hs.line.alone hsend
    rw [hp6]
    exact congrArg (dropMbx · out) hp4
  · intro m hm
    rw [hk6.buffers]
    simp only [Client.store,Function.update_of_ne hm,hk4.buffers,hk2.buffers]
  · rw [soeRead,run_bind hstale,run_bind hget]
    dsimp only
    rw [run_bind (show clearMbx out c2=.ok ((),c2.store out (List.replicate ecMaxMbx 0)) from rfl),
      run_bind hcnt,run_bind (show fillMbx out frame c4=.ok ((),c4.store out frame) from rfl),
      run_bind hsend,if_pos hwkc]

theorem soeReadLoop_round (hs : ServesIdns port cfg answers view) {mbx : List UInt8}
    (hmbx : isSoeFragment cfg driveNo elementflags mbx) (stale : Option Nat) (fuel : Nat)
    (psize total : Int) (data : List UInt8) {mbxIn : Option Nat} {q : List (List UInt8)} {t : τ}
    {c : Client σ} (h : Talking view 2 (mbxIn.toList++[]) (mbx::q,t) c) :
    ∃ (w : Int) (m : Nat) (bytes : List UInt8) (c' : Client σ),0 < w ∧ mbx <+: bytes ∧
      getMbx (mbxIn.elim c.pool (dropMbx c.pool))=(some m,c'.pool) ∧
      c'.buffers=Function.update c.buffers m bytes ∧ Talking view 2 [m] (q,t) c' ∧
      soeReadLoop port cfg stale driveNo elementflags idn psize (fuel+1) mbxIn total data c=((do
        let bytes ← soeCopy port stale total (soePayload mbx).length psize
        let total := if total+(soePayload mbx).length ≤ psize then total+(soePayload mbx).length
          else psize
        if soeIncomplete mbx=0 then pure (some m,⟨w,total,data++bytes⟩)
        else
          soeReadLoop port cfg stale driveNo elementflags idn psize fuel (some m) total
            (data++bytes)) : MbxM σ (Option Nat × SdoRead)) c' := by
  obtain ⟨c1,hdrop,h1,hk1⟩ := h.dropIn hs.line
  obtain ⟨r,m,c2,hreceive,hr,hm,hfront,h2,hb2,-,hget⟩ := h1.receive hs.line (by simp)
  have hpool : c1.pool=mbxIn.elim c.pool (dropMbx c.pool) := by
    cases mbxIn with
    | none =>
      cases hdrop
      rfl
    | some m0 =>
      rw [← interfere_pool hs.line.alone c]
      cases hdrop
      rfl
  obtain ⟨hresponse,hlength,hincomplete⟩ := hmbx.front hfront
  have hheader := hmbx.header
  have hsize : ((sdoLength r.data).toNat : Int)-soeSize+6=(soePayload mbx).length := by
    rw [hlength,hmbx.payload_length,soeSize]
    omega
  refine ⟨r.wkc,m,r.data,c2,hr,hfront,?_,?_,h2,?_⟩
  · rw [← hpool]
    exact hget
  · rw [hb2,hk1.buffers]
  · rw [soeReadLoop,run_bind hdrop,run_bind hreceive,if_pos hr,if_pos hresponse]
    dsimp only
    rw [hsize,hincomplete,hm]

theorem soeCopy_room {capacity room : Nat} (hroom : room ≤ capacity) (stale : Option Nat)
    (size : Nat) : soeCopy port stale ((capacity-room : Nat) : Int) size capacity=
      copyFromStale port stale (min size room : Nat) := by
  rw [soeCopy]
  by_cases hfit : size ≤ room
  · rw [if_pos (by omega),Nat.min_eq_left hfit]
  · rw [if_neg (by omega)]
    have hleft : (size : Int)-((capacity-room : Nat)+size-capacity)=(room : Nat) := by omega
    rw [hleft,Nat.min_eq_right (by omega)]
    by_cases hzero : room=0
    · subst hzero
      rfl
    · rw [if_pos (by omega)]

theorem soeTotal_room {capacity room : Nat} (hroom : room ≤ capacity) (size : Nat) :
    (if ((capacity-room : Nat) : Int)+size ≤ capacity then ((capacity-room : Nat) : Int)+size
      else capacity)=((capacity-(room-size) : Nat) : Int) := by
  split_ifs <;> omega

theorem copyFromStale_none {n : Nat} {c : Client σ} : copyFromStale port none n c=
    if n=0 then .ok ([],c) else .error .nullPointer := by
  rw [copyFromStale,if_neg (by omega)]
  by_cases hn : n=0
  · rw [if_pos (by omega),if_pos hn]
    rfl
  · rw [if_neg (by omega),if_neg hn]
    rfl

theorem copyFromStale_some (hs : Line port cfg view) {n m : Nat} {box : List UInt8} {own : List Nat}
    {v : List (List UInt8) × τ} {c : Client σ} (h : Talking view 2 own v c)
    (hbox : box <+: c.buffers m) (hn : soeSize+n ≤ box.length) : ∃ c',
      copyFromStale port (some m) n c=.ok ((box.drop soeSize).take n,c') ∧
      Talking view 2 own v c' ∧ c'.pool=c.pool ∧ c'.buffers=c.buffers := by
  rw [copyFromStale,if_neg (by omega)]
  by_cases hz : n=0
  · refine ⟨c,?_,h,rfl,rfl⟩
    rw [if_pos (by omega),hz]
    rfl
  · obtain ⟨c',hpeek,h',hk⟩ := h.peek hs m
    have hpool : c'.pool=(c.interfere port).pool :=
      (Option.some.inj (congrArg (fun r => r.toOption.map (fun p => p.2.pool)) hpeek)).symm
    rw [interfere_pool hs.alone] at hpool
    refine ⟨c',?_,h',hpool,hk.buffers⟩
    rw [if_neg (by omega),run_bind hpeek,Int.toNat_natCast,bytesAt_of_front hbox hn]
    rfl

/-- Without a mailbox to copy from, the loop goes through only if there is nothing to copy. -/
theorem soeReadLoop_null (hs : ServesIdns port cfg answers view) (capacity fuel : Nat) :
    ∀ {room : Nat} {mbxIn : Option Nat} {mbxs data : _} {t : τ} {c : Client σ},
    isSoeAnswer cfg driveNo elementflags mbxs → mbxs.length ≤ fuel → room ≤ capacity →
    Talking view 2 (mbxIn.toList++[]) (mbxs,t) c →
    ((soeStored room mbxs).flatten≠[] → soeReadLoop port cfg none driveNo elementflags idn capacity
      fuel mbxIn ((capacity-room : Nat) : Int) data c=.error .nullPointer) ∧
    ((soeStored room mbxs).flatten=[] → ∃ w m c',soeReadLoop port cfg none driveNo elementflags idn
      capacity fuel mbxIn ((capacity-room : Nat) : Int) data c=
        .ok ((some m,⟨w,((capacity-room : Nat) : Int),data⟩),c') ∧
      0 < w ∧ Talking view 2 [m] ([],t) c') := by
  induction fuel with
  | zero =>
    intro room mbxIn mbxs data t c hanswer hfuel
    cases hanswer <;> simp at hfuel
  | succ fuel ih =>
    intro room mbxIn mbxs data t c hanswer hfuel hroom h
    obtain ⟨mbx,rest,rfl⟩ : ∃ mbx rest,mbxs=mbx::rest := by
      cases hanswer <;> exact ⟨_,_,rfl⟩
    have hmbx : isSoeFragment cfg driveNo elementflags mbx := by
      cases hanswer <;> assumption
    obtain ⟨w,m,bytes,c1,hw,-,-,-,h1,hrun⟩ :=
      soeReadLoop_round hs hmbx none fuel capacity ((capacity-room : Nat) : Int) data h
    rw [hrun,soeCopy_room hroom,soeTotal_room hroom]
    have hstored : (soeStored room (mbx::rest)).flatten=(soePayload mbx).take room++
      (soeStored (room-(soePayload mbx).length) rest).flatten := by
      rw [soeStored,List.flatten_cons]
    have hpiece : (soePayload mbx).take room=[] ↔ min (soePayload mbx).length room=0 := by
      rw [← List.length_eq_zero_iff,List.length_take,Nat.min_comm]
    rw [hstored,ne_eq,List.append_eq_nil_iff,hpiece]
    by_cases hcopy : min (soePayload mbx).length room=0
    · have hnothing : copyFromStale port none (min (soePayload mbx).length room : Nat) c1=
          .ok ([],c1) := by
        rw [copyFromStale_none,if_pos hcopy]
      rw [run_bind hnothing,List.append_nil]
      -- what fits no more does not use up room
      have hsame : capacity-(room-(soePayload mbx).length)=capacity-room := by omega
      cases hanswer with
      | last _ _ hlast =>
        rw [if_pos hlast,hsame]
        refine ⟨fun hne => absurd ⟨hcopy,rfl⟩ hne,fun _ => ⟨w,m,c1,rfl,hw,h1⟩⟩
      | more _ _ _ hmore hrest =>
        rw [if_neg hmore]
        have hlen : rest.length ≤ fuel := by simpa using hfuel
        obtain ⟨hnull,hok⟩ := ih hrest hlen
          (show room-(soePayload mbx).length ≤ capacity by omega)
          (show Talking view 2 ((some m).toList++[]) (rest,t) c1 from h1)
        rw [hsame] at hnull hok ⊢
        exact ⟨fun hne => hnull (fun hz => hne ⟨hcopy,hz⟩),fun hz => hok hz.2⟩
    · have hfault : copyFromStale port none (min (soePayload mbx).length room : Nat) c1=
          .error .nullPointer := by
        rw [copyFromStale_none,if_neg hcopy]
      refine ⟨fun _ => ?_,fun hz => absurd hz.1 hcopy⟩
      exact run_bind_error hfault

theorem append_eq_append_iff {xs xs' ys ys' : List UInt8} (hlen : xs.length=xs'.length) :
    xs++ys=xs'++ys' ↔ xs=xs' ∧ ys=ys' := by
  constructor
  · intro h
    exact List.append_inj h hlen
  · rintro ⟨rfl,rfl⟩
    rfl

theorem forall_pieces_cons {P : Nat → List UInt8 → Prop} {n : Nat} {first : List UInt8}
    {others : List (List UInt8)} :
    (∀ (k : Nat) (piece : List UInt8),(first::others)[k]?=some piece → P (n+k) piece) ↔
      P n first ∧ ∀ (k : Nat) (piece : List UInt8),others[k]?=some piece → P (n+1+k) piece := by
  constructor
  · intro hall
    refine ⟨hall 0 first rfl,?_⟩
    intro k piece hk
    rw [Nat.add_right_comm,Nat.add_assoc]
    exact hall (k+1) piece hk
  · rintro ⟨hfirst,hothers⟩ k piece hk
    cases k with
    | zero =>
      cases hk
      exact hfirst
    | succ k =>
      rw [Nat.add_comm k 1,← Nat.add_assoc]
      exact hothers k piece hk

/-- A mailbox `m0` was waiting when the call began. One round of the loop copies out of it, after
the ring has turned on: it may be the mailbox just read. -/
theorem soeReadLoop_round_stale (hs : ServesIdns port cfg answers view) {capacity fuel room : Nat}
    {front ring : List Nat} {m0 m i : Nat} {boxes rest : List (List UInt8)} {mbx data : List UInt8}
    {t : τ} {c : Client σ} (hnd : (front++[m0]).Nodup)
    (hboxes : ∀ box ∈ boxes,box.length=cfg.mbxRl.toNat)
    (hmbx : isSoeFragment cfg driveNo elementflags mbx) (hroom : room ≤ capacity)
    (h : Talking view 2 [m] (mbx::rest,t) c) (hturn : Turning [m] ring c.pool)
    (hring : ring++[m]=(front++[m0]).rotate i) (hleft : boxes.drop (i+1)=mbx::rest)
    (hbox : soeBox (front++[m0]).length boxes i <+: c.buffers m0) :
    ∃ (w : Int) (m' : Nat) (ring' : List Nat) (got : List UInt8) (c' : Client σ),0 < w ∧
      got=((soeBox (front++[m0]).length boxes (i+1)).drop soeSize).take
        ((soePayload mbx).take room).length ∧
      got.length=((soePayload mbx).take room).length ∧ Talking view 2 [m'] (rest,t) c' ∧
      Turning [m'] ring' c'.pool ∧ ring'++[m']=(front++[m0]).rotate (i+1) ∧
      soeBox (front++[m0]).length boxes (i+1) <+: c'.buffers m0 ∧
      soeReadLoop port cfg (some m0) driveNo elementflags idn capacity (fuel+1) (some m)
          ((capacity-room : Nat) : Int) data c=
        (if soeIncomplete mbx=0 then
          pure (some m',⟨w,((capacity-(room-(soePayload mbx).length) : Nat) : Int),data++got⟩)
        else soeReadLoop port cfg (some m0) driveNo elementflags idn capacity fuel (some m')
          ((capacity-(room-(soePayload mbx).length) : Nat) : Int) (data++got) :
          MbxM σ (Option Nat × SdoRead)) c' := by
  obtain ⟨w,m1,read,c1,hw,hread,hget,hbuf,h1,hrun⟩ :=
    soeReadLoop_round hs hmbx (some m0) fuel capacity ((capacity-room : Nat) : Int) data
      (show Talking view 2 ((some m).toList++[]) (mbx::rest,t) c from h)
  obtain ⟨ring1,hring1,hturn1⟩ := hturn.drop.get hget
  rw [hring] at hring1
  have hlt : i+1<boxes.length := by
    have := congrArg List.length hleft
    rw [List.length_drop,List.length_cons] at this
    omega
  have hthis : boxes.getD (i+1) []=mbx := by
    rw [List.getD_eq_getElem?_getD,← List.head?_drop,hleft]
    rfl
  have hbox1 : soeBox (front++[m0]).length boxes (i+1) <+: c1.buffers m0 := by
    rw [soeBox_succ,hbuf]
    by_cases hsame : m1=m0
    · rw [if_pos ((rotate_last hnd hring1).mp hsame),hthis,hsame,Function.update_self]
      exact hread
    · rw [if_neg (fun hd => hsame ((rotate_last hnd hring1).mpr hd)),
        Function.update_of_ne (fun heq => hsame heq.symm)]
      exact hbox
  have hlen := hmbx.payload_length
  have hheader := hmbx.header
  have hfits := hmbx.fits
  have hfullbox := hboxes (soeBox (front++[m0]).length boxes (i+1)) (soeBox_mem hlt)
  obtain ⟨c2,hcopy,h2,hpool2,hbuf2⟩ := copyFromStale_some hs.line h1 hbox1
    (show soeSize+min (soePayload mbx).length room ≤ _ by
      rw [hfullbox,soeSize]
      omega)
  have hpiece : ((soePayload mbx).take room).length=min (soePayload mbx).length room := by
    rw [List.length_take,Nat.min_comm]
  refine ⟨w,m1,ring1,_,c2,hw,rfl,?_,h2,by rw [hpool2]; exact hturn1,rotate_step hring1,
    by rw [hbuf2]; exact hbox1,?_⟩
  · rw [List.length_take,List.length_drop,hfullbox,hpiece,soeSize]
    omega
  · rw [hrun,soeCopy_room hroom,soeTotal_room hroom,run_bind hcopy,hpiece]

/-- What the loop stores it takes from the mailbox that was waiting, while the mailboxes of the pool
take turns. -/
theorem soeReadLoop_stale (hs : ServesIdns port cfg answers view) (capacity fuel : Nat)
    {front : List Nat} {m0 : Nat} {boxes : List (List UInt8)} (hnd : (front++[m0]).Nodup)
    (hboxes : ∀ box ∈ boxes,box.length=cfg.mbxRl.toNat) :
    ∀ {i room m : Nat} {ring : List Nat} {mbxs data : _} {t : τ} {c : Client σ},
    isSoeAnswer cfg driveNo elementflags mbxs → mbxs.length ≤ fuel → room ≤ capacity →
    Talking view 2 [m] (mbxs,t) c → Turning [m] ring c.pool → ring++[m]=(front++[m0]).rotate i →
    boxes.drop (i+1)=mbxs → soeBox (front++[m0]).length boxes i <+: c.buffers m0 →
    ∃ w m' bytes c',soeReadLoop port cfg (some m0) driveNo elementflags idn capacity fuel (some m)
        ((capacity-room : Nat) : Int) data c=
          .ok ((some m',⟨w,((capacity-room+(soeStored room mbxs).flatten.length : Nat) : Int),
            data++bytes⟩),c') ∧ 0 < w ∧ Talking view 2 [m'] ([],t) c' ∧
      bytes.length=(soeStored room mbxs).flatten.length ∧
      (bytes=(soeStored room mbxs).flatten ↔
        ∀ (k : Nat) (piece : List UInt8),(soeStored room mbxs)[k]?=some piece →
          ((soeBox (front++[m0]).length boxes (i+1+k)).drop soeSize).take piece.length=piece) := by
  induction fuel with
  | zero =>
    intro i room m ring mbxs data t c hanswer hfuel
    cases hanswer <;> simp at hfuel
  | succ fuel ih =>
    intro i room m ring mbxs data t c hanswer hfuel hroom h hturn hring hleft hbox
    obtain ⟨mbx,rest,rfl⟩ : ∃ mbx rest,mbxs=mbx::rest := by
      cases hanswer <;> exact ⟨_,_,rfl⟩
    have hmbx : isSoeFragment cfg driveNo elementflags mbx := by
      cases hanswer <;> assumption
    obtain ⟨w,m1,ring1,got,c1,hw,hgot,hcopied,h1,hturn1,hring1,hbox1,hrun⟩ :=
      soeReadLoop_round_stale hs hnd hboxes hmbx hroom h hturn hring hleft hbox
    have hpiece : ((soePayload mbx).take room).length=min (soePayload mbx).length room := by
      rw [List.length_take,Nat.min_comm]
    have hstored : soeStored room (mbx::rest)=
        (soePayload mbx).take room::soeStored (room-(soePayload mbx).length) rest := rfl
    have htotal : capacity-(room-(soePayload mbx).length)+
        (soeStored (room-(soePayload mbx).length) rest).flatten.length=
          capacity-room+(soeStored room (mbx::rest)).flatten.length := by
      rw [hstored,List.flatten_cons,List.length_append,hpiece]
      omega
    rw [hrun,hstored,forall_pieces_cons (P := fun k piece =>
      ((soeBox (front++[m0]).length boxes k).drop soeSize).take piece.length=piece),← hgot,
      ← hstored]
    cases hanswer with
    | last _ _ hlast =>
      have hone : (soeStored room [mbx]).flatten=(soePayload mbx).take room := List.append_nil _
      refine ⟨w,m1,got,c1,?_,hw,h1,?_,?_⟩
      · rw [if_pos hlast,← htotal]
        rfl
      · rw [hone]
        exact hcopied
      · rw [hone]
        exact ⟨fun heq => ⟨heq,fun k piece hk => nomatch hk⟩,And.left⟩
    | more _ _ _ hmore hrest =>
      have hlen : rest.length ≤ fuel := Nat.le_of_succ_le_succ hfuel
      have hdrop : boxes.drop (i+1+1)=rest := by
        rw [← List.drop_drop,hleft]
        rfl
      obtain ⟨w',m',bytes,c',hgo,hw',h',hbytes,hiff⟩ := ih hrest hlen
        (show room-(soePayload mbx).length ≤ capacity by omega) h1 hturn1 hring1 hdrop hbox1
      refine ⟨w',m',got++bytes,c',?_,hw',h',?_,?_⟩
      · rw [if_neg hmore,hgo,List.append_assoc,htotal]
      · rw [hstored,List.flatten_cons,List.length_append,List.length_append,hcopied,hbytes]
      · rw [hstored,List.flatten_cons,append_eq_append_iff hcopied,hiff]

/-- The call hands over the IDN as far as there is room for it. -/
def ReadsIdn (port : Port σ) (cfg : SlaveCfg) (fuel : Nat) (driveNo elementflags : UInt8)
    (idn : UInt16) (capacity : Nat) (mbxs : List (List UInt8)) (c : Client σ) : Prop :=
  ∃ r c',soeRead port cfg fuel driveNo elementflags idn capacity c=.ok (r,c') ∧ 0 < r.wkc ∧
    r.data=((mbxs.map soePayload).flatten).take capacity ∧ r.psize=r.data.length

theorem soeRead_ended (hs : Line port cfg view) {fuel : Nat} {psize : Int}
    {x : MbxM σ (Option Nat × SdoRead)} {r : SdoRead} {m : Nat} {v : List (List UInt8) × τ}
    {c c1 c2 : Client σ}
    (hrun : soeRead port cfg fuel driveNo elementflags idn psize c=(do
      let r ← x
      dropMbxIn port r.1
      pure r.2) c1) (hx : x c1=.ok ((some m,r),c2)) (h : Talking view 2 [m] v c2) :
    ∃ c',soeRead port cfg fuel driveNo elementflags idn psize c=.ok (r,c') := by
  obtain ⟨c3,hdrop,-⟩ := h.drop hs
  refine ⟨c3,?_⟩
  rw [hrun,run_bind hx,run_bind (show dropMbxIn port (some m) c2=.ok ((),c3) from hdrop)]
  rfl

/-- From a slave that serves it `ecx_SoEread` gets an IDN exactly if the mailbox that was waiting
when the call began has the bytes of each fragment that has bytes to store, when they are copied. -/
theorem soe_read_iff_sourced (hs : ServesIdns port cfg answers view) {fuel capacity : Nat}
    {mbxs : List (List UInt8)} {c : Client σ} (hmbxs : answers driveNo elementflags idn=some mbxs)
    (hwf : c.pool.Wf) (hnd : c.pool.free.Nodup) (htwo : 2 ≤ c.pool.listcount)
    (hwaiting : (view c.env).1.length ≤ 1) (hfuel : mbxs.length ≤ fuel) :
    ReadsIdn port cfg fuel driveNo elementflags idn capacity mbxs c ↔
      SoeSourced c.pool.listcount capacity (view c.env).1 mbxs := by
  obtain ⟨-,hanswer⟩ := hs.conforms _ _ _ _ hmbxs
  have h : Talking view 2 [] ((view c.env).1,(view c.env).2) c := Talking.start view hwf htwo
  have hturn : Turning [] c.pool.free c.pool := ⟨hwf,rfl,by simp,by simpa using hnd⟩
  have hwhole := hs.whole c.env
  have hstart : ((capacity-capacity : Nat) : Int)=0 := by omega
  cases hview : (view c.env).1 with
  | nil =>
    -- nothing is waiting: there is no mailbox to copy from
    rw [hview] at h
    obtain ⟨stale,c1,hstale,-,hnone,h1,-⟩ := h.receiveNothing hs.line
    have h1' : Talking view 2 (stale.mbx.toList++[]) ([],(view c.env).2) c1 := by
      rw [hnone]
      exact h1
    obtain ⟨out,pool,t',c2,-,-,-,h2,hrun⟩ :=
      soeRead_asked hs hmbxs fuel (capacity : Int) hstale h1'
    obtain ⟨hnull,hok⟩ := soeReadLoop_null hs capacity fuel hanswer hfuel (le_refl capacity) h2
    rw [hstart] at hnull hok
    rw [hnone] at hrun hnull hok
    have hsourced : SoeSourced c.pool.listcount capacity [] mbxs ↔
        (soeStored capacity mbxs).flatten=[] := by
      rw [soeStored_nil]
      simp [SoeSourced,soeSource]
    rw [hsourced]
    constructor
    · rintro ⟨r,c',hr,-⟩
      by_contra hne
      rw [hrun,run_bind_error (hnull hne)] at hr
      cases hr
    · intro hz
      obtain ⟨w,m,c3,hloop,hw,h3⟩ := hok hz
      obtain ⟨c',hr⟩ := soeRead_ended hs.line hrun hloop h3
      refine ⟨_,c',hr,hw,?_,rfl⟩
      rw [← soeStored_flatten,hz]
  | cons stale0 q =>
    have hq : q=[] := by
      rw [← List.length_eq_zero_iff]
      rw [hview,List.length_cons] at hwaiting
      omega
    subst hq
    rw [hview] at h
    obtain ⟨stale,m0,c1,hstale,-,hm0,hfront,h1,hbuf1,-,hget1⟩ := h.receive hs.line (by decide)
    obtain ⟨rest,hfree,hturn1⟩ := hturn.get hget1
    have h1' : Talking view 2 (stale.mbx.toList++[]) ([],(view c.env).2) c1 := by
      rw [hm0]
      exact h1
    obtain ⟨out,pool,t',c2,hget2,hpool2,hbuf2,h2,hrun⟩ :=
      soeRead_asked hs hmbxs fuel (capacity : Int) hstale h1'
    obtain ⟨front,hrest,hturn2⟩ := hturn1.get hget2
    have hturn3 := hturn2.drop
    rw [← hpool2] at hturn3
    rw [hm0] at h2
    -- the mailbox of the request and the one that was waiting come last
    have hnd3 : ((front++[out])++[m0]).Nodup :=
      (List.perm_append_singleton m0 (front++[out])).nodup_iff.mpr hturn3.distinct
    have hlen : ((front++[out])++[m0]).length=c.pool.listcount := by
      rw [← MbxPool.free_length,hfree,hrest]
      simp
    have hne : m0≠out := by
      rintro rfl
      have := hturn2.distinct
      simp at this
    have hboxes : ∀ box ∈ stale0::mbxs,box.length=cfg.mbxRl.toNat := by
      intro box hbox
      rcases List.mem_cons.mp hbox with rfl|hbox
      · exact hwhole _ (by rw [hview]; exact List.mem_cons_self)
      · have hseen := hs.whole c2.env
        rw [h2.seen] at hseen
        exact hseen box hbox
    have hbox : soeBox ((front++[out])++[m0]).length (stale0::mbxs) 0 <+: c2.buffers m0 := by
      rw [soeBox_zero,hbuf2 m0 hne,hbuf1,Function.update_self]
      exact hfront
    obtain ⟨w,m,bytes,c3,hloop,hw,h3,hbytes,hiff⟩ :=
      soeReadLoop_stale hs capacity fuel hnd3 hboxes hanswer hfuel (le_refl capacity) h2 hturn3
        (List.rotate_zero _).symm rfl hbox
    rw [hstart] at hloop
    rw [hm0] at hrun
    obtain ⟨c',hr⟩ := soeRead_ended hs.line hrun hloop h3
    have hreads : ReadsIdn port cfg fuel driveNo elementflags idn capacity mbxs c ↔
        bytes=(soeStored capacity mbxs).flatten := by
      rw [soeStored_flatten]
      constructor
      · rintro ⟨r,c'',hr',-,hdata,-⟩
        rw [hr] at hr'
        cases hr'
        exact hdata
      · intro hdata
        refine ⟨_,c',hr,hw,hdata,?_⟩
        simp only [List.nil_append,hbytes]
        omega
    rw [hreads,hiff,hlen]
    constructor
    · intro hall k piece hk
      refine .inr ⟨_,rfl,?_⟩
      rw [Nat.add_comm k 1,← Nat.zero_add 1]
      exact hall k piece hk
    · intro hall k piece hk
      rcases hall k piece hk with rfl|⟨box,hsource,hpiece⟩
      · rfl
      · cases hsource
        rw [Nat.zero_add,Nat.add_comm 1 k]
        exact hpiece

end Reading

section Slave

/-- A mailbox of `room` bytes with a SoE frame in it. -/
abbrev SoeMailbox (room : Nat) := { mbx : List UInt8 // mbx.length=room ∧ mbxType mbx=ectMbxtSoe }

def soeView {room : Nat} (s : List (SoeMailbox room)) : List (List UInt8) × Unit :=
  (s.map Subtype.val,())

/-- A slave with one IDN. Its state is what waits to be read. -/
def idnSlave {room : Nat} (answer : List (SoeMailbox room)) : Port (List (SoeMailbox room)) where
  write := fun _ _ => (1,answer)
  empty := fun s => (true,s)
  mailbox := fun s => (s.head?.elim (.silent 0) (fun mbx => .full ⟨1,mbx.val,false⟩ []),s.tail)
  others := fun s => ([],s)

theorem soe_free {mbx : List UInt8} (h : mbxType mbx=ectMbxtSoe) (hooked : Bool) :
    handledInReceive mbx hooked=false := by
  have herr : ectMbxtSoe≠ectMbxtErr := by decide
  have hcoe : ectMbxtSoe≠ectMbxtCoe := by decide
  have heoe : ectMbxtSoe≠ectMbxtEoe := by decide
  simp [handledInReceive,h,herr,hcoe,heoe]

theorem idnSlave_serves {cfg : SlaveCfg} {answer : List (SoeMailbox cfg.mbxRl.toNat)}
    (driveNo elementflags : UInt8)
    (hin : 10 ≤ cfg.mbxL.toNat ∧ cfg.mbxL.toNat ≤ ecMaxMbx ∧ cfg.preop=true)
    (hout : 10 ≤ cfg.mbxRl.toNat ∧ cfg.mbxRl.toNat ≤ ecMaxMbx)
    (hanswer : driveNo<8 ∧ isSoeAnswer cfg driveNo elementflags (answer.map Subtype.val)) :
    ServesIdns (idnSlave answer) cfg (fun d f _ =>
      if d=driveNo ∧ f=elementflags then some (answer.map Subtype.val) else none) soeView where
  line := {
    inbox := ⟨by omega,hin.2⟩
    outbox := ⟨by omega,hout.2⟩
    alone := fun _ => rfl
    steady := fun _ => rfl
    takes := fun _ _ => Int.one_pos
    hands := by
      intro s reply q t hview
      cases s with
      | nil => cases hview
      | cons mbx rest =>
        cases hview
        refine ⟨⟨1,mbx.val,false⟩,[],rfl,Int.one_pos,List.prefix_refl _,mbx.property.1.le,?_,rfl⟩
        intro ys hfront
        apply soe_free
        have hlen := mbx.property.1
        rw [mbxType,byteAt_of_front hfront (by omega)]
        exact mbx.property.2
    silent := by
      intro s t hview
      cases s with
      | nil => exact ⟨0,rfl,hview⟩
      | cons mbx rest => cases hview }
  inbox := hin.1
  whole := by
    intro s mbx hmbx
    obtain ⟨m,-,rfl⟩ := List.mem_map.mp hmbx
    exact m.property.1
  conforms := by
    intro d f idn mbxs hmbxs
    split_ifs at hmbxs with hsame
    obtain ⟨rfl,rfl⟩ := hsame
    cases hmbxs
    exact hanswer
  serves := by
    intro s t frame d f idn mbxs hview hrequest hmbxs
    split_ifs at hmbxs
    cases hmbxs
    exact ⟨(),rfl⟩

end Slave

/-- A fragment with four bytes of an IDN, in a mailbox of 20 bytes. -/
def soeFour (incomplete a b c d : UInt8) : SoeMailbox cfg20.mbxRl.toNat :=
  ⟨soeFrame 8 0 ectSoeReadres incomplete 0 0x40 100 ([a,b,c,d]++List.replicate 6 0),rfl,
    mbxType_soe 0⟩

/-- An IDN of eight bytes. -/
def idnAnswer : List (SoeMailbox cfg20.mbxRl.toNat) := [soeFour 1 1 2 3 4,soeFour 0 5 6 7 8]

theorem idnAnswer_served : isSoeAnswer cfg20 0 0x40 (idnAnswer.map Subtype.val) := by
  have hfirst : isSoeFragment cfg20 0 0x40 (soeFour 1 1 2 3 4).val :=
    ⟨by decide +kernel,rfl,by decide +kernel,by decide +kernel⟩
  have hlast : isSoeFragment cfg20 0 0x40 (soeFour 0 5 6 7 8).val :=
    ⟨by decide +kernel,rfl,by decide +kernel,by decide +kernel⟩
  exact .more _ _ hfirst (by decide +kernel) (.last _ hlast (by decide +kernel))

/-- An answer to an earlier call that came too late waits, and begins with the same bytes. There is
no room for more of them. -/
theorem late_answer_read :
    ReadsIdn (idnSlave idnAnswer) cfg20 2 0 0x40 100 4 (idnAnswer.map Subtype.val)
      (Client.start [soeFour 0 1 2 3 4]) := by
  have hserves : ServesIdns (idnSlave idnAnswer) cfg20 _ soeView :=
    idnSlave_serves 0 0x40 (by decide) (by decide) ⟨by decide,idnAnswer_served⟩
  refine Iff.mpr (soe_read_iff_sourced hserves (if_pos ⟨rfl,rfl⟩) initMbxPool_wf
    (by rw [Client.start,initMbxPool_free]; decide) (by decide) (by decide) (by decide)) ?_
  intro k piece hk
  match k,hk with
  | 0,hk =>
    right
    cases hk
    exact ⟨_,rfl,by decide +kernel⟩
  | 1,hk =>
    left
    cases hk
    decide +kernel

/-- Nothing waits, and the call stops where it copies the first fragment. -/
theorem first_fragment_from_null :
    soeRead (idnSlave idnAnswer) cfg20 2 0 0x40 100 8 (Client.start [])=.error .nullPointer ∧
    ¬ReadsIdn (idnSlave idnAnswer) cfg20 2 0 0x40 100 8 (idnAnswer.map Subtype.val)
      (Client.start []) := by
  have hrun : soeRead (idnSlave idnAnswer) cfg20 2 0 0x40 100 8 (Client.start [])=
      .error .nullPointer := by
    -- The run is evaluated as a test of its outcome, which needs no equality of clients.
    have hstops : (match soeRead (idnSlave idnAnswer) cfg20 2 0 0x40 100 8 (Client.start []) with
        | .error e => decide (e=.nullPointer)
        | .ok _ => false)=true := by
      decide +kernel
    cases hr : soeRead (idnSlave idnAnswer) cfg20 2 0 0x40 100 8 (Client.start []) with
    | error e =>
      rw [hr] at hstops
      rw [of_decide_eq_true hstops]
    | ok r =>
      rw [hr] at hstops
      cases hstops
  refine ⟨hrun,?_⟩
  rintro ⟨r,c',hr,-⟩
  have hsame := hrun.symm.trans hr
  cases hsame

end EtherCATMaster.Mailbox
