import EtherCATMaster.Mailbox.EoeSending

namespace EtherCATMaster.Mailbox

open EtherCATMaster.Framework

variable {mbx : List UInt8} {frame : List (List UInt8)}

def eoeSize (mbx : List UInt8) : Nat := (sdoLength mbx-4).toNat

def eoeTotal (frame : List (List UInt8)) : Nat := (frame.map eoeSize).sum

def eoeBytes (frame : List (List UInt8)) : List UInt8 := (frame.map eoePayload).flatten

/-- The timestamp that the last fragment has at its end. -/
def eoeTrailer (last : List UInt8) : Nat := if eoeTimeAppend last=true then 4 else 0

section Sizes

theorem eoePayload_length (mbx : List UInt8) : (eoePayload mbx).length=eoeSize mbx := by
  rw [eoePayload,eoeSize,bytesAt,List.length_take,List.length_append,List.length_replicate]
  omega

theorem eoeBytes_length (frame : List (List UInt8)) : (eoeBytes frame).length=eoeTotal frame := by
  induction frame with
  | nil => rfl
  | cons mbx rest ih =>
    simp only [eoeBytes,eoeTotal,List.map_cons,List.flatten_cons,List.sum_cons,List.length_append]
      at ih ⊢
    rw [ih,eoePayload_length]

theorem eoeTotal_concat (frame : List (List UInt8)) (mbx : List UInt8) :
    eoeTotal (frame++[mbx])=eoeTotal frame+eoeSize mbx := by
  simp [eoeTotal]

theorem eoeBytes_concat (frame : List (List UInt8)) (mbx : List UInt8) :
    eoeBytes (frame++[mbx])=eoeBytes frame++eoePayload mbx := by
  simp [eoeBytes]

end Sizes

section Fragments

/-- The variables with which the data of a mailbox is stored, if it is a fragment that may come:
it opens a frame or goes on with the one at hand. -/
def eoeJoins (mbx : List UInt8) (s : EoeFragment) : Option EoeFragment :=
  if mbxType mbx=ectMbxtEoe then
    let other : Bool := decide (s.rxfragmentno.toUInt16≠eoeFragNo mbx)
    let s := if other=true ∧ s.rxfragmentno≠0 then s.reset else s
    if other=true ∧ eoeFragNo mbx>0 then none
    else if s.rxfragmentno=0 then
      some { s with
        rxframesize := eoeFrameOffset mbx <<< 5
        rxframeoffset := 0
        rxframeno := eoeFrameNo mbx }
    else if s.rxframeno≠eoeFrameNo mbx then none
    else if s.rxframeoffset.toNat≠(eoeFrameOffset mbx).toNat <<< 5 then none
    else some s
  else none

def eoeFits (mbx : List UInt8) (s : EoeFragment) : Prop :=
  s.rxframeoffset.toNat+eoeSize mbx ≤ s.rxframesize.toNat ∧
    ((s.rxframeoffset.toNat+eoeSize mbx : Nat) : Int) ≤ s.psize

instance eoeFits.decidable (mbx : List UInt8) (s : EoeFragment) : Decidable (eoeFits mbx s) :=
  inferInstanceAs (Decidable (_ ∧ _))

def eoeStored (mbx : List UInt8) (s : EoeFragment) : EoeFragment :=
  if eoeFits mbx s then
    { s with
      buffer := copyAt s.buffer s.rxframeoffset.toNat (eoePayload mbx)
      rxframeoffset := s.rxframeoffset+(sdoLength mbx-4)
      rxfragmentno := s.rxfragmentno+1 }
  else s

theorem eoeStoreFragment_eq (mbx : List UInt8) (s : EoeFragment) : eoeStoreFragment mbx s=
    if eoeLastFragment mbx=true then
      (1,{ (eoeStored mbx s).reset with psize :=
        (if eoeTimeAppend mbx=true then (eoeStored mbx s).rxframeoffset-4
          else (eoeStored mbx s).rxframeoffset).toNat })
    else (0,eoeStored mbx s) := rfl

theorem eoeReadFragment_joins {s s' : EoeFragment} (h : eoeJoins mbx s=some s') :
    eoeReadFragment mbx s=eoeStoreFragment mbx s' := by
  simp only [eoeJoins] at h
  simp only [eoeReadFragment]
  split_ifs at h ⊢ <;> cases h <;> rfl

theorem eoeReadFragment_refuses {s : EoeFragment} (h : eoeJoins mbx s=none) :
    (eoeReadFragment mbx s).1≠1 ∧ (eoeReadFragment mbx s).2.psize=s.psize ∧
      (eoeReadFragment mbx s).2.buffer=s.buffer ∧
      ((eoeReadFragment mbx s).2=s ∨ (eoeReadFragment mbx s).2.rxfragmentno=0) := by
  have herr : errEoeInvalidRxData≠1 := by decide
  have hpacket : errPacketError≠1 := by decide
  simp only [eoeJoins] at h
  simp only [eoeReadFragment]
  split_ifs at h ⊢
  all_goals
    first
    | exact ⟨herr,rfl,rfl,.inr rfl⟩
    | exact ⟨herr,rfl,rfl,.inl rfl⟩
    | exact ⟨hpacket,rfl,rfl,.inl rfl⟩

/-- The fragments of a frame so far, and whether each of them was stored. -/
structure EoeGathered where
  frame : List (List UInt8)
  whole : Bool

def EoeGathered.step (g : EoeGathered) (mbx : List UInt8) (s : EoeFragment) : EoeGathered :=
  match eoeJoins mbx s with
  | none => g
  | some s' =>
      if s'.rxfragmentno=0 then ⟨[mbx],decide (eoeFits mbx s')⟩
      else ⟨g.frame++[mbx],g.whole && decide (eoeFits mbx s')⟩

/-- What has been gathered after the calls of `ecx_EOEreadfragment` for these mailboxes. -/
def eoeGather : EoeGathered → EoeFragment → List (List UInt8) → EoeGathered
  | g,_,[] => g
  | g,s,mbx::rest => eoeGather (g.step mbx s) (eoeReadFragment mbx s).2 rest

variable {g : EoeGathered} {s : EoeFragment}

/-- The buffer has the bytes of the frame at hand, as long as all of them are stored. -/
structure Filled (g : EoeGathered) (s : EoeFragment) : Prop where
  lost : g.whole=false →
    ¬(eoeTotal g.frame ≤ s.rxframesize.toNat ∧ (eoeTotal g.frame : Int) ≤ s.psize)
  stored : g.whole=true → s.rxframeoffset.toNat=eoeTotal g.frame ∧
    s.buffer.take (eoeTotal g.frame)=eoeBytes g.frame

theorem Filled.join (h : Filled g s) (mbx : List UInt8) (hroom : s.psize ≤ s.buffer.length) :
    Filled ⟨g.frame++[mbx],g.whole && decide (eoeFits mbx s)⟩ (eoeStored mbx s) ∧
    ((g.whole && decide (eoeFits mbx s))=true → eoeTotal (g.frame++[mbx]) ≤ s.rxframesize.toNat ∧
      (eoeTotal (g.frame++[mbx]) : Int) ≤ s.psize) ∧
    (eoeStored mbx s).rxframesize=s.rxframesize ∧ (eoeStored mbx s).psize=s.psize ∧
    (eoeStored mbx s).buffer.length=s.buffer.length := by
  have htotal := eoeTotal_concat g.frame mbx
  have hlen := eoePayload_length mbx
  have hlt := s.rxframesize.toNat_lt
  have hkept : (eoeStored mbx s).rxframesize=s.rxframesize ∧ (eoeStored mbx s).psize=s.psize := by
    rw [eoeStored]
    split_ifs <;> exact ⟨rfl,rfl⟩
  have hbuffer : (eoeStored mbx s).buffer.length=s.buffer.length := by
    rw [eoeStored]
    split_ifs with hfits
    · have hend := hfits.2
      simp only [copyAt,List.length_append,List.length_take,List.length_drop,hlen]
      omega
    · rfl
  have hiff : g.whole=true → (eoeFits mbx s ↔ eoeTotal (g.frame++[mbx]) ≤ s.rxframesize.toNat ∧
      (eoeTotal (g.frame++[mbx]) : Int) ≤ s.psize) := by
    intro hwhole
    rw [eoeFits,(h.stored hwhole).1,htotal]
  refine ⟨⟨?_,?_⟩,?_,hkept.1,hkept.2,hbuffer⟩
  · intro hnot
    rw [hkept.1,hkept.2]
    cases hwhole : g.whole with
    | false =>
      have := h.lost hwhole
      simp only [htotal]
      omega
    | true =>
      rw [hwhole,Bool.true_and,decide_eq_false_iff_not] at hnot
      exact mt (hiff hwhole).mpr hnot
  · intro hall
    rw [Bool.and_eq_true,decide_eq_true_iff] at hall
    obtain ⟨hwhole,hfits⟩ := hall
    obtain ⟨hoffset,hbytes⟩ := h.stored hwhole
    have hend := hfits.1
    have hinside := hfits.2
    rw [eoeStored,if_pos hfits]
    constructor
    · simp only
      rw [UInt16.toNat_add,hoffset,htotal]
      exact Nat.mod_eq_of_lt (by rw [hoffset] at hend; exact Nat.lt_of_le_of_lt hend hlt)
    · have htake : (s.buffer.take (eoeTotal g.frame)).length=eoeTotal g.frame := by
        rw [List.length_take]
        omega
      simp only [copyAt]
      rw [hoffset,htotal,eoeBytes_concat,← hlen,← hbytes]
      exact List.take_left' (by rw [List.length_append,htake])
  · intro hall
    rw [Bool.and_eq_true,decide_eq_true_iff] at hall
    exact (hiff hall.1).mp hall.2

theorem eoeJoins_cases {s' : EoeFragment} (h : eoeJoins mbx s=some s') :
    (s'.rxfragmentno=0 ∧ s'.rxframeoffset=0 ∧ s'.rxframesize=eoeFrameOffset mbx <<< 5 ∧
      s'.psize=s.psize ∧ s'.buffer=s.buffer) ∨ (s'=s ∧ s.rxfragmentno≠0) := by
  simp only [eoeJoins] at h
  by_cases hother : s.rxfragmentno.toUInt16=eoeFragNo mbx
  · have hsame : decide (s.rxfragmentno.toUInt16≠eoeFragNo mbx)=false := by simp [hother]
    simp only [hsame,Bool.false_eq_true,false_and,if_false] at h
    split_ifs at h with htype hzero
    · cases h
      exact .inl ⟨hzero,rfl,rfl,rfl,rfl⟩
    · cases h
      exact .inr ⟨rfl,hzero⟩
  · have hnew : decide (s.rxfragmentno.toUInt16≠eoeFragNo mbx)=true := by simp [hother]
    simp only [hnew,true_and] at h
    by_cases hinside : s.rxfragmentno≠0
    · simp only [if_pos hinside] at h
      split_ifs at h with htype hno hzero
      · cases h
        exact .inl ⟨rfl,rfl,rfl,rfl,rfl⟩
      · exact absurd rfl hzero
    · simp only [if_neg hinside] at h
      split_ifs at h with htype hno hzero
      · cases h
        exact .inl ⟨hzero,rfl,rfl,rfl,rfl⟩
      · exact absurd hzero hinside

/-- The caller's variables and what has been gathered go together. -/
structure Gathers (psize : Int) (room : Nat) (g : EoeGathered) (s : EoeFragment) : Prop where
  psize : s.psize=psize
  room : s.buffer.length=room
  inside : s.rxfragmentno≠0 → Filled g s ∧ ∃ first rest,g.frame=first::rest ∧
    s.rxframesize=eoeFrameOffset first <<< 5

variable {psize : Int} {room : Nat}

/-- A fragment that is expected joins the frame it belongs to. -/
theorem Gathers.join (h : Gathers psize room g s) (hroom : psize ≤ room) {s' : EoeFragment}
    (hjoins : eoeJoins mbx s=some s') :
    Filled (g.step mbx s) (eoeStored mbx s') ∧ (eoeStored mbx s').psize=psize ∧
      (eoeStored mbx s').buffer.length=room ∧ ∃ first rest,(g.step mbx s).frame=first::rest ∧
        (eoeStored mbx s').rxframesize=eoeFrameOffset first <<< 5 ∧
        ((g.step mbx s).whole=true →
          eoeTotal (g.step mbx s).frame ≤ (eoeFrameOffset first <<< 5).toNat ∧
            (eoeTotal (g.step mbx s).frame : Int) ≤ psize) := by
  have hpsize := h.psize
  have hlength := h.room
  rw [EoeGathered.step,hjoins]
  dsimp only
  obtain ⟨hzero,hoffset,hsize,hsame,hbuffer⟩|⟨rfl,hinside⟩ := eoeJoins_cases hjoins
  · have hempty : Filled ⟨[],true⟩ s' := by
      refine ⟨fun h => absurd h (by decide),fun _ => ⟨?_,?_⟩⟩
      · rw [hoffset]
        rfl
      · rw [eoeTotal,List.map_nil,List.sum_nil,List.take_zero]
        rfl
    obtain ⟨hfilled,hkept,hframesize,hp,hb⟩ := hempty.join mbx (by
      rw [hsame,hbuffer,hpsize,hlength]
      exact hroom)
    rw [if_pos hzero]
    refine ⟨hfilled,by rw [hp,hsame,hpsize],by rw [hb,hbuffer,hlength],mbx,[],rfl,
      by rw [hframesize,hsize],fun hwhole => ?_⟩
    have hends := hkept hwhole
    rw [hsize,hsame,hpsize] at hends
    exact hends
  · obtain ⟨hfilled0,first,rest,hframe,hsize⟩ := h.inside hinside
    obtain ⟨hfilled,hkept,hframesize,hp,hb⟩ := hfilled0.join mbx (by
      rw [hpsize,hlength]
      exact hroom)
    rw [if_neg hinside]
    refine ⟨hfilled,by rw [hp,hpsize],by rw [hb,hlength],first,rest++[mbx],?_,
      by rw [hframesize,hsize],fun hwhole => ?_⟩
    · rw [hframe]
      rfl
    · have hends := hkept hwhole
      rw [hsize,hpsize] at hends
      exact hends

theorem Gathers.step (h : Gathers psize room g s) (hroom : psize ≤ room)
    (hmore : (eoeReadFragment mbx s).1≠1) :
    Gathers psize room (g.step mbx s) (eoeReadFragment mbx s).2 := by
  cases hjoins : eoeJoins mbx s with
  | none =>
    obtain ⟨-,hpsize,hbuffer,hsame⟩ := eoeReadFragment_refuses hjoins
    rw [EoeGathered.step,hjoins]
    dsimp only
    refine ⟨hpsize.trans h.psize,by rw [hbuffer,h.room],fun hinside => ?_⟩
    obtain hsame|hzero := hsame
    · rw [hsame] at hinside ⊢
      exact h.inside hinside
    · exact absurd hzero hinside
  | some s' =>
    obtain ⟨hfilled,hpsize,hbuffer,first,rest,hframe,hsize,-⟩ := h.join hroom hjoins
    rw [eoeReadFragment_joins hjoins,eoeStoreFragment_eq] at hmore ⊢
    by_cases hlast : eoeLastFragment mbx=true
    · rw [if_pos hlast] at hmore
      exact absurd rfl hmore
    · rw [if_neg hlast]
      exact ⟨hpsize,hbuffer,fun _ => ⟨hfilled,first,rest,hframe,hsize⟩⟩

theorem Gathers.run (hroom : psize ≤ room) (mbxs : List (List UInt8)) :
    ∀ {g : EoeGathered} {s : EoeFragment},Gathers psize room g s →
    (∀ r ∈ (eoeReadFragments s mbxs).1,r≠1) →
    Gathers psize room (eoeGather g s mbxs) (eoeReadFragments s mbxs).2 := by
  induction mbxs with
  | nil => exact fun h _ => h
  | cons mbx rest ih =>
    intro g s h hmore
    exact ih (h.step hroom (hmore _ List.mem_cons_self))
      fun r hr => hmore r (List.mem_cons_of_mem _ hr)

theorem eoeGather_concat (last : List UInt8) (mbxs : List (List UInt8)) :
    ∀ (g : EoeGathered) (s : EoeFragment),eoeGather g s (mbxs++[last])=
      (eoeGather g s mbxs).step last (eoeReadFragments s mbxs).2 := by
  induction mbxs with
  | nil => exact fun _ _ => rfl
  | cons mbx rest ih => exact fun g s => ih _ _

/-- The size that the first fragment of a frame announces. -/
def eoeFrameSize (frame : List (List UInt8)) : Nat :=
  frame.head?.elim 0 fun first => (eoeFrameOffset first <<< 5).toNat

/-- What the caller has after the last fragment: every fragment of the frame was stored, and the
size is that of their bytes without the timestamp. -/
structure ReportsFrame (g : EoeGathered) (last : List UInt8) (s : EoeFragment) : Prop where
  whole : g.whole=true
  bytes : s.buffer.take (eoeTotal g.frame)=eoeBytes g.frame
  size : s.psize=(eoeTotal g.frame : Int)-eoeTrailer last
  natural : 0 ≤ s.psize

/-- A frame has been read exactly if its bytes fit into the frame size announced and into the
buffer, and reach for the timestamp. -/
theorem eoeReadFragment_reports_iff (h : Gathers psize room g s) (hroom : psize ≤ room)
    (hlast : (eoeReadFragment mbx s).1=1) :
    ReportsFrame (g.step mbx s) mbx (eoeReadFragment mbx s).2 ↔
      eoeTotal (g.step mbx s).frame ≤ eoeFrameSize (g.step mbx s).frame ∧
        (eoeTotal (g.step mbx s).frame : Int) ≤ psize ∧
        eoeTrailer mbx ≤ eoeTotal (g.step mbx s).frame := by
  cases hjoins : eoeJoins mbx s with
  | none => exact absurd hlast (eoeReadFragment_refuses hjoins).1
  | some s' =>
    obtain ⟨hfilled,hpsize,hbuffer,first,rest,hframe,hsize,hkept⟩ := h.join hroom hjoins
    have hannounced : eoeFrameSize (g.step mbx s).frame=(eoeFrameOffset first <<< 5).toNat := by
      rw [hframe]
      rfl
    rw [eoeReadFragment_joins hjoins,eoeStoreFragment_eq] at hlast ⊢
    have hflag : eoeLastFragment mbx=true := by
      by_contra hnot
      rw [if_neg hnot] at hlast
      exact absurd hlast (show (0 : Int)≠1 by decide)
    rw [if_pos hflag,hannounced]
    have hlt := (eoeStored mbx s').rxframeoffset.toNat_lt
    have hfour : (4 : UInt16).toNat=4 := rfl
    have hreported : ∀ total : Nat,(eoeStored mbx s').rxframeoffset.toNat=total →
        (((if eoeTimeAppend mbx=true then (eoeStored mbx s').rxframeoffset-4
          else (eoeStored mbx s').rxframeoffset).toNat : Int)=(total : Int)-eoeTrailer mbx ↔
        eoeTrailer mbx ≤ total) := by
      intro total htotal
      rw [eoeTrailer]
      by_cases htime : eoeTimeAppend mbx=true
      · rw [if_pos htime,if_pos htime,UInt16.toNat_sub,hfour,htotal]
        omega
      · rw [if_neg htime,if_neg htime,htotal]
        omega
    constructor
    · rintro ⟨hwhole,-,hreport,-⟩
      obtain ⟨hoffset,-⟩ := hfilled.stored hwhole
      obtain ⟨hframe,hinside⟩ := hkept hwhole
      exact ⟨hframe,hinside,(hreported _ hoffset).mp hreport⟩
    · rintro ⟨hframe,hinside,htime⟩
      have hwhole : (g.step mbx s).whole=true := by
        by_contra hnot
        refine hfilled.lost (Bool.eq_false_of_not_eq_true hnot) ⟨?_,?_⟩
        · rw [hsize]
          exact hframe
        · rw [hpsize]
          exact hinside
      obtain ⟨hoffset,hbytes⟩ := hfilled.stored hwhole
      have hreport := (hreported _ hoffset).mpr htime
      exact ⟨hwhole,hbytes,hreport,Int.natCast_nonneg _⟩

end Fragments

section Receiving

variable {σ : Type} {port : Port σ} {cfg : SlaveCfg} {eoePort : UInt8} {buffersize : Int}
  {s : EoeRecv} {last : List UInt8}

/-- The mailboxes that are received one after the other from this one on, each after the one before
it has been given back. -/
inductive Receptions (port : Port σ) (cfg : SlaveCfg) :
    Received → Client σ → List (List UInt8) → Prop
  | last (reply : Received) (c : Client σ) : Receptions port cfg reply c [reply.data]
  | more (reply next : Received) (c c1 c2 : Client σ) (mbxs : List (List UInt8)) :
      dropMbxIn port reply.mbx c=.ok ((),c1) → mbxReceive port cfg c1=.ok (next,c2) →
      Receptions port cfg next c2 mbxs → Receptions port cfg reply c (reply.data::mbxs)

/-- The data has the bytes of the fragments so far, or these are more than the buffer holds. -/
def RecvFilled (buffersize : Int) (frame : List (List UInt8)) (s : EoeRecv) : Prop :=
  (s.data=eoeBytes frame ∧ (eoeTotal frame : Int) ≤ buffersize) ∨
    (s.data.length<eoeTotal frame ∧ buffersize<eoeTotal frame)

/-- What `ecx_EOErecv` hands over: the bytes of all fragments, with the size of these without the
timestamp. -/
structure ReceivesFrame (frame : List (List UInt8)) (last : List UInt8) (r : SdoRead) : Prop where
  bytes : r.data=eoeBytes frame
  size : r.psize=(eoeTotal frame : Int)-eoeTrailer last
  natural : 0 ≤ r.psize

theorem RecvFilled.store {c c' : Client σ} {s' : EoeRecv} (h : RecvFilled buffersize frame s)
    (hr : eoeRecvStore buffersize s mbx c=.ok (s',c')) (hinside : s.data.length ≤ buffersize) :
    c'=c ∧ RecvFilled buffersize (frame++[mbx]) s' ∧ s'.data.length ≤ buffersize := by
  have hlen := eoePayload_length mbx
  have htotal := eoeTotal_concat frame mbx
  have hlt := (sdoLength mbx).toNat_lt
  have hfour : (4 : UInt16).toNat=4 := rfl
  have hsize : 4 ≤ (sdoLength mbx).toNat → ((sdoLength mbx).toNat : Int)-4=eoeSize mbx := by
    intro hle
    rw [eoeSize,UInt16.toNat_sub,hfour]
    omega
  simp only [eoeRecvStore] at hr
  by_cases hfits : s.data.length+(((sdoLength mbx).toNat : Int)-4) ≤ buffersize
  · rw [if_pos hfits] at hr
    by_cases hneg : ((sdoLength mbx).toNat : Int)-4<0
    · rw [if_pos hneg] at hr
      cases hr
    · rw [if_neg hneg] at hr
      cases pure_ok.mp hr
      rw [hsize (by omega)] at hfits
      have hbytes : bytesAt mbx 10 (((sdoLength mbx).toNat : Int)-4).toNat=eoePayload mbx := by
        rw [hsize (by omega),Int.toNat_natCast]
        rfl
      refine ⟨rfl,?_,?_⟩
      · rw [RecvFilled,hbytes,htotal,eoeBytes_concat]
        dsimp only
        obtain ⟨hdata,hroom⟩|⟨hless,hroom⟩ := h
        · left
          have hdone : s.data.length=eoeTotal frame := by
            rw [hdata,eoeBytes_length]
          rw [hdata]
          exact ⟨rfl,by omega⟩
        · right
          rw [List.length_append,hlen]
          omega
      · simp only
        rw [hbytes,List.length_append,hlen]
        omega
  · rw [if_neg hfits] at hr
    cases pure_ok.mp hr
    have hbig : 4 ≤ (sdoLength mbx).toNat := by omega
    rw [hsize hbig] at hfits
    refine ⟨rfl,?_,hinside⟩
    right
    obtain ⟨hdata,hroom⟩|⟨hless,hroom⟩ := h
    · have hdone : s.data.length=eoeTotal frame := by
        rw [hdata,eoeBytes_length]
      simp only [htotal]
      omega
    · simp only [htotal]
      omega

theorem RecvFilled.reports (h : RecvFilled buffersize frame s) (wkc : Int) :
    ReceivesFrame frame last ⟨wkc,if eoeTimeAppend last=true then (s.data.length : Int)-4
      else s.data.length,s.data⟩ ↔
      (eoeTotal frame : Int) ≤ buffersize ∧ eoeTrailer last ≤ eoeTotal frame := by
  have hlen := eoeBytes_length frame
  have hsize : (if eoeTimeAppend last=true then (s.data.length : Int)-4 else s.data.length)=
      (s.data.length : Int)-eoeTrailer last := by
    rw [eoeTrailer]
    split_ifs <;> omega
  rw [hsize]
  constructor
  · rintro ⟨hbytes,-,hnatural⟩
    have hdata : s.data.length=eoeTotal frame := by
      rw [← hlen]
      exact congrArg List.length hbytes
    simp only at hnatural
    obtain ⟨-,hroom⟩|⟨hless,-⟩ := h
    · exact ⟨hroom,by omega⟩
    · omega
  · rintro ⟨hroom,htime⟩
    obtain ⟨hdata,-⟩|⟨-,hover⟩ := h
    · have hdone : s.data.length=eoeTotal frame := by
        rw [hdata,hlen]
      refine ⟨hdata,?_,?_⟩
      · simp only [hdone]
      · simp only
        omega
    · omega

/-- The rounds of the loop, in a call that reports success. -/
theorem eoeRecvLoop_reports_iff (fuel : Nat) :
    ∀ (frame : List (List UInt8)) {s : EoeRecv} {reply : Received} {r : Option Nat × SdoRead}
    {c c' : Client σ},eoeRecvLoop port cfg eoePort buffersize fuel reply s c=.ok (r,c') →
    0 < r.2.wkc → RecvFilled buffersize frame s → s.data.length ≤ buffersize →
    ∃ mbxs last,Receptions port cfg reply c (mbxs++[last]) ∧
      (∀ mbx ∈ mbxs,eoeLastFragment mbx=false) ∧ eoeLastFragment last=true ∧
      (ReceivesFrame (frame++(mbxs++[last])) last r.2 ↔
        (eoeTotal (frame++(mbxs++[last])) : Int) ≤ buffersize ∧
          eoeTrailer last ≤ eoeTotal (frame++(mbxs++[last]))) := by
  have hinvalid : ¬0<errEoeInvalidRxData := by decide
  have hpacket : ¬0<errPacketError := by decide
  induction fuel with
  | zero =>
    intro frame s reply r c c' hr
    cases hr
  | succ fuel ih =>
    intro frame s reply r c c' hr hw h hinside
    rw [eoeRecvLoop] at hr
    by_cases hwkc : reply.wkc>0
    · rw [if_pos hwkc] at hr
      by_cases htype : mbxType reply.data=ectMbxtEoe
      · rw [if_pos htype] at hr
        by_cases hexpected : eoeRecvExpects eoePort buffersize s reply.data
        · rw [if_pos hexpected] at hr
          obtain ⟨s',c1,hstore,hrest⟩ := bind_ok.mp hr
          obtain ⟨hsame,h',hinside'⟩ := h.store hstore hinside
          rw [hsame] at hrest
          by_cases hlast : eoeLastFragment reply.data=true
          · rw [if_pos hlast] at hrest
            cases pure_ok.mp hrest
            exact ⟨[],reply.data,.last reply _,by simp,hlast,h'.reports reply.wkc⟩
          · rw [if_neg hlast] at hrest
            obtain ⟨_,c2,hdrop,hrest⟩ := bind_ok.mp hrest
            obtain ⟨next,c3,hreceive,hrest⟩ := bind_ok.mp hrest
            obtain ⟨mbxs,last,hothers,hmore,hend,hiff⟩ := ih _ hrest hw h' hinside'
            refine ⟨reply.data::mbxs,last,.more _ _ _ _ _ _ hdrop hreceive hothers,?_,hend,?_⟩
            · intro mbx hmem
              rcases List.mem_cons.mp hmem with rfl|hmem
              · exact Bool.eq_false_of_not_eq_true hlast
              · exact hmore mbx hmem
            · rw [List.append_assoc] at hiff
              exact hiff
        · rw [if_neg hexpected] at hr
          cases pure_ok.mp hr
          exact absurd hw hinvalid
      · rw [if_neg htype] at hr
        cases pure_ok.mp hr
        exact absurd hw hpacket
    · rw [if_neg hwkc] at hr
      cases pure_ok.mp hr
      exact absurd hw hwkc

theorem eoeRecvLoop_room {fuel : Nat} {frameno : UInt16} {data : List UInt8} {reply : Received}
    {r : Option Nat × SdoRead} {c c' : Client σ}
    (hr : eoeRecvLoop port cfg eoePort buffersize fuel reply ⟨0,frameno,data⟩ c=.ok (r,c'))
    (hw : 0 < r.2.wkc) : 0 ≤ buffersize := by
  cases fuel with
  | zero => cases hr
  | succ fuel =>
    rw [eoeRecvLoop] at hr
    by_cases hexpected : eoeRecvExpects eoePort buffersize ⟨0,frameno,data⟩ reply.data
    · obtain ⟨-,hfirst⟩ := hexpected
      rw [if_pos rfl] at hfirst
      have := hfirst.1
      omega
    · rw [if_neg hexpected] at hr
      split_ifs at hr with hwkc htype
      · cases pure_ok.mp hr
        exact absurd hw (by decide : ¬0<errEoeInvalidRxData)
      · cases pure_ok.mp hr
        exact absurd hw (by decide : ¬0<errPacketError)
      · cases pure_ok.mp hr
        exact absurd hw hwkc

end Receiving

/-- A frame that `ecx_EOErecv` or `ecx_EOEreadfragment` reports is complete exactly if the bytes of
its fragments fit into the buffer, and for the latter into the size the first one announces, and
reach for the timestamp. -/
theorem eoe_complete_iff (eoePort : UInt8) :
    (∀ (σ : Type) (port : Port σ) (cfg : SlaveCfg) (fuel : Nat) (psize : Int) (c c' : Client σ)
      (r : SdoRead),eoeRecv port cfg fuel eoePort psize c=.ok (r,c') → 0 < r.wkc →
      ∃ first c1 mbxs last,mbxReceive port cfg c=.ok (first,c1) ∧
        Receptions port cfg first c1 (mbxs++[last]) ∧
        (∀ mbx ∈ mbxs,eoeLastFragment mbx=false) ∧ eoeLastFragment last=true ∧
        (ReceivesFrame (mbxs++[last]) last r ↔ (eoeTotal (mbxs++[last]) : Int) ≤ psize ∧
          eoeTrailer last ≤ eoeTotal (mbxs++[last]))) ∧
    ∀ (s s' : EoeFragment) (mbxs : List (List UInt8)) (last : List UInt8) (frame : EoeGathered),
      s.rxfragmentno=0 → s.psize ≤ s.buffer.length →
      (∀ r ∈ (eoeReadFragments s mbxs).1,r≠1) →
      eoeReadFragment last (eoeReadFragments s mbxs).2=(1,s') →
      frame=eoeGather ⟨[],true⟩ s (mbxs++[last]) →
      (ReportsFrame frame last s' ↔ eoeTotal frame.frame ≤ eoeFrameSize frame.frame ∧
        (eoeTotal frame.frame : Int) ≤ s.psize ∧ eoeTrailer last ≤ eoeTotal frame.frame) := by
  constructor
  · intro σ port cfg fuel psize c c' r hr hw
    obtain ⟨first,c1,hfirst,hr⟩ := bind_ok.mp hr
    obtain ⟨result,c2,hloop,hr⟩ := bind_ok.mp hr
    obtain ⟨_,c3,-,hr⟩ := bind_ok.mp hr
    cases pure_ok.mp hr
    have hroom := eoeRecvLoop_room hloop hw
    obtain ⟨mbxs,last,hrest,hmore,hlast,hiff⟩ := eoeRecvLoop_reports_iff fuel [] hloop hw
      (.inl ⟨rfl,hroom⟩) hroom
    exact ⟨first,c1,mbxs,last,hfirst,hrest,hmore,hlast,hiff⟩
  · intro s s' mbxs last frame hzero hroom hmore hlast hframe
    have hstart : Gathers s.psize s.buffer.length ⟨[],true⟩ s :=
      ⟨rfl,rfl,fun hinside => absurd hzero hinside⟩
    have h := hstart.run hroom mbxs hmore
    have hiff := eoeReadFragment_reports_iff h hroom (congrArg Prod.fst hlast)
    rw [hlast,← eoeGather_concat,← hframe] at hiff
    exact hiff

/-- A frame in one fragment. The size announced counts blocks of 32 bytes. -/
def oneFragment (info1 blocks : UInt16) (data : List UInt8) : List UInt8 :=
  eoeFrame (UInt16.ofNat (4+data.length)) 1 (0x100 ||| info1) (blocks <<< 6) data

/-- The variables and a buffer of 64 bytes. -/
def freshFragment : EoeFragment := ⟨0,0,0,0,64,List.replicate 64 0⟩

theorem forty_bytes_gathered :
    ReportsFrame (eoeGather ⟨[],true⟩ freshFragment [oneFragment 0 2 (List.replicate 40 7)])
      (oneFragment 0 2 (List.replicate 40 7))
      (eoeReadFragment (oneFragment 0 2 (List.replicate 40 7)) freshFragment).2 :=
  ((eoe_complete_iff 0).2 freshFragment _ [] (oneFragment 0 2 (List.replicate 40 7)) _ rfl
    (by decide) (by simp [eoeReadFragments]) (by rfl) rfl).mpr (by decide +kernel)

/-- Two bytes with the mark of a timestamp make a size of -2 or of 65534. Forty bytes that do not
fit into 32 are reported as none. -/
theorem short_timestamp_reported :
    ((eoeRecv (answering (oneFragment 0x200 1 [7,7])) cfg128 1 0 64 (Client.start true)).toOption.map
      fun r => (r.1.wkc,r.1.psize,r.1.data))=some (1,-2,[7,7]) ∧
    ((eoeRecv (answering (oneFragment 0 1 (List.replicate 40 7))) cfg128 1 0 32
      (Client.start true)).toOption.map fun r => (r.1.wkc,r.1.psize,r.1.data))=some (1,0,[]) ∧
    (eoeReadFragment (oneFragment 0x200 1 [7,7]) freshFragment).1=1 ∧
    (eoeReadFragment (oneFragment 0x200 1 [7,7]) freshFragment).2.psize=65534 ∧
    (eoeReadFragment (oneFragment 0 1 (List.replicate 40 7)) freshFragment).1=1 ∧
    (eoeReadFragment (oneFragment 0 1 (List.replicate 40 7)) freshFragment).2.psize=0 ∧
    ¬∀ (s s' : EoeFragment) (mbx : List UInt8),s.rxfragmentno=0 → s.psize ≤ s.buffer.length →
      eoeReadFragment mbx s=(1,s') → ReportsFrame (eoeGather ⟨[],true⟩ s [mbx]) mbx s' := by
  have hread : (eoeReadFragment (oneFragment 0x200 1 [7,7]) freshFragment).1=1 := by decide +kernel
  have hsize : (eoeReadFragment (oneFragment 0x200 1 [7,7]) freshFragment).2.psize=65534 := by
    decide +kernel
  refine ⟨by decide +kernel,by decide +kernel,hread,hsize,by decide +kernel,by decide +kernel,?_⟩
  intro hall
  have hreport := hall freshFragment (eoeReadFragment (oneFragment 0x200 1 [7,7]) freshFragment).2
    (oneFragment 0x200 1 [7,7]) rfl (by decide) (Prod.ext hread rfl)
  have hwrong := hreport.size
  rw [hsize] at hwrong
  revert hwrong
  decide +kernel

end EtherCATMaster.Mailbox
