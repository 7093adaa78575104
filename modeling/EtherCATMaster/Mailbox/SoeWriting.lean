import EtherCATMaster.Mailbox.EoeSending

namespace EtherCATMaster.Mailbox

open EtherCATMaster.Framework

variable {σ : Type} {port : Port σ} {cfg : SlaveCfg} {ok : Nat → Bool}
  {log : σ → List (List UInt8 × Bool)} {driveNo elementflags : UInt8} {idn : UInt16}

/-- The number of fragments that are still to follow, as a fragment says it. -/
def soeFragmentsLeft (mbx : List UInt8) : UInt16 := get16 mbx 8

/-- A slave for which the `k`-th send succeeds exactly if `ok k` says so. Its log keeps what was
sent; it reports its mailbox empty after a send that has succeeded, and a read of its mailbox comes
to an end. -/
structure TakesSends (port : Port σ) (cfg : SlaveCfg) (ok : Nat → Bool)
    (log : σ → List (List UInt8 × Bool)) : Prop where
  alone : Alone port
  steady : ∀ e,log (port.others e).2=log e
  sends : ∀ (m : Nat) (c : Client σ),∃ w c',mbxSend port cfg m c=.ok (w,c') ∧
    (0 < w ↔ ok (log c.env).length=true) ∧
    log c'.env=log c.env++[((c.buffers m).take cfg.mbxL.toNat,ok (log c.env).length)]
  empties : ∀ e sent mbx,log e=sent++[(mbx,true)] →
    (port.empty e).1=true ∧ log (port.empty e).2=log e
  receives : ∀ c : Client σ,c.pool.Supplied → ∃ r c',mbxReceive port cfg c=.ok (r,c') ∧
    log c'.env=log c.env

/-- The mailboxes that were sent, each with its success, make up a transfer. -/
structure WritesFragments (p : List UInt8) (sent : List (List UInt8 × Bool)) : Prop where
  whole : (∀ send ∈ sent,send.2=true) → (sent.map fun send => soePayload send.1).flatten=p ∧
    ∀ (i : Nat) (send : List UInt8 × Bool),sent[i]?=some send →
      (soeIncomplete send.1=0 ↔ i+1=sent.length) ∧
      (i+1≠sent.length → (soeFragmentsLeft send.1).toNat=sent.length-(i+1))
  stops : ∀ (before after : List (List UInt8 × Bool)) (mbx : List UInt8),
    sent=before++(mbx,false)::after → after=[]

/-- The sends of `p` in fragments of `maxdata` bytes, from the one with number `k` on. -/
inductive SoeFragmented (maxdata : Nat) (ok : Nat → Bool) :
    Nat → List UInt8 → List (List UInt8 × Bool) → Prop
  | last (k : Nat) (p mbx : List UInt8) : p.length ≤ maxdata → soePayload mbx=p →
      soeIncomplete mbx=0 → SoeFragmented maxdata ok k p [(mbx,ok k)]
  | more (k : Nat) (p mbx : List UInt8) (rest : List (List UInt8 × Bool)) : maxdata<p.length →
      soePayload mbx=p.take maxdata → soeIncomplete mbx=1 →
      soeFragmentsLeft mbx=UInt16.ofNat (p.length/maxdata) →
      SoeFragmented maxdata ok (k+1) (p.drop maxdata) rest →
      SoeFragmented maxdata ok k p ((mbx,ok k)::rest)

section Fragments

variable {maxdata k : Nat} {p : List UInt8} {sent : List (List UInt8 × Bool)}

theorem SoeFragmented.length (hpos : 0 < maxdata) (h : SoeFragmented maxdata ok k p sent) :
    sent.length=(p.length-1)/maxdata+1 := by
  induction h with
  | last k p mbx hle =>
    rw [List.length_singleton,Nat.div_eq_of_lt (by omega)]
  | more k p mbx rest hlt _ _ _ _ ih =>
    rw [List.length_cons,ih,List.length_drop,
      show p.length-1=p.length-maxdata-1+maxdata by omega,Nat.add_div_right _ hpos]

theorem SoeFragmented.outcome (h : SoeFragmented maxdata ok k p sent) :
    ∀ {i : Nat} {send : List UInt8 × Bool},sent[i]?=some send → send.2=ok (k+i) := by
  induction h with
  | last k p mbx =>
    intro i send hi
    cases i with
    | zero =>
      cases hi
      rfl
    | succ i => cases hi
  | more k p mbx rest _ _ _ _ _ ih =>
    intro i send hi
    cases i with
    | zero =>
      cases hi
      rfl
    | succ i =>
      rw [ih hi]
      congr 1
      omega

theorem SoeFragmented.payloads (h : SoeFragmented maxdata ok k p sent) :
    (sent.map fun send => soePayload send.1).flatten=p := by
  induction h with
  | last k p mbx _ hpayload => simpa using hpayload
  | more k p mbx rest _ hpayload _ _ _ ih =>
    rw [List.map_cons,List.flatten_cons,ih,hpayload,List.take_append_drop]

/-- All fragments but the last one are marked, and say how often a whole block goes into what was
left before them. -/
theorem SoeFragmented.marked (h : SoeFragmented maxdata ok k p sent) :
    ∀ {i : Nat} {send : List UInt8 × Bool},sent[i]?=some send →
      (soeIncomplete send.1=0 ↔ i+1=sent.length) ∧ (i+1≠sent.length →
        soeFragmentsLeft send.1=UInt16.ofNat ((p.length-i*maxdata)/maxdata)) := by
  have hone : (1 : UInt8)≠0 := by decide
  induction h with
  | last k p mbx _ _ hinc =>
    intro i send hi
    cases i with
    | zero =>
      cases hi
      exact ⟨⟨fun _ => rfl,fun _ => hinc⟩,fun h => absurd rfl h⟩
    | succ i => cases hi
  | more k p mbx rest hlt _ hinc hleft hrest ih =>
    intro i send hi
    have hne : rest≠[] := by
      cases hrest <;> simp
    have hpos : 0 < rest.length := List.length_pos_iff.mpr hne
    cases i with
    | zero =>
      cases hi
      refine ⟨⟨fun h => absurd (hinc.symm.trans h) hone,?_⟩,?_⟩
      · intro h
        rw [List.length_cons] at h
        omega
      · rw [Nat.zero_mul,Nat.sub_zero]
        exact fun _ => hleft
    | succ i =>
      obtain ⟨hlast,hcount⟩ := ih hi
      rw [List.length_cons]
      refine ⟨hlast.trans (by omega),fun h => ?_⟩
      rw [hcount (by omega),List.length_drop]
      congr 2
      rw [Nat.succ_mul]
      omega

theorem pred_div {n len : Nat} (hlen : 0 < len) :
    len/n=if n ∣ len then (len-1)/n+1 else (len-1)/n := by
  have h : (len-1+1)/n=_ := Nat.succ_div
  rw [show len-1+1=len by omega] at h
  split_ifs at h ⊢
  · exact h
  · exact h

/-- The number a fragment brings is that of the fragments that follow if the size is no multiple of
a block. -/
theorem fragments_follow {i n len : Nat} (hi : i<(len-1)/n) (hdvd : ¬n ∣ len) :
    (len-i*n)/n=(len-1)/n-i := by
  have hlen : 0 < len := by
    by_contra h
    rw [show len=0 by omega,Nat.zero_sub,Nat.zero_div] at hi
    omega
  have hsame := pred_div (n := n) hlen
  rw [if_neg hdvd] at hsame
  rw [← hsame,Nat.mul_comm i n,Nat.sub_mul_div]

/-- The sends of a parameter are as they should be exactly if there is only one, or no send of an
incomplete fragment fails, and the numbers of fragments are right where all succeed. -/
theorem SoeFragmented.writes_iff (hpos : 0 < maxdata) (h : SoeFragmented maxdata ok 0 p sent) :
    WritesFragments p sent ↔ p.length ≤ maxdata ∨
      (∀ k<(p.length-1)/maxdata,ok k=true) ∧ (ok ((p.length-1)/maxdata)=true →
        ¬maxdata ∣ p.length ∧ p.length/maxdata<65536) := by
  have hlen := h.length hpos
  have hget : ∀ k ≤ (p.length-1)/maxdata,∃ mbx,sent[k]?=some (mbx,ok k) := by
    intro k hk
    obtain ⟨⟨mbx,success⟩,hsend⟩ : ∃ send,sent[k]?=some send :=
      ⟨_,List.getElem?_eq_getElem (show k<sent.length by omega)⟩
    have hsuccess : success=ok (0+k) := h.outcome hsend
    rw [Nat.zero_add] at hsuccess
    exact ⟨mbx,hsuccess ▸ hsend⟩
  have hfailed : ∀ (before after : List (List UInt8 × Bool)) (mbx : List UInt8),
      sent=before++(mbx,false)::after → ok before.length=false := by
    intro before after mbx hsent
    have hat : sent[before.length]?=some (mbx,false) := by
      rw [hsent,List.getElem?_append_right (le_refl _),Nat.sub_self]
      rfl
    have houtcome : false=ok (0+before.length) := h.outcome hat
    rw [Nat.zero_add] at houtcome
    exact houtcome.symm
  constructor
  · intro hw
    by_cases hone : p.length ≤ maxdata
    · exact .inl hone
    · have hmore : 0 < (p.length-1)/maxdata := Nat.div_pos (by omega) hpos
      have hincomplete : ∀ k<(p.length-1)/maxdata,ok k=true := by
        intro k hk
        by_contra hfail
        obtain ⟨mbx,hsend⟩ := hget k hk.le
        rw [Bool.eq_false_of_not_eq_true hfail] at hsend
        obtain ⟨hlt,hat⟩ := List.getElem?_eq_some_iff.mp hsend
        have hsplit : sent=sent.take k++(mbx,false)::sent.drop (k+1) := by
          rw [← hat,List.getElem_cons_drop,List.take_append_drop]
        have hnone := hw.stops _ _ _ hsplit
        rw [List.drop_eq_nil_iff] at hnone
        omega
      refine .inr ⟨hincomplete,fun hlast => ?_⟩
      have hall : ∀ send ∈ sent,send.2=true := by
        intro send hmem
        obtain ⟨i,hi⟩ := List.mem_iff_getElem?.mp hmem
        obtain ⟨hlt,-⟩ := List.getElem?_eq_some_iff.mp hi
        rw [h.outcome hi,Nat.zero_add]
        by_cases hend : i=(p.length-1)/maxdata
        · rw [hend]
          exact hlast
        · exact hincomplete i (by omega)
      obtain ⟨mbx,hfirst⟩ := hget 0 (Nat.zero_le _)
      have hleft := ((hw.whole hall).2 0 _ hfirst).2 (by omega)
      rw [(h.marked hfirst).2 (by omega),Nat.zero_mul,Nat.sub_zero,UInt16.toNat_ofNat',hlen] at hleft
      have hdiv := pred_div (n := maxdata) (show 0 < p.length by omega)
      by_cases hdvd : maxdata ∣ p.length
      · rw [if_pos hdvd] at hdiv
        omega
      · rw [if_neg hdvd] at hdiv
        exact ⟨hdvd,by omega⟩
  · intro hcond
    refine ⟨fun hall => ⟨h.payloads,fun i send hi => ⟨(h.marked hi).1,fun hmore => ?_⟩⟩,?_⟩
    · obtain ⟨hlt,-⟩ := List.getElem?_eq_some_iff.mp hi
      rw [(h.marked hi).2 hmore]
      obtain hone|⟨-,hright⟩ := hcond
      · rw [Nat.div_eq_of_lt (show p.length-1 < maxdata by omega)] at hlen
        omega
      · obtain ⟨mbx,hlast⟩ := hget _ (le_refl _)
        obtain ⟨hdvd,hsmall⟩ := hright (hall _ (List.mem_of_getElem? hlast))
        have hfollow := fragments_follow (show i<(p.length-1)/maxdata by omega) hdvd
        have hle : (p.length-1)/maxdata ≤ p.length/maxdata := Nat.div_le_div_right (by omega)
        rw [hfollow,UInt16.toNat_ofNat_of_lt' (by simp only [UInt16.size]; omega)]
        omega
    · intro before after mbx hsent
      have hfail := hfailed before after mbx hsent
      have hcount := congrArg List.length hsent
      rw [List.length_append,List.length_cons] at hcount
      rw [← List.length_eq_zero_iff]
      obtain hone|⟨hincomplete,-⟩ := hcond
      · rw [Nat.div_eq_of_lt (show p.length-1 < maxdata by omega)] at hlen
        omega
      · have hlate : ¬before.length<(p.length-1)/maxdata := by
          intro hlt
          rw [hincomplete _ hlt] at hfail
          cases hfail
        omega

end Fragments

section Frames

theorem writereq_byte (driveNo : UInt8) (incomplete : Bool) :
    ((ectSoeWritereq+((if incomplete=true then 1 else 0 : UInt8) <<< 3)+(driveNo <<< 5)) >>> 3) &&&
      0x01=if incomplete=true then 1 else 0 := by
  have h : ∀ v : BitVec 8,((3#8+(1#8 <<< 3)+(v <<< 5)) >>> 3) &&& 1#8=1#8 ∧
      ((3#8+(0#8 <<< 3)+(v <<< 5)) >>> 3) &&& 1#8=0#8 := by decide +kernel
  apply UInt8.toBitVec_inj.mp
  cases incomplete
  · simpa [ectSoeWritereq] using (h driveNo.toBitVec).2
  · simpa [ectSoeWritereq] using (h driveNo.toBitVec).1

theorem soeFrame_length (length : UInt16) (cnt opcode incomplete driveNo elementflags : UInt8)
    (idn : UInt16) (data : List UInt8) :
    (soeFrame length cnt opcode incomplete driveNo elementflags idn data).length=
      10+data.length := by
  simp [soeFrame,mbxHeader]
  omega

theorem soeFrame_brings {cnt : UInt8} {word : UInt16} {data mbx : List UInt8}
    {incomplete : Bool}
    (h : soeFrame (UInt16.ofNat (soeSize-6+data.length)) cnt ectSoeWritereq
      (if incomplete=true then 1 else 0) driveNo elementflags word data <+: mbx)
    (hdata : data.length<65532) :
    soePayload mbx=data ∧ soeIncomplete mbx=(if incomplete=true then 1 else 0) ∧
      soeFragmentsLeft mbx=word := by
  have hlen := soeFrame_length (UInt16.ofNat (soeSize-6+data.length)) cnt ectSoeWritereq
    (if incomplete=true then 1 else 0) driveNo elementflags word data
  have hread : get16 mbx 0=_ := get16_of_front h (by omega)
  have hbyte : byteAt mbx 6=_ := byteAt_of_front h (by omega)
  have hword : get16 mbx 8=_ := get16_of_front h (by omega)
  have hlength : sdoLength mbx=UInt16.ofNat (soeSize-6+data.length) :=
    hread.trans (get16_le16 [] _ _)
  have hsize : (sdoLength mbx).toNat-4=data.length := by
    rw [hlength,UInt16.toNat_ofNat_of_lt' (by simp only [UInt16.size,soeSize]; omega),soeSize]
    omega
  refine ⟨?_,?_,?_⟩
  · obtain ⟨tail,rfl⟩ := h
    rw [soePayload,hsize,soeFrame,List.append_assoc _ data tail,
      List.drop_left' (show List.length _=soeSize by simp [mbxHeader,soeSize])]
    exact List.take_left
  · rw [soeIncomplete,hbyte]
    exact writereq_byte driveNo incomplete
  · exact hword.trans (get16_le16 (mbxHeader (UInt16.ofNat (soeSize-6+data.length)) ectMbxtSoe cnt++
      [ectSoeWritereq+((if incomplete=true then 1 else 0 : UInt8) <<< 3)+(driveNo <<< 5),
        elementflags]) word data)

end Frames

section Rounds

variable {maxdata : Nat}

theorem dropMbx_supplied {pool : MbxPool} (h : pool.Supplied) (m : Nat) :
    (dropMbx pool m).Supplied := by
  rw [dropMbx]
  split_ifs with hm
  · refine ⟨h.tail,?_,Nat.succ_pos _⟩
    intro i hi
    simp only [Function.update_apply]
    split_ifs
    · exact hm
    · exact h.cells i hi
  · exact h

theorem TakesSends.answer (hs : TakesSends port cfg ok log) (driveNo elementflags : UInt8)
    (idn : UInt16) (mbxIn : Option Nat) {c : Client σ} (h : c.pool.Supplied) :
    ∃ r w c1 c2 c3,dropMbxIn port mbxIn c=.ok ((),c1) ∧
      mbxReceive port cfg c1=.ok (r,c2) ∧
      soeWriteReply driveNo elementflags idn r c2=.ok (w,c3) ∧ log c3.env=log c.env := by
  obtain ⟨c1,hdrop,h1,hlog1⟩ : ∃ c1,dropMbxIn port mbxIn c=.ok ((),c1) ∧ c1.pool.Supplied ∧
      log c1.env=log c.env := by
    cases mbxIn with
    | none => exact ⟨c,rfl,h,rfl⟩
    | some m =>
      refine ⟨_,rfl,?_,?_⟩
      · show (dropMbx (c.interfere port).pool m).Supplied
        rw [interfere_pool hs.alone]
        exact dropMbx_supplied h m
      · show log (c.interfere port).env=_
        rw [interfere_alone hs.alone]
        exact hs.steady c.env
  obtain ⟨r,c2,hreceive,hlog2⟩ := hs.receives c1 h1
  obtain ⟨w,c3,hreply,hlog3⟩ : ∃ w c3,soeWriteReply driveNo elementflags idn r c2=.ok (w,c3) ∧
      log c3.env=log c2.env := by
    rw [soeWriteReply]
    split_ifs
    · exact ⟨_,_,rfl,rfl⟩
    · rw [reportSoeReply]
      split_ifs
      · exact ⟨_,_,rfl,rfl⟩
      · exact ⟨_,_,rfl,rfl⟩
    · exact ⟨_,_,rfl,rfl⟩
  exact ⟨r,w,c1,c2,c3,hdrop,hreceive,hreply,hlog3.trans (hlog2.trans hlog1)⟩

/-- A round of the loop after its send. What comes after the round is `next`. -/
def soeWriteRest (port : Port σ) (cfg : SlaveCfg) (driveNo elementflags : UInt8) (idn : UInt16)
    (notLast : Bool) (mbxIn : Option Nat) (wkc : Int)
    (next : Option Nat → MbxM σ (Option Nat × Int)) : MbxM σ (Option Nat × Int) :=
  if wkc>0 then do
    let reads ← soeReads port notLast
    if reads=true then do
      dropMbxIn port mbxIn
      let reply ← mbxReceive port cfg
      let wkc' ← soeWriteReply driveNo elementflags idn reply
      if reply.wkc>0 ∨ notLast=false then pure (reply.mbx,wkc')
      else next reply.mbx
    else next mbxIn
  else if notLast=true then next mbxIn
  else pure (mbxIn,wkc)

theorem TakesSends.rest_more (hs : TakesSends port cfg ok log) (driveNo elementflags : UInt8)
    (idn : UInt16) (mbxIn : Option Nat) {w : Int} {c : Client σ} (h : c.pool.Supplied)
    {before : List (List UInt8 × Bool)} {mbx : List UInt8} {success : Bool}
    (hlog : log c.env=before++[(mbx,success)]) (hw : 0 < w ↔ success=true) :
    ∃ c' : Client σ,c'.pool.Supplied ∧ log c'.env=log c.env ∧ ∀ next,
      soeWriteRest port cfg driveNo elementflags idn true mbxIn w next c=next mbxIn c' := by
  by_cases hsent : 0 < w
  · rw [hw.mp hsent] at hlog
    obtain ⟨hempty,hkept⟩ := hs.empties _ _ _ hlog
    refine ⟨{ c with env := (port.empty c.env).2 },h,hkept,fun next => ?_⟩
    have hreads : soeReads port true c=
        .ok (!(port.empty c.env).1,{ c with env := (port.empty c.env).2 }) := by
      rw [soeReads,if_pos rfl]
      rfl
    rw [soeWriteRest,if_pos hsent,run_bind hreads,hempty]
    rfl
  · refine ⟨c,h,rfl,fun next => ?_⟩
    rw [soeWriteRest,if_neg hsent,if_pos rfl]

theorem TakesSends.rest_last (hs : TakesSends port cfg ok log) (driveNo elementflags : UInt8)
    (idn : UInt16) (mbxIn : Option Nat) (w : Int) {c : Client σ} (h : c.pool.Supplied)
    (next : Option Nat → MbxM σ (Option Nat × Int)) :
    ∃ r c',soeWriteRest port cfg driveNo elementflags idn false mbxIn w next c=.ok (r,c') ∧
      log c'.env=log c.env := by
  by_cases hsent : 0 < w
  · obtain ⟨r,wkc,c1,c2,c3,hdrop,hreceive,hreply,hkept⟩ :=
      hs.answer driveNo elementflags idn mbxIn h
    refine ⟨(r.mbx,wkc),c3,?_,hkept⟩
    rw [soeWriteRest,if_pos hsent,run_bind (show soeReads port false c=.ok (true,c) from rfl),
      if_pos rfl,run_bind hdrop,run_bind hreceive,run_bind hreply,if_pos (.inr rfl)]
    rfl
  · refine ⟨(mbxIn,w),c,?_,rfl⟩
    rw [soeWriteRest,if_neg hsent,if_neg Bool.false_ne_true]
    rfl

/-- A round sends the next fragment. -/
theorem TakesSends.round (hs : TakesSends port cfg ok log) (driveNo elementflags : UInt8)
    (idn : UInt16) (hmax : soeSize+maxdata=cfg.mbxL.toNat) (hpos : 0 < maxdata) (p : List UInt8)
    (mbxIn : Option Nat) {c : Client σ} (h : c.pool.Supplied) :
    ∃ mbx w c',c'.pool.Supplied ∧ (0 < w ↔ ok (log c.env).length=true) ∧
      log c'.env=log c.env++[(mbx,ok (log c.env).length)] ∧
      soePayload mbx=p.take maxdata ∧
      soeIncomplete mbx=(if maxdata<p.length then 1 else 0) ∧
      (maxdata<p.length → soeFragmentsLeft mbx=UInt16.ofNat (p.length/maxdata)) ∧
      ∀ fuel,soeWriteLoop port cfg driveNo elementflags idn (maxdata : Int) (fuel+1) mbxIn p c=
        soeWriteRest port cfg driveNo elementflags idn (decide (maxdata<p.length)) mbxIn w
          (fun mbxIn => soeWriteLoop port cfg driveNo elementflags idn maxdata fuel mbxIn
            (p.drop (if decide (maxdata<p.length)=true then maxdata else p.length))) c' := by
  have hlt := cfg.mbxL.toNat_lt
  have hsize : soeSize=10 := rfl
  obtain ⟨m,hget,hsupplied⟩ := h.turn
  obtain ⟨drawn,c1,hrun⟩ : ∃ drawn c1,getMbxM port c=.ok (drawn,c1) := ⟨_,_,rfl⟩
  have hlog1 : log c1.env=log c.env := by
    have henv : c1.env=(c.interfere port).env := by
      cases hrun
      rfl
    rw [henv,interfere_alone hs.alone]
    exact hs.steady c.env
  obtain ⟨hdrawn,hpool⟩ := getMbxM_pool hs.alone hrun
  have hm : drawn=some m := hdrawn.trans (congrArg Prod.fst hget)
  subst hm
  obtain ⟨cnt,c2,hcnt⟩ : ∃ cnt c2,nextMbxCnt cfg
      (c1.store m (List.replicate ecMaxMbx 0))=.ok (cnt,c2) := ⟨_,_,rfl⟩
  let size := if decide (maxdata<p.length)=true then maxdata else p.length
  let word := if decide (maxdata<p.length)=true then UInt16.ofNat (p.length/maxdata) else idn
  let frame := soeFrame (UInt16.ofNat (soeSize-6+size)) cnt ectSoeWritereq
    (if decide (maxdata<p.length)=true then 1 else 0) driveNo elementflags word (p.take size)
  let c3 := c2.store m frame
  obtain ⟨w,c4,hsend,hsuccess,hlog4⟩ := hs.sends m c3
  have hready : c3.pool=(getMbx c.pool).2 ∧ log c3.env=log c.env := by
    cases hcnt
    exact ⟨hpool,hlog1⟩
  rw [hready.2] at hsuccess hlog4
  have hlen : (p.take size).length=size := by
    simp only [size,List.length_take,decide_eq_true_eq]
    split_ifs with hmore
    · omega
    · omega
  have htake : p.take size=p.take maxdata := by
    simp only [size,decide_eq_true_eq]
    split_ifs with hmore
    · rfl
    · rw [List.take_length,List.take_of_length_le (Nat.not_lt.mp hmore)]
  have hfits : size ≤ maxdata := by
    simp only [size,decide_eq_true_eq]
    split_ifs with hmore
    · exact Nat.le_refl maxdata
    · exact Nat.not_lt.mp hmore
  have hfront : frame <+: (c3.buffers m).take cfg.mbxL.toNat := by
    have hbuffer : c3.buffers m=overwrite (c2.buffers m) frame := by
      simp only [c3,Client.store,Function.update_self]
    rw [hbuffer]
    apply request_front
    simp only [frame,soeFrame_length,hlen]
    omega
  have hwhole : soeFrame (UInt16.ofNat (soeSize-6+(p.take size).length)) cnt ectSoeWritereq
      (if decide (maxdata<p.length)=true then 1 else 0) driveNo elementflags word (p.take size) <+:
        (c3.buffers m).take cfg.mbxL.toNat := by
    rw [hlen]
    exact hfront
  obtain ⟨hpayload,hincomplete,hword⟩ := soeFrame_brings hwhole (by omega)
  refine ⟨(c3.buffers m).take cfg.mbxL.toNat,w,c4,?_,hsuccess,hlog4,hpayload.trans htake,?_,?_,?_⟩
  · rw [mbxSend_pool hs.alone hsend,hready.1]
    exact hsupplied
  · simpa only [decide_eq_true_eq] using hincomplete
  · intro hmore
    rw [hword]
    simp only [word,decide_eq_true hmore,if_true]
  · intro fuel
    have hcast : decide ((p.length : Int)>maxdata)=decide (maxdata<p.length) :=
      decide_eq_decide.mpr Int.ofNat_lt
    rw [soeWriteLoop,run_bind hrun]
    dsimp only
    rw [run_bind (show clearMbx m c1=.ok ((),c1.store m (List.replicate ecMaxMbx 0)) from rfl),
      if_neg (by omega),if_neg (by omega),run_bind hcnt,hcast,Int.toNat_natCast]
    apply (run_bind (show fillMbx m frame c2=.ok ((),c3) from rfl)).trans
    exact run_bind hsend

/-- The loop sends what is left in fragments, one after the other, whatever becomes of them. -/
theorem soeWriteLoop_sends (hs : TakesSends port cfg ok log) (driveNo elementflags : UInt8)
    (idn : UInt16) (hmax : soeSize+maxdata=cfg.mbxL.toNat) (hpos : 0 < maxdata) (fuel : Nat) :
    ∀ (p : List UInt8) (mbxIn : Option Nat) (c : Client σ),
    p.length<fuel → c.pool.Supplied → ∃ r c' sent,
      soeWriteLoop port cfg driveNo elementflags idn (maxdata : Int) fuel mbxIn p c=.ok (r,c') ∧
      log c'.env=log c.env++sent ∧ SoeFragmented maxdata ok (log c.env).length p sent := by
  induction fuel with
  | zero =>
    intro p mbxIn c hfuel
    omega
  | succ fuel ih =>
    intro p mbxIn c hfuel h
    obtain ⟨mbx,w,c1,h1,hw,hlog1,hpayload,hincomplete,hleft,hround⟩ :=
      hs.round driveNo elementflags idn hmax hpos p mbxIn h
    rw [hround fuel]
    by_cases hmore : maxdata<p.length
    · rw [if_pos hmore] at hincomplete
      obtain ⟨c2,h2,hlog2,hnext⟩ :=
        hs.rest_more driveNo elementflags idn mbxIn h1 hlog1 hw
      obtain ⟨r,c',sent,hrest,hlog,hfragments⟩ := ih (p.drop maxdata) mbxIn c2
        (by rw [List.length_drop]; omega) h2
      rw [hlog2,hlog1] at hlog hfragments
      rw [List.length_append,List.length_singleton] at hfragments
      refine ⟨r,c',(mbx,ok (log c.env).length)::sent,?_,?_,
        .more _ _ _ _ hmore hpayload hincomplete (hleft hmore) hfragments⟩
      · rw [decide_eq_true hmore,hnext,if_pos rfl]
        exact hrest
      · rw [hlog,List.append_assoc]
        rfl
    · rw [if_neg hmore] at hincomplete
      rw [List.take_of_length_le (Nat.not_lt.mp hmore)] at hpayload
      rw [decide_eq_false hmore]
      obtain ⟨r,c',hrest,hkept⟩ := hs.rest_last driveNo elementflags idn mbxIn w h1 _
      exact ⟨r,c',_,hrest,hkept.trans hlog1,
        .last _ _ _ (Nat.not_lt.mp hmore) hpayload hincomplete⟩

end Rounds

/-- To a slave with such a mailbox and these outcomes of the sends, the call returns and the
mailboxes sent are as they should be. -/
def WritesParameter (mbxL : UInt16) (ok : Nat → Bool) (p : List UInt8) : Prop :=
  ∀ (σ : Type) (port : Port σ) (cfg : SlaveCfg) (log : σ → List (List UInt8 × Bool))
    (driveNo elementflags : UInt8) (idn : UInt16) (c : Client σ),
    cfg.mbxL=mbxL → TakesSends port cfg ok log → c.pool.Wf → 2 ≤ c.pool.listcount → log c.env=[] →
    ∀ fuel>p.length,∃ wkc c',soeWrite port cfg fuel driveNo elementflags idn p c=.ok (wkc,c') ∧
      WritesFragments p (log c'.env)

section Calls

variable {mbxL : UInt16} {p : List UInt8}

/-- All that `ecx_SoEwrite` sends are the fragments of the parameter. -/
theorem soeWrite_sends (hs : TakesSends port cfg ok log) (driveNo elementflags : UInt8)
    (idn : UInt16) (p : List UInt8) (hsize : soeSize<cfg.mbxL.toNat) {c : Client σ}
    (hwf : c.pool.Wf) (htwo : 2 ≤ c.pool.listcount) (hlog : log c.env=[])
    {fuel : Nat} (hfuel : fuel>p.length) :
    ∃ wkc c',soeWrite port cfg fuel driveNo elementflags idn p c=.ok (wkc,c') ∧
      SoeFragmented (cfg.mbxL.toNat-soeSize) ok 0 p (log c'.env) := by
  obtain ⟨stale,c1,hstale,hlog1⟩ := hs.receives c ⟨hwf.tail,hwf.cells,by omega⟩
  have haccounts : Accounts CountAccount [] (mbxReceive port cfg) fun r => r.mbx.toList++[] :=
    mbxReceive_accounts (countAccount_ledger hs.alone) cfg
  obtain ⟨⟨htail,hcells⟩,-,hcount⟩ := haccounts _ _ _ hstale hwf.tail hwf.cells (by simp)
  have hone : (stale.mbx.toList++[]).length ≤ 1 := by
    cases stale.mbx <;> simp
  have hmax : ((cfg.mbxL.toNat : Int)-soeSize)=((cfg.mbxL.toNat-soeSize : Nat) : Int) := by omega
  have hleft : (stale.mbx.toList++[]).length+c1.pool.listcount=0+c.pool.listcount := hcount
  obtain ⟨r,c2,sent,hloop,hlog2,hsent⟩ := soeWriteLoop_sends hs driveNo
    elementflags idn (show soeSize+(cfg.mbxL.toNat-soeSize)=cfg.mbxL.toNat by omega) (by omega) fuel
    p stale.mbx c1 hfuel ⟨htail,hcells,by omega⟩
  rw [hlog1,hlog] at hlog2 hsent
  obtain ⟨c3,hdrop,hlog3⟩ : ∃ c3,dropMbxIn port r.1 c2=.ok ((),c3) ∧ log c3.env=log c2.env := by
    cases r.1 with
    | none => exact ⟨c2,rfl,rfl⟩
    | some m =>
      refine ⟨_,rfl,?_⟩
      show log (c2.interfere port).env=_
      rw [interfere_alone hs.alone]
      exact hs.steady c2.env
  refine ⟨r.2,c3,?_,?_⟩
  · rw [soeWrite,run_bind hstale,hmax,run_bind hloop,run_bind hdrop]
    rfl
  · rw [hlog3,hlog2]
    exact hsent

/-- A slave that does not answer. It takes a mailbox as `ok` says, and is full if it does not. -/
def decidingSlave (ok : Nat → Bool) : Port (List (List UInt8 × Bool)) where
  write := fun sent frame => (if ok sent.length=true then 1 else 0,sent++[(frame,ok sent.length)])
  empty := fun sent => (sent.getLast?.elim true Prod.snd,sent)
  mailbox := fun sent => (.silent 0,sent)
  others := fun sent => ([],sent)

theorem decidingSlave_takes (ok : Nat → Bool)
    (hin : 0 < cfg.mbxL.toNat ∧ cfg.mbxL.toNat ≤ ecMaxMbx ∧ cfg.preop=true) :
    TakesSends (decidingSlave ok) cfg ok id where
  alone := fun _ => rfl
  steady := fun _ => rfl
  sends := by
    intro m c
    let frame := (c.buffers m).take cfg.mbxL.toNat
    obtain ⟨w,c1,hwrite,hw,hsent⟩ : ∃ w c1,writeMailbox (decidingSlave ok) cfg m c=.ok (w,c1) ∧
        (0 < w ↔ ok c.env.length=true) ∧ c1.env=c.env++[(frame,ok c.env.length)] := by
      rw [writeMailbox,if_pos hin,run_bind (show content m c=.ok (c.buffers m,c) from rfl)]
      by_cases hok : ok c.env.length=true
      · rw [run_bind (show writeSlave (decidingSlave ok) frame c=
          .ok (1,{ c with env := c.env++[(frame,ok c.env.length)] }) by
            simp only [writeSlave,decidingSlave,if_pos hok]),if_neg (by decide)]
        exact ⟨1,_,rfl,⟨fun _ => hok,fun _ => Int.one_pos⟩,rfl⟩
      · rw [run_bind (show writeSlave (decidingSlave ok) frame c=
          .ok (0,{ c with env := c.env++[(frame,ok c.env.length)] }) by
            simp only [writeSlave,decidingSlave,if_neg hok]),if_pos (le_refl 0)]
        have hfull : mbxEmpty (decidingSlave ok) { c with env := c.env++[(frame,ok c.env.length)] }=
            .ok (false,{ c with env := c.env++[(frame,ok c.env.length)] }) := by
          simp only [mbxEmpty,decidingSlave,List.getLast?_append,List.getLast?_singleton,
            Bool.eq_false_of_not_eq_true hok]
          rfl
        rw [run_bind hfull,if_neg (by decide)]
        exact ⟨_,_,rfl,⟨fun h => absurd h (by decide),fun h => absurd h hok⟩,rfl⟩
    obtain ⟨c2,hdrop,hkept⟩ : ∃ c2,dropMbxM (decidingSlave ok) m c1=.ok ((),c2) ∧ c2.env=c1.env :=
      ⟨_,rfl,rfl⟩
    refine ⟨w,c2,?_,hw,hkept.trans hsent⟩
    rw [mbxSend,run_bind hwrite,run_bind hdrop]
    rfl
  empties := by
    intro e sent mbx h
    refine ⟨?_,rfl⟩
    simp only [id] at h
    simp [decidingSlave,h]
  receives := by
    intro c _
    rw [mbxReceive]
    split_ifs
    · exact ⟨_,_,rfl,rfl⟩
    · exact ⟨_,_,rfl,rfl⟩

theorem WritesParameter.fragments (h : WritesParameter mbxL ok p) (hsize : soeSize < mbxL.toNat)
    (hroom : mbxL.toNat ≤ ecMaxMbx) : p.length ≤ mbxL.toNat-soeSize ∨
      (∀ k<(p.length-1)/(mbxL.toNat-soeSize),ok k=true) ∧
        (ok ((p.length-1)/(mbxL.toNat-soeSize))=true →
          ¬mbxL.toNat-soeSize ∣ p.length ∧ p.length/(mbxL.toNat-soeSize)<65536) := by
  have hpos : 0 < mbxL.toNat := by omega
  have hs : TakesSends (decidingSlave ok) ⟨1,mbxL,mbxL,true⟩ ok id :=
    decidingSlave_takes ok ⟨hpos,hroom,rfl⟩
  obtain ⟨wkc,c',hrun,hwrites⟩ := h _ (decidingSlave ok) ⟨1,mbxL,mbxL,true⟩ id 0 0 0
    (Client.start []) rfl hs initMbxPool_wf (by decide) rfl _ (Nat.lt_succ_self _)
  obtain ⟨wkc',c'',hrun',hsent⟩ := soeWrite_sends hs 0 0 0 p hsize
    (c := Client.start []) initMbxPool_wf (by decide) rfl
    (Nat.lt_succ_self _)
  cases hrun.symm.trans hrun'
  exact (hsent.writes_iff (show 0 < mbxL.toNat-soeSize by omega)).mp hwrites

/-- `ecx_SoEwrite` sends a parameter as it should exactly if one fragment is enough, or no send of
an incomplete fragment fails and, where all succeed, its size is no multiple of a block and the
number of blocks has 16 bits. Into a mailbox larger than the buffers nothing is sent at all. -/
theorem soe_write_iff (ok : Nat → Bool) (p : List UInt8) (hsize : soeSize < mbxL.toNat) :
    WritesParameter mbxL ok p ↔ ecMaxMbx < mbxL.toNat ∨ p.length ≤ mbxL.toNat-soeSize ∨
      (∀ k<(p.length-1)/(mbxL.toNat-soeSize),ok k=true) ∧
        (ok ((p.length-1)/(mbxL.toNat-soeSize))=true →
          ¬mbxL.toNat-soeSize ∣ p.length ∧ p.length/(mbxL.toNat-soeSize)<65536) := by
  constructor
  · intro h
    by_cases hroom : mbxL.toNat ≤ ecMaxMbx
    · exact .inr (h.fragments hsize hroom)
    · exact .inl (Nat.lt_of_not_le hroom)
  · intro hcond σ port cfg log driveNo elementflags idn c hmbx hs hwf htwo hlog fuel hfuel
    subst hmbx
    obtain ⟨wkc,c',hrun,hsent⟩ := soeWrite_sends hs driveNo
      elementflags idn p hsize hwf htwo hlog hfuel
    refine ⟨wkc,c',hrun,?_⟩
    obtain hlarge|hcond := hcond
    · -- there is no slave that gets a mailbox
      exfalso
      obtain ⟨w,c1,hsend,-,hsends⟩ := hs.sends 0 c
      have hnone : c1.env=(c.interfere port).env := by
        rw [mbxSend,writeMailbox,if_neg (by omega)] at hsend
        cases hsend
        rfl
      rw [hnone,interfere_alone hs.alone] at hsends
      have hsame := (hs.steady c.env).symm.trans hsends
      simp at hsame
    · exact (hsent.writes_iff (by omega)).mpr hcond

/-- Nine bytes go into three fragments of a mailbox of 14 bytes. -/
theorem nine_bytes_written : WritesParameter 14 (fun _ => true) (List.replicate 9 7) :=
  (soe_write_iff (fun _ => true) (List.replicate 9 7) (by decide)).mpr
    (.inr (.inr ⟨by decide,by decide⟩))

/-- With eight bytes the first of two fragments says that two more follow. With nine, and the first
send refused, the other fragments are sent all the same. -/
theorem eight_bytes_miscounted :
    ((soeWrite (decidingSlave fun _ => true) ⟨1,14,14,true⟩ 3 0 0x40 100 (List.replicate 8 7)
      (Client.start [])).toOption.map fun r => r.2.env.map fun send =>
        (soeIncomplete send.1,soeFragmentsLeft send.1))=some [(1,2),(0,100)] ∧
    ((soeWrite (decidingSlave fun k => k≠0) ⟨1,14,14,true⟩ 4 0 0x40 100 (List.replicate 9 7)
      (Client.start [])).toOption.map fun r => r.2.env.map Prod.snd)=some [false,true,true] ∧
    ¬∀ (mbxL : UInt16) (ok : Nat → Bool) (p : List UInt8),soeSize < mbxL.toNat →
      WritesParameter mbxL ok p := by
  refine ⟨by decide +kernel,by decide +kernel,fun hall => ?_⟩
  have hcond := (hall 14 (fun _ => true) (List.replicate 8 7) (by decide)).fragments (by decide)
    (by decide)
  revert hcond
  decide

end Calls

end EtherCATMaster.Mailbox
