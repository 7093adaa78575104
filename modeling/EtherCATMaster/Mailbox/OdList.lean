import EtherCATMaster.Mailbox.SdoInfo
import EtherCATMaster.Mailbox.Dialogue

namespace EtherCATMaster.Mailbox

open EtherCATMaster.Framework

section Frames

/-- A fragment of the list of objects. Only the first one has the type of the list before the
indexes. -/
structure isOdFragment (first : Bool) (left : Nat) (indexes : List UInt16) (mbx : List UInt8) :
    Prop where
  type : mbxType mbx=ectMbxtCoe
  opcode : infoOpcode mbx=ectGetOdlistRes
  left : (infoFragments mbx).toNat=left
  length : (sdoLength mbx).toNat=(if first=true then 8 else 6)+2*indexes.length
  full : 6+(sdoLength mbx).toNat ≤ mbx.length
  words : ∀ (i : Nat) (w : UInt16),indexes[i]?=some w →
    infoWdata mbx (i+if first=true then 1 else 0)=w

/-- The mailboxes with the fragments of a list. Each says how many are left. -/
inductive isOdAnswer : Bool → List (List UInt16) → List (List UInt8) → Prop
  | last (first : Bool) (indexes : List UInt16) (mbx : List UInt8) :
      isOdFragment first 0 indexes mbx → isOdAnswer first [indexes] [mbx]
  | more (first : Bool) (indexes : List UInt16) (mbx : List UInt8) (fragments : List (List UInt16))
      (mbxs : List (List UInt8)) : isOdFragment first mbxs.length indexes mbx → mbxs≠[] →
      isOdAnswer false fragments mbxs → isOdAnswer first (indexes::fragments) (mbx::mbxs)

variable {first : Bool} {left : Nat} {indexes : List UInt16} {mbx ys : List UInt8}

theorem isOdFragment.front (h : isOdFragment first left indexes mbx) (hfront : mbx <+: ys) :
    mbxType ys=ectMbxtCoe ∧ infoOpcode ys=ectGetOdlistRes ∧ (infoFragments ys).toNat=left ∧
      (sdoLength ys).toNat=(if first=true then 8 else 6)+2*indexes.length ∧
      ∀ (i : Nat) (w : UInt16),indexes[i]?=some w →
        infoWdata ys (i+if first=true then 1 else 0)=w := by
  have hfull := h.full
  have hlength := h.length
  have hhead : 12 ≤ mbx.length := by
    split_ifs at hlength <;> omega
  have h5 : byteAt ys 5=byteAt mbx 5 := byteAt_of_front hfront (by omega)
  have h8 : byteAt ys 8=byteAt mbx 8 := byteAt_of_front hfront (by omega)
  have h10 : get16 ys 10=get16 mbx 10 := get16_of_front hfront (by omega)
  have h0 : get16 ys 0=get16 mbx 0 := get16_of_front hfront (by omega)
  refine ⟨?_,?_,?_,?_,?_⟩
  · rw [mbxType,h5]
    exact h.type
  · rw [infoOpcode,h8]
    exact h.opcode
  · rw [infoFragments,h10]
    exact h.left
  · rw [sdoLength,h0]
    exact hlength
  · intro i w hi
    obtain ⟨hlt,-⟩ := List.getElem?_eq_some_iff.mp hi
    rw [infoWdata,get16_of_front hfront (by split_ifs at hlength ⊢ <;> omega)]
    exact h.words i w hi

theorem odSent_toNat
    (hlength : (sdoLength ys).toNat=(if first=true then 8 else 6)+2*indexes.length) :
    (odSent first ys).toNat=indexes.length := by
  have hlt := (sdoLength ys).toNat_lt
  have hhalf : ((sdoLength ys).toNat-(if first=true then 8 else 6 : Int)).tdiv 2=
      (indexes.length : Int) := by
    rw [hlength]
    split_ifs
    · rw [show ((8+2*indexes.length : Nat) : Int)-8=2*indexes.length by omega]
      exact Int.mul_tdiv_cancel_left _ (by decide)
    · rw [show ((6+2*indexes.length : Nat) : Int)-6=2*indexes.length by omega]
      exact Int.mul_tdiv_cancel_left _ (by decide)
  rw [odSent,hhalf,toUInt16]
  have hsmall : indexes.length<65536 := by
    split_ifs at hlength <;> omega
  have hnat : ((indexes.length : Int)%65536).toNat=indexes.length := by omega
  rw [hnat]
  exact UInt16.toNat_ofNat_of_lt' hsmall

theorem odCount_toNat {entries : Nat} (hroom : entries ≤ ecMaxOdList)
    (hsent : (odSent first ys).toNat=indexes.length) :
    (odCount first ys entries).toNat=min indexes.length (ecMaxOdList-entries) := by
  have hmax : ecMaxOdList=1024 := rfl
  have htrim : ∀ n : Nat,n ≤ 1025 → (toUInt16 (n : Int)).toNat=n := by
    intro n hn
    rw [toUInt16,show ((n : Int)%65536).toNat=n by omega]
    exact UInt16.toNat_ofNat_of_lt' (by simp only [UInt16.size]; omega)
  by_cases hfits : entries+(odSent first ys).toNat>ecMaxOdList
  · have hone : (toUInt16 (ecMaxOdList+1-(entries : Int))).toNat=ecMaxOdList+1-entries := by
      rw [show (ecMaxOdList+1-(entries : Int) : Int)=((ecMaxOdList+1-entries : Nat) : Int) by omega]
      exact htrim _ (by omega)
    have hnone : (toUInt16 (ecMaxOdList-(entries : Int))).toNat=ecMaxOdList-entries := by
      rw [show (ecMaxOdList-(entries : Int) : Int)=((ecMaxOdList-entries : Nat) : Int) by omega]
      exact htrim _ (by omega)
    simp only [odCount]
    rw [if_pos hfits,if_pos (by rw [hone]; omega),hnone]
    omega
  · simp only [odCount]
    rw [if_neg hfits,if_neg hfits]
    omega

theorem odWords_eq (hwords : ∀ (i : Nat) (w : UInt16),indexes[i]?=some w →
      infoWdata ys (i+if first=true then 1 else 0)=w) {n : Nat} (hn : n ≤ indexes.length) :
    (List.range n).map (fun i => infoWdata ys (i+if first=true then 1 else 0))=
      indexes.take n := by
  apply List.ext_getElem?
  intro i
  by_cases hi : i<n
  · have hat : indexes[i]?=some (indexes[i]) := List.getElem?_eq_getElem (by omega)
    rw [List.getElem?_map,List.getElem?_range hi,List.getElem?_take_of_lt hi,hat,Option.map_some,
      hwords i _ hat]
  · rw [List.getElem?_eq_none (by simpa using hi),
      List.getElem?_eq_none (by rw [List.length_take]; omega)]

end Frames

/-- What the code has of the list after `rounds` fragments, with some entries before them. -/
def odRead (rounds entries : Nat) (fragments : List (List UInt16)) : List UInt16 :=
  (fragments.take rounds).flatten.take (ecMaxOdList-entries)

theorem odRead_cons (rounds : Nat) {entries : Nat} {indexes : List UInt16}
    (fragments : List (List UInt16)) {n : Nat} (hn : n=min indexes.length (ecMaxOdList-entries)) :
    odRead (rounds+1) entries (indexes::fragments)=
      indexes.take n++odRead rounds (entries+n) fragments := by
  rw [odRead,odRead,List.take_succ_cons,List.flatten_cons,List.take_append,hn]
  congr 1
  · rw [Nat.min_comm,← List.take_take,List.take_length]
  · congr 1
    omega

def isOdListRequest (frame : List UInt8) : Prop :=
  mbxType frame=ectMbxtCoe ∧ coeService frame=ectCoesSdoinfo ∧ infoOpcode frame=ectGetOdlistReq

/-- A slave that answers the request for the list of its objects. -/
structure ServesOdList {σ τ : Type} (port : Port σ) (cfg : SlaveCfg)
    (view : σ → List (List UInt8) × τ) (fragments : List (List UInt16)) : Prop where
  line : Line port cfg view
  inbox : 14 ≤ cfg.mbxL.toNat
  serves : ∀ e t frame,view e=([],t) → isOdListRequest frame →
    ∃ mbxs t',isOdAnswer true fragments mbxs ∧ view (port.write e frame).2=(mbxs,t')

section Reading

variable {σ τ : Type} {port : Port σ} {cfg : SlaveCfg} {view : σ → List (List UInt8) × τ}
  {fragments : List (List UInt16)}

theorem Talking.dropAgain {need : Nat} {own : List Nat} {v : List (List UInt8) × τ} {c : Client σ}
    {mbx : Option Nat} (hs : Line port cfg view) (h : Talking view need own v c)
    (hm : ∀ m ∈ mbx,m < mbxPoolSize) : ∃ c',dropMbxIn port mbx c=.ok ((),c') ∧
      Talking view need own v c' := by
  cases mbx with
  | none => exact ⟨c,rfl,h⟩
  | some m =>
    have hsupply := h.supply
    have hown : Talking view need (m::own) v c := by
      refine ⟨h.tail,h.cells,?_,by rw [List.length_cons]; omega,h.seen⟩
      intro x hx
      rcases List.mem_cons.mp hx with rfl|hx
      · exact hm x rfl
      · exact h.items x hx
    obtain ⟨c',hdrop,h',-⟩ := hown.drop hs
    exact ⟨c',hdrop,h'⟩

/-- The rounds of the loop: what there is room for is taken out of the first fragments. -/
theorem odListLoop_reads (hs : ServesOdList port cfg view fragments) (rounds : Nat) :
    ∀ (first : Bool) (mbxIn : Option Nat) (od : OdList) {frags : List (List UInt16)}
    {mbxs : List (List UInt8)} {t : τ} {c : Client σ},isOdAnswer first frags mbxs →
    Talking view 1 (mbxIn.toList++[]) (mbxs,t) c → od.index.length ≤ ecMaxOdList → 0 < od.wkc →
    ∃ m w q c',odListLoop port cfg rounds first mbxIn od c=
        .ok ((m,⟨w,od.index++odRead rounds od.index.length frags⟩),c') ∧ 0 < w ∧
      Talking view 1 (m.toList++[]) (q,t) c' := by
  induction rounds with
  | zero =>
    intro first mbxIn od frags mbxs t c _ h _ hw
    refine ⟨mbxIn,od.wkc,mbxs,c,?_,hw,h⟩
    rw [odListLoop,odRead,List.take_zero,List.flatten_nil,List.take_nil,List.append_nil]
    rfl
  | succ rounds ih =>
    intro first mbxIn od frags mbxs t c hanswer h hroom hw
    obtain ⟨indexes,others,mbx,rest,rfl,rfl,hfragment,hothers⟩ : ∃ indexes others mbx rest,
        frags=indexes::others ∧ mbxs=mbx::rest ∧ isOdFragment first rest.length indexes mbx ∧
          (rest=[] ∧ others=[] ∨ rest≠[] ∧ isOdAnswer false others rest) := by
      cases hanswer with
      | last _ indexes mbx hmbx => exact ⟨indexes,[],mbx,[],rfl,rfl,hmbx,.inl ⟨rfl,rfl⟩⟩
      | more _ indexes mbx others rest hmbx hne hrest =>
        exact ⟨indexes,others,mbx,rest,rfl,rfl,hmbx,.inr ⟨hne,hrest⟩⟩
    obtain ⟨c1,hdrop,h1,-⟩ := h.dropIn hs.line
    obtain ⟨r,m,c2,hreceive,hr,hm,hfront,h2,-⟩ := h1.receive hs.line (by simp)
    obtain ⟨htype,hopcode,hleft,hlength,hwords⟩ := hfragment.front hfront
    have hsent := odSent_toNat hlength
    have hcount := odCount_toNat hroom hsent
    have hread := odRead_cons rounds others hcount
    have htaken := odWords_eq hwords (n := (odCount first r.data od.index.length).toNat)
      (by rw [hcount]; exact Nat.min_le_left _ _)
    obtain ⟨c3,hreport,h3⟩ : ∃ c3,reportOdOverflow first r.data od.index.length c2=.ok ((),c3) ∧
        Talking view 1 [m] (rest,t) c3 := by
      rw [reportOdOverflow]
      split_ifs
      · exact ⟨_,rfl,h2.tail,h2.cells,h2.items,h2.supply,h2.seen⟩
      · exact ⟨c2,rfl,h2⟩
    have hround : odListLoop port cfg (rounds+1) first mbxIn od c=
        ((if infoFragments r.data>0 then odListLoop port cfg rounds false r.mbx
            ⟨r.wkc,od.index++indexes.take (odCount first r.data od.index.length).toNat⟩
          else pure (r.mbx,⟨r.wkc,od.index++indexes.take
            (odCount first r.data od.index.length).toNat⟩)) : MbxM σ (Option Nat × OdList)) c3 := by
      rw [odListLoop,run_bind hdrop,run_bind hreceive,if_pos hr,if_pos ⟨htype,hopcode⟩,
        run_bind hreport]
      simp only [htaken]
    rw [hround,hread,hm]
    obtain ⟨rfl,rfl⟩|⟨hne,hrest⟩ := hothers
    · have hlast : ¬infoFragments r.data>0 := by
        intro hpos
        have := UInt16.lt_iff_toNat_lt.mp hpos
        rw [hleft] at this
        simp at this
      refine ⟨some m,r.wkc,[],c3,?_,hr,h3⟩
      rw [if_neg hlast,odRead,List.take_nil,List.flatten_nil,List.take_nil,List.append_nil]
      rfl
    · have hmore : infoFragments r.data>0 := by
        apply UInt16.lt_iff_toNat_lt.mpr
        rw [hleft]
        exact List.length_pos_iff.mpr hne
      have hnew : (indexes.take (odCount first r.data od.index.length).toNat).length=
          (odCount first r.data od.index.length).toNat := by
        rw [List.length_take,hcount]
        omega
      obtain ⟨m',w,q,c',hloop,hw',h'⟩ := ih false (some m)
        ⟨r.wkc,od.index++indexes.take (odCount first r.data od.index.length).toNat⟩
        hrest h3 (by rw [List.length_append,hnew,hcount]; omega) hr
      refine ⟨m',w,q,c',?_,hw',h'⟩
      rw [if_pos hmore,hloop]
      simp only [List.length_append,hnew,List.append_assoc]

/-- The request of `ecx_readODlist`. -/
def odListRequest (cnt : UInt8) : List UInt8 := infoFrame 8 cnt ectGetOdlistReq (le16 0x01)

theorem odListRequest_front {cnt : UInt8} {mbx : List UInt8} (h : odListRequest cnt <+: mbx) :
    isOdListRequest mbx := by
  have hlen : (odListRequest cnt).length=14 := by
    simp [odListRequest,infoFrame,coeHeader,mbxHeader]
  have htype : byteAt mbx 5=_ := byteAt_of_front h (by omega)
  have hopcode : byteAt mbx 8=_ := byteAt_of_front h (by omega)
  have hservice : get16 mbx 6=_ := get16_of_front h (by omega)
  have hword := hservice.trans (get16_le16 (mbxHeader 8 ectMbxtCoe cnt) (ectCoesSdoinfo <<< 12)
    ([ectGetOdlistReq,0]++le16 0++le16 0x01))
  refine ⟨?_,?_,?_⟩
  · rw [mbxType,htype]
    exact mbxType_header cnt
  · rw [coeService,hword]
    rfl
  · rw [infoOpcode,hopcode,show byteAt (odListRequest cnt) 8=ectGetOdlistReq from rfl]
    decide

/-- From a slave that serves it the call gets the first fragments of the list, as far as there is
room for them. -/
theorem readOdList_reads (hs : ServesOdList port cfg view fragments) {c : Client σ}
    (hwf : c.pool.Wf) (hone : 1 ≤ c.pool.listcount) (hwaiting : (view c.env).1.length ≤ 1) :
    ∃ w c',readOdList port cfg c=.ok (⟨w,odRead 129 0 fragments⟩,c') ∧ 0 < w := by
  have h : Talking view 1 [] ((view c.env).1,(view c.env).2) c := Talking.start view hwf hone
  obtain ⟨stale,c1,hstale,h1,-⟩ := h.clearAll hs.line (by decide) hwaiting
  have hitems : ∀ m ∈ stale.mbx,m < mbxPoolSize := by
    intro m hm
    rw [Option.mem_def] at hm
    exact h1.items m (by rw [hm]; exact List.mem_cons_self)
  obtain ⟨c2,hdrop,h2,-⟩ := h1.dropIn hs.line
  obtain ⟨out,c3,hget,h3,-⟩ := h2.get hs.line (by decide)
  have h4 := h3.store out (List.replicate ecMaxMbx 0)
  obtain ⟨cnt,c5,hcnt,h5,-⟩ := h4.count cfg
  have h6 := h5.store out (odListRequest cnt)
  obtain ⟨wkc,c7,hsend,hwkc,h7,-⟩ := h6.send hs.line
  have hfront : odListRequest cnt <+:
      ((c5.store out (odListRequest cnt)).buffers out).take cfg.mbxL.toNat := by
    simp only [Client.store,Function.update_self]
    apply request_front
    have hlen : (odListRequest cnt).length=14 := by
      simp [odListRequest,infoFrame,coeHeader,mbxHeader]
    rw [hlen]
    exact hs.inbox
  obtain ⟨mbxs,t',hanswer,hview⟩ := hs.serves _ _ _ h6.seen (odListRequest_front hfront)
  rw [hview] at h7
  -- the mailbox that was waiting goes back a second time
  obtain ⟨c8,hagain,h8⟩ := h7.dropAgain hs.line hitems
  obtain ⟨m,w,q,c9,hloop,hw,h9⟩ := odListLoop_reads hs 129 _ none ⟨wkc,[]⟩
    hanswer h8 (Nat.zero_le _) hwkc
  obtain ⟨c10,hlast,-⟩ := h9.dropIn hs.line
  refine ⟨w,c10,?_,hw⟩
  have hsame : odListLoop port cfg 129 true stale.mbx ⟨wkc,[]⟩ c7=
      odListLoop port cfg 129 true none ⟨wkc,[]⟩ c8 := by
    rw [odListLoop,odListLoop,run_bind hagain,
      run_bind (show dropMbxIn port none c8=.ok ((),c8) from rfl)]
  rw [readOdList,infoService,run_bind hstale,run_bind hdrop,run_bind hget]
  dsimp only
  rw [readOdListRequest,
    run_bind (show clearMbx out c3=.ok ((),c3.store out (List.replicate ecMaxMbx 0)) from rfl),
    run_bind hcnt]
  apply (run_bind (show fillMbx out (odListRequest cnt) c5=
    .ok ((),c5.store out (odListRequest cnt)) from rfl)).trans
  rw [run_bind hsend,if_pos hwkc,run_bind (hsame.trans hloop),run_bind hlast]
  rfl

/-- The result counts the objects in the first 129 fragments, up to the size of the array, and the
array has their indexes in order. -/
theorem od_list_read (hs : ServesOdList port cfg view fragments) {c : Client σ}
    (hwf : c.pool.Wf) (hone : 1 ≤ c.pool.listcount) (hwaiting : (view c.env).1.length ≤ 1) :
    ∃ od c',readOdList port cfg c=.ok (od,c') ∧ 0 < od.wkc ∧
      od.index.length=min (fragments.take 129).flatten.length ecMaxOdList ∧
      od.index=(fragments.take 129).flatten.take od.index.length ∧
      od.index.length ≤ ecMaxOdList := by
  obtain ⟨w,c',hrun,hw⟩ := readOdList_reads hs hwf hone hwaiting
  have hlen : (odRead 129 0 fragments).length=
      min (fragments.take 129).flatten.length ecMaxOdList := by
    rw [odRead,List.length_take,Nat.sub_zero,Nat.min_comm]
  refine ⟨_,c',hrun,hw,hlen,?_,?_⟩
  · rw [hlen,Nat.min_comm,← List.take_take,List.take_length]
    rfl
  · rw [hlen]
    exact Nat.min_le_right _ _

end Reading

section Slave

/-- A mailbox of at most `room` bytes with an answer of the information service in it. -/
abbrev InfoMailbox (room : Nat) :=
  { mbx : List UInt8 // 8 ≤ mbx.length ∧ mbx.length ≤ room ∧ mbxType mbx=ectMbxtCoe ∧
    coeService mbx=ectCoesSdoinfo }

/-- A slave that answers each request with the same mailboxes. Its state is what waits to be
read. -/
def listingSlave {room : Nat} (answer : List (InfoMailbox room)) :
    Port (List (InfoMailbox room)) where
  write := fun _ _ => (1,answer)
  empty := fun s => (true,s)
  mailbox := fun s => (s.head?.elim (.silent 0) (fun mbx => .full ⟨1,mbx.val,false⟩ []),s.tail)
  others := fun s => ([],s)

theorem listingSlave_serves {cfg : SlaveCfg} {answer : List (InfoMailbox cfg.mbxRl.toNat)}
    {fragments : List (List UInt16)}
    (hin : 14 ≤ cfg.mbxL.toNat ∧ cfg.mbxL.toNat ≤ ecMaxMbx ∧ cfg.preop=true)
    (hout : 0 < cfg.mbxRl.toNat ∧ cfg.mbxRl.toNat ≤ ecMaxMbx)
    (hanswer : isOdAnswer true fragments (answer.map Subtype.val)) :
    ServesOdList (listingSlave answer) cfg (fun s => (s.map Subtype.val,())) fragments where
  line := {
    inbox := ⟨by omega,hin.2⟩
    outbox := hout
    alone := fun _ => rfl
    steady := fun _ => rfl
    takes := fun _ _ => Int.one_pos
    hands := by
      intro s reply q t hview
      cases s with
      | nil => cases hview
      | cons mbx rest =>
        cases hview
        obtain ⟨hlen,hmax,htype,hservice⟩ := mbx.property
        refine ⟨⟨1,mbx.val,false⟩,[],rfl,Int.one_pos,List.prefix_refl _,hmax,?_,rfl⟩
        intro ys hfront
        have h5 : mbxType ys=ectMbxtCoe := by
          rw [mbxType,byteAt_of_front hfront (by omega)]
          exact htype
        have h6 : coeService ys=ectCoesSdoinfo := by
          rw [coeService,get16_of_front hfront (by omega)]
          exact hservice
        have herr : ectMbxtCoe≠ectMbxtErr := by decide
        have heoe : ectMbxtCoe≠ectMbxtEoe := by decide
        have hemergency : ectCoesSdoinfo≠1 := by decide
        simp [handledInReceive,h5,h6,herr,heoe,hemergency]
    silent := by
      intro s t hview
      cases s with
      | nil => exact ⟨0,rfl,hview⟩
      | cons mbx rest => cases hview }
  inbox := hin.1
  serves := fun _ _ _ _ _ => ⟨_,(),hanswer,rfl⟩

end Slave

/-- A fragment with one index, in a mailbox of 18 bytes. Only the first one has the type of the
list. -/
def oneIndex (first : Bool) (left index : UInt16) : List UInt8 :=
  coeHeader (if first=true then 10 else 8) 1 (ectCoesSdoinfo <<< 12)++
    [ectGetOdlistRes,0]++le16 left++(if first=true then le16 1 else [])++le16 index

def cfg18 : SlaveCfg := ⟨1,18,18,true⟩

theorem oneIndex_length (first : Bool) (left index : UInt16) :
    (oneIndex first left index).length=if first=true then 16 else 14 := by
  cases first <;> simp [oneIndex,coeHeader,mbxHeader]

theorem oneIndex_fragment (first : Bool) {left : Nat} (hleft : left<65536) (index : UInt16) :
    isOdFragment first left [index] (oneIndex first (UInt16.ofNat left) index) := by
  have hlen := oneIndex_length first (UInt16.ofNat left) index
  let head := coeHeader (if first=true then 10 else 8) 1 (ectCoesSdoinfo <<< 12)++
    [ectGetOdlistRes,0]
  let kind : List UInt8 := if first=true then le16 1 else []
  have hword : get16 (oneIndex first (UInt16.ofNat left) index) 10=UInt16.ofNat left := by
    have hread := get16_le16 head (UInt16.ofNat left) (kind++le16 index)
    rw [← List.append_assoc,← List.append_assoc] at hread
    have hten : head.length=10 := by
      simp [head,coeHeader,mbxHeader]
    rw [hten] at hread
    exact hread
  have hindex : get16 (oneIndex first (UInt16.ofNat left) index)
      (12+2*(0+if first=true then 1 else 0))=index := by
    have hread := get16_le16 (head++le16 (UInt16.ofNat left)++kind) index []
    rw [List.append_nil] at hread
    have hfront : (head++le16 (UInt16.ofNat left)++kind).length=
        12+2*(0+if first=true then 1 else 0) := by
      cases first <;> simp [head,kind,coeHeader,mbxHeader]
    rw [hfront] at hread
    exact hread
  have hlength : sdoLength (oneIndex first (UInt16.ofNat left) index)=
      if first=true then 10 else 8 := get16_le16 [] _ _
  refine ⟨?_,?_,?_,?_,?_,?_⟩
  · have hbyte : byteAt (oneIndex first (UInt16.ofNat left) index) 5=
        ectMbxtCoe+((1 : UInt8) <<< 4) := rfl
    rw [mbxType,hbyte]
    exact mbxType_header 1
  · have hbyte : byteAt (oneIndex first (UInt16.ofNat left) index) 8=ectGetOdlistRes := rfl
    rw [infoOpcode,hbyte]
    decide
  · rw [infoFragments,hword]
    exact UInt16.toNat_ofNat_of_lt' hleft
  · rw [hlength]
    cases first <;> rfl
  · rw [hlength,hlen]
    cases first <;> decide
  · intro i w hi
    cases i with
    | zero =>
      cases hi
      exact hindex
    | succ i => cases hi

def oneIndexMailbox (first : Bool) (left index : UInt16) : InfoMailbox cfg18.mbxRl.toNat :=
  ⟨oneIndex first left index,by
    have hlen := oneIndex_length first left index
    have hroom : cfg18.mbxRl.toNat=18 := rfl
    refine ⟨by split_ifs at hlen <;> omega,by split_ifs at hlen <;> omega,?_,?_⟩
    · have hbyte : byteAt (oneIndex first left index) 5=ectMbxtCoe+((1 : UInt8) <<< 4) := rfl
      rw [mbxType,hbyte]
      exact mbxType_header 1
    · have hread := get16_le16 (mbxHeader (if first=true then 10 else 8) ectMbxtCoe 1)
        (ectCoesSdoinfo <<< 12) ([ectGetOdlistRes,0]++le16 left++
          (if first=true then le16 1 else [])++le16 index)
      have hword : get16 (oneIndex first left index) 6=ectCoesSdoinfo <<< 12 := by
        rw [oneIndex,coeHeader]
        simp only [List.append_assoc] at hread ⊢
        exact hread
      rw [coeService,hword]
      decide⟩

/-- A list with one object in each fragment. -/
def oneByOne : Bool → List UInt16 → List (InfoMailbox cfg18.mbxRl.toNat)
  | _,[] => []
  | first,index::rest =>
      oneIndexMailbox first (UInt16.ofNat rest.length) index::oneByOne false rest

theorem oneByOne_answer (indexes : List UInt16) : ∀ (first : Bool),indexes≠[] →
    indexes.length ≤ 65536 →
    isOdAnswer first (indexes.map fun index => [index]) ((oneByOne first indexes).map Subtype.val) ∧
      (oneByOne first indexes).length=indexes.length := by
  induction indexes with
  | nil => exact fun _ hne => absurd rfl hne
  | cons index rest ih =>
    intro first _ hlen
    rw [List.length_cons] at hlen
    have hfragment := oneIndex_fragment first (show rest.length<65536 by omega) index
    by_cases hrest : rest=[]
    · subst hrest
      exact ⟨.last _ _ _ hfragment,rfl⟩
    · obtain ⟨hanswer,hcount⟩ := ih false hrest (by omega)
      have hmap : ((oneByOne false rest).map Subtype.val).length=rest.length := by
        rw [List.length_map,hcount]
      refine ⟨.more _ _ _ _ _ (hmap ▸ hfragment) ?_ hanswer,?_⟩
      · rw [← List.length_pos_iff,hmap]
        exact List.length_pos_iff.mpr hrest
      · rw [oneByOne,List.length_cons,List.length_cons,hcount]

/-- Two objects in two fragments. -/
theorem two_objects_listed : ∃ od c',readOdList (listingSlave (oneByOne true [0x1000,0x1018])) cfg18
      (Client.start [])=.ok (od,c') ∧ 0 < od.wkc ∧
    od.index.length=min ([[0x1000],[0x1018]].take 129).flatten.length ecMaxOdList ∧
    od.index=([[0x1000],[0x1018]].take 129).flatten.take od.index.length ∧
    od.index.length ≤ ecMaxOdList :=
  od_list_read (listingSlave_serves (by decide) (by decide)
    (oneByOne_answer [0x1000,0x1018] true (by decide) (by decide)).1) initMbxPool_wf (by decide)
    (by decide)

/-- With 130 objects in as many fragments the last one is missing. -/
theorem last_object_not_listed :
    (∃ od c',readOdList (listingSlave (oneByOne true (List.replicate 130 0x2000))) cfg18
      (Client.start [])=.ok (od,c') ∧ 0 < od.wkc ∧ od.index.length=129) ∧
    ¬∀ (fragments : List (List UInt16)) (answer : List (InfoMailbox cfg18.mbxRl.toNat)),
      isOdAnswer true fragments (answer.map Subtype.val) →
      ∃ od c',readOdList (listingSlave answer) cfg18 (Client.start [])=.ok (od,c') ∧ 0 < od.wkc ∧
        od.index.length=min fragments.flatten.length ecMaxOdList := by
  have hanswer := (oneByOne_answer (List.replicate 130 0x2000) true (by simp)
    (by simp)).1
  obtain ⟨w,c',hrun,hw⟩ := readOdList_reads (listingSlave_serves (by decide) (by decide) hanswer)
    (c := Client.start []) initMbxPool_wf (by decide) (Nat.zero_le _)
  have hlen : (odRead 129 0 ((List.replicate 130 0x2000).map fun index => [index])).length=129 := by
    decide +kernel
  refine ⟨⟨_,c',hrun,hw,hlen⟩,fun hall => ?_⟩
  obtain ⟨od,c'',hrun',-,hlen'⟩ := hall _ _ hanswer
  cases hrun.symm.trans hrun'
  rw [hlen] at hlen'
  revert hlen'
  decide +kernel

end EtherCATMaster.Mailbox
