import EtherCATMaster.Mailbox.ServiceAccounts
import EtherCATMaster.Mailbox.Dialogue

namespace EtherCATMaster.Mailbox

open EtherCATMaster.Framework

/-- A mailbox with a FoE frame: its opcode, its 32 bit word, and the bytes behind it. -/
structure isFoeMailbox (opcode : UInt8) (word : UInt32) (data mbx : List UInt8) : Prop where
  type : mbxType mbx=ectMbxtFoe
  code : foeOpcode mbx=opcode
  word : foeWord mbx=word
  length : sdoLength mbx=UInt16.ofNat (6+data.length)
  room : 12+data.length ≤ mbx.length
  data : (mbx.drop 12).take data.length=data

section Frames

variable {opcode : UInt8} {word : UInt32} {data mbx : List UInt8}

theorem mbxType_foe (cnt : UInt8) : (ectMbxtFoe+(cnt <<< 4)) &&& 0x0f=ectMbxtFoe := by
  have h : ∀ v : BitVec 8,(4#8+(v <<< 4)) &&& 0x0f#8=4#8 := by decide +kernel
  apply UInt8.toBitVec_inj.mp
  simpa [ectMbxtFoe] using h cnt.toBitVec

theorem foeFrame_length (length : UInt16) (cnt opcode : UInt8) (word : UInt32)
    (data : List UInt8) : (foeFrame length cnt opcode word data).length=12+data.length := by
  simp [foeFrame,mbxHeader]
  omega

theorem isFoeMailbox_of_front {cnt : UInt8}
    (h : foeFrame (UInt16.ofNat (6+data.length)) cnt opcode word data <+: mbx) :
    isFoeMailbox opcode word data mbx := by
  have hlen := foeFrame_length (UInt16.ofNat (6+data.length)) cnt opcode word data
  have htype : byteAt mbx 5=_ := byteAt_of_front h (by omega)
  have hcode : byteAt mbx 6=_ := byteAt_of_front h (by omega)
  have hword : get32 mbx 8=_ := get32_of_front h (by omega)
  have hlength : get16 mbx 0=_ := get16_of_front h (by omega)
  constructor
  · rw [mbxType,htype]
    exact mbxType_foe cnt
  · exact hcode
  · exact hword.trans (get32_le32 (mbxHeader (UInt16.ofNat (6+data.length)) ectMbxtFoe cnt++
      [opcode,0]) word data)
  · exact hlength.trans (get16_le16 [] _ _)
  · have := h.length_le
    omega
  · rw [field_of_front h (by omega)]
    exact List.take_length

theorem isFoeMailbox.front {ys : List UInt8} (h : isFoeMailbox opcode word data mbx)
    (hfront : mbx <+: ys) : isFoeMailbox opcode word data ys := by
  have hroom := h.room
  constructor
  · rw [mbxType,byteAt_of_front hfront (by omega)]
    exact h.type
  · rw [foeOpcode,byteAt_of_front hfront (by omega)]
    exact h.code
  · rw [foeWord,get32_of_front hfront (by omega)]
    exact h.word
  · rw [sdoLength,get16_of_front hfront (by omega)]
    exact h.length
  · exact hroom.trans hfront.length_le
  · rw [field_of_front hfront (by omega)]
    exact h.data

theorem isFoeMailbox.bytes (h : isFoeMailbox opcode word data mbx) :
    bytesAt mbx 12 data.length=data := by
  rw [bytesAt_of_front (List.prefix_refl mbx) h.room]
  exact h.data

theorem isFoeMailbox.size (h : isFoeMailbox opcode word data mbx) (hdata : data.length ≤ ecMaxMbx) :
    sdoLength mbx-0x0006=UInt16.ofNat data.length := by
  have hmax : ecMaxMbx=1486 := rfl
  apply UInt16.toNat_inj.mp
  have hlt : (UInt16.ofNat (6+data.length)).toNat=6+data.length :=
    UInt16.toNat_ofNat_of_lt' (by simp only [UInt16.size]; omega)
  have hsmall : (UInt16.ofNat data.length).toNat=data.length :=
    UInt16.toNat_ofNat_of_lt' (by simp only [UInt16.size]; omega)
  have hsix : (0x0006 : UInt16).toNat=6 := rfl
  rw [h.length,UInt16.toNat_sub_of_le]
  · omega
  · rw [UInt16.le_iff_toNat_le]
    omega

theorem size_toNat {n : Nat} (hn : n ≤ ecMaxMbx) : (UInt16.ofNat n).toNat=n := by
  have hmax : ecMaxMbx=1486 := rfl
  exact UInt16.toNat_ofNat_of_lt' (by simp only [UInt16.size]; omega)

end Frames

section Sending

variable {σ τ : Type} {port : Port σ} {cfg : SlaveCfg} {view : σ → List (List UInt8) × τ}
  {need : Nat} {own : List Nat} {v : List (List UInt8) × τ} {c : Client σ}

theorem foeSend_run (hs : Line port cfg view) (opcode : UInt8) (packet : UInt32)
    {data : List UInt8} (h : Talking view need own v c) (hl : own.length < need)
    (hfit : 12+data.length ≤ cfg.mbxL.toNat) :
    ∃ (e : σ) (frame : List UInt8) (wkc : Int) (c' : Client σ),view e=v ∧
      isFoeMailbox opcode packet data frame ∧
      foeSend port cfg opcode packet data c=.ok (wkc,c') ∧ 0 < wkc ∧
      Talking view need own (view (port.write e frame).2) c' := by
  obtain ⟨out,c1,hget,h1,-⟩ := h.get hs hl
  have h2 := h1.store out (List.replicate ecMaxMbx 0)
  obtain ⟨cnt,c3,hcnt,h3,-⟩ := h2.count cfg
  let frame := foeFrame (UInt16.ofNat (0x0006+data.length)) cnt opcode packet data
  have h4 := h3.store out frame
  obtain ⟨wkc,c5,hsend,hwkc,h5,-⟩ := h4.send hs
  have hfront : frame <+: ((c3.store out frame).buffers out).take cfg.mbxL.toNat := by
    simp only [Client.store,Function.update_self]
    apply request_front
    rw [foeFrame_length]
    exact hfit
  refine ⟨_,_,wkc,c5,h4.seen,isFoeMailbox_of_front hfront,?_,hwkc,h5⟩
  rw [foeSend,run_bind hget]
  dsimp only
  rw [run_bind (show clearMbx out c1=.ok ((),c1.store out (List.replicate ecMaxMbx 0)) from rfl),
    run_bind hcnt,run_bind (show fillMbx out frame c3=.ok ((),c3.store out frame) from rfl)]
  exact hsend

/-- The name of the file as it is put in the request. -/
def foeName (cfg : SlaveCfg) (filename : List UInt8) : List UInt8 :=
  filename.take (foeNameSize cfg filename)

theorem foeNameSize_le (cfg : SlaveCfg) (filename : List UInt8) :
    foeNameSize cfg filename ≤ filename.length ∧
      foeNameSize cfg filename ≤ (foeMaxData cfg).toNat := by
  have hmod : (UInt16.ofNat filename.length).toNat ≤ filename.length := by
    rw [UInt16.toNat_ofNat']
    exact Nat.mod_le _ _
  simp only [foeNameSize]
  split_ifs <;> omega

theorem foeMaxData_toNat (h : 12 ≤ cfg.mbxL.toNat) :
    (foeMaxData cfg).toNat=cfg.mbxL.toNat-12 := by
  have htwelve : (12 : UInt16).toNat=12 := rfl
  rw [foeMaxData,UInt16.toNat_sub_of_le]
  · rw [htwelve]
  · rw [UInt16.le_iff_toNat_le]
    omega

theorem foeOpen_run (hs : Line port cfg view) (opcode : UInt8) (filename : List UInt8)
    (password : UInt32) (h : Talking view need own v c) (hl : own.length < need)
    (hin : 12 ≤ cfg.mbxL.toNat) :
    ∃ (e : σ) (frame : List UInt8) (wkc : Int) (c' : Client σ),view e=v ∧
      isFoeMailbox opcode password (foeName cfg filename) frame ∧
      foeOpen port cfg opcode filename password c=.ok (wkc,c') ∧ 0 < wkc ∧
      Talking view need own (view (port.write e frame).2) c' := by
  obtain ⟨hname,hmax⟩ := foeNameSize_le cfg filename
  have hmaxdata := foeMaxData_toNat hin
  have hlen : (foeName cfg filename).length=foeNameSize cfg filename := by
    rw [foeName,List.length_take]
    omega
  have hfit : 12+(foeName cfg filename).length ≤ cfg.mbxL.toNat := by omega
  obtain ⟨e,frame,wkc,c',hseen,hframe,hrun,hwkc,h'⟩ :=
    foeSend_run hs opcode password h hl hfit
  refine ⟨e,frame,wkc,c',hseen,hframe,?_,hwkc,h'⟩
  rw [← hrun,foeSend,hlen]
  rfl

end Sending

/-- A file on its way to the master: what has not been sent, the number of the last packet, and
whether it was a full one. -/
structure FoeServe where
  rest : List UInt8
  packet : UInt32
  more : Bool

def FoeServe.next (room : Nat) (rest : List UInt8) (packet : UInt32) : FoeServe :=
  ⟨rest.drop room,packet,decide (room ≤ rest.length)⟩

/-- The number of bytes in a full packet of the slave. -/
def foeRoom (cfg : SlaveCfg) : Nat := cfg.mbxRl.toNat-12

/-- A slave that serves files: it fills its mailbox with each data packet and ends with a shorter
one, which may be empty. -/
structure ServesFiles {σ : Type} (port : Port σ) (cfg : SlaveCfg)
    (files : List UInt8 → UInt32 → Option (List UInt8))
    (view : σ → List (List UInt8) × Option FoeServe) : Prop where
  line : Line port cfg view
  inbox : 12 ≤ cfg.mbxL.toNat
  outbox : 13 ≤ cfg.mbxRl.toNat
  opens : ∀ e t frame name password file,view e=([],t) →
    isFoeMailbox ectFoeRead password name frame → files name password=some file →
    ∃ mbx,isFoeMailbox ectFoeData 1 (file.take (foeRoom cfg)) mbx ∧
      view (port.write e frame).2=([mbx],some (.next (foeRoom cfg) file 1))
  goesOn : ∀ e rest packet frame,view e=([],some ⟨rest,packet,true⟩) →
    isFoeMailbox ectFoeAck packet [] frame →
    ∃ mbx,isFoeMailbox ectFoeData (packet+1) (rest.take (foeRoom cfg)) mbx ∧
      view (port.write e frame).2=([mbx],some (.next (foeRoom cfg) rest (packet+1)))
  ends : ∀ e rest packet frame,view e=([],some ⟨rest,packet,false⟩) →
    isFoeMailbox ectFoeAck packet [] frame → ∃ t,view (port.write e frame).2=([],t)

section Supply

variable {σ : Type} {port : Port σ} {cfg : SlaveCfg} {n : Nat} {own : List Nat} {c c' : Client σ}

theorem foeSend_supply (halone : Alone port) (h : Stock n own c) {opcode : UInt8}
    {packet : UInt32} {data : List UInt8} {wkc : Int}
    (hr : foeSend port cfg opcode packet data c=.ok (wkc,c')) : own.length < n := by
  obtain ⟨mbxOut,c1,hget,hr⟩ := bind_ok.mp hr
  cases mbxOut with
  | none => exact absurd hr throw_ok
  | some out => exact h.drawn halone hget

theorem foeReadLoop_supply (halone : Alone port) {mbxIn : Option Nat}
    (h : Stock n (mbxIn.toList++[]) c) {fuel : Nat} {buffersize : Int} {prevpacket : UInt32}
    {foe : SdoRead} {r : Option Nat × SdoRead}
    (hr : foeReadLoop port cfg buffersize fuel mbxIn prevpacket foe c=.ok (r,c'))
    (hw : 0 < r.2.wkc) : 2 ≤ n := by
  have hT := countAccount_ledger halone
  cases fuel with
  | zero => exact absurd hr throw_ok
  | succ fuel =>
    obtain ⟨_,c1,hdrop,hr⟩ := bind_ok.mp hr
    obtain ⟨reply,c2,hreceive,hr⟩ := bind_ok.mp hr
    have h2 := (h.run (dropMbxIn_accounts hT mbxIn) hdrop).run (mbxReceive_accounts hT cfg) hreceive
    split_ifs at hr with hreply htype hdata herror
    · dsimp only at hr
      split_ifs at hr with hnext
      · obtain ⟨wkc,c3,hsend,-⟩ := bind_ok.mp hr
        have hone := foeSend_supply halone h2 hsend
        cases hm : reply.mbx with
        | none => exact absurd hm (mbxReceive_held hreceive hreply)
        | some m =>
          rw [hm] at hone
          exact hone
      · cases pure_ok.mp hr
        exact absurd hw (show ¬0 < errFoeBuf2Small by decide)
    · cases pure_ok.mp hr
      exact absurd hw (show ¬0 < errFoeError by decide)
    · cases pure_ok.mp hr
      exact absurd hw (show ¬0 < errPacketError by decide)
    · cases pure_ok.mp hr
      exact absurd hw (show ¬0 < errPacketError by decide)
    · cases pure_ok.mp hr
      exact absurd hw hreply

theorem foeRead_supply (halone : Alone port) (hwf : c.pool.Wf) {fuel : Nat}
    {filename : List UInt8} {password : UInt32} {psize : Int} {r : SdoRead}
    (hr : foeRead port cfg fuel filename password psize c=.ok (r,c')) (hw : 0 < r.wkc) :
    2 ≤ c.pool.listcount := by
  have hT := countAccount_ledger halone
  obtain ⟨stale,c1,hstale,hr⟩ := bind_ok.mp hr
  obtain ⟨wkc,c2,hopen,hr⟩ := bind_ok.mp hr
  have h1 := (Stock.start hwf).run (mbxReceive_accounts hT cfg) hstale
  have h2 := h1.run (foeOpen_accounts hT cfg ectFoeRead filename password) hopen
  split_ifs at hr with hwkc
  · obtain ⟨s,c3,hloop,hr⟩ := bind_ok.mp hr
    obtain ⟨_,c4,-,hr⟩ := bind_ok.mp hr
    cases pure_ok.mp hr
    exact foeReadLoop_supply halone h2 hloop hw
  · obtain ⟨_,c3,-,hr⟩ := bind_ok.mp hr
    cases pure_ok.mp hr
    exact absurd hw hwkc

end Supply

section Reading

variable {σ : Type} {port : Port σ} {cfg : SlaveCfg}
  {files : List UInt8 → UInt32 → Option (List UInt8)}
  {view : σ → List (List UInt8) × Option FoeServe}

theorem foeReadLoop_round (hs : ServesFiles port cfg files view) (fuel : Nat) (buffersize : Int)
    (prev : UInt32) (foe : SdoRead) {mbxIn : Option Nat} {chunk mbx : List UInt8}
    {t : Option FoeServe} {c : Client σ} (h : Talking view 2 (mbxIn.toList++[]) ([mbx],t) c)
    (hmbx : isFoeMailbox ectFoeData (prev+1) chunk mbx) (hchunk : chunk.length ≤ ecMaxMbx)
    (hroom : (foe.data.length : Int)+chunk.length ≤ buffersize) :
    ∃ (e : σ) (frame : List UInt8) (m : Nat) (w : Int) (c' : Client σ),view e=([],t) ∧
      isFoeMailbox ectFoeAck (prev+1) [] frame ∧ 0 < w ∧
      Talking view 2 [m] (view (port.write e frame).2) c' ∧
      foeReadLoop port cfg buffersize (fuel+1) mbxIn prev foe c=
        (if UInt16.ofNat chunk.length=foeMaxData cfg then
          foeReadLoop port cfg buffersize fuel (some m) (prev+1)
            ⟨w,(foe.data++chunk).length,foe.data++chunk⟩
        else pure (some m,⟨w,(foe.data++chunk).length,foe.data++chunk⟩)) c' := by
  obtain ⟨c1,hdrop,h1,-⟩ := h.dropIn hs.line
  obtain ⟨r,m,c2,hreceive,hr,hm,hfront,h2,-,-⟩ := h1.receive hs.line (by simp)
  have hreply := hmbx.front hfront
  have hin := hs.inbox
  obtain ⟨e,frame,w,c3,hseen,hack,hsend,hw,h3⟩ :=
    foeSend_run hs.line ectFoeAck (prev+1) h2 (by simp) (show 12+([] : List UInt8).length ≤ _ from hin)
  refine ⟨e,frame,m,w,c3,hseen,hack,hw,h3,?_⟩
  have hsize := hreply.size hchunk
  have hsmall := size_toNat hchunk
  rw [foeReadLoop,run_bind hdrop,run_bind hreceive,if_pos hr,if_pos hreply.type,
    if_pos hreply.code,hsize,hreply.word]
  dsimp only
  rw [hsmall,if_pos ⟨rfl,hroom⟩,hreply.bytes,run_bind hsend]
  by_cases hfull : UInt16.ofNat chunk.length=foeMaxData cfg
  · rw [if_pos ⟨hfull,hw⟩,if_pos hfull,hm]
  · rw [if_neg (fun h => hfull h.1),if_neg hfull,hm]

/-- With mailboxes of one size the loop takes in all that is left of the file. -/
theorem foeReadLoop_run (hs : ServesFiles port cfg files view) (hsame : cfg.mbxL=cfg.mbxRl)
    (buffersize : Int) (fuel : Nat) : ∀ (prev : UInt32) (foe : SdoRead) {mbxIn : Option Nat}
      {rest mbx : List UInt8} {c : Client σ},rest.length < fuel →
    Talking view 2 (mbxIn.toList++[]) ([mbx],some (.next (foeRoom cfg) rest (prev+1))) c →
    isFoeMailbox ectFoeData (prev+1) (rest.take (foeRoom cfg)) mbx →
    (foe.data.length : Int)+rest.length ≤ buffersize →
    ∃ m w v c',foeReadLoop port cfg buffersize fuel mbxIn prev foe c=
        .ok ((some m,⟨w,(foe.data++rest).length,foe.data++rest⟩),c') ∧ 0 < w ∧
      Talking view 2 [m] v c' := by
  have hout := hs.outbox
  have hmax := hs.line.outbox.2
  have hmaxdata := foeMaxData_toNat hs.inbox
  rw [hsame] at hmaxdata
  have hroomdef : foeRoom cfg=cfg.mbxRl.toNat-12 := rfl
  induction fuel with
  | zero =>
    intro prev foe mbxIn rest mbx c hf
    omega
  | succ fuel ih =>
    intro prev foe mbxIn rest mbx c hf h hmbx hroom
    have hlen : (rest.take (foeRoom cfg)).length=min (foeRoom cfg) rest.length := List.length_take
    obtain ⟨e,frame,m,w,c1,hseen,hack,hw,h1,hrun⟩ :=
      foeReadLoop_round hs fuel buffersize prev foe h hmbx (by omega) (by omega)
    have hsize := size_toNat (show (rest.take (foeRoom cfg)).length ≤ ecMaxMbx by omega)
    by_cases hmore : foeRoom cfg ≤ rest.length
    · have hfull : UInt16.ofNat (rest.take (foeRoom cfg)).length=foeMaxData cfg := by
        apply UInt16.toNat_inj.mp
        omega
      rw [FoeServe.next,decide_eq_true hmore] at hseen
      obtain ⟨mbx',hmbx',hview⟩ := hs.goesOn e (rest.drop (foeRoom cfg)) (prev+1) frame hseen hack
      rw [hview] at h1
      have hshort : (rest.drop (foeRoom cfg)).length < fuel := by
        rw [List.length_drop]
        omega
      have hleft : (((foe.data++rest.take (foeRoom cfg)).length : Nat) : Int)+
          (rest.drop (foeRoom cfg)).length ≤ buffersize := by
        rw [List.length_append,List.length_drop]
        omega
      obtain ⟨m',w',v,c2,hgo,hw',h2⟩ := ih (prev+1)
        ⟨w,(foe.data++rest.take (foeRoom cfg)).length,foe.data++rest.take (foeRoom cfg)⟩
        hshort (show Talking view 2 ((some m).toList++[]) _ c1 from h1) hmbx' hleft
      refine ⟨m',w',v,c2,?_,hw',h2⟩
      rw [hrun,if_pos hfull,hgo,List.append_assoc,List.take_append_drop]
    · have hall : rest.take (foeRoom cfg)=rest := List.take_of_length_le (by omega)
      have hfull : ¬UInt16.ofNat (rest.take (foeRoom cfg)).length=foeMaxData cfg := by
        intro heq
        have := congrArg UInt16.toNat heq
        omega
      refine ⟨m,w,_,c1,?_,hw,h1⟩
      rw [hrun,if_neg hfull,hall]
      rfl

theorem foeRead_opened (hs : ServesFiles port cfg files view) (fuel : Nat)
    {filename : List UInt8} {password : UInt32} (psize : Int) {file : List UInt8} {c : Client σ}
    (hwf : c.pool.Wf) (htwo : 2 ≤ c.pool.listcount) (hwaiting : (view c.env).1.length ≤ 1)
    (hfile : files (foeName cfg filename) password=some file) :
    ∃ (mbxIn : Option Nat) (mbx : List UInt8) (wkc : Int) (c' : Client σ),
      Talking view 2 (mbxIn.toList++[]) ([mbx],some (.next (foeRoom cfg) file 1)) c' ∧
      isFoeMailbox ectFoeData (0+1) (file.take (foeRoom cfg)) mbx ∧
      foeRead port cfg fuel filename password psize c=(do
        let r ← foeReadLoop port cfg psize fuel mbxIn 0 ⟨wkc,psize,[]⟩
        dropMbxIn port r.1
        pure r.2) c' := by
  have h : Talking view 2 [] ((view c.env).1,(view c.env).2) c := Talking.start view hwf htwo
  obtain ⟨stale,c1,hstale,h1,hone⟩ := h.clearAll hs.line (by decide) hwaiting
  obtain ⟨e,frame,wkc,c2,hseen,hrequest,hopen,hwkc,h2⟩ :=
    foeOpen_run hs.line ectFoeRead filename password h1 hone hs.inbox
  obtain ⟨mbx,hmbx,hview⟩ := hs.opens e _ frame _ password file hseen hrequest hfile
  rw [hview] at h2
  refine ⟨stale.mbx,mbx,wkc,c2,h2,hmbx,?_⟩
  rw [foeRead,run_bind hstale,run_bind hopen,if_pos hwkc]

/-- The call hands over the file. -/
def ReadsFile (port : Port σ) (cfg : SlaveCfg) (fuel : Nat) (filename : List UInt8)
    (password : UInt32) (psize : Int) (file : List UInt8) (c : Client σ) : Prop :=
  ∃ r c',foeRead port cfg fuel filename password psize c=.ok (r,c') ∧ 0 < r.wkc ∧
    r.psize=file.length ∧ r.data=file

theorem foeRead_ended {fuel : Nat} {filename : List UInt8} {password : UInt32} {psize : Int}
    {x : MbxM σ (Option Nat × SdoRead)} {s : SdoRead} {m : Nat}
    {v : List (List UInt8) × Option FoeServe} {c c1 c2 : Client σ}
    (hs : ServesFiles port cfg files view)
    (hrun : foeRead port cfg fuel filename password psize c=(do
      let r ← x
      dropMbxIn port r.1
      pure r.2) c1) (hx : x c1=.ok ((some m,s),c2)) (h : Talking view 2 [m] v c2) :
    ∃ c',foeRead port cfg fuel filename password psize c=.ok (s,c') := by
  obtain ⟨c3,hdrop,-⟩ := h.drop hs.line
  refine ⟨c3,?_⟩
  rw [hrun,run_bind hx,run_bind (show dropMbxIn port (some m) c2=.ok ((),c3) from hdrop)]
  rfl

/-- With two mailboxes in the pool the call gets the whole file exactly if both mailboxes of the
slave have one size, or if the file fits in one packet and its length is not that of a full packet
as the master counts it. -/
theorem readsFile_of_supply (hs : ServesFiles port cfg files view) {fuel : Nat}
    {filename : List UInt8} {password : UInt32} {psize : Int} {file : List UInt8} {c : Client σ}
    (hwf : c.pool.Wf) (htwo : 2 ≤ c.pool.listcount) (hwaiting : (view c.env).1.length ≤ 1)
    (hfile : files (foeName cfg filename) password=some file) (hroom : (file.length : Int) ≤ psize)
    (hfuel : file.length+1 < fuel) :
    ReadsFile port cfg fuel filename password psize file c ↔
      cfg.mbxL=cfg.mbxRl ∨
        (file.length+12 ≤ cfg.mbxRl.toNat ∧ file.length+12≠cfg.mbxL.toNat) := by
  have hin := hs.inbox
  have hout := hs.outbox
  have hmax := hs.line.outbox.2
  have hmaxdata := foeMaxData_toNat hin
  have hroomdef : foeRoom cfg=cfg.mbxRl.toNat-12 := rfl
  obtain ⟨rounds,rfl⟩ : ∃ n,fuel=n+2 := ⟨fuel-2,by omega⟩
  obtain ⟨mbxIn,mbx,wkc,c1,h1,hmbx,hrun⟩ :=
    foeRead_opened hs (rounds+2) psize hwf htwo hwaiting hfile
  by_cases hsame : cfg.mbxL=cfg.mbxRl
  · obtain ⟨m,w,v,c2,hloop,hw,h2⟩ := foeReadLoop_run hs hsame psize (rounds+2) 0
      ⟨wkc,psize,[]⟩ (by omega) h1 hmbx (by simpa using hroom)
    obtain ⟨c3,hend⟩ := foeRead_ended hs hrun hloop h2
    exact ⟨fun _ => .inl hsame,fun _ => ⟨_,c3,hend,hw,rfl,rfl⟩⟩
  · have hdiffer : cfg.mbxL.toNat≠cfg.mbxRl.toNat := fun h => hsame (UInt16.toNat_inj.mp h)
    have hlen : (file.take (foeRoom cfg)).length=min (foeRoom cfg) file.length := List.length_take
    obtain ⟨e,frame,m,w,c2,hseen,hack,hw,h2,hround⟩ := foeReadLoop_round hs (rounds+1) psize 0
      ⟨wkc,psize,[]⟩ h1 hmbx (by omega) (by simp only [List.length_nil]; omega)
    have hsize := size_toNat (show (file.take (foeRoom cfg)).length ≤ ecMaxMbx by omega)
    by_cases hfull : UInt16.ofNat (file.take (foeRoom cfg)).length=foeMaxData cfg
    · -- the packet passes for a full one, and no other comes
      have heq := congrArg UInt16.toNat hfull
      have hshort : file.length<foeRoom cfg := by omega
      rw [FoeServe.next,decide_eq_false (show ¬foeRoom cfg ≤ file.length by omega)] at hseen
      obtain ⟨t,hview⟩ := hs.ends e (file.drop (foeRoom cfg)) 1 frame hseen hack
      rw [hview] at h2
      obtain ⟨c3,hdrop,h3,-⟩ := h2.drop hs.line
      obtain ⟨r,c4,hreceive,hr,hm,h4,-⟩ := h3.receiveNothing hs.line
      have hnot : ¬r.wkc>0 := by omega
      have hread : foeRead port cfg (rounds+2) filename password psize c=
          .ok (⟨r.wkc,(([] : List UInt8)++file.take (foeRoom cfg)).length,
            []++file.take (foeRoom cfg)⟩,c4) := by
        rw [hrun]
        have hloop : foeReadLoop port cfg psize (rounds+2) mbxIn 0 ⟨wkc,psize,[]⟩ c1=
            .ok ((none,⟨r.wkc,(([] : List UInt8)++file.take (foeRoom cfg)).length,
              []++file.take (foeRoom cfg)⟩),c4) := by
          rw [hround,if_pos hfull,foeReadLoop,
            run_bind (show dropMbxIn port (some m) c2=.ok ((),c3) from hdrop),run_bind hreceive,
            if_neg hnot,hm]
          rfl
        rw [run_bind hloop]
        rfl
      constructor
      · intro hclaim
        obtain ⟨s,c',hs',hpos,-⟩ := hclaim
        rw [hread] at hs'
        cases hs'
        exact absurd hpos hnot
      · rintro (hcond|⟨hfits,hother⟩)
        · exact absurd hcond hsame
        · omega
    · have hloop : foeReadLoop port cfg psize (rounds+2) mbxIn 0 ⟨wkc,psize,[]⟩ c1=
          .ok ((some m,⟨w,(([] : List UInt8)++file.take (foeRoom cfg)).length,
            []++file.take (foeRoom cfg)⟩),c2) := by
        rw [hround,if_neg hfull]
        rfl
      obtain ⟨c3,hend⟩ := foeRead_ended hs hrun hloop h2
      have hbytes : (foeMaxData cfg).toNat≠(file.take (foeRoom cfg)).length := by
        intro heq
        apply hfull
        apply UInt16.toNat_inj.mp
        omega
      constructor
      · intro hclaim
        obtain ⟨s,c',hs',-,-,hdata⟩ := hclaim
        have hall : file.take (foeRoom cfg)=file := by
          rw [hend] at hs'
          cases hs'
          exact hdata
        have := congrArg List.length hall
        omega
      · rintro (hcond|⟨hfits,-⟩)
        · exact absurd hcond hsame
        · have hall : file.take (foeRoom cfg)=file := List.take_of_length_le (by omega)
          rw [hall,List.nil_append] at hend
          exact ⟨_,c3,hend,hw,rfl,rfl⟩

/-- From a slave that serves it `ecx_FOEread` gets the whole file exactly if the pool has two
mailboxes for the call, and both mailboxes of the slave have one size or the file fits in one packet
and its length is not that of a full packet as the master counts it. -/
theorem foe_read_iff_sizes_agree (hs : ServesFiles port cfg files view) {fuel : Nat}
    {filename : List UInt8} {password : UInt32} {psize : Int} {file : List UInt8} {c : Client σ}
    (hwf : c.pool.Wf) (hwaiting : (view c.env).1.length ≤ 1)
    (hfile : files (foeName cfg filename) password=some file) (hroom : (file.length : Int) ≤ psize)
    (hfuel : file.length+1 < fuel) :
    ReadsFile port cfg fuel filename password psize file c ↔
      2 ≤ c.pool.listcount ∧ (cfg.mbxL=cfg.mbxRl ∨
        (file.length+12 ≤ cfg.mbxRl.toNat ∧ file.length+12≠cfg.mbxL.toNat)) := by
  constructor
  · intro hclaim
    obtain ⟨r,c',hr,hw,hsize,hdata⟩ := hclaim
    have htwo := foeRead_supply hs.line.alone hwf hr hw
    refine ⟨htwo,?_⟩
    exact (readsFile_of_supply hs hwf htwo hwaiting hfile hroom hfuel).mp
      ⟨r,c',hr,hw,hsize,hdata⟩
  · rintro ⟨htwo,hsizes⟩
    exact (readsFile_of_supply hs hwf htwo hwaiting hfile hroom hfuel).mpr hsizes

end Reading

section Slave

/-- The data packet that waits to be read, with its number, and the transfer. -/
structure FoeServer (room : Nat) where
  waiting : Option (UInt32 × { data : List UInt8 // data.length ≤ room })
  transfer : Option FoeServe

def foeMailbox (opcode : UInt8) (word : UInt32) (data : List UInt8) : List UInt8 :=
  foeFrame (UInt16.ofNat (6+data.length)) 0 opcode word data

def FoeServer.view {room : Nat} (s : FoeServer room) : List (List UInt8) × Option FoeServe :=
  ((s.waiting.map (fun w => foeMailbox ectFoeData w.1 w.2.val)).toList,s.transfer)

def FoeServer.send (room : Nat) (rest : List UInt8) (packet : UInt32) : FoeServer room :=
  ⟨some (packet,⟨rest.take room,by rw [List.length_take]; omega⟩),some (.next room rest packet)⟩

/-- The answer to a frame that does not open a transfer. -/
def FoeServer.answer {room : Nat} (s : FoeServer room) : FoeServer room :=
  match s.transfer with
  | some transfer =>
      if transfer.more=true then .send room transfer.rest (transfer.packet+1) else ⟨none,none⟩
  | none => ⟨none,none⟩

/-- A slave that serves one file, under whatever name. -/
def fileSlave (room : Nat) (file : List UInt8) : Port (FoeServer room) where
  write := fun s frame => (1,if foeOpcode frame=ectFoeRead then .send room file 1 else s.answer)
  empty := fun s => (true,s)
  mailbox := fun s => (s.waiting.elim (.silent 0)
    (fun w => .full ⟨1,foeMailbox ectFoeData w.1 w.2.val,false⟩ []),{ s with waiting := none })
  others := fun s => ([],s)

theorem foeMailbox_isFoe (opcode : UInt8) (word : UInt32) (data : List UInt8) :
    isFoeMailbox opcode word data (foeMailbox opcode word data) :=
  isFoeMailbox_of_front (List.prefix_refl _)

theorem isFoeMailbox.free {opcode : UInt8} {word : UInt32} {data mbx : List UInt8}
    (h : isFoeMailbox opcode word data mbx) (hooked : Bool) :
    handledInReceive mbx hooked=false := by
  have herr : ectMbxtFoe≠ectMbxtErr := by decide
  have hcoe : ectMbxtFoe≠ectMbxtCoe := by decide
  have heoe : ectMbxtFoe≠ectMbxtEoe := by decide
  simp [handledInReceive,h.type,herr,hcoe,heoe]

theorem FoeServer.send_view (room : Nat) (rest : List UInt8) (packet : UInt32) :
    (FoeServer.send room rest packet).view=
      ([foeMailbox ectFoeData packet (rest.take room)],some (.next room rest packet)) := rfl

theorem fileSlave_serves {cfg : SlaveCfg} (file : List UInt8)
    (hin : 12 ≤ cfg.mbxL.toNat ∧ cfg.mbxL.toNat ≤ ecMaxMbx ∧ cfg.preop=true)
    (hout : 13 ≤ cfg.mbxRl.toNat ∧ cfg.mbxRl.toNat ≤ ecMaxMbx) :
    ServesFiles (fileSlave (foeRoom cfg) file) cfg (fun _ _ => some file) FoeServer.view where
  line := {
    inbox := ⟨by omega,hin.2⟩
    outbox := ⟨by omega,hout.2⟩
    alone := fun _ => rfl
    steady := fun _ => rfl
    takes := fun _ _ => Int.one_pos
    hands := by
      intro s reply q t hview
      obtain ⟨waiting,transfer⟩ := s
      cases waiting with
      | none => cases hview
      | some w =>
        cases hview
        have hlen : (foeMailbox ectFoeData w.1 w.2.val).length=12+w.2.val.length :=
          foeFrame_length _ _ _ _ _
        have hfit := w.2.property
        have hroom : foeRoom cfg=cfg.mbxRl.toNat-12 := rfl
        refine ⟨⟨1,foeMailbox ectFoeData w.1 w.2.val,false⟩,[],rfl,Int.one_pos,List.prefix_refl _,
          ?_,?_,rfl⟩
        · exact hlen.le.trans (by omega)
        · intro mbx hfront
          exact ((foeMailbox_isFoe ectFoeData w.1 w.2.val).front hfront).free false
    silent := by
      intro s t hview
      obtain ⟨waiting,transfer⟩ := s
      cases waiting with
      | none => exact ⟨0,rfl,hview⟩
      | some w => cases hview }
  inbox := hin.1
  outbox := hout.1
  opens := by
    intro s t frame name password file' hview hrequest hfile
    cases hfile
    refine ⟨_,foeMailbox_isFoe _ _ _,?_⟩
    simp only [fileSlave,if_pos hrequest.code]
    exact FoeServer.send_view _ _ _
  goesOn := by
    intro s rest packet frame hview hack
    have hother : ¬foeOpcode frame=ectFoeRead := by
      rw [hack.code]
      decide
    have htransfer : s.transfer=some ⟨rest,packet,true⟩ := congrArg Prod.snd hview
    refine ⟨_,foeMailbox_isFoe _ _ _,?_⟩
    simp only [fileSlave,if_neg hother,FoeServer.answer,htransfer,if_true]
    exact FoeServer.send_view _ _ _
  ends := by
    intro s rest packet frame hview hack
    have hother : ¬foeOpcode frame=ectFoeRead := by
      rw [hack.code]
      decide
    have htransfer : s.transfer=some ⟨rest,packet,false⟩ := congrArg Prod.snd hview
    refine ⟨none,?_⟩
    simp only [fileSlave,if_neg hother,FoeServer.answer,htransfer,Bool.false_eq_true,if_false]
    rfl

end Slave

/-- A slave with a larger mailbox to it. -/
def cfg32to20 : SlaveCfg := ⟨1,32,20,true⟩

theorem sixteen_bytes_read :
    ReadsFile (fileSlave (foeRoom cfg20) (List.replicate 16 7)) cfg20 18 [0x61] 0 64
      (List.replicate 16 7) (Client.start ⟨none,none⟩) :=
  (foe_read_iff_sizes_agree (fileSlave_serves _ (by decide) (by decide)) initMbxPool_wf (by decide)
    rfl (by decide) (by decide)).mpr (by decide)

/-- Of sixteen bytes in packets of eight only the first packet is read, with success. -/
theorem first_packet_passes_for_file :
    (foeRead (fileSlave (foeRoom cfg32to20) (List.replicate 16 7)) cfg32to20 18 [0x61] 0 64
      (Client.start ⟨none,none⟩)).toOption.map (fun r => (r.1.wkc,r.1.psize))=some (1,8) ∧
    ¬ReadsFile (fileSlave (foeRoom cfg32to20) (List.replicate 16 7)) cfg32to20 18 [0x61] 0 64
      (List.replicate 16 7) (Client.start ⟨none,none⟩) := by
  have hrun : (foeRead (fileSlave (foeRoom cfg32to20) (List.replicate 16 7)) cfg32to20 18 [0x61] 0
      64 (Client.start ⟨none,none⟩)).toOption.map (fun r => (r.1.wkc,r.1.psize))=some (1,8) := by
    decide +kernel
  refine ⟨hrun,?_⟩
  intro hclaim
  obtain ⟨r,c',hr,-,hsize,-⟩ := hclaim
  rw [hr] at hrun
  have height : r.psize=8 := congrArg Prod.snd (Option.some.inj hrun)
  rw [height] at hsize
  exact absurd hsize (by decide)

end EtherCATMaster.Mailbox
