import EtherCATMaster.Mailbox.FoeReading

namespace EtherCATMaster.Mailbox

open EtherCATMaster.Framework

/-- A file on its way to the slave: the data packets it has acknowledged, in order, and how often
the next one has come. -/
structure FoeTake where
  acked : List (List UInt8)
  tries : Nat

/-- A slave that takes a file. It answers each packet with an acknowledgement, or says that it is
busy: `busy n i` is what it does the `i`th time packet `n` comes, with the request as packet 0. -/
structure TakesFile {σ : Type} (port : Port σ) (cfg : SlaveCfg) (busy : Nat → Nat → Bool)
    (view : σ → List (List UInt8) × FoeTake) : Prop where
  line : Line port cfg view
  inbox : 13 ≤ cfg.mbxL.toNat
  opens : ∀ e t frame password name,view e=([],t) →
    isFoeMailbox ectFoeWrite password name frame →
    ∃ mbx word data,isFoeMailbox (if busy 0 0=true then ectFoeBusy else ectFoeAck) word data mbx ∧
      (busy 0 0=false → word=0) ∧ view (port.write e frame).2=([mbx],⟨[],0⟩)
  accepts : ∀ e acked tries data frame,view e=([],⟨acked,tries⟩) →
    isFoeMailbox ectFoeData (UInt32.ofNat (acked.length+1)) data frame →
    12+data.length ≤ cfg.mbxL.toNat → busy (acked.length+1) tries=false →
    ∃ mbx rest,isFoeMailbox ectFoeAck (UInt32.ofNat (acked.length+1)) rest mbx ∧
      view (port.write e frame).2=([mbx],⟨acked++[data],0⟩)
  defers : ∀ e acked tries data frame,view e=([],⟨acked,tries⟩) →
    isFoeMailbox ectFoeData (UInt32.ofNat (acked.length+1)) data frame →
    12+data.length ≤ cfg.mbxL.toNat → busy (acked.length+1) tries=true →
    ∃ mbx word rest,isFoeMailbox ectFoeBusy word rest mbx ∧
      view (port.write e frame).2=([mbx],⟨acked,tries+1⟩)

/-- The packets acknowledged are the whole file, and the last one is shorter than a full one. -/
def Delivered (room : Nat) (file : List UInt8) (acked : List (List UInt8)) : Prop :=
  acked.flatten=file ∧ ∃ last,acked.getLast?=some last ∧ last.length < room

section Packets

/-- The data of packet `k+1` of a file, and the packets before it. -/
def filePacket (room : Nat) (file : List UInt8) (k : Nat) : List UInt8 :=
  (file.drop (k*room)).take room

def filePackets (room : Nat) (file : List UInt8) (k : Nat) : List (List UInt8) :=
  (List.range k).map (filePacket room file)

variable {room : Nat} {file : List UInt8} {k : Nat}

@[simp] theorem filePackets_length : (filePackets room file k).length=k := by
  simp [filePackets]

theorem filePackets_succ :
    filePackets room file (k+1)=filePackets room file k++[filePacket room file k] := by
  simp [filePackets,List.range_succ]

theorem filePackets_flatten : (filePackets room file k).flatten=file.take (k*room) := by
  induction k with
  | zero => simp [filePackets]
  | succ k ih =>
    rw [filePackets_succ,List.flatten_append,ih,List.flatten_singleton,filePacket,Nat.succ_mul,
      List.take_add]

theorem filePacket_length : (filePacket room file k).length=min room (file.length-k*room) := by
  rw [filePacket,List.length_take,List.length_drop]

def closingPacket (room : Nat) (file : List UInt8) : Nat := file.length/room+1

theorem lt_closing (hroom : 0 < room) : k<closingPacket room file ↔ k*room ≤ file.length := by
  rw [closingPacket,Nat.lt_succ_iff,Nat.le_div_iff_mul_le hroom]

theorem filePackets_delivered (hroom : 0 < room) (hk : k ≤ closingPacket room file) :
    Delivered room file (filePackets room file k) ↔ k=closingPacket room file := by
  constructor
  · rintro ⟨-,last,hlast,hshort⟩
    cases k with
    | zero => simp [filePackets] at hlast
    | succ k =>
      rw [filePackets_succ,List.getLast?_concat] at hlast
      cases hlast
      rw [filePacket_length] at hshort
      by_contra hne
      have hnext : (k+1)*room ≤ file.length := (lt_closing hroom).mp (by omega)
      have : (k+1)*room=k*room+room := Nat.succ_mul k room
      omega
  · intro heq
    obtain ⟨n,rfl⟩ : ∃ n,k=n+1 := ⟨file.length/room,heq⟩
    have hlast : ¬(n+1)*room ≤ file.length := by
      rw [← lt_closing hroom]
      omega
    refine ⟨?_,filePacket room file n,?_,?_⟩
    · rw [filePackets_flatten]
      exact List.take_of_length_le (by omega)
    · rw [filePackets_succ,List.getLast?_concat]
    · have : (n+1)*room=n*room+room := Nat.succ_mul n room
      rw [filePacket_length]
      omega

theorem filePacket_eq_nil (hroom : 0 < room) (hk : k<closingPacket room file) :
    filePacket room file k=[] ↔ k+1=closingPacket room file ∧ file.length%room=0 := by
  have hle := (lt_closing hroom).mp hk
  have hdiv := Nat.div_add_mod file.length room
  have hmod := Nat.mod_lt file.length hroom
  rw [← List.length_eq_zero_iff,filePacket_length,closingPacket]
  constructor
  · intro hzero
    have heq : file.length=k*room := by omega
    rw [heq,Nat.mul_div_cancel _ hroom,Nat.mul_mod_left]
    exact ⟨rfl,rfl⟩
  · rintro ⟨hlast,hfill⟩
    have hquot : file.length/room=k := by omega
    rw [hquot,hfill,Nat.mul_comm room k] at hdiv
    omega

end Packets

section Writing

variable {σ : Type} {port : Port σ} {cfg : SlaveCfg} {busy : Nat → Nat → Bool}
  {view : σ → List (List UInt8) × FoeTake}

/-- The variables of `ecx_FOEwrite` once packet `k` has been sent. -/
def foeVars (room : Nat) (file : List UInt8) : Nat → FoeWrite
  | 0 => ⟨0,0,0,true⟩
  | k+1 => ⟨min ((k+1)*room) file.length,(filePacket room file k).length,UInt32.ofNat (k+1),
      decide ((k+1)*room=file.length)⟩

theorem packet_ne_zero {k : Nat} (hk : k+1<2^32) : UInt32.ofNat (k+1)≠0 := by
  intro h
  have := congrArg UInt32.toNat h
  rw [UInt32.toNat_ofNat_of_lt' (by simpa [UInt32.size] using hk)] at this
  exact absurd this (Nat.succ_ne_zero k)

theorem packet_succ (k : Nat) : UInt32.ofNat k+1=UInt32.ofNat (k+1) := by simp

theorem packet_pred (k : Nat) : UInt32.ofNat (k+1)-1=UInt32.ofNat k := by simp

theorem TakesFile.room (hs : TakesFile port cfg busy view) :
    (foeMaxData cfg).toNat=cfg.mbxL.toNat-12 ∧ 0 < (foeMaxData cfg).toNat := by
  have hin := hs.inbox
  have hmaxdata := foeMaxData_toNat (show 12 ≤ cfg.mbxL.toNat by omega)
  omega

/-- The slave is not busy when an empty closing packet comes to it. -/
def ClosingTaken (room : Nat) (file : List UInt8) (busy : Nat → Nat → Bool) : Prop :=
  file.length%room=0 → busy (closingPacket room file) 0=false

/-- What can wait in the slave during a transfer: the acknowledgement of packet `k`, or the word
that it was busy when packet `k+1` came. An empty packet comes once only. -/
inductive Waiting (room : Nat) (file : List UInt8) (busy : Nat → Nat → Bool) :
    FoeWrite → List UInt8 → FoeTake → Prop
  | acked (k : Nat) (mbx data : List UInt8) : k ≤ closingPacket room file →
      isFoeMailbox ectFoeAck (UInt32.ofNat k) data mbx →
      (∀ j,k=j+1 → filePacket room file j=[] → busy (j+1) 0=false) →
      Waiting room file busy (foeVars room file k) mbx ⟨filePackets room file k,0⟩
  | busy (k tries : Nat) (word : UInt32) (mbx data : List UInt8) : k<closingPacket room file →
      isFoeMailbox ectFoeBusy word data mbx →
      (filePacket room file k=[] → busy (k+1) 0=true) →
      Waiting room file busy (foeVars room file (k+1)) mbx ⟨filePackets room file k,tries+1⟩

/-- The next packet goes out, whether for the first time or again. -/
theorem foeWriteNext_sends (hs : TakesFile port cfg busy view) {file : List UInt8} {k tries m : Nat}
    {s : FoeWrite} {c : Client σ} (hk : k<closingPacket (foeMaxData cfg).toNat file)
    (hpos : s.pos=k*(foeMaxData cfg).toNat) (hpacket : s.sendpacket=UInt32.ofNat k)
    (hdue : filePacket (foeMaxData cfg).toNat file k≠[] ∨ s.dofinalzero=true)
    (hfirst : filePacket (foeMaxData cfg).toNat file k=[] → tries=0)
    (h : Talking view 2 [m] ([],⟨filePackets (foeMaxData cfg).toNat file k,tries⟩) c) :
    ∃ (w : Int) (mbx : List UInt8) (t : FoeTake) (c' : Client σ),
      foeWriteNext port cfg file s c=
        .ok ((some w,foeVars (foeMaxData cfg).toNat file (k+1)),c') ∧ 0 < w ∧
      Waiting (foeMaxData cfg).toNat file busy (foeVars (foeMaxData cfg).toNat file (k+1)) mbx t ∧
      Talking view 2 [m] ([mbx],t) c' := by
  obtain ⟨hmaxdata,hroom⟩ := hs.room
  generalize hn : (foeMaxData cfg).toNat=room at *
  have hin := hs.inbox
  have hmin : k*room ≤ file.length := (lt_closing hroom).mp hk
  have hlen : (filePacket room file k).length=min room (file.length-k*room) := filePacket_length
  have hsucc : (k+1)*room=k*room+room := Nat.succ_mul k room
  have hle : (filePacket room file k).length ≤ room := hlen.le.trans (Nat.min_le_left _ _)
  have hfit : 12+(filePacket room file k).length ≤ cfg.mbxL.toNat := by omega
  have hend : s.pos+(filePacket room file k).length=min ((k+1)*room) file.length := by omega
  have htsize : min (file.length-s.pos) room=(filePacket room file k).length := by
    rw [hlen,hpos,Nat.min_comm]
  have hdata : (file.drop s.pos).take (filePacket room file k).length=filePacket room file k := by
    rw [hlen,filePacket,hpos]
    rw [← List.length_drop,← List.take_take,List.take_length]
  have hlast : (file.length-s.pos-(filePacket room file k).length=0 ∧
      (filePacket room file k).length=room) ↔ (k+1)*room=file.length := by
    omega
  have hnonempty : (filePacket room file k).length≠0 ∨ s.dofinalzero=true := by
    rcases hdue with hne|hfinal
    · exact .inl (fun hz => hne (List.length_eq_zero_iff.mp hz))
    · exact .inr hfinal
  obtain ⟨e,frame,w,c1,hseen,hframe,hsend,hw,h1⟩ :=
    foeSend_run hs.line ectFoeData (UInt32.ofNat (k+1)) h (by simp) hfit
  have hvars : (⟨s.pos+(filePacket room file k).length,(filePacket room file k).length,
      UInt32.ofNat (k+1),decide ((k+1)*room=file.length)⟩ : FoeWrite)=foeVars room file (k+1) := by
    rw [hend]
    rfl
  have hrun : foeWriteNext port cfg file s c=.ok ((some w,foeVars room file (k+1)),c1) := by
    rw [foeWriteNext,hn]
    dsimp only
    rw [htsize,if_pos hnonempty,hdata,hpacket,packet_succ,run_bind hsend]
    simp only [hlast,hvars]
    rfl
  have hcount : (filePackets room file k).length=k := filePackets_length
  have hnumber : isFoeMailbox ectFoeData (UInt32.ofNat ((filePackets room file k).length+1))
      (filePacket room file k) frame := by
    rw [hcount]
    exact hframe
  by_cases hb : busy (k+1) tries=true
  · obtain ⟨mbx,word,rest,hbusy,hview⟩ :=
      hs.defers e _ tries _ frame hseen hnumber hfit (by rw [hcount]; exact hb)
    rw [hview] at h1
    refine ⟨w,mbx,_,c1,hrun,hw,.busy k tries word mbx rest hk hbusy ?_,h1⟩
    intro hnil
    rw [hfirst hnil] at hb
    exact hb
  · have hfree : busy (k+1) tries=false := by simpa using hb
    obtain ⟨mbx,rest,hack,hview⟩ :=
      hs.accepts e _ tries _ frame hseen hnumber hfit (by rw [hcount]; exact hfree)
    rw [hview,← filePackets_succ] at h1
    rw [hcount] at hack
    refine ⟨w,mbx,_,c1,hrun,hw,.acked (k+1) mbx rest hk hack ?_,h1⟩
    intro j hj hnil
    obtain rfl : k=j := by omega
    rw [hfirst hnil] at hfree
    exact hfree

theorem foeWriteNext_stops {file : List UInt8} {s : FoeWrite} (c : Client σ)
    (hpos : file.length ≤ s.pos ∨ (foeMaxData cfg).toNat=0) (hfinal : s.dofinalzero=false) :
    foeWriteNext port cfg file s c=.ok ((none,s),c) := by
  have hz : min (file.length-s.pos) (foeMaxData cfg).toNat=0 := by omega
  rw [foeWriteNext]
  dsimp only
  rw [hz,if_neg (by simp [hfinal])]
  rfl

theorem foeVars_pos {room k : Nat} {file : List UInt8} (hk : k*room ≤ file.length) :
    (foeVars room file k).pos=k*room ∧ (foeVars room file k).sendpacket=UInt32.ofNat k := by
  cases k with
  | zero => exact ⟨(Nat.zero_mul room).symm,rfl⟩
  | succ k => exact ⟨Nat.min_eq_left hk,rfl⟩

theorem foeVars_sendpacket {room : Nat} {file : List UInt8} (k : Nat) :
    (foeVars room file k).sendpacket=UInt32.ofNat k := by
  cases k <;> rfl

/-- What the loop makes of a mailbox that waits: another packet goes out, or the call ends with
success. Then the file has been delivered if the closing packet was taken. -/
theorem foeWriteTurn_cases (hs : TakesFile port cfg busy view) {file : List UInt8}
    (hsize : file.length<2^31) {s : FoeWrite} {mbx : List UInt8} {t : FoeTake} {r : Received}
    {m : Nat} {c : Client σ} (hw : Waiting (foeMaxData cfg).toNat file busy s mbx t)
    (hfront : mbx <+: r.data) (h : Talking view 2 [m] ([],t) c) :
    (∃ (w : Int) (s' : FoeWrite) (mbx' : List UInt8) (t' : FoeTake) (c' : Client σ),
      foeWriteTurn port cfg file s r c=.ok (⟨w,s',true⟩,c') ∧
      Waiting (foeMaxData cfg).toNat file busy s' mbx' t' ∧ Talking view 2 [m] ([mbx'],t') c') ∨
    (∃ s',foeWriteTurn port cfg file s r c=.ok (⟨r.wkc,s',false⟩,c) ∧
      (Delivered (foeMaxData cfg).toNat file t.acked ↔
        ClosingTaken (foeMaxData cfg).toNat file busy)) := by
  obtain ⟨-,hroom⟩ := hs.room
  generalize hn : (foeMaxData cfg).toNat=room at *
  have hbusy : ¬ectFoeBusy=ectFoeAck := by decide
  cases hw with
  | acked k mbx data hk hmbx hempty =>
    have hreply := hmbx.front hfront
    have hturn : foeWriteTurn port cfg file (foeVars room file k) r c=(do
        let n ← foeWriteNext port cfg file (foeVars room file k)
        pure (foeTurnOf r.wkc n)) c := by
      rw [foeWriteTurn,if_pos hreply.type,if_pos hreply.code,
        if_pos (hreply.word.trans (foeVars_sendpacket k).symm)]
    by_cases hmore : k<closingPacket room file
    · left
      have hmin : k*room ≤ file.length := (lt_closing hroom).mp hmore
      obtain ⟨hpos,hpacket⟩ := foeVars_pos hmin
      have hdue : filePacket room file k≠[] ∨ (foeVars room file k).dofinalzero=true := by
        by_cases hnil : filePacket room file k=[]
        · right
          have hlen := congrArg List.length hnil
          rw [filePacket_length,List.length_nil] at hlen
          cases k with
          | zero => rfl
          | succ k => exact decide_eq_true (by omega)
        · exact .inl hnil
      subst hn
      obtain ⟨w,mbx',t',c',hnext,hw,hwaiting,h'⟩ :=
        foeWriteNext_sends hs hmore hpos hpacket hdue (fun _ => rfl) h
      refine ⟨w,_,mbx',t',c',?_,hwaiting,h'⟩
      rw [hturn,run_bind hnext]
      simp only [foeTurnOf,decide_eq_true hw]
      rfl
    · right
      have heq : k=closingPacket room file := by omega
      obtain ⟨n,rfl⟩ : ∃ n,k=n+1 := ⟨file.length/room,heq⟩
      have hover : ¬(n+1)*room ≤ file.length := by
        rw [← lt_closing hroom]
        exact hmore
      have hfinal : (foeVars room file (n+1)).dofinalzero=false :=
        decide_eq_false (by omega)
      have hend : file.length ≤ (foeVars room file (n+1)).pos := by
        have : (foeVars room file (n+1)).pos=min ((n+1)*room) file.length := rfl
        omega
      refine ⟨foeVars room file (n+1),?_,?_⟩
      · rw [hturn,run_bind (foeWriteNext_stops c (.inl hend) hfinal)]
        rfl
      · have hdone := (filePackets_delivered hroom hk).mpr heq
        refine ⟨fun _ hfill => ?_,fun _ => hdone⟩
        have hnil := (filePacket_eq_nil hroom (show n<closingPacket room file by
          omega)).mpr ⟨heq,hfill⟩
        rw [← heq]
        exact hempty n rfl hnil
  | busy k tries word mbx data hk hmbx hempty =>
    have hreply := hmbx.front hfront
    have hmin : k*room ≤ file.length := (lt_closing hroom).mp hk
    have hlarge : k+1<2^32 := by
      have := Nat.le_mul_of_pos_right k hroom
      omega
    let s : FoeWrite := { foeVars room file (k+1) with
      pos := (foeVars room file (k+1)).pos-(foeVars room file (k+1)).segmentdata
      sendpacket := (foeVars room file (k+1)).sendpacket-1 }
    have hturn : foeWriteTurn port cfg file (foeVars room file (k+1)) r c=(do
        let n ← foeWriteNext port cfg file s
        pure (foeTurnOf r.wkc n)) c := by
      have hsent : (foeVars room file (k+1)).sendpacket≠0 := packet_ne_zero hlarge
      rw [foeWriteTurn,if_pos hreply.type,hreply.code,if_neg hbusy,if_pos rfl,if_pos hsent]
    have hsucc : (k+1)*room=k*room+room := Nat.succ_mul k room
    have hlen : (filePacket room file k).length=min room (file.length-k*room) := filePacket_length
    have hpos : s.pos=k*room := by
      change min ((k+1)*room) file.length-(filePacket room file k).length=k*room
      omega
    have hpacket : s.sendpacket=UInt32.ofNat k := packet_pred k
    by_cases hnil : filePacket room file k=[]
    · right
      have hzero := congrArg List.length hnil
      rw [List.length_nil] at hzero
      have hfinal : s.dofinalzero=false := decide_eq_false (by omega)
      obtain ⟨hclosing,hfill⟩ := (filePacket_eq_nil hroom hk).mp hnil
      refine ⟨s,?_,?_⟩
      · rw [hturn,run_bind (foeWriteNext_stops c (.inl (by omega)) hfinal)]
        rfl
      · have hnot : ¬Delivered room file (filePackets room file k) := by
          rw [filePackets_delivered hroom (by omega)]
          omega
        refine ⟨fun hdone => absurd hdone hnot,fun hclosed => ?_⟩
        have hfree := hclosed hfill
        rw [← hclosing,hempty hnil] at hfree
        cases hfree
    · left
      subst hn
      obtain ⟨w,mbx',t',c',hnext,hw,hwaiting,h'⟩ :=
        foeWriteNext_sends hs hk hpos hpacket (.inl hnil) (fun hn => absurd hn hnil) h
      refine ⟨w,_,mbx',t',c',?_,hwaiting,h'⟩
      rw [hturn,run_bind hnext]
      simp only [foeTurnOf,decide_eq_true hw]
      rfl

theorem foeWriteLoop_settles (hs : TakesFile port cfg busy view) {file : List UInt8}
    (hsize : file.length<2^31) (fuel : Nat) : ∀ {mbxIn : Option Nat} {s : FoeWrite}
      {mbx : List UInt8} {t : FoeTake} {c c' : Client σ} {r : Option Nat × Int},
    Waiting (foeMaxData cfg).toNat file busy s mbx t →
    Talking view 2 (mbxIn.toList++[]) ([mbx],t) c →
    foeWriteLoop port cfg file fuel mbxIn s c=.ok (r,c') →
    0 < r.2 ∧ ∃ v,Talking view 2 (r.1.toList++[]) v c' ∧
      (Delivered (foeMaxData cfg).toNat file v.2.acked ↔
        ClosingTaken (foeMaxData cfg).toNat file busy) := by
  induction fuel with
  | zero =>
    intro mbxIn s mbx t c c' r hw h hrun
    cases hrun
  | succ fuel ih =>
    intro mbxIn s mbx t c c' r hw h hrun
    obtain ⟨c1,hdrop,h1,-⟩ := h.dropIn hs.line
    obtain ⟨reply,m,c2,hreceive,hpos,hm,hfront,h2,-,-⟩ := h1.receive hs.line (by simp)
    rw [foeWriteLoop,run_bind hdrop,run_bind hreceive,if_pos hpos] at hrun
    rcases foeWriteTurn_cases hs hsize hw hfront h2 with
      ⟨w,s',mbx',t',c3,hturn,hw',h3⟩|⟨s',hturn,hdone⟩
    · rw [run_bind hturn] at hrun
      simp only [if_true] at hrun
      have hown : Talking view 2 (reply.mbx.toList++[]) ([mbx'],t') c3 := by
        rw [hm]
        exact h3
      exact ih hw' hown hrun
    · rw [run_bind hturn] at hrun
      cases hrun
      refine ⟨hpos,([],t),?_,hdone⟩
      rw [hm]
      exact h2

theorem foeWriteLoop_refused (hs : TakesFile port cfg busy view) {file : List UInt8} {fuel : Nat}
    {mbxIn : Option Nat} {word : UInt32} {data mbx : List UInt8} {t : FoeTake} {c c' : Client σ}
    {r : Option Nat × Int} (hmbx : isFoeMailbox ectFoeBusy word data mbx)
    (h : Talking view 2 (mbxIn.toList++[]) ([mbx],t) c)
    (hrun : foeWriteLoop port cfg file fuel mbxIn ⟨0,0,0,true⟩ c=.ok (r,c')) :
    0 < r.2 ∧ Talking view 2 (r.1.toList++[]) ([],t) c' := by
  cases fuel with
  | zero => cases hrun
  | succ fuel =>
    have hbusy : ¬ectFoeBusy=ectFoeAck := by decide
    obtain ⟨c1,hdrop,h1,-⟩ := h.dropIn hs.line
    obtain ⟨reply,m,c2,hreceive,hpos,hm,hfront,h2,-,-⟩ := h1.receive hs.line (by simp)
    have hreply := hmbx.front hfront
    rw [foeWriteLoop,run_bind hdrop,run_bind hreceive,if_pos hpos,foeWriteTurn,
      if_pos hreply.type,hreply.code,if_neg hbusy,if_pos rfl,if_neg (by decide)] at hrun
    cases hrun
    refine ⟨hpos,?_⟩
    rw [hm]
    exact h2

theorem not_delivered_nil {room : Nat} {file : List UInt8} : ¬Delivered room file [] := by
  rintro ⟨-,last,hlast,-⟩
  cases hlast

/-- What `ecx_FOEwrite` reports is true exactly if the slave is not busy when the request comes, nor
when an empty closing packet comes. -/
theorem foe_write_delivered_iff (hs : TakesFile port cfg busy view) {fuel : Nat}
    {filename : List UInt8} {password : UInt32} {file : List UInt8} {c c' : Client σ} {w : Int}
    (hwf : c.pool.Wf) (htwo : 2 ≤ c.pool.listcount) (hwaiting : (view c.env).1.length ≤ 1)
    (hsize : file.length<2^31)
    (hrun : foeWrite port cfg fuel filename password file c=.ok (w,c')) :
    (0 < w → Delivered (cfg.mbxL.toNat-12) file (view c'.env).2.acked) ↔
      busy 0 0=false ∧ ClosingTaken (cfg.mbxL.toNat-12) file busy := by
  obtain ⟨hmaxdata,hroom⟩ := hs.room
  rw [← hmaxdata]
  have h : Talking view 2 [] ((view c.env).1,(view c.env).2) c := Talking.start view hwf htwo
  obtain ⟨stale,c1,hstale,h1,hone⟩ := h.clearAll hs.line (by decide) hwaiting
  have hin := hs.inbox
  obtain ⟨e,frame,wkc,c2,hseen,hrequest,hopen,hwkc,h2⟩ :=
    foeOpen_run hs.line ectFoeWrite filename password h1 hone (by omega)
  obtain ⟨mbx,word,data,hmbx,hword,hview⟩ := hs.opens e _ frame password _ hseen hrequest
  rw [hview] at h2
  rw [foeWrite,run_bind hstale,run_bind hopen,if_pos hwkc] at hrun
  obtain ⟨r,c3,hloop,hrun⟩ := bind_ok.mp hrun
  have hend : ∀ {v : List (List UInt8) × FoeTake},Talking view 2 (r.1.toList++[]) v c3 →
      w=r.2 ∧ view c'.env=v := by
    intro v h3
    obtain ⟨c4,hdrop,h4,-⟩ := h3.dropIn hs.line
    rw [run_bind hdrop] at hrun
    cases hrun
    exact ⟨rfl,h4.seen⟩
  by_cases hb : busy 0 0=true
  · rw [if_pos hb] at hmbx
    obtain ⟨hpos,h3⟩ := foeWriteLoop_refused hs hmbx h2 hloop
    obtain ⟨rfl,hlast⟩ := hend h3
    constructor
    · intro hclaim
      have hnone := hclaim hpos
      rw [hlast] at hnone
      exact absurd hnone not_delivered_nil
    · rintro ⟨hfree,-⟩
      rw [hb] at hfree
      cases hfree
  · have hfree : busy 0 0=false := by simpa using hb
    rw [if_neg hb,hword hfree] at hmbx
    have hwait : Waiting (foeMaxData cfg).toNat file busy ⟨0,0,0,true⟩ mbx ⟨[],0⟩ :=
      .acked 0 mbx data (Nat.zero_le _) hmbx (fun j hj => by omega)
    obtain ⟨hpos,v,h3,hdone⟩ := foeWriteLoop_settles hs hsize fuel hwait h2 hloop
    obtain ⟨rfl,hlast⟩ := hend h3
    rw [hlast,hdone]
    exact ⟨fun hclaim => ⟨hfree,hclaim hpos⟩,fun hcond _ => hcond.2⟩

end Writing

section Slave

/-- The answer that waits to be read, and the file as far as it has come. -/
structure FoeTaker where
  waiting : Option (UInt8 × UInt32)
  take : FoeTake

def FoeTaker.view (s : FoeTaker) : List (List UInt8) × FoeTake :=
  ((s.waiting.map (fun w => foeMailbox w.1 w.2 [])).toList,s.take)

def FoeTaker.packet (busy : Nat → Nat → Bool) (s : FoeTaker) (data : List UInt8) : FoeTaker :=
  if busy (s.take.acked.length+1) s.take.tries=true then
    ⟨some (ectFoeBusy,0),⟨s.take.acked,s.take.tries+1⟩⟩
  else ⟨some (ectFoeAck,UInt32.ofNat (s.take.acked.length+1)),⟨s.take.acked++[data],0⟩⟩

/-- A slave that takes a file under any name. -/
def storeSlave (busy : Nat → Nat → Bool) : Port FoeTaker where
  write := fun s frame => (1,
    if foeOpcode frame=ectFoeWrite then
      ⟨some (if busy 0 0=true then ectFoeBusy else ectFoeAck,0),⟨[],0⟩⟩
    else s.packet busy (bytesAt frame 12 (sdoLength frame-0x0006).toNat))
  empty := fun s => (true,s)
  mailbox := fun s => (s.waiting.elim (.silent 0)
    (fun w => .full ⟨1,foeMailbox w.1 w.2 [],false⟩ []),{ s with waiting := none })
  others := fun s => ([],s)

theorem storeSlave_takes {cfg : SlaveCfg} (busy : Nat → Nat → Bool)
    (hin : 13 ≤ cfg.mbxL.toNat ∧ cfg.mbxL.toNat ≤ ecMaxMbx ∧ cfg.preop=true)
    (hout : 12 ≤ cfg.mbxRl.toNat ∧ cfg.mbxRl.toNat ≤ ecMaxMbx) :
    TakesFile (storeSlave busy) cfg busy FoeTaker.view where
  line := {
    inbox := ⟨by omega,hin.2⟩
    outbox := ⟨by omega,hout.2⟩
    alone := fun _ => rfl
    steady := fun _ => rfl
    takes := fun _ _ => Int.one_pos
    hands := by
      intro s reply q t hview
      obtain ⟨waiting,take⟩ := s
      cases waiting with
      | none => cases hview
      | some w =>
        cases hview
        have hlen : (foeMailbox w.1 w.2 []).length=12 := foeFrame_length _ _ _ _ _
        refine ⟨⟨1,foeMailbox w.1 w.2 [],false⟩,[],rfl,Int.one_pos,List.prefix_refl _,?_,?_,rfl⟩
        · exact hlen.le.trans hout.1
        · intro mbx hfront
          exact ((foeMailbox_isFoe w.1 w.2 []).front hfront).free false
    silent := by
      intro s t hview
      obtain ⟨waiting,take⟩ := s
      cases waiting with
      | none => exact ⟨0,rfl,hview⟩
      | some w => cases hview }
  inbox := hin.1
  opens := by
    intro s t frame name password hview hrequest
    refine ⟨_,0,[],foeMailbox_isFoe _ _ _,fun _ => rfl,?_⟩
    simp only [storeSlave,if_pos hrequest.code]
    rfl
  accepts := by
    intro s acked tries data frame hview hpacket hfit hfree
    have hother : ¬foeOpcode frame=ectFoeWrite := by
      rw [hpacket.code]
      decide
    have hdata : data.length ≤ ecMaxMbx := by omega
    have htake : s.take=⟨acked,tries⟩ := congrArg Prod.snd hview
    refine ⟨_,[],foeMailbox_isFoe _ _ _,?_⟩
    simp only [storeSlave,if_neg hother,FoeTaker.packet,htake,hfree,hpacket.size hdata,
      size_toNat hdata,hpacket.bytes]
    rfl
  defers := by
    intro s acked tries data frame hview hpacket hfit hbusy
    have hother : ¬foeOpcode frame=ectFoeWrite := by
      rw [hpacket.code]
      decide
    have htake : s.take=⟨acked,tries⟩ := congrArg Prod.snd hview
    refine ⟨_,0,[],foeMailbox_isFoe _ _ _,?_⟩
    simp only [storeSlave,if_neg hother,FoeTaker.packet,htake,hbusy]
    rfl

end Slave

/-- A slave that is busy at first for every packet but the closing one. -/
def slowStart (n i : Nat) : Bool := decide (0 < n ∧ n < 3 ∧ i=0)

/-- A slave that is busy once, when packet 3 comes. -/
def busyAtThird (n i : Nat) : Bool := decide (n=3 ∧ i=0)

/-- Sixteen bytes go out in two packets of eight and an empty one, through some delays. -/
theorem sixteen_bytes_delivered : ∃ w c',
    foeWrite (storeSlave slowStart) cfg20 10 [0x61] 0 (List.replicate 16 7)
      (Client.start ⟨none,⟨[],0⟩⟩)=.ok (w,c') ∧
    0 < w ∧ Delivered 8 (List.replicate 16 7) (FoeTaker.view c'.env).2.acked := by
  have hrun : (foeWrite (storeSlave slowStart) cfg20 10 [0x61] 0 (List.replicate 16 7)
      (Client.start ⟨none,⟨[],0⟩⟩)).toOption.map Prod.fst=some 1 := by
    decide +kernel
  cases hres : foeWrite (storeSlave slowStart) cfg20 10 [0x61] 0 (List.replicate 16 7)
      (Client.start ⟨none,⟨[],0⟩⟩) with
  | error e =>
    rw [hres] at hrun
    cases hrun
  | ok p =>
    obtain ⟨w,c'⟩ := p
    rw [hres] at hrun
    cases hrun
    have hiff := foe_write_delivered_iff (storeSlave_takes slowStart (by decide) (by decide))
      initMbxPool_wf (by decide) (by decide) (by decide) hres
    exact ⟨1,c',rfl,by decide,hiff.mpr ⟨by decide,fun _ => by decide⟩ (by decide)⟩

/-- A slave that is busy for the closing packet has not taken it, and the call ends with success. -/
theorem closing_packet_lost : ∃ w c',
    foeWrite (storeSlave busyAtThird) cfg20 10 [0x61] 0 (List.replicate 16 7)
      (Client.start ⟨none,⟨[],0⟩⟩)=.ok (w,c') ∧
    0 < w ∧ (FoeTaker.view c'.env).2.acked=[List.replicate 8 7,List.replicate 8 7] ∧
    ¬Delivered 8 (List.replicate 16 7) (FoeTaker.view c'.env).2.acked := by
  have hrun : (foeWrite (storeSlave busyAtThird) cfg20 10 [0x61] 0 (List.replicate 16 7)
      (Client.start ⟨none,⟨[],0⟩⟩)).toOption.map (fun p => (p.1,(FoeTaker.view p.2.env).2.acked))=
        some (1,[List.replicate 8 7,List.replicate 8 7]) := by
    decide +kernel
  cases hres : foeWrite (storeSlave busyAtThird) cfg20 10 [0x61] 0 (List.replicate 16 7)
      (Client.start ⟨none,⟨[],0⟩⟩) with
  | error e =>
    rw [hres] at hrun
    cases hrun
  | ok p =>
    obtain ⟨w,c'⟩ := p
    rw [hres] at hrun
    have hpair := Option.some.inj hrun
    have hw : w=1 := congrArg Prod.fst hpair
    have hacked : (FoeTaker.view c'.env).2.acked=[List.replicate 8 7,List.replicate 8 7] :=
      congrArg Prod.snd hpair
    refine ⟨w,c',rfl,by omega,hacked,?_⟩
    rw [hacked]
    rintro ⟨-,last,hlast,hshort⟩
    cases hlast
    exact absurd hshort (by decide)

end EtherCATMaster.Mailbox
