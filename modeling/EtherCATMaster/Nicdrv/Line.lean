import EtherCATMaster.Nicdrv.FrameBuilder
import EtherCATMaster.Nicdrv.Redundancy

namespace EtherCATMaster.Nicdrv

open EtherCATMaster.Framework
open EtherCATMaster.Mapping (ecNoFrame ecBufsize ethHeadersize ecHeadersize writeBytes readBytes)

/-- `EC_CMD_FPRD` -/
def fprdCode : UInt8 := 4

/-- A slave on the line: its station address, and what is in its memory. -/
structure LineSlave where
  configadr : UInt16
  memory : Nat → UInt8

def LineSlave.read (s : LineSlave) (ado : UInt16) (length : Nat) : List UInt8 :=
  readBytes s.memory ado.toNat length

/-- What a slave makes of a telegram that reads, as it passes. All slaves answer a broadcast, and
their data are put together bit by bit. -/
def LineSlave.work (s : LineSlave) (t : Telegram) : Telegram :=
  if t.command=fprdCode then
    if t.adp=s.configadr then { t with data := s.read t.ado t.data.length, wkc := t.wkc+1 } else t
  else if t.command=brdCode then
    { t with
      adp := t.adp+1
      data := List.zipWith (· ||| ·) t.data (s.read t.ado t.data.length)
      wkc := t.wkc+1 }
  else t

def pass (line : List LineSlave) (t : Telegram) : Telegram := line.foldl (fun t s => s.work t) t

/-- What comes back of a frame, less its ethernet header. -/
def returned (line : List LineSlave) (frame : Packet) : List UInt8 :=
  match parseFrame (frame.drop ethHeadersize) with
  | some ts => frameBytes (ts.map (pass line))
  | none => frame.drop ethHeadersize

/-- `ecx_srconfirm`, with a line that loses no frame. -/
def lossless (line : List LineSlave) (p : Port) (idx : Nat) : Int × Port :=
  let rxbuf := writeBytes (p.stack.rxbuf idx) 0 (returned line (p.frame idx))
  (bufferWkc rxbuf,{ p with
    stack := { p.stack with rxbuf := Function.update p.stack.rxbuf idx rxbuf } })

section Passing

variable (line : List LineSlave)

theorem LineSlave.work_length (s : LineSlave) (t : Telegram) :
    (s.work t).data.length=t.data.length := by
  have hread : (s.read t.ado t.data.length).length=t.data.length := by
    rw [read,readBytes,List.length_map,List.length_range]
  rw [work]
  split_ifs
  · exact hread
  · rfl
  · rw [List.length_zipWith,hread,Nat.min_self]
  · rfl

theorem pass_size (t : Telegram) : (pass line t).size=t.size := by
  have hlength : (pass line t).data.length=t.data.length := by
    rw [pass]
    induction line generalizing t with
    | nil => rfl
    | cons s rest ih => exact (ih (s.work t)).trans (s.work_length t)
  rw [Telegram.size,Telegram.size,hlength]

theorem map_pass_size (ts : List Telegram) :
    (ts.map (pass line)).map Telegram.size=ts.map Telegram.size := by
  rw [List.map_map]
  exact List.map_congr_left fun t _ => pass_size line t

variable {line}

theorem pass_others (line : List LineSlave) {t : Telegram} (hc : t.command=fprdCode)
    (h : ∀ s ∈ line,s.configadr≠t.adp) : pass line t=t := by
  rw [pass]
  induction line with
  | nil => rfl
  | cons s rest ih =>
    have hne : t.adp≠s.configadr := fun he => h s List.mem_cons_self he.symm
    have hwork : s.work t=t := by rw [LineSlave.work,if_pos hc,if_neg hne]
    rw [List.foldl_cons,hwork]
    exact ih fun s' hs' => h s' (List.mem_cons_of_mem _ hs')

theorem pass_own {t : Telegram} {s : LineSlave} (hc : t.command=fprdCode)
    (hnodup : (line.map LineSlave.configadr).Nodup) (hs : s ∈ line) (ha : t.adp=s.configadr) :
    (pass line t).data=s.read t.ado t.data.length := by
  rw [pass]
  induction line with
  | nil => cases hs
  | cons s' rest ih =>
    rw [List.map_cons,List.nodup_cons] at hnodup
    obtain ⟨hfirst,hrest⟩ := hnodup
    rw [List.foldl_cons]
    rcases List.mem_cons.mp hs with rfl|hin
    · have hwork : s.work t={ t with data := s.read t.ado t.data.length, wkc := t.wkc+1 } := by
        rw [LineSlave.work,if_pos hc,if_pos ha]
      rw [hwork]
      have hothers := pass_others rest
        (t := { t with data := s.read t.ado t.data.length, wkc := t.wkc+1 }) hc (by
          intro u hu he
          exact hfirst (List.mem_map.mpr ⟨u,hu,he.trans ha⟩))
      rw [pass] at hothers
      rw [hothers]
    · have hne : t.adp≠s'.configadr := by
        intro he
        exact hfirst (List.mem_map.mpr ⟨s,hin,ha.symm.trans he⟩)
      have hwork : s'.work t=t := by rw [LineSlave.work,if_pos hc,if_neg hne]
      rw [hwork]
      exact ih hrest hin

end Passing

section Received

theorem readBytes_part (b : Buffer) {bytes : List UInt8} {offset n : Nat}
    (h : offset+n ≤ bytes.length) :
    readBytes (writeBytes b 0 bytes) offset n=(bytes.drop offset).take n := by
  have hall := readBytes_written b 0 bytes rfl
  obtain ⟨rest,hrest⟩ := Nat.exists_eq_add_of_le h
  rw [hrest,Nat.add_assoc,readBytes_add,readBytes_add,Nat.zero_add] at hall
  have hfront : (readBytes (writeBytes b 0 bytes) 0 offset).length=offset := by
    rw [readBytes,List.length_map,List.length_range]
  have hpart : (readBytes (writeBytes b 0 bytes) offset n).length=n := by
    rw [readBytes,List.length_map,List.length_range]
  have hdrop := congrArg (List.drop offset) hall
  rw [List.drop_left' hfront] at hdrop
  have htake := congrArg (List.take n) hdrop
  rw [List.take_left' hpart] at htake
  exact htake

theorem frame_drop (p : Port) (idx : Nat) :
    (p.frame idx).drop ethHeadersize=readBytes (p.txbuf idx) 14 (p.txbuflength idx-14) := by
  rw [Port.frame,ethHeadersize]
  by_cases h : 14 ≤ p.txbuflength idx
  · obtain ⟨n,hn⟩ := Nat.exists_eq_add_of_le h
    have hfront : (readBytes (p.txbuf idx) 0 14).length=14 := rfl
    rw [hn,readBytes_add,List.drop_left' hfront,Nat.add_sub_cancel_left,Nat.zero_add]
  · have hshort : (readBytes (p.txbuf idx) 0 (p.txbuflength idx)).length ≤ 14 := by
      rw [readBytes,List.length_map,List.length_range]
      omega
    rw [List.drop_eq_nil_of_le hshort,Nat.sub_eq_zero_of_le (by omega)]
    rfl

theorem returned_built (line : List LineSlave) {p : Port} {idx : Nat} {ts : List Telegram}
    (hne : ts≠[]) (hshort : (encodeTelegrams ts).length < 2^11)
    (h : readBytes (p.txbuf idx) 14 (p.txbuflength idx-14)=frameBytes ts) :
    returned line (p.frame idx)=frameBytes (ts.map (pass line)) := by
  rw [returned,frame_drop,h,parseFrame_frameBytes hne hshort]

theorem frame_data {us : List Telegram} {k : Nat} {u : Telegram} (h : us[k]?=some u) :
    ((frameBytes us).drop (2+dataPlace us k)).take u.data.length=u.data := by
  rw [frameBytes,← List.drop_drop,List.drop_left' (leBytes_length _ _)]
  exact encode_dataPlace h

theorem received_data (b : Buffer) {us : List Telegram} {k : Nat} {u : Telegram}
    (h : us[k]?=some u) (hdata : u.data≠[]) :
    readBytes (writeBytes b 0 (frameBytes us)) (2+dataPlace us k) u.data.length=u.data := by
  have hpart := frame_data h
  have hlength := congrArg List.length hpart
  rw [List.length_take,List.length_drop] at hlength
  have hpos := List.length_pos_of_ne_nil hdata
  rw [readBytes_part b (by omega),hpart]

end Received

/-- A round of `ecx_srconfirm`: the results of `send`, and what comes in during the wait. -/
structure Try where
  sent : Bool × Bool
  wait : Wait

def Port.attempt (p : Port) (idx : Nat) (t : Try) : Int × Port :=
  let w := (p.outframeRed idx t.sent.1 t.sent.2).2.waitinframe idx t.wait.polls t.wait.resend
  (w.wkc,w.port)

/-- `ecx_srconfirm`. It tries again as long as there is time. -/
def Port.srconfirm (p : Port) (idx : Nat) : Try → List Try → Int × Port
  | t,[] => p.attempt idx t
  | t,next::later =>
      let r := p.attempt idx t
      if r.1 ≤ ecNoFrame then r.2.srconfirm idx next later else r

/-- A single port brings back what the line makes of a frame, if the frame comes in the first time
that it is sent. -/
theorem srconfirm_lossless {line : List LineSlave} {p : Port} {idx : Nat} {us : List Telegram}
    {t : Try} {later : List Try} {q : Packet} {second : List Packet} {more : List Arrivals}
    (hred : p.redport=none) (hsocket : p.stack.socket=[]) (hsent : t.sent.1=true)
    (hpolls : t.wait.polls=⟨[q],second⟩::more) (hown : Own idx q)
    (hlength : q.length=p.txbuflength idx)
    (hback : q.drop ethHeadersize=returned line (p.frame idx))
    (hframe : returned line (p.frame idx)=frameBytes us)
    (hshort : (encodeTelegrams us).length < 2^11) :
    (p.srconfirm idx t later).1=(lossless line p idx).1 ∧
    ∀ i < p.txbuflength idx-ethHeadersize,(p.srconfirm idx t later).2.stack.rxbuf idx i=
      (lossless line p idx).2.stack.rxbuf idx i := by
  let s := (p.stack.transmitted idx t.sent.1).arrive [q]
  have hmark : s.rxbufstat idx≠.rcvd := by
    have hstat : s.rxbufstat idx=.tx := by
      change Function.update p.stack.rxbufstat idx (if t.sent.1=true then .tx else .empty) idx=_
      rw [Function.update_self,if_pos hsent]
    rw [hstat]
    decide
  have hone : s.socket=[q] := by
    change p.stack.socket++[q]=_
    rw [hsocket]
    rfl
  have hgot := inframe_own p.txbuflength hown hone hmark
  have harrived : ¬(s.inframe p.txbuflength idx).1 ≤ ecNoFrame := by
    rw [hgot.wkc]
    exact Int.not_le.mpr (leWord_back _ _)
  have hwait : p.attempt idx t=((s.inframe p.txbuflength idx).1,
      { (p.outframeRed idx t.sent.1 t.sent.2).2 with stack := (s.inframe p.txbuflength idx).2 }) := by
    have hloop : waitLoopSingle p.txbuflength idx (⟨[q],second⟩::more)
        (ecNoFrame,p.stack.transmitted idx t.sent.1)=s.inframe p.txbuflength idx := by
      have hpoll : ((p.stack.transmitted idx t.sent.1).arrive [q]).poll p.txbuflength idx ecNoFrame=
          s.inframe p.txbuflength idx := by
        rw [Stack.poll,if_pos (Int.le_refl _)]
      rw [waitLoopSingle]
      simp only [hpoll]
      rw [if_neg harrived]
    rw [Port.attempt,Port.outframeRed,Port.waitinframe,hpolls]
    simp only [hred,hloop]
  have hrun : p.srconfirm idx t later=p.attempt idx t := by
    cases later with
    | nil => rfl
    | cons next rest =>
      rw [Port.srconfirm,hwait]
      exact if_neg harrived
  have hbytes : ∀ i < p.txbuflength idx-ethHeadersize,
      (s.inframe p.txbuflength idx).2.rxbuf idx i=(lossless line p idx).2.stack.rxbuf idx i := by
    intro i hi
    have hlossless : (lossless line p idx).2.stack.rxbuf idx=
        writeBytes (p.stack.rxbuf idx) 0 (returned line (p.frame idx)) := Function.update_self ..
    have hin : i < (returned line (p.frame idx)).length := by
      rw [← hback,List.length_drop]
      omega
    rw [hgot.contents i hi (by omega),hlossless,writeBytes_zero _ _ hin,← hback]
    rw [packetBuffer,packetBuffer,List.getD_eq_getElem?_getD,List.getD_eq_getElem?_getD,
      List.getElem?_drop]
  rw [hrun,hwait]
  refine ⟨?_,hbytes⟩
  -- both working counters are read behind the last telegram
  have hsize : p.txbuflength idx-ethHeadersize=2+(encodeTelegrams us).length := by
    have hdrop := congrArg List.length (hback.trans hframe)
    rw [List.length_drop,hlength,frameBytes,List.length_append,leBytes_length] at hdrop
    exact hdrop
  have hword : leWord ((lossless line p idx).2.stack.rxbuf idx) 0=
      0x1000+(encodeTelegrams us).length := by
    have hrx : (lossless line p idx).2.stack.rxbuf idx=
        writeBytes (p.stack.rxbuf idx) 0 (frameBytes us) := by
      rw [← hframe]
      exact Function.update_self ..
    have hlen : 0+2 ≤ (frameBytes us).length := by
      rw [frameBytes,List.length_append,leBytes_length]
      omega
    rw [hrx,leWord_eq_leValue,readBytes_part _ hlen,List.drop_zero,frameBytes,
      List.take_left' (leBytes_length _ _)]
    exact leValue_leBytes _ _ (by omega)
  have hsame : ∀ offset,offset+2 ≤ p.txbuflength idx-ethHeadersize →
      leWord ((s.inframe p.txbuflength idx).2.rxbuf idx) offset=
        leWord ((lossless line p idx).2.stack.rxbuf idx) offset := by
    intro offset ho
    rw [leWord,leWord,hbytes offset (by omega),hbytes (offset+1) (by omega)]
  have htotal : leWord (packetBuffer q) ethHeadersize=0x1000+(encodeTelegrams us).length := by
    have hfirst := hgot.contents 0 (by omega) (by omega)
    have hsecond := hgot.contents 1 (by omega) (by omega)
    rw [← hword,← hsame 0 (by omega),leWord,leWord,hfirst,hsecond]
    rfl
  have hmod : (0x1000+(encodeTelegrams us).length)%0x1000=(encodeTelegrams us).length := by omega
  have hvalue : (lossless line p idx).1=bufferWkc ((lossless line p idx).2.stack.rxbuf idx) := by
    have hrx : (lossless line p idx).2.stack.rxbuf idx=
        writeBytes (p.stack.rxbuf idx) 0 (returned line (p.frame idx)) := Function.update_self ..
    rw [hrx]
    rfl
  rw [hgot.wkc,hvalue,bufferWkc,hword,htotal,hmod,hsame _ (by omega)]

end EtherCATMaster.Nicdrv
