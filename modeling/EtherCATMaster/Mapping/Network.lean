import EtherCATMaster.Mapping.Received

namespace EtherCATMaster.Mapping

def sentByte (command : Command) (mem : IoMemory) (a : Nat) : UInt8 :=
  if command=.lrd then 0 else mem a

/-- A datagram that has passed the slaves: where a slave reads into the logical address space, there
is its byte, elsewhere what was sent. -/
def answer (reads : Nat → Option UInt8) (mem : IoMemory) (d : Datagram) : Reply :=
  ⟨1,(List.range d.length).map (fun i =>
    (reads (d.logAdr+i)).getD (sentByte d.command mem (d.data+i))),0,0⟩

def completeCycle (overlapped : Bool) (g : Group) (reads : Nat → Option UInt8) (mem : IoMemory) :
    Option IoMemory := do
  let r ← sendProcessdata overlapped g mem
  let frames := (pushed r.2.1).map (fun d => (d,some (answer reads r.2.2 d)))
  some (copied r.2.2 (receiveProcessdata frames receiveStart).copies)

section Answers

variable {command : Command} {moved : Nat} {reads : Nat → Option UInt8} {mem : IoMemory}

theorem writeBytes_map (mem' : IoMemory) (dest n : Nat) (f : Nat → UInt8) (x : Nat) :
    writeBytes mem' dest ((List.range n).map f) x=
      if dest ≤ x ∧ x<dest+n then f (x-dest) else mem' x := by
  rw [writeBytes,List.length_map,List.length_range]
  by_cases hin : dest ≤ x ∧ x<dest+n
  · have hlt : x-dest<n := by omega
    rw [if_pos hin,if_pos hin,List.getD_eq_getElem?_getD,List.getElem?_map,
      List.getElem?_range hlt]
    rfl
  · rw [if_neg hin,if_neg hin]

theorem readBytes_map (n : Nat) (f : Nat → UInt8) :
    readBytes (((List.range n).map f).getD · 0) 0 n=(List.range n).map f := by
  rw [readBytes]
  apply List.map_congr_left
  intro i hi
  simp only [Nat.zero_add]
  rw [List.getD_eq_getElem?_getD,List.getElem?_map,List.getElem?_range (List.mem_range.mp hi)]
  rfl

theorem copyOf_lwr {d : Datagram} (hwrite : d.command=.lwr) (reply : Option Reply) :
    copyOf d reply=none := by
  cases reply with
  | none => rfl
  | some reply =>
    simp only [copyOf]
    rw [if_neg (fun hc => hc.2 hwrite)]

theorem copyOf_answer (reads : Nat → Option UInt8) (mem : IoMemory) {d : Datagram}
    (hread : d.command≠.lwr) :
    copyOf d (some (answer reads mem d))=some (d.dest,(List.range d.length).map (fun i =>
      (reads (d.logAdr+i)).getD (sentByte d.command mem (d.data+i)))) := by
  have hwkc : (answer reads mem d).wkc>ecNoFrame ∧ d.command≠.lwr := 
    ⟨show (1 : Int)>ecNoFrame by decide,hread⟩
  simp only [copyOf]
  rw [if_pos hwkc]
  simp only [answer,readBytes_map]

theorem copied_layout (hread : command≠.lwr) (segments : List Nat) (logAdr data : Nat)
    (mem' : IoMemory) (x : Nat) :
    copied mem' ((layout command moved segments logAdr data).filterMap
        (fun d => copyOf d (some (answer reads mem d)))) x=
      if data+moved ≤ x ∧ x<data+moved+segments.sum then
        (reads (logAdr+(x-(data+moved)))).getD (sentByte command mem (x-moved))
      else mem' x := by
  induction segments generalizing logAdr data mem' with
  | nil =>
    rw [if_neg (by simp only [List.sum_nil]; omega)]
    rfl
  | cons s rest ih =>
    have hfirst := copyOf_answer reads mem (d := ⟨command,logAdr,s,data,data+moved,false⟩) hread
    rw [layout,List.filterMap_cons,hfirst,List.sum_cons]
    change copied (writeBytes mem' (data+moved) _) _ x=_
    rw [ih,writeBytes_map]
    by_cases hrest : data+s+moved ≤ x ∧ x<data+s+moved+rest.sum
    · have haddr : logAdr+s+(x-(data+s+moved))=logAdr+(x-(data+moved)) := by omega
      rw [if_pos hrest,if_pos (by omega),haddr]
    · rw [if_neg hrest]
      by_cases hin : data+moved ≤ x ∧ x<data+moved+s
      · have hbyte : data+(x-(data+moved))=x-moved := by omega
        rw [if_pos hin,if_pos (by omega),hbyte]
      · rw [if_neg hin,if_neg (by omega)]

theorem filterMap_withDc (hasdc : Bool) (ds : List Datagram) :
    (withDc hasdc ds).filterMap (fun d => copyOf d (some (answer reads mem d)))=
      ds.filterMap (fun d => copyOf d (some (answer reads mem d))) := by
  cases ds <;> rfl

end Answers

variable {ctx : Context} {p : Stage} {group start : Nat} {g : Group}

def statusCleared (g : Group) (mem : IoMemory) : IoMemory := fun x =>
  if g.obytes+g.ibytes ≤ x ∧ x<g.obytes+g.ibytes+g.mbxstatuslength then 0 else mem x

theorem Stage.Entry.clear_eq {overlapped : Bool} {count : Nat}
    (h : p.Entry overlapped group start count g) (mem : IoMemory) :
    clearMbxStatus g mem=some (statusCleared g mem) := by
  by_cases hlen : g.mbxstatuslength=0
  · rw [clearMbxStatus,if_neg (fun hc => hc.2 hlen)]
    congr 1
    funext x
    rw [statusCleared,if_neg (by omega)]
  · rw [clearMbxStatus,if_pos ⟨by rw [h.mbxstatus]; exact Pointer.noConfusion,hlen⟩,h.mbxstatus,
      ← h.obytes,← h.ibytes]
    simp only [Pointer.offset,Option.bind_some,Option.bind_eq_bind]
    congr 1
    funext x
    rw [writeBytes,List.length_replicate,statusCleared]
    by_cases hin : g.obytes+g.ibytes ≤ x ∧ x<g.obytes+g.ibytes+g.mbxstatuslength
    · rw [if_pos hin,if_pos hin,List.getD_eq_getElem?_getD,
        List.getElem?_replicate_of_lt (by omega)]
      rfl
    · rw [if_neg hin,if_neg hin]

/-- The command that inputs come with. -/
def readCommand (g : Group) : Command := if g.blockLRW=0 then .lrw else .lrd

def readStart (g : Group) : Nat :=
  if g.blockLRW=0 then g.logstartaddr else g.logstartaddr+g.obytes

def readMoved (overlapped : Bool) (g : Group) : Nat :=
  if g.blockLRW=0 then receivedStart overlapped g else 0

def afterCycle (overlapped : Bool) (g : Group) (reads : Nat → Option UInt8) (mem : IoMemory) :
    IoMemory := fun x =>
  if receivedStart overlapped g ≤ x ∧
      x < receivedStart overlapped g+(receivedSegments overlapped g).sum then
    (reads (readStart g+(x-receivedStart overlapped g))).getD
      (sentByte (readCommand g) (statusCleared g mem) (x-readMoved overlapped g))
  else statusCleared g mem x

/-- One range of the IO map changes, and the status bytes outside it are 0. -/
theorem Stage.Entry.cycle (hp : p.Sound ctx group)
    (h : p.Entry ctx.overlappedMode group start (statusCount group p.slavelist) g)
    (reads : Nat → Option UInt8) (mem : IoMemory) :
    completeCycle ctx.overlappedMode g reads mem=
      some (afterCycle ctx.overlappedMode g reads mem) := by
  obtain ⟨ds,hds,hcopied⟩ : ∃ ds,groupDatagrams ctx.overlappedMode g=some ds ∧
      copied (statusCleared g mem) ((pushed ds).filterMap
        (fun d => copyOf d (some (answer reads (statusCleared g mem) d))))=
      afterCycle ctx.overlappedMode g reads mem := by
    by_cases hnone : frameLength ctx.overlappedMode g=0
    · refine ⟨[],by rw [groupDatagrams,if_pos hnone],?_⟩
      funext x
      rw [afterCycle,h.received_none hp hnone,if_neg (by omega)]
      rfl
    · by_cases hblock : g.blockLRW=0
      · refine ⟨_,h.lrw (h.bounded hp) hnone hblock,?_⟩
        funext x
        rw [pushed_withDc,filterMap_withDc,pushed,layout_take,copied_layout (by decide),
          afterCycle,receivedSegments,receivedStart,readStart,readCommand,readMoved,receivedStart,
          if_pos hblock,if_pos hblock,if_pos hblock,if_pos hblock,if_pos hblock,h.logstartaddr,
          Nat.zero_add]
      · refine ⟨_,h.lrd_lwr hnone hblock,?_⟩
        have hwrites : ∀ n,((if g.obytes≠0 then sendOutputs g.iosegment g.obytes start 0
            else []).take n).filterMap
              (fun d => copyOf d (some (answer reads (statusCleared g mem) d)))=[] := by
          intro n
          apply List.filterMap_eq_nil_iff.mpr
          intro d hd
          exact copyOf_lwr (writes_command g start d (List.mem_of_mem_take hd)) _
        funext x
        rw [pushed_withDc,filterMap_withDc,pushed,List.take_append,List.filterMap_append,hwrites,
          List.append_nil,afterCycle,receivedSegments,receivedStart,readStart,readCommand,readMoved,
          if_neg hblock,if_neg hblock,if_neg hblock,if_neg hblock,if_neg hblock,h.logstartaddr]
        by_cases hread : g.ibytes≠0
        · rw [if_pos hread,if_pos hread,layout_take,copied_layout (by decide),Nat.add_zero]
        · rw [if_neg hread,if_neg hread,List.take_nil,List.sum_nil,if_neg (by omega)]
          rfl
  have hframes : (receiveProcessdata ((pushed ds).map (fun d =>
      (d,some (answer reads (statusCleared g mem) d)))) receiveStart).copies=
      (pushed ds).filterMap (fun d => copyOf d (some (answer reads (statusCleared g mem) d))) := by
    rw [receiveProcessdata_copies,List.filterMap_map]
    rfl
  simp only [completeCycle,sendProcessdata,h.clear_eq,hds,Option.bind_some,Option.bind_eq_bind,
    hframes,hcopied]

end EtherCATMaster.Mapping
