import EtherCATMaster.Mapping.Stage

namespace EtherCATMaster.Mapping

def layout (command : Command) (moved : Nat) : List Nat → Nat → Nat → List Datagram
  | [],_,_ => []
  | sublength::rest,logAdr,data =>
      ⟨command,logAdr,sublength,data,data+moved,false⟩::
        layout command moved rest (logAdr+sublength) (data+sublength)

def sentCount : List Nat → Int → Nat
  | [],_ => 0
  | sublength::rest,length =>
      if length-sublength≠0 then sentCount rest (length-sublength)+1 else 1

section Layout

variable {command : Command} {moved : Nat}

theorem sendSegments_eq (segments : List Nat) (length : Int) (logAdr data : Nat) :
    sendSegments command moved segments length logAdr data=
      layout command moved (segments.take (sentCount segments length)) logAdr data := by
  induction segments generalizing length logAdr data with
  | nil => rfl
  | cons s rest ih =>
    rw [sendSegments,sentCount]
    split_ifs with hmore
    · rw [ih,List.take_succ_cons,layout]
    · rfl

theorem layout_take (segments : List Nat) (n logAdr data : Nat) :
    (layout command moved segments logAdr data).take n=
      layout command moved (segments.take n) logAdr data := by
  induction segments generalizing n logAdr data with
  | nil => simp [layout]
  | cons s rest ih =>
    cases n with
    | zero => rfl
    | succ n => rw [layout,List.take_succ_cons,List.take_succ_cons,layout,ih]

theorem layout_mem {segments : List Nat} {logAdr data : Nat} {d : Datagram}
    (h : d ∈ layout command moved segments logAdr data) :
    d.command=command ∧ data ≤ d.data ∧ d.data+d.length ≤ data+segments.sum ∧
      d.dest=d.data+moved := by
  induction segments generalizing logAdr data with
  | nil => cases h
  | cons s rest ih =>
    rw [List.sum_cons]
    rcases List.mem_cons.mp h with rfl|h
    · exact ⟨rfl,Nat.le_refl _,by simp only; omega,rfl⟩
    · obtain ⟨hcommand,hlow,hhigh,hdest⟩ := ih h
      exact ⟨hcommand,by omega,by omega,hdest⟩

theorem sentCount_sum {segments : List Nat} {length : Nat} (h : segments.sum ≤ length) :
    (segments.take (sentCount segments length)).sum=segments.sum := by
  induction segments generalizing length with
  | nil => rfl
  | cons s rest ih =>
    rw [List.sum_cons] at h ⊢
    rw [sentCount]
    split_ifs with hmore
    · have hlen : (length : Int)-(s : Int)=((length-s : Nat) : Int) := by omega
      rw [hlen,List.take_succ_cons,List.sum_cons,ih (by omega)]
    · have hrest : rest.sum=0 := by omega
      rw [List.take_succ_cons,List.take_zero,List.sum_cons,hrest]
      rfl

theorem withDc_mem {hasdc : Bool} {ds : List Datagram} {d : Datagram} (h : d ∈ withDc hasdc ds) :
    ∃ d' ∈ ds,d.command=d'.command ∧ d.data=d'.data ∧ d.length=d'.length ∧ d.dest=d'.dest := by
  cases ds with
  | nil => cases h
  | cons first rest =>
    rcases List.mem_cons.mp h with rfl|h
    · exact ⟨first,List.mem_cons_self,rfl,rfl,rfl,rfl⟩
    · exact ⟨d,List.mem_cons_of_mem first h,rfl,rfl,rfl,rfl⟩

theorem sendOutputs_mem {segments : List Nat} {length logAdr data : Nat} {d : Datagram}
    (h : d ∈ sendOutputs segments length logAdr data) :
    d.command=.lwr ∧ d.data+d.length ≤ data+length := by
  induction segments generalizing length logAdr data with
  | nil => cases h
  | cons s rest ih =>
    rw [sendOutputs] at h
    have hshort : shorten length ≤ length := Nat.mod_le _ _
    obtain ⟨sublength,hsub,hle⟩ : ∃ sublength,
        (if (length : Int)-shorten s<0 then shorten (length : Int).toNat else shorten s)=sublength ∧
          sublength ≤ length := by
      by_cases hneg : (length : Int)-shorten s<0
      · exact ⟨_,if_pos hneg,by simpa using hshort⟩
      · exact ⟨_,if_neg hneg,by omega⟩
    simp only [hsub] at h
    rcases List.mem_cons.mp h with rfl|h
    · exact ⟨rfl,by simp only; omega⟩
    · split_ifs at h with hmore
      · have hlen : (length : Int)-(sublength : Int)=((length-sublength : Nat) : Int) := by omega
        rw [hlen] at h
        obtain ⟨hcommand,hhigh⟩ := ih h
        exact ⟨hcommand,by omega⟩
      · cases h

end Layout

theorem take_sum_le (xs : List Nat) (n : Nat) : (xs.take n).sum ≤ xs.sum := by
  have hsum := congrArg List.sum (List.take_append_drop n xs)
  rw [List.sum_append] at hsum
  omega

theorem shorten_eq {n : Nat} (h : n<2^16) : shorten n=n := Nat.mod_eq_of_lt h

theorem map_shorten {segments : List Nat} (h : ∀ s ∈ segments,s ≤ ecMaxLrwData) :
    segments.map shorten=segments := by
  have hmax : ecMaxLrwData<2^16 := by decide
  rw [List.map_congr_left (fun s hs => shorten_eq ((h s hs).trans_lt hmax)),List.map_id']

section Mapped

variable {ctx ctx' : Context} {group size : Nat} {p : Stage}

def Stage.segments (p : Stage) (group : Nat) : Segmenting :=
  statusCut p.seg (statusDiffs group p.slavelist)

/-- The entry of a group that has been mapped. -/
structure Stage.Entry (p : Stage) (overlapped : Bool) (group start count : Nat) (g : Group) :
    Prop where
  obytes : g.obytes=p.obytes
  ibytes : g.ibytes=p.ibytes
  outputs : g.outputs=.ioMap 0
  inputs : g.inputs=.ioMap p.obytes
  mbxstatus : g.mbxstatus=.ioMap (p.obytes+p.ibytes)
  length : g.mbxstatuslength=(if overlapped=true then 0 else start)+count
  iosegment : g.iosegment=(p.segments group).iosegment++[(p.segments group).segmentsize]
  nsegments : g.nsegments=g.iosegment.length
  isegment : g.isegment=p.isegment
  ioffset : g.ioffset=p.ioffset
  logstartaddr : g.logstartaddr=start

theorem Stage.Leaves.entry_spec (hfresh : ctx.Fresh group)
    (h : p.Leaves ctx ctx' group size) :
    p.Entry ctx.overlappedMode group ctx.group.logstartaddr (statusCount group p.slavelist)
      ctx'.group := by
  obtain ⟨hlog,hlen,hseg⟩ := mapStatus_run group
    (if ctx.overlappedMode=true then p.obytes+p.ibytes else 0) 1 p.slavelist
    ⟨ctx.group.logstartaddr+p.span ctx.overlappedMode,p.seg,ctx.group.mbxstatuslookup,
      ctx.group.mbxstatuslength,p.inputsWKC⟩
  rw [h.entry]
  refine ⟨rfl,rfl,rfl,rfl,rfl,?_,?_,?_,rfl,rfl,rfl⟩
  · change (if ctx.overlappedMode=true then (p.status ctx group).2.length
      else (p.status ctx group).2.logAddr-p.obytes-p.ibytes)=_
    by_cases hmode : ctx.overlappedMode=true
    · rw [if_pos hmode,if_pos hmode]
      exact hlen.trans (by rw [hfresh.length])
    · rw [if_neg hmode,if_neg hmode]
      have hspan : p.span ctx.overlappedMode=p.obytes+p.ibytes := by
        rw [Stage.span,if_neg hmode]
      have haddr : (p.status ctx group).2.logAddr=
          ctx.group.logstartaddr+p.span ctx.overlappedMode+statusCount group p.slavelist := hlog
      omega
  · change (p.status ctx group).2.seg.iosegment++[(p.status ctx group).2.seg.segmentsize]=_
    rw [Stage.segments,show (p.status ctx group).2.seg=_ from hseg]
  · rw [Stage.group,List.length_append]
    rfl

variable {start count : Nat} {g : Group}

theorem Stage.Sound.segments_open (hp : p.Sound ctx group) :
    (p.segments group).Open ∧ p.seg.Follows (p.segments group) :=
  statusCut_open hp.segments (statusDiffs_le group p.slavelist)

theorem Stage.Sound.segments_total (hp : p.Sound ctx group) :
    p.span ctx.overlappedMode ≤ (p.segments group).total ∧
      (p.segments group).total ≤ p.span ctx.overlappedMode+statusCount group p.slavelist := by
  have htotal := statusCut_total_le hp.segments (statusDiffs_le group p.slavelist)
  rw [hp.total,statusDiffs_sum] at htotal
  exact htotal

theorem Stage.Sound.count_lt (hfresh : ctx.Fresh group) (hp : p.Sound ctx group) :
    statusCount group p.slavelist < ecMaxSlave := by
  have hlen : p.slavelist.length=ctx.slavelist.length := by
    have := congrArg List.length hp.devices
    rw [List.length_map,List.length_map,findMappings,List.length_map] at this
    exact this
  have hcount : statusCount group p.slavelist ≤ p.slavelist.length := List.countP_le_length
  exact hcount.trans_lt (hlen ▸ hfresh.count)

theorem Stage.Entry.bounded {overlapped : Bool} (hp : p.Sound ctx group)
    (h : p.Entry overlapped group start count g) : ∀ s ∈ g.iosegment,s ≤ ecMaxLrwData := by
  intro s hs
  have hopen := hp.segments_open.1
  rw [h.iosegment] at hs
  rcases List.mem_append.mp hs with hs|hs
  · exact (hopen.closed s hs).2
  · rw [List.mem_singleton.mp hs]
    exact hopen.size

theorem Stage.Entry.sum_eq {overlapped : Bool} (h : p.Entry overlapped group start count g) :
    g.iosegment.sum=(p.segments group).total := by
  rw [h.iosegment,List.sum_append,List.sum_singleton]
  rfl

theorem Stage.Entry.frame_eq {overlapped : Bool} (h : p.Entry overlapped group start count g) :
    frameLength overlapped g=p.span overlapped+g.mbxstatuslength := by
  rw [frameLength,Stage.span,h.obytes,h.ibytes]

theorem Stage.Entry.read_eq (hp : p.Sound ctx group)
    (h : p.Entry ctx.overlappedMode group start count g) :
    ∃ before first rest,g.iosegment=before++first::rest ∧ before.length=g.isegment ∧
      before.sum+g.ioffset=(if ctx.overlappedMode=true then 0 else g.obytes) ∧
      g.ioffset ≤ first ∧ readSegments g=(first-g.ioffset)::rest := by
  obtain ⟨hopen,hfollows⟩ := hp.segments_open
  obtain ⟨g0,hg0,hlen,hoffset,htotal⟩ := hp.split
  obtain ⟨first,rest,hsplit,hle⟩ := hg0.trans hfollows
  have hsegments : g.iosegment=g0.iosegment++first::rest := h.iosegment.trans hsplit
  have hbounded := h.bounded hp
  have hdrop : g.iosegment.drop g.isegment=first::rest := by
    rw [hsegments,h.isegment,← hlen,List.drop_left]
  have hoffset' : g.ioffset ≤ first := by
    rw [h.ioffset,← hoffset]
    exact hle
  have hmax : ecMaxLrwData=1486 := rfl
  have hfirst : first ≤ ecMaxLrwData := hbounded first (by rw [hsegments]; simp)
  have hrest : ∀ s ∈ rest,s ≤ ecMaxLrwData := by
    intro s hs
    apply hbounded
    rw [hsegments]
    simp [hs]
  refine ⟨g0.iosegment,first,rest,hsegments,?_,?_,hoffset',?_⟩
  · rw [hlen,h.isegment]
  · rw [h.ioffset,← hoffset,h.obytes]
    exact htotal
  · simp only [readSegments,hdrop,map_shorten hrest]
    have hshort : shorten (first+2^16-g.ioffset)=first-g.ioffset := by
      rw [shorten,show first+2^16-g.ioffset=first-g.ioffset+2^16 by omega,Nat.add_mod_right]
      exact Nat.mod_eq_of_lt (by omega)
    rw [hshort]

theorem Stage.Entry.lrw {overlapped : Bool} (h : p.Entry overlapped group start count g)
    (hbounded : ∀ s ∈ g.iosegment,s ≤ ecMaxLrwData) (hsome : frameLength overlapped g≠0)
    (hblock : g.blockLRW=0) :
    groupDatagrams overlapped g=some (withDc g.hasdc
      (layout .lrw (if overlapped=true ∧ g.obytes≠0 then g.obytes else 0)
        (g.iosegment.take (sentCount g.iosegment (frameLength overlapped g))) start 0)) := by
  rw [groupDatagrams,if_neg hsome,if_neg (not_not.mpr hblock)]
  by_cases hout : g.obytes≠0
  · have hdata : g.outputs.offset=some 0 := by
      rw [h.outputs]
      rfl
    simp only [if_pos hout,hdata,map_shorten hbounded,Option.bind_some,Option.bind_eq_bind,
      sendSegments_eq,h.logstartaddr]
  · -- without outputs the inputs are at the beginning
    have hdata : g.inputs.offset=some 0 := by
      rw [h.inputs,← h.obytes,not_not.mp hout]
      rfl
    simp only [if_neg hout,hdata,map_shorten hbounded,Option.bind_some,Option.bind_eq_bind,
      sendSegments_eq,h.logstartaddr]

theorem Stage.Entry.lrd_lwr {overlapped : Bool} (h : p.Entry overlapped group start count g)
    (hsome : frameLength overlapped g≠0) (hblock : g.blockLRW≠0) :
    groupDatagrams overlapped g=some (withDc g.hasdc
      ((if g.ibytes≠0 then layout .lrd 0
          ((readSegments g).take (sentCount (readSegments g) g.ibytes)) (start+g.obytes) g.obytes
        else [])++
      (if g.obytes≠0 then sendOutputs g.iosegment g.obytes start 0 else []))) := by
  have hin : g.inputs.offset=some g.obytes := by
    rw [h.inputs,h.obytes]
    rfl
  have hout : g.outputs.offset=some 0 := by
    rw [h.outputs]
    rfl
  rw [groupDatagrams,if_neg hsome,if_pos hblock]
  by_cases hread : g.ibytes≠0
  · by_cases hwrite : g.obytes≠0
    · simp only [if_pos hread,if_pos hwrite,hin,hout,Option.bind_some,Option.bind_eq_bind,
        sendSegments_eq,h.logstartaddr]
    · simp only [if_pos hread,if_neg hwrite,hin,Option.bind_some,Option.bind_eq_bind,
        sendSegments_eq,h.logstartaddr]
  · by_cases hwrite : g.obytes≠0
    · simp only [if_neg hread,if_pos hwrite,hout,Option.bind_some,Option.bind_eq_bind,
        h.logstartaddr]
    · simp only [if_neg hread,if_neg hwrite,Option.bind_some,Option.bind_eq_bind]

end Mapped

end EtherCATMaster.Mapping
