import EtherCATMaster.Mapping.Sizes

namespace EtherCATMaster.Mapping

def copyOf (d : Datagram) (reply : Option Reply) : Option (Nat × List UInt8) :=
  match reply with
  | none => none
  | some reply =>
      if reply.wkc>ecNoFrame ∧ d.command≠.lwr then
        some (d.dest,readBytes (reply.bytes.getD · 0) 0 d.length)
      else none

/-- Whatever of the frames of a cycle comes back is copied to places inside the IO map. -/
def ReceivedInside (overlapped : Bool) (g : Group) (size : Nat) : Prop :=
  ∀ mem,∃ wkc ds mem',sendProcessdata overlapped g mem=some (wkc,ds,mem') ∧
    ∀ replies : List (Option Reply),replies.length=(pushed ds).length →
      ∀ c ∈ (receiveProcessdata ((pushed ds).zip replies) receiveStart).copies,
        ∀ i,i<c.2.length → c.1+i < size

section Copies

theorem receiveFrame_copies (r : ReceiveRun) (d : Datagram) (reply : Option Reply) :
    (receiveFrame r d reply).copies=r.copies++(copyOf d reply).toList := by
  cases reply with
  | none => exact (List.append_nil _).symm
  | some reply =>
    rw [receiveFrame,copyOf]
    by_cases hwkc : reply.wkc>ecNoFrame
    · by_cases hout : d.command=.lwr
      · have hnone : ¬(reply.wkc>ecNoFrame ∧ d.command≠.lwr) := fun hc => hc.2 hout
        simp only [if_pos hwkc,if_pos hout,if_neg hnone]
        split_ifs <;> exact (List.append_nil _).symm
      · have hsome : reply.wkc>ecNoFrame ∧ d.command≠.lwr := ⟨hwkc,hout⟩
        simp only [if_pos hwkc,if_neg hout,if_pos hsome]
        split_ifs <;> rfl
    · have hnone : ¬(reply.wkc>ecNoFrame ∧ d.command≠.lwr) := fun hc => hwkc hc.1
      simp only [if_neg hwkc,if_neg hnone]
      exact (List.append_nil _).symm

theorem receiveProcessdata_copies (frames : List (Datagram × Option Reply)) (r : ReceiveRun) :
    (receiveProcessdata frames r).copies=
      r.copies++frames.filterMap (fun f => copyOf f.1 f.2) := by
  induction frames generalizing r with
  | nil => exact (List.append_nil _).symm
  | cons f rest ih =>
    rw [receiveProcessdata,ih,receiveFrame_copies,List.filterMap_cons,List.append_assoc]
    cases copyOf f.1 f.2 <;> rfl

def emptyReply : Reply := ⟨1,[],0,0⟩

/-- Any subset of the frames stays inside exactly if every frame does. -/
theorem copies_inside_iff (ds : List Datagram) (size : Nat) :
    (∀ replies : List (Option Reply),replies.length=ds.length →
      ∀ c ∈ (receiveProcessdata (ds.zip replies) receiveStart).copies,
        ∀ i,i<c.2.length → c.1+i < size) ↔
    ∀ d ∈ ds,d.command≠.lwr → ∀ i,i<d.length → d.dest+i < size := by
  constructor
  · intro hall d hd hcommand i hi
    have hmem : (d.dest,readBytes (emptyReply.bytes.getD · 0) 0 d.length) ∈
        (receiveProcessdata (ds.zip (List.replicate ds.length (some emptyReply)))
          receiveStart).copies := by
      rw [receiveProcessdata_copies]
      apply List.mem_append_right
      apply List.mem_filterMap.mpr
      refine ⟨(d,some emptyReply),?_,?_⟩
      · obtain ⟨n,hn,rfl⟩ := List.mem_iff_getElem.mp hd
        apply List.mem_iff_getElem.mpr
        refine ⟨n,by simpa using hn,?_⟩
        simp
      · simp only [copyOf]
        rw [if_pos ⟨by decide,hcommand⟩]
    have hlen : (List.replicate ds.length (some emptyReply)).length=ds.length :=
      List.length_replicate
    exact hall _ hlen _ hmem i (by rw [readBytes_length]; exact hi)
  · intro hall replies _ c hc i hi
    rw [receiveProcessdata_copies] at hc
    rcases List.mem_append.mp hc with hc|hc
    · cases hc
    · obtain ⟨⟨d,reply⟩,hmem,hcopy⟩ := List.mem_filterMap.mp hc
      have hd := (List.of_mem_zip hmem).1
      cases reply with
      | none => cases hcopy
      | some reply =>
        simp only [copyOf] at hcopy
        split_ifs at hcopy with hwkc
        cases hcopy
        rw [readBytes_length] at hi
        exact hall d hd hwkc.2 i hi

end Copies

/-- The segments that come back into the IO map. -/
def receivedSegments (overlapped : Bool) (g : Group) : List Nat :=
  if g.blockLRW=0 then
    (g.iosegment.take (sentCount g.iosegment (frameLength overlapped g))).take ecMaxBuf
  else if g.ibytes≠0 then
    ((readSegments g).take (sentCount (readSegments g) g.ibytes)).take ecMaxBuf
  else []

def receivedStart (overlapped : Bool) (g : Group) : Nat :=
  if g.blockLRW=0 then (if overlapped=true ∧ g.obytes≠0 then g.obytes else 0) else g.obytes

section Extent

theorem inside_layout_iff (command : Command) (moved size : Nat) (segments : List Nat)
    (logAdr data : Nat) :
    (∀ d ∈ layout command moved segments logAdr data,∀ i,i<d.length → d.dest+i < size) ↔
      segments.sum=0 ∨ data+moved+segments.sum ≤ size := by
  induction segments generalizing logAdr data with
  | nil => exact ⟨fun _ => .inl rfl,fun _ d hd => absurd hd List.not_mem_nil⟩
  | cons s rest ih =>
    rw [layout,List.forall_mem_cons,ih,List.sum_cons]
    simp only
    constructor
    · rintro ⟨hfirst,hrest⟩
      by_cases hs : s=0
      · omega
      · have hlast := hfirst (s-1) (by omega)
        omega
    · intro hsum
      exact ⟨fun i hi => by omega,by omega⟩

theorem pushed_withDc (hasdc : Bool) (ds : List Datagram) :
    pushed (withDc hasdc ds)=withDc hasdc (pushed ds) := by
  cases ds <;> rfl

theorem withDc_forall {P : Command → Nat → Nat → Prop} (hasdc : Bool) (ds : List Datagram) :
    (∀ d ∈ withDc hasdc ds,P d.command d.dest d.length) ↔
      ∀ d ∈ ds,P d.command d.dest d.length := by
  cases ds with
  | nil => exact Iff.rfl
  | cons first rest => rw [withDc,List.forall_mem_cons,List.forall_mem_cons]

variable {ctx : Context} {p : Stage} {group start count : Nat} {g : Group}

theorem Stage.Entry.sum_le (hp : p.Sound ctx group)
    (h : p.Entry ctx.overlappedMode group start (statusCount group p.slavelist) g) :
    g.iosegment.sum ≤ frameLength ctx.overlappedMode g := by
  have htotal := hp.segments_total.2
  rw [h.sum_eq,h.frame_eq,h.length]
  omega

theorem writes_command (g : Group) (start : Nat) :
    ∀ d ∈ (if g.obytes≠0 then sendOutputs g.iosegment g.obytes start 0 else []),
      d.command=.lwr := by
  intro d hd
  split_ifs at hd
  · exact (sendOutputs_mem hd).1
  · cases hd

theorem Stage.Entry.received_none (hp : p.Sound ctx group)
    (h : p.Entry ctx.overlappedMode group start (statusCount group p.slavelist) g)
    (hnone : frameLength ctx.overlappedMode g=0) :
    (receivedSegments ctx.overlappedMode g).sum=0 := by
  have hsum := h.sum_le hp
  rw [receivedSegments]
  by_cases hblock : g.blockLRW=0
  · rw [if_pos hblock,List.take_take]
    have := take_sum_le g.iosegment
      (min ecMaxBuf (sentCount g.iosegment (frameLength ctx.overlappedMode g)))
    omega
  · have hin : g.ibytes=0 := by
      rw [frameLength] at hnone
      split_ifs at hnone <;> omega
    rw [if_neg hblock,if_neg (not_not.mpr hin)]
    rfl

/-- The frames of a cycle that are received, as one range of the IO map. -/
theorem Stage.Entry.received (size : Nat) (hp : p.Sound ctx group)
    (h : p.Entry ctx.overlappedMode group start (statusCount group p.slavelist) g) :
    ∃ ds,groupDatagrams ctx.overlappedMode g=some ds ∧
      ((∀ d ∈ pushed ds,d.command≠.lwr → ∀ i,i<d.length → d.dest+i < size) ↔
        (receivedSegments ctx.overlappedMode g).sum=0 ∨
          receivedStart ctx.overlappedMode g+(receivedSegments ctx.overlappedMode g).sum ≤ size) := by
  by_cases hnone : frameLength ctx.overlappedMode g=0
  · have hzero := h.received_none hp hnone
    refine ⟨[],?_,fun _ => .inl hzero,fun _ d hd => absurd hd List.not_mem_nil⟩
    rw [groupDatagrams,if_pos hnone]
  · by_cases hblock : g.blockLRW=0
    · refine ⟨_,h.lrw (h.bounded hp) hnone hblock,?_⟩
      rw [pushed_withDc,receivedSegments,receivedStart,if_pos hblock,if_pos hblock,
        withDc_forall (P := fun command dest length => command≠.lwr → ∀ i,i<length → dest+i < size),
        pushed,layout_take]
      have hiff := inside_layout_iff .lrw
        (if ctx.overlappedMode=true ∧ g.obytes≠0 then g.obytes else 0) size
        ((g.iosegment.take (sentCount g.iosegment (frameLength ctx.overlappedMode g))).take
          ecMaxBuf) start 0
      rw [Nat.zero_add] at hiff
      rw [← hiff]
      constructor
      · intro hall d hd
        exact hall d hd (by rw [(layout_mem hd).1]; decide)
      · intro hall d hd _
        exact hall d hd
    · refine ⟨_,h.lrd_lwr hnone hblock,?_⟩
      rw [pushed_withDc,receivedSegments,receivedStart,if_neg hblock,if_neg hblock,
        withDc_forall (P := fun command dest length => command≠.lwr → ∀ i,i<length → dest+i < size),
        pushed,List.take_append]
      have hwrite := writes_command g start
      by_cases hread : g.ibytes≠0
      · rw [if_pos hread,if_pos hread,layout_take]
        have hiff := inside_layout_iff .lrd 0 size
          (((readSegments g).take (sentCount (readSegments g) g.ibytes)).take ecMaxBuf)
          (start+g.obytes) g.obytes
        rw [Nat.add_zero] at hiff
        rw [← hiff]
        constructor
        · intro hall d hd
          exact hall d (List.mem_append_left _ hd) (by rw [(layout_mem hd).1]; decide)
        · intro hall d hd hcommand
          rcases List.mem_append.mp hd with hd|hd
          · exact hall d hd
          · exact absurd (hwrite d (List.mem_of_mem_take hd)) hcommand
      · rw [if_neg hread,if_neg hread]
        refine ⟨fun _ => .inl rfl,fun _ d hd hcommand => ?_⟩
        rcases List.mem_append.mp hd with hd|hd
        · rw [List.take_nil] at hd
          cases hd
        · exact absurd (hwrite d (List.mem_of_mem_take hd)) hcommand

theorem Stage.Entry.sends {overlapped : Bool} {ds : List Datagram}
    (h : p.Entry overlapped group start count g) (hds : groupDatagrams overlapped g=some ds)
    (mem : IoMemory) : ∃ mem',sendProcessdata overlapped g mem=
      some (if frameLength overlapped g=0 then 0 else 1,ds,mem') := by
  obtain ⟨mem',hclear,-⟩ := h.cleared mem
  refine ⟨mem',?_⟩
  simp only [sendProcessdata,hclear,hds,Option.bind_some,Option.bind_eq_bind]

theorem Stage.Entry.received_sum_le (hp : p.Sound ctx group)
    (h : p.Entry ctx.overlappedMode group start (statusCount group p.slavelist) g) :
    (receivedSegments ctx.overlappedMode g).sum ≤ (if g.blockLRW≠0 ∧ ctx.overlappedMode=false then
      g.ibytes+g.mbxstatuslength else frameLength ctx.overlappedMode g) := by
  have hsum := h.sum_le hp
  rw [receivedSegments]
  by_cases hblock : g.blockLRW=0
  · rw [if_pos hblock,if_neg (fun hc => hc.1 hblock),List.take_take]
    have := take_sum_le g.iosegment
      (min ecMaxBuf (sentCount g.iosegment (frameLength ctx.overlappedMode g)))
    omega
  · rw [if_neg hblock]
    by_cases hread : g.ibytes≠0
    · obtain ⟨before,first,rest,hsegments,-,hstart,hle,hreads⟩ := h.read_eq hp
      have htake := take_sum_le (readSegments g)
        (min ecMaxBuf (sentCount (readSegments g) g.ibytes))
      have hreadsum : (readSegments g).sum+(if ctx.overlappedMode=true then 0 else g.obytes)=
          g.iosegment.sum := by
        rw [hreads,hsegments,List.sum_append,List.sum_cons,List.sum_cons]
        omega
      rw [if_pos hread,List.take_take]
      by_cases hmode : ctx.overlappedMode=true
      · have hmain : ¬(g.blockLRW≠0 ∧ ctx.overlappedMode=false) := by
          rintro ⟨-,hmode'⟩
          rw [hmode] at hmode'
          cases hmode'
        rw [if_neg hmain]
        rw [if_pos hmode] at hreadsum
        omega
      · rw [if_pos ⟨hblock,Bool.eq_false_iff.mpr hmode⟩]
        rw [if_neg hmode] at hreadsum
        rw [frameLength,if_neg hmode] at hsum
        omega
    · rw [if_neg hread]
      exact Nat.zero_le _

end Extent

variable {ctx ctx' : Context} {group size : Nat}

/-- What is received stays inside the IO map exactly if outputs and inputs do not overlap, or there
are no more outputs than inputs, or the datagrams that come back end with the inputs and status. -/
theorem received_inside_iff (hfresh : ctx.Fresh group)
    (h : configMapGroup ctx group=some (ctx',size)) :
    ReceivedInside ctx'.overlappedMode ctx'.group size ↔
      ctx.overlappedMode=false ∨ ctx'.group.obytes ≤ ctx'.group.ibytes ∨
        (receivedSegments ctx.overlappedMode ctx'.group).sum ≤
          ctx'.group.ibytes+ctx'.group.mbxstatuslength := by
  obtain ⟨p,hstage,hp,hleaves⟩ := configMapGroup_stage hfresh h
  have hentry := hleaves.entry_spec hfresh
  have hreturned : size=ctx'.group.obytes+ctx'.group.ibytes+ctx'.group.mbxstatuslength := by
    rw [hleaves.entry]
    exact hleaves.returned
  obtain ⟨ds,hds,hrange⟩ := hentry.received size hp
  have hle := hentry.received_sum_le hp
  have hinside : ReceivedInside ctx'.overlappedMode ctx'.group size ↔
      (receivedSegments ctx.overlappedMode ctx'.group).sum=0 ∨
        receivedStart ctx.overlappedMode ctx'.group+
          (receivedSegments ctx.overlappedMode ctx'.group).sum ≤ size := by
    rw [← hrange,← copies_inside_iff,ReceivedInside,hleaves.mode]
    constructor
    · intro hall
      obtain ⟨wkc,ds',mem',hsend,hcopies⟩ := hall (fun _ => 0)
      obtain ⟨mem1,hsent⟩ := hentry.sends hds (fun _ => 0)
      cases hsent.symm.trans hsend
      exact hcopies
    · intro hcopies mem
      obtain ⟨mem',hsent⟩ := hentry.sends hds mem
      exact ⟨_,ds,mem',hsent,hcopies⟩
  rw [hinside,hreturned,receivedStart]
  rw [frameLength] at hle
  by_cases hmode : ctx.overlappedMode=true
  · have hmain : ¬(ctx'.group.blockLRW≠0 ∧ ctx.overlappedMode=false) := by
      rintro ⟨-,hmode'⟩
      rw [hmode] at hmode'
      cases hmode'
    have hmain' : ¬ctx.overlappedMode=false := by
      intro hmode'
      rw [hmode] at hmode'
      cases hmode'
    rw [if_neg hmain,if_pos hmode] at hle
    rw [or_iff_right hmain']
    have hmax : max ctx'.group.obytes ctx'.group.ibytes=ctx'.group.ibytes ∨
        ctx'.group.ibytes<ctx'.group.obytes := by
      rcases Nat.lt_or_ge ctx'.group.ibytes ctx'.group.obytes with hlt|hge
      · exact .inr hlt
      · exact .inl (Nat.max_eq_right hge)
    have hspan : ctx'.group.obytes=0 → max ctx'.group.obytes ctx'.group.ibytes=
        ctx'.group.ibytes := by
      intro hout
      rw [hout,Nat.zero_max]
    generalize max ctx'.group.obytes ctx'.group.ibytes=top at hle hmax hspan
    by_cases hblock : ctx'.group.blockLRW=0
    · rw [if_pos hblock]
      by_cases hout : ctx'.group.obytes=0
      · rw [if_neg (fun hc => hc.2 hout)]
        omega
      · rw [if_pos ⟨hmode,hout⟩]
        omega
    · rw [if_neg hblock]
      omega
  · have hmain := Bool.eq_false_iff.mpr hmode
    refine ⟨fun _ => .inl hmain,fun _ => .inr ?_⟩
    by_cases hblock : ctx'.group.blockLRW=0
    · rw [if_pos hblock,if_neg (fun hc => hmode hc.1)]
      rw [if_neg (fun hc => hc.1 hblock),if_neg hmode] at hle
      omega
    · rw [if_neg hblock]
      rw [if_pos ⟨hblock,hmain⟩] at hle
      omega

theorem mailbox_received_inside :
    ∃ ctx' size,configMapGroup (freshContext [mailboxSlave 0] 0 false true) 0=some (ctx',size) ∧
      ReceivedInside ctx'.overlappedMode ctx'.group size := by
  have hfresh : (freshContext [mailboxSlave 0] 0 false true).Fresh 0 :=
    freshContext_fresh _ _ (by decide) (by decide) (by decide) (by simpa using mailboxSlave_fresh 0)
  have hmapped : (configMapGroup (freshContext [mailboxSlave 0] 0 false true) 0).any (fun r =>
      decide (r.1.group.obytes ≤ r.1.group.ibytes))=true := by decide +kernel
  obtain ⟨⟨ctx',size⟩,h,hle⟩ := (Option.any_eq_true _ _).mp hmapped
  exact ⟨ctx',size,h,(received_inside_iff hfresh h).mpr (.inr (.inl (of_decide_eq_true hle)))⟩

/-- A slave with four bytes of outputs and one byte of inputs. -/
def outputSlave (group : Nat) : Slave :=
  { mailboxSlave group with
    mbxL := 0
    obits := 32
    ibits := 8
    sm := fun i => [Sm.mk 0 0 0,Sm.mk 0 0 0,Sm.mk 0x1100 4 3,Sm.mk 0x1180 1 4].getD i ⟨0,0,0⟩ }

theorem outputSlave_fresh (group : Nat) : (outputSlave group).Fresh :=
  ⟨rfl,rfl,rfl,fun _ => rfl,rfl,rfl,rfl⟩

/-- Four bytes come back, and are copied behind the outputs, where there is one. -/
theorem overlap_received_beyond :
    (freshContext [outputSlave 0] 0 false true).Fresh 0 ∧
      ∃ ctx' size,configMapGroup (freshContext [outputSlave 0] 0 false true) 0=some (ctx',size) ∧
        size=5 ∧ ¬ReceivedInside ctx'.overlappedMode ctx'.group size := by
  have hmapped : (configMapGroup (freshContext [outputSlave 0] 0 false true) 0).any (fun r =>
      decide (r.2=5 ∧ groupDatagrams r.1.overlappedMode r.1.group=
        some [⟨.lrw,0,4,0,4,false⟩]))=true := by decide +kernel
  refine ⟨freshContext_fresh _ _ (by decide) (by decide) (by decide)
    (by simpa using outputSlave_fresh 0),?_⟩
  obtain ⟨⟨ctx',size⟩,h,hrun⟩ := (Option.any_eq_true _ _).mp hmapped
  obtain ⟨hsize,hds⟩ := of_decide_eq_true hrun
  refine ⟨ctx',size,h,hsize,?_⟩
  intro hall
  obtain ⟨wkc,ds,mem',hsend,hcopies⟩ := hall (fun _ => 0)
  obtain ⟨mem1,-,hsend⟩ := Option.bind_eq_some_iff.mp hsend
  obtain ⟨ds1,hds1,hsend⟩ := Option.bind_eq_some_iff.mp hsend
  cases hsend
  cases hds1.symm.trans hds
  have hlast := (copies_inside_iff _ size).mp hcopies ⟨.lrw,0,4,0,4,false⟩ List.mem_cons_self
    (by decide) 3 (by decide)
  simp only at hsize hlast
  omega

end EtherCATMaster.Mapping
