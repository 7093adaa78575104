import EtherCATMaster.Mapping.Frames
import EtherCATMaster.Mapping.Groups

namespace EtherCATMaster.Mapping

def cameBack (frames : List (Datagram × Option Reply)) : List (Datagram × Reply) :=
  frames.filterMap fun f => (f.2.filter fun reply => reply.wkc>ecNoFrame).map (f.1,·)

theorem cameBack_cons (f : Datagram × Option Reply) (rest : List (Datagram × Option Reply)) :
    cameBack (f::rest)=((f.2.filter fun reply => reply.wkc>ecNoFrame).map (f.1,·)).toList++
      cameBack rest := by
  rw [cameBack,List.filterMap_cons]
  cases (f.2.filter fun reply => reply.wkc>ecNoFrame).map (f.1,·) <;> rfl

theorem cameBack_mem {frames : List (Datagram × Option Reply)} {f : Datagram × Reply}
    (h : f ∈ cameBack frames) : (f.1,some f.2) ∈ frames ∧ f.2.wkc>ecNoFrame := by
  obtain ⟨⟨d,reply⟩,hmem,hf⟩ := List.mem_filterMap.mp h
  obtain ⟨reply',hfilter,rfl⟩ := Option.map_eq_some_iff.mp hf
  obtain ⟨rfl,hback⟩ := Option.filter_eq_some_iff.mp hfilter
  exact ⟨hmem,of_decide_eq_true hback⟩

theorem cameBack_sublist (frames : List (Datagram × Option Reply)) :
    ((cameBack frames).map Prod.fst).Sublist (frames.map Prod.fst) := by
  induction frames with
  | nil => exact .slnil
  | cons f rest ih =>
    rw [cameBack_cons,List.map_append,List.map_cons]
    cases (f.2.filter fun reply => reply.wkc>ecNoFrame) with
    | none => exact ih.cons f.1
    | some reply => exact ih.cons_cons f.1

theorem receiveProcessdata_back (frames : List (Datagram × Option Reply)) (r : ReceiveRun) :
    receiveProcessdata frames r=
      receiveProcessdata ((cameBack frames).map fun f => (f.1,some f.2)) r := by
  induction frames generalizing r with
  | nil => rfl
  | cons f rest ih =>
    obtain ⟨d,reply⟩ := f
    rw [receiveProcessdata,ih,cameBack_cons]
    cases reply with
    | none => rfl
    | some reply =>
      by_cases hback : reply.wkc>ecNoFrame
      · have hsome : (some reply).filter (fun reply => decide (reply.wkc>ecNoFrame))=some reply := by
          rw [Option.filter_some,decide_eq_true hback]
          rfl
        simp only [hsome]
        rfl
      · have hnone : (some reply).filter (fun reply => decide (reply.wkc>ecNoFrame))=none := by
          rw [Option.filter_some,decide_eq_false hback]
          rfl
        have hsame : receiveFrame r d (some reply)=r := by
          rw [receiveFrame,if_neg hback]
        simp only [hnone,hsame]
        rfl

theorem cameBack_firstDc {frames : List (Datagram × Option Reply)}
    (hdc : ∀ f ∈ frames.tail,f.1.dc=false) : FirstDc (cameBack frames) := by
  intro f hf
  cases frames with
  | nil => cases hf
  | cons first rest =>
    rw [cameBack_cons] at hf
    have hrest : f ∈ cameBack rest := by
      cases hfirst : (first.2.filter fun reply => reply.wkc>ecNoFrame).map (first.1,·) with
      | none =>
        rw [hfirst] at hf
        exact List.mem_of_mem_tail hf
      | some x =>
        rw [hfirst] at hf
        exact hf
    exact hdc (f.1,some f.2) (cameBack_mem hrest).1

theorem received_lost {frames : List (Datagram × Option Reply)}
    (hdc : ∀ f ∈ frames.tail,f.1.dc=false) :
    (receiveProcessdata frames receiveStart).result=ownCounter (cameBack frames) := by
  rw [receiveProcessdata_back]
  exact received_wkc (cameBack_firstDc hdc) (fun f hf => (cameBack_mem hf).2) (fun _ => 0)

theorem receiveFrame_time (r : ReceiveRun) (d : Datagram) (reply : Option Reply) :
    (receiveFrame r d reply).dcTime=
      if d.dc=true then
        ((reply.filter fun reply => reply.wkc>ecNoFrame).map Reply.dcTime).or r.dcTime
      else r.dcTime := by
  cases reply with
  | none => split_ifs <;> rfl
  | some reply =>
    rw [Option.filter_some,receiveFrame]
    by_cases hback : reply.wkc>ecNoFrame
    · rw [if_pos hback,decide_eq_true hback]
      by_cases hdc : d.dc=true
      · rw [if_pos hdc,if_pos hdc]
        rfl
      · rw [if_neg hdc,if_neg hdc]
    · rw [if_neg hback,decide_eq_false hback,if_neg Bool.false_ne_true]
      split_ifs <;> rfl

theorem receiveProcessdata_time {frames : List (Datagram × Option Reply)}
    (hdc : ∀ f ∈ frames,f.1.dc=false) (r : ReceiveRun) :
    (receiveProcessdata frames r).dcTime=r.dcTime := by
  induction frames generalizing r with
  | nil => rfl
  | cons f rest ih =>
    obtain ⟨hf,hrest⟩ := List.forall_mem_cons.mp hdc
    rw [receiveProcessdata,ih hrest,receiveFrame_time,hf,if_neg Bool.false_ne_true]

theorem received_time (d : Datagram) (reply : Option Reply)
    {rest : List (Datagram × Option Reply)} (hdc : ∀ f ∈ rest,f.1.dc=false) :
    (receiveProcessdata ((d,reply)::rest) receiveStart).dcTime=
      if d.dc=true then (reply.filter fun reply => reply.wkc>ecNoFrame).map Reply.dcTime
      else none := by
  rw [receiveProcessdata,receiveProcessdata_time hdc,receiveFrame_time]
  exact if_congr Iff.rfl (Option.or_none) rfl

theorem received_lost_iomap {frames : List (Datagram × Option Reply)}
    (hapart : Apart (frames.map Prod.fst)) (mem : IoMemory) :
    Refreshed (cameBack frames) (copied mem (receiveProcessdata frames receiveStart).copies) ∧
      ∀ x,(∀ f ∈ cameBack frames,f.1.command≠.lwr → x < f.1.dest ∨ f.1.dest+f.1.length ≤ x) →
        copied mem (receiveProcessdata frames receiveStart).copies x=mem x := by
  have hback : ∀ f ∈ cameBack frames,f.2.wkc>ecNoFrame := fun f hf => (cameBack_mem hf).2
  rw [receiveProcessdata_back,receiveProcessdata_copies]
  refine ⟨received_refreshed (hapart.sublist (cameBack_sublist frames)) hback mem,?_⟩
  intro x hx
  apply copied_other
  intro c hc
  obtain ⟨f',hf',hcopy⟩ := List.mem_filterMap.mp hc
  obtain ⟨f,hf,rfl⟩ := List.mem_map.mp hf'
  obtain ⟨hread,hdest,hlen⟩ := copyOf_dest hcopy
  rw [hdest,hlen]
  exact hx f hf hread

section Mapped

variable {ctx ctx' : Context} {group size start count : Nat} {p : Stage} {g : Group}

theorem withDc_short (hasdc : Bool) {ds : List Datagram} (h : ∀ d ∈ ds,d.length ≤ ecMaxLrwData) :
    ∀ d ∈ withDc hasdc ds,d.length ≤ ecMaxLrwData := by
  cases ds with
  | nil => exact h
  | cons d rest => exact List.forall_mem_cons.mpr (List.forall_mem_cons.mp h)

theorem Stage.Entry.short (hp : p.Sound ctx group)
    (h : p.Entry ctx.overlappedMode group start count g) :
    ∃ ds,groupDatagrams ctx.overlappedMode g=some ds ∧ ∀ d ∈ ds,d.length ≤ ecMaxLrwData := by
  have hbounded := h.bounded hp
  by_cases hnone : frameLength ctx.overlappedMode g=0
  · exact ⟨[],by rw [groupDatagrams,if_pos hnone],fun d hd => absurd hd List.not_mem_nil⟩
  · by_cases hblock : g.blockLRW=0
    · refine ⟨_,h.lrw hbounded hnone hblock,withDc_short _ ?_⟩
      intro d hd
      exact hbounded _ (List.mem_of_mem_take (layout_lengths hd).1)
    · refine ⟨_,h.lrd_lwr hnone hblock,withDc_short _ ?_⟩
      intro d hd
      rcases List.mem_append.mp hd with hd|hd
      · split_ifs at hd
        · obtain ⟨before,first,rest,heq,-,-,-,hreads⟩ := h.read_eq hp
          have hmem := List.mem_of_mem_take (layout_lengths hd).1
          rw [hreads] at hmem
          rw [heq] at hbounded
          rcases List.mem_cons.mp hmem with hlen|hlen
          · rw [hlen]
            exact (Nat.sub_le _ _).trans (hbounded first (by simp))
          · exact hbounded _ (by simp [hlen])
        · cases hd
      · split_ifs at hd
        · obtain ⟨⟨s,hs,hle⟩,-⟩ := sendOutputs_lengths hd
          exact hle.trans (hbounded s hs)
        · cases hd

theorem mapped_sends (hfresh : ctx.Fresh group) (h : configMapGroup ctx group=some (ctx',size))
    (hasdc : Bool) (blockLRW : Nat) (mem : IoMemory) :
    ∃ wkc ds mem',sendProcessdata ctx'.overlappedMode
        { ctx'.group with hasdc := hasdc, blockLRW := blockLRW } mem=some (wkc,ds,mem') ∧
      (∀ d ∈ ds,d.length ≤ ecMaxLrwData) ∧ Apart ds ∧ ∀ d ∈ ds.tail,d.dc=false := by
  obtain ⟨p,hstage,hp,hleaves⟩ := configMapGroup_stage hfresh h
  have hentry := hleaves.entry_spec hfresh
  have hentry' : p.Entry ctx.overlappedMode group ctx.group.logstartaddr
      (statusCount group p.slavelist) { ctx'.group with hasdc := hasdc, blockLRW := blockLRW } :=
    ⟨hentry.obytes,hentry.ibytes,hentry.outputs,hentry.inputs,hentry.mbxstatus,hentry.length,
      hentry.iosegment,hentry.nsegments,hentry.isegment,hentry.ioffset,hentry.logstartaddr⟩
  obtain ⟨ds,hds,hshort⟩ := hentry'.short hp
  obtain ⟨mem',hsends⟩ := hentry'.sends hds mem
  rw [hleaves.mode]
  exact ⟨_,ds,mem',hsends,hshort,groupDatagrams_shape hds⟩

end Mapped

end EtherCATMaster.Mapping
