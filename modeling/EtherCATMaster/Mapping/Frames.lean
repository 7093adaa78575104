import EtherCATMaster.Mapping.Sizes

namespace EtherCATMaster.Mapping

def ethHeadersize : Nat := 14
def ecHeadersize : Nat := 12
def ecElengthsize : Nat := 2
def ecWkcsize : Nat := 2

/-- `EC_BUFSIZE`, of a build with its defaults `EC_MAXECATFRAME`. -/
def ecBufsize : Nat := 1518

/-- `txbuflength` after `ecx_setupdatagram`. -/
def setupDatagram (length : Nat) : Nat := ethHeadersize+ecHeadersize+ecWkcsize+length

/-- `txbuflength` after `ecx_adddatagram`. -/
def addDatagram (txbuflength length : Nat) : Nat :=
  shorten txbuflength+ecHeadersize-ecElengthsize+ecWkcsize+length

/-- The frame of a datagram. The time of the distributed clocks has eight bytes. -/
def Datagram.txbuflength (d : Datagram) : Nat :=
  if d.dc=true then addDatagram (setupDatagram d.length) 8 else setupDatagram d.length

/-- Every frame of a cycle is no longer than its buffer. -/
def FramesFit (overlapped : Bool) (g : Group) : Prop :=
  ∃ ds,groupDatagrams overlapped g=some ds ∧ ∀ d ∈ ds,d.txbuflength ≤ ecBufsize

section First

variable {g : Segmenting}

def Segmenting.FirstShort (g : Segmenting) : Prop :=
  g.iosegment.headD g.segmentmaxsize ≤ ecMaxLrwData-ecFirstDcDatagram

theorem headD_append (xs : List Nat) (x y : Nat) : (xs++[x]).headD y=xs.headD x := by
  cases xs <;> rfl

theorem Segmenting.FirstShort.spill (h : g.FirstShort) (n : Nat) : (g.spill n).2.FirstShort := by
  induction n generalizing g with
  | zero => exact h
  | succ n ih =>
    rw [Segmenting.spill]
    split_ifs
    · apply ih
      rw [Segmenting.FirstShort,Segmenting.full,headD_append]
      exact h
    · exact h

theorem Segmenting.FirstShort.extend (h : g.FirstShort) (hg : g.Bounded) (diff : Nat) :
    (g.extend diff).2.FirstShort := by
  have hmake : (g.make diff).FirstShort := by
    rw [Segmenting.make]
    split_ifs with hclose
    · have hsize := hg.size hclose.2.2
      rw [Segmenting.FirstShort] at h ⊢
      simp only
      rw [headD_append]
      cases hios : g.iosegment with
      | nil =>
        rw [hios,List.headD_nil] at h
        exact hsize.trans h
      | cons first rest =>
        rw [hios,List.headD_cons] at h
        exact h
    · exact h
  exact hmake.spill _

theorem cut_firstShort (h : g.FirstShort) (hg : g.Sound) (pieces : List Nat) :
    (cut g pieces).FirstShort := by
  induction pieces generalizing g with
  | nil => exact h
  | cons diff rest ih =>
    exact ih (h.extend hg.bounded diff) ⟨hg.bounded.extend hg.count diff,g.extend_count diff hg.count⟩

theorem start_firstShort : Segmenting.start.FirstShort := Nat.le_refl _

def Segmenting.FirstFits (g : Segmenting) : Prop :=
  g.iosegment.headD g.segmentsize ≤ ecMaxLrwData-ecFirstDcDatagram

theorem Segmenting.FirstShort.fits (h : g.FirstShort) (hg : g.Bounded)
    (hcount : g.iosegment.length < ecMaxIoSegments) : g.FirstFits := by
  have hsize := hg.size hcount
  rw [Segmenting.FirstShort] at h
  rw [Segmenting.FirstFits]
  cases hios : g.iosegment with
  | nil =>
    rw [hios,List.headD_nil] at h
    exact hsize.trans h
  | cons first rest =>
    rw [hios,List.headD_cons] at h
    exact h

theorem statusCut_firstFits {diffs : List Nat} (h : g.FirstFits) :
    (statusCut g diffs).FirstFits := by
  induction diffs generalizing g with
  | nil => exact h
  | cons d rest ih =>
    apply ih
    rw [Segmenting.FirstFits] at h ⊢
    rw [Segmenting.status]
    split_ifs with hroom hleft
    · simp only
      rw [headD_append]
      exact h
    · exact h
    · simp only
      cases hios : g.iosegment with
      | nil => exact Nat.not_lt.mp hroom
      | cons first rest =>
        rw [hios,List.headD_cons] at h
        exact h

end First

section Stages

variable {ctx : Context} {group : Nat} {p : Stage}

theorem stage_cut (hfresh : ctx.Fresh group) (h : stage ctx group=some p) :
    ∃ pieces,p.seg=cut .start pieces := by
  rw [stage] at h
  by_cases hmode : ctx.overlappedMode=true
  · rw [if_pos hmode,overlapStage] at h
    obtain ⟨io,hio,h⟩ := Option.bind_eq_some_iff.mp h
    obtain ⟨segments,hclose,h⟩ := Option.bind_eq_some_iff.mp h
    cases h
    obtain ⟨-,-,-,⟨diffs,hseg,-⟩,-⟩ := overlapSlaves_spec
      (r := ⟨ctx.group.logstartaddr,ctx.group.logstartaddr,ctx.group.logstartaddr,.start,0,0⟩)
      ctx.group.logstartaddr ⟨Nat.le_refl _,Nat.le_refl _,(max_self _).symm⟩ hfresh.ready hio
    exact ⟨diffs,hseg⟩
  · rw [if_neg hmode] at h
    obtain ⟨mid,hplaced⟩ := mainStage_placed hfresh h
    have hseg := hplaced.seg
    rw [← cut_append] at hseg
    exact ⟨_,hseg⟩

theorem Stage.Sound.first_le (hfresh : ctx.Fresh group) (hp : p.Sound ctx group)
    (h : stage ctx group=some p) : (p.segments group).FirstFits := by
  obtain ⟨pieces,hcut⟩ := stage_cut hfresh h
  have hsound := (cut_sound start_sound pieces).1
  have hshort := cut_firstShort start_firstShort start_sound pieces
  rw [← hcut] at hsound hshort
  exact statusCut_firstFits (hshort.fits hsound.bounded hp.segments.count)

end Stages

section Lengths

theorem layout_lengths {command : Command} {moved : Nat} {segments : List Nat} {logAdr data : Nat}
    {d : Datagram} (h : d ∈ layout command moved segments logAdr data) :
    d.length ∈ segments ∧ d.dc=false := by
  induction segments generalizing logAdr data with
  | nil => cases h
  | cons s rest ih =>
    rcases List.mem_cons.mp h with rfl|h
    · exact ⟨List.mem_cons_self,rfl⟩
    · obtain ⟨hlen,hdc⟩ := ih h
      exact ⟨List.mem_cons_of_mem s hlen,hdc⟩

theorem sendOutputs_lengths {segments : List Nat} {length logAdr data : Nat} {d : Datagram}
    (h : d ∈ sendOutputs segments length logAdr data) :
    (∃ s ∈ segments,d.length ≤ s) ∧ d.dc=false := by
  induction segments generalizing length logAdr data with
  | nil => cases h
  | cons s rest ih =>
    rw [sendOutputs] at h
    have hshort : shorten length ≤ length := Nat.mod_le _ _
    have hshort' : shorten s ≤ s := Nat.mod_le _ _
    obtain ⟨sublength,hsub,hle,hle'⟩ : ∃ sublength,
        (if (length : Int)-shorten s<0 then shorten (length : Int).toNat else shorten s)=sublength ∧
          sublength ≤ length ∧ sublength ≤ s := by
      by_cases hneg : (length : Int)-shorten s<0
      · refine ⟨_,if_pos hneg,by simpa using hshort,?_⟩
        simp only [Int.toNat_natCast]
        omega
      · exact ⟨_,if_neg hneg,by omega,hshort'⟩
    simp only [hsub] at h
    rcases List.mem_cons.mp h with rfl|h
    · exact ⟨⟨s,List.mem_cons_self,hle'⟩,rfl⟩
    · split_ifs at h with hmore
      · have hlen : (length : Int)-(sublength : Int)=((length-sublength : Nat) : Int) := by omega
        rw [hlen] at h
        obtain ⟨⟨x,hx,hd⟩,hdc⟩ := ih h
        exact ⟨⟨x,List.mem_cons_of_mem s hx,hd⟩,hdc⟩
      · cases h

theorem sendOutputs_first (s : Nat) (rest : List Nat) (length logAdr data : Nat) :
    ∃ d ds,sendOutputs (s::rest) length logAdr data=d::ds ∧ d.length ≤ s := by
  have hshort : shorten s ≤ s := Nat.mod_le _ _
  have hshort' : shorten length ≤ length := Nat.mod_le _ _
  rw [sendOutputs]
  refine ⟨_,_,rfl,?_⟩
  simp only
  split_ifs with hneg
  · simp only [Int.toNat_natCast]
    omega
  · exact hshort

def dcRoom : Nat := ecBufsize-addDatagram (setupDatagram 0) 8

/-- Without the time every datagram fits in its frame. With it the first one must be shorter. -/
theorem withDc_fits (hasdc : Bool) {d : Datagram} {ds : List Datagram}
    (hlengths : ∀ x ∈ d::ds,x.length ≤ ecMaxLrwData ∧ x.dc=false) :
    (∀ x ∈ withDc hasdc (d::ds),x.txbuflength ≤ ecBufsize) ↔
      (hasdc=true → d.length ≤ dcRoom) := by
  have hmax : ecMaxLrwData=1486 := rfl
  have hbuf : ecBufsize=1518 := rfl
  have hroom : dcRoom=1470 := by decide
  have hset : ∀ n,setupDatagram n=28+n := fun _ => rfl
  have hplain : ∀ x ∈ d::ds,setupDatagram x.length ≤ ecBufsize := by
    intro x hx
    have := (hlengths x hx).1
    rw [hset]
    omega
  have hlong := (hlengths d List.mem_cons_self).1
  have hadd : addDatagram (setupDatagram d.length) 8=48+d.length := by
    rw [hset,addDatagram,shorten_eq (by omega)]
    simp only [ecHeadersize,ecElengthsize,ecWkcsize]
    omega
  rw [withDc]
  constructor
  · intro hall hdc
    have hfirst := hall _ List.mem_cons_self
    rw [Datagram.txbuflength,if_pos hdc,hadd] at hfirst
    omega
  · intro hfirst x hx
    rcases List.mem_cons.mp hx with rfl|hx
    · rw [Datagram.txbuflength]
      by_cases hdc : hasdc=true
      · have := hfirst hdc
        rw [if_pos hdc,hadd]
        omega
      · rw [if_neg hdc]
        exact hplain d List.mem_cons_self
    · have hdc := (hlengths x (List.mem_cons_of_mem d hx)).2
      rw [Datagram.txbuflength,hdc,if_neg Bool.false_ne_true]
      exact hplain x (List.mem_cons_of_mem d hx)

end Lengths

section Mapped

variable {ctx ctx' : Context} {group size start count : Nat} {p : Stage} {g : Group}

/-- The first datagram that is sent. -/
structure Begins (ds : List Datagram) (n : Nat) : Prop where
  first : ∃ d rest,ds=d::rest ∧ d.length=n
  lengths : ∀ x ∈ ds,x.length ≤ ecMaxLrwData ∧ x.dc=false

theorem layout_begins (command : Command) (moved logAdr data : Nat) (length : Int) {s : Nat}
    {rest : List Nat} (hbounded : ∀ x ∈ s::rest,x ≤ ecMaxLrwData) :
    Begins (layout command moved ((s::rest).take (sentCount (s::rest) length)) logAdr data) s := by
  obtain ⟨n,hn⟩ : ∃ n,sentCount (s::rest) length=n+1 := by
    rw [sentCount]
    split_ifs
    · exact ⟨_,rfl⟩
    · exact ⟨0,rfl⟩
  rw [hn,List.take_succ_cons]
  refine ⟨⟨_,_,rfl,rfl⟩,?_⟩
  intro x hx
  obtain ⟨hlen,hdc⟩ := layout_lengths hx
  refine ⟨hbounded _ ?_,hdc⟩
  rcases List.mem_cons.mp hlen with heq|hlen
  · rw [heq]
    exact List.mem_cons_self
  · exact List.mem_cons_of_mem s (List.mem_of_mem_take hlen)

theorem Begins.fits {ds : List Datagram} {n : Nat} (h : Begins ds n) (hasdc : Bool) :
    (∀ x ∈ withDc hasdc ds,x.txbuflength ≤ ecBufsize) ↔ (hasdc=true → n ≤ dcRoom) := by
  obtain ⟨d,rest,rfl,rfl⟩ := h.first
  exact withDc_fits hasdc h.lengths

theorem Begins.append {xs ys : List Datagram} {n : Nat} (h : Begins xs n)
    (hys : ∀ x ∈ ys,x.length ≤ ecMaxLrwData ∧ x.dc=false) : Begins (xs++ys) n := by
  obtain ⟨d,rest,rfl,hd⟩ := h.first
  refine ⟨⟨d,rest++ys,rfl,hd⟩,?_⟩
  intro x hx
  rcases List.mem_append.mp hx with hx|hx
  · exact h.lengths x hx
  · exact hys x hx

/-- The frames of a mapped group. -/
theorem Stage.Entry.fits_iff (hp : p.Sound ctx group) (hfirst : (p.segments group).FirstFits)
    (h : p.Entry ctx.overlappedMode group start count g) :
    FramesFit ctx.overlappedMode g ↔ ¬(g.hasdc=true ∧ g.blockLRW≠0 ∧ g.ibytes≠0 ∧
      dcRoom<g.iosegment.getD g.isegment 0-g.ioffset) := by
  have hbounded := h.bounded hp
  have hroom : ecMaxLrwData-ecFirstDcDatagram ≤ dcRoom := by decide
  -- the first segment of all
  obtain ⟨s,rest,hsegments,hs⟩ : ∃ s rest,g.iosegment=s::rest ∧ s ≤ dcRoom := by
    rw [h.iosegment]
    rw [Segmenting.FirstFits] at hfirst
    cases hios : (p.segments group).iosegment with
    | nil =>
      rw [hios,List.headD_nil] at hfirst
      exact ⟨_,_,rfl,hfirst.trans hroom⟩
    | cons first rest =>
      rw [hios,List.headD_cons] at hfirst
      exact ⟨first,rest++_,rfl,hfirst.trans hroom⟩
  rw [FramesFit]
  by_cases hnone : frameLength ctx.overlappedMode g=0
  · have hzero : g.ibytes=0 := by
      rw [frameLength] at hnone
      split_ifs at hnone <;> omega
    refine ⟨fun _ hc => hc.2.2.1 hzero,fun _ => ⟨[],?_,fun _ hx => absurd hx List.not_mem_nil⟩⟩
    rw [groupDatagrams,if_pos hnone]
  · by_cases hblock : g.blockLRW=0
    · have hbegins := layout_begins .lrw
        (if ctx.overlappedMode=true ∧ g.obytes≠0 then g.obytes else 0) start 0
        (frameLength ctx.overlappedMode g) (by rw [← hsegments]; exact hbounded)
      rw [← hsegments] at hbegins
      refine ⟨fun _ hc => hc.2.1 hblock,fun _ => ⟨_,h.lrw hbounded hnone hblock,?_⟩⟩
      exact (hbegins.fits g.hasdc).mpr (fun _ => hs)
    · have hwrites : ∀ x ∈ (if g.obytes≠0 then sendOutputs g.iosegment g.obytes start 0 else []),
          x.length ≤ ecMaxLrwData ∧ x.dc=false := by
        intro x hx
        split_ifs at hx
        · obtain ⟨⟨y,hy,hle⟩,hdc⟩ := sendOutputs_lengths hx
          exact ⟨hle.trans (hbounded y hy),hdc⟩
        · cases hx
      have hsent := h.lrd_lwr hnone hblock
      by_cases hread : g.ibytes≠0
      · -- the inputs are sent first
        obtain ⟨before,first,rest',heq,hlen,-,hoffset,hreads⟩ := h.read_eq hp
        have hget : g.iosegment.getD g.isegment 0=first := by
          rw [heq,← hlen,List.getD_eq_getElem?_getD,List.getElem?_append_right (Nat.le_refl _),
            Nat.sub_self]
          rfl
        have hbegins : Begins (layout .lrd 0 ((readSegments g).take
            (sentCount (readSegments g) g.ibytes)) (start+g.obytes) g.obytes)
            (first-g.ioffset) := by
          rw [hreads]
          apply layout_begins
          intro x hx
          rcases List.mem_cons.mp hx with rfl|hx
          · exact (Nat.sub_le _ _).trans (hbounded first (by rw [heq]; simp))
          · exact hbounded x (by rw [heq]; simp [hx])
        rw [if_pos hread] at hsent
        rw [hget]
        have hfits := (hbegins.append hwrites).fits g.hasdc
        constructor
        · rintro ⟨ds,hds,hall⟩ ⟨hdc,-,-,hlong⟩
          rw [hsent] at hds
          cases hds
          have := hfits.mp hall hdc
          omega
        · intro hnot
          refine ⟨_,hsent,hfits.mpr ?_⟩
          intro hdc
          by_contra hlong
          exact hnot ⟨hdc,hblock,hread,by omega⟩
      · rw [if_neg hread,List.nil_append] at hsent
        refine ⟨fun _ hc => hread hc.2.2.1,fun _ => ⟨_,hsent,?_⟩⟩
        by_cases hwrite : g.obytes≠0
        · obtain ⟨d,ds,hds,hd⟩ := sendOutputs_first s rest g.obytes start 0
          rw [if_pos hwrite,hsegments,hds] at hwrites ⊢
          exact (withDc_fits g.hasdc hwrites).mpr (fun _ => hd.trans hs)
        · rw [if_neg hwrite]
          intro x hx
          cases hx

/-- The frames of a mapped group fit in their buffers, except where LRW is blocked and the first
datagram with inputs leaves no room for the time of the distributed clocks. -/
theorem frames_fit_iff (hfresh : ctx.Fresh group)
    (h : configMapGroup ctx group=some (ctx',size)) (hasdc : Bool) (blockLRW : Nat) :
    FramesFit ctx'.overlappedMode { ctx'.group with hasdc := hasdc, blockLRW := blockLRW } ↔
      ¬(hasdc=true ∧ blockLRW≠0 ∧ ctx'.group.ibytes≠0 ∧
        dcRoom<ctx'.group.iosegment.getD ctx'.group.isegment 0-ctx'.group.ioffset) := by
  obtain ⟨p,hstage,hp,hleaves⟩ := configMapGroup_stage hfresh h
  have hentry := hleaves.entry_spec hfresh
  rw [hleaves.mode]
  exact Stage.Entry.fits_iff hp (hp.first_le hfresh hstage)
    ⟨hentry.obytes,hentry.ibytes,hentry.outputs,hentry.inputs,hentry.mbxstatus,hentry.length,
      hentry.iosegment,hentry.nsegments,hentry.isegment,hentry.ioffset,hentry.logstartaddr⟩

theorem mailbox_frames_fit :
    ∃ ctx' size,configMapGroup (freshContext [mailboxSlave 0] 0 false false) 0=some (ctx',size) ∧
      FramesFit ctx'.overlappedMode { ctx'.group with hasdc := true, blockLRW := 1 } := by
  have hfresh : (freshContext [mailboxSlave 0] 0 false false).Fresh 0 :=
    freshContext_fresh _ _ (by decide) (by decide) (by decide) (by simpa using mailboxSlave_fresh 0)
  have hmapped : (configMapGroup (freshContext [mailboxSlave 0] 0 false false) 0).any (fun r =>
      decide (¬dcRoom < r.1.group.iosegment.getD r.1.group.isegment 0-r.1.group.ioffset))=true := by
    decide +kernel
  obtain ⟨⟨ctx',size⟩,h,hrun⟩ := (Option.any_eq_true _ _).mp hmapped
  exact ⟨ctx',size,h,(frames_fit_iff hfresh h true 1).mpr
    (fun hc => of_decide_eq_true hrun hc.2.2.2)⟩

/-- A slave with one more byte of outputs than the first segment has, and 1480 bytes of inputs. -/
def longSlave : Slave :=
  { mailboxSlave 0 with
    mbxL := 0
    obits := 11736
    ibits := 11840
    sm := fun i =>
      [Sm.mk 0x1000 128 1,Sm.mk 0x1080 128 2,Sm.mk 0x1100 1467 3,Sm.mk 0x2000 1480 4].getD i
        ⟨0,0,0⟩
    blockLRW := true }

theorem longSlave_fresh : longSlave.Fresh := ⟨rfl,rfl,rfl,fun _ => rfl,rfl,rfl,rfl⟩

/-- The inputs begin in the second segment, so the first datagram is one with 1480 bytes. With the
time its frame is ten bytes too long. -/
theorem long_read_overruns :
    (freshContext [longSlave] 0 false false).Fresh 0 ∧
      ∃ ctx' size,configMapGroup (freshContext [longSlave] 0 false false) 0=some (ctx',size) ∧
        ctx'.group.blockLRW=1 ∧
        ∃ ds,groupDatagrams ctx'.overlappedMode { ctx'.group with hasdc := true }=some ds ∧
          ∃ d ∈ ds,d.txbuflength=1528 := by
  have hmapped : (configMapGroup (freshContext [longSlave] 0 false false) 0).any (fun r =>
      decide (r.1.group.blockLRW=1 ∧ (groupDatagrams r.1.overlappedMode
        { r.1.group with hasdc := true }).any (fun ds =>
          ds.any (fun d => decide (d.txbuflength=1528)))=true))=true := by decide +kernel
  refine ⟨freshContext_fresh _ _ (by decide) (by decide) (by decide)
    (by simpa using longSlave_fresh),?_⟩
  obtain ⟨⟨ctx',size⟩,h,hrun⟩ := (Option.any_eq_true _ _).mp hmapped
  obtain ⟨hblock,hsent⟩ := of_decide_eq_true hrun
  obtain ⟨ds,hds,hany⟩ := (Option.any_eq_true _ _).mp hsent
  obtain ⟨d,hd,hlen⟩ := List.any_eq_true.mp hany
  exact ⟨ctx',size,h,hblock,ds,hds,d,hd,of_decide_eq_true hlen⟩

end Mapped

end EtherCATMaster.Mapping
