import EtherCATMaster.Mapping.Cycle
import EtherCATMaster.Mapping.Tables
import Mathlib.Data.Option.Basic

namespace EtherCATMaster.Mapping

/-- The sizes that a mapped group has, and the size that was returned for it. What is cleared and
what is sent lies within. -/
structure SizesAgree (ctx : Context) (size : Nat) : Prop where
  status : ctx.group.mbxstatuslength=
    ctx.slavelist.countP (fun s => s.mbxstatus.offset.isSome)
  segments : (ctx.group.iosegment.take ctx.group.nsegments).sum=
    frameLength ctx.overlappedMode ctx.group
  returned : size=ctx.group.obytes+ctx.group.ibytes+ctx.group.mbxstatuslength
  cleared : ∀ mem,∃ mem',clearMbxStatus ctx.group mem=some mem' ∧ ∀ a,size ≤ a → mem' a=mem a
  sent : ∃ ds,groupDatagrams ctx.overlappedMode ctx.group=some ds ∧
    ∀ d ∈ ds,d.command≠.lrd → d.data+d.length ≤ size

/-- When the status bytes come to the last entry of `IOsegment`, there is room for them. -/
def StatusRoom (ctx : Context) (group : Nat) : Prop :=
  StatusFits (cut .start (ctx.pieces group)) (ctx.statusPieces group).sum

instance StatusRoom.decidable (ctx : Context) (group : Nat) : Decidable (StatusRoom ctx group) :=
  inferInstanceAs (Decidable (StatusFits _ _))

section Sent

variable {ctx : Context} {p : Stage} {group start count : Nat} {g : Group}

theorem Stage.Entry.cleared {overlapped : Bool} (h : p.Entry overlapped group start count g)
    (mem : IoMemory) : ∃ mem',clearMbxStatus g mem=some mem' ∧
      ∀ a,g.obytes+g.ibytes+g.mbxstatuslength ≤ a → mem' a=mem a := by
  by_cases hlen : g.mbxstatuslength=0
  · refine ⟨mem,?_,fun _ _ => rfl⟩
    rw [clearMbxStatus,if_neg (fun hc => hc.2 hlen)]
  · refine ⟨writeBytes mem (p.obytes+p.ibytes) (List.replicate g.mbxstatuslength 0),?_,?_⟩
    · rw [clearMbxStatus,if_pos ⟨by rw [h.mbxstatus]; exact Pointer.noConfusion,hlen⟩,h.mbxstatus]
      rfl
    · intro a ha
      rw [h.obytes,h.ibytes] at ha
      rw [writeBytes,if_neg]
      rw [List.length_replicate]
      omega

theorem Stage.Entry.sent (hp : p.Sound ctx group)
    (h : p.Entry ctx.overlappedMode group start count g)
    (hsum : g.iosegment.sum ≤ g.obytes+g.ibytes+g.mbxstatuslength) :
    ∃ ds,groupDatagrams ctx.overlappedMode g=some ds ∧
      ∀ d ∈ ds,d.command≠.lrd → d.data+d.length ≤ g.obytes+g.ibytes+g.mbxstatuslength := by
  by_cases hnone : frameLength ctx.overlappedMode g=0
  · refine ⟨[],?_,?_⟩
    · rw [groupDatagrams,if_pos hnone]
    · intro d hd
      cases hd
  · by_cases hblock : g.blockLRW=0
    · refine ⟨_,h.lrw (h.bounded hp) hnone hblock,?_⟩
      intro d hd _
      obtain ⟨d',hd',-,hdata,hlen,-⟩ := withDc_mem hd
      obtain ⟨-,-,hhigh,-⟩ := layout_mem hd'
      have htake := take_sum_le g.iosegment
        (sentCount g.iosegment (frameLength ctx.overlappedMode g))
      omega
    · refine ⟨_,h.lrd_lwr hnone hblock,?_⟩
      intro d hd hcommand
      obtain ⟨d',hd',hcommand',hdata,hlen,-⟩ := withDc_mem hd
      rcases List.mem_append.mp hd' with hd'|hd'
      · -- a read takes nothing from the IO map
        split_ifs at hd'
        · exact absurd (hcommand'.trans (layout_mem hd').1) hcommand
        · cases hd'
      · split_ifs at hd'
        · obtain ⟨-,hhigh⟩ := sendOutputs_mem hd'
          omega
        · cases hd'

end Sent

variable {ctx ctx' : Context} {group size : Nat}

/-- The sizes of a mapped group agree exactly if its addresses begin at 0, or outputs and inputs
overlap, and its status bytes find room. -/
theorem sizes_agree_iff (hfresh : ctx.Fresh group)
    (h : configMapGroup ctx group=some (ctx',size)) :
    SizesAgree ctx' size ↔ (ctx.overlappedMode=true ∨ group=0) ∧ StatusRoom ctx group := by
  obtain ⟨p,hstage,hp,hleaves⟩ := configMapGroup_stage hfresh h
  have hentry := hleaves.entry_spec hfresh
  have hcount : ctx'.slavelist.countP (fun s => s.mbxstatus.offset.isSome)=
      statusCount group p.slavelist := by
    rw [hleaves.slavelist]
    exact mapStatus_mapped _ 1 _ (hp.unmapped hfresh)
  have hlen : ctx'.group.mbxstatuslength=ctx'.slavelist.countP (fun s => s.mbxstatus.offset.isSome) ↔
      ctx.overlappedMode=true ∨ group=0 := by
    rw [hcount,hentry.length,hfresh.start]
    by_cases hmode : ctx.overlappedMode=true
    · rw [if_pos hmode]
      exact ⟨fun _ => .inl hmode,fun _ => Nat.zero_add _⟩
    · rw [if_neg hmode]
      have hpos : 0 < 2^ecLogGroupOffset := Nat.two_pow_pos _
      constructor
      · intro hzero
        have hmul : group*2^ecLogGroupOffset=0 := by omega
        rcases Nat.mul_eq_zero.mp hmul with hg|hg
        · exact .inr hg
        · omega
      · rintro (hmode'|rfl)
        · exact absurd hmode' hmode
        · omega
  have hsegments : (ctx'.group.iosegment.take ctx'.group.nsegments).sum=
      (p.segments group).total := by
    rw [hentry.nsegments,List.take_length,hentry.sum_eq]
  have hframe : frameLength ctx'.overlappedMode ctx'.group=
      p.seg.total+ctx'.group.mbxstatuslength := by
    rw [hleaves.mode,hentry.frame_eq,hp.total]
  have hfits : (p.segments group).total=p.seg.total+statusCount group p.slavelist ↔
      StatusFits p.seg (statusCount group p.slavelist) := by
    have hlt := hp.count_lt hfresh
    have hmax : ecMaxSlave ≤ ecMaxLrwData-ecFirstDcDatagram := by decide
    have hiff := statusCut_total_iff hp.segments (statusDiffs_le group p.slavelist)
      (by rw [statusDiffs_sum]; omega)
    rw [statusDiffs_sum] at hiff
    exact hiff
  have hroom : StatusRoom ctx group ↔ StatusFits p.seg (statusCount group p.slavelist) := by
    rw [StatusRoom,Context.statusPieces,← staged_pieces (stage_staged hfresh hstage),statusDiffs_sum,
      ← stage_seg hfresh hstage]
  constructor
  · intro hagree
    have hmode := hlen.mp hagree.status
    refine ⟨hmode,hroom.mpr (hfits.mp ?_)⟩
    rw [← hsegments,hagree.segments,hframe,hagree.status,hcount]
  · rintro ⟨hmode,hfit⟩
    have hstatus := hlen.mpr hmode
    have hsum := hfits.mpr (hroom.mp hfit)
    have hreturned : size=ctx'.group.obytes+ctx'.group.ibytes+ctx'.group.mbxstatuslength := by
      rw [hleaves.entry]
      exact hleaves.returned
    have hspan : p.span ctx.overlappedMode ≤ p.obytes+p.ibytes := by
      rw [Stage.span]
      split_ifs <;> omega
    have hle : ctx'.group.iosegment.sum ≤
        ctx'.group.obytes+ctx'.group.ibytes+ctx'.group.mbxstatuslength := by
      rw [hentry.sum_eq,hsum,hp.total,hstatus,hcount,hentry.obytes,hentry.ibytes]
      omega
    refine ⟨hstatus,?_,hreturned,?_,?_⟩
    · rw [hsegments,hframe,hsum,hstatus,hcount]
    · rw [hreturned]
      exact hentry.cleared
    · rw [hreturned,hleaves.mode]
      exact hentry.sent hp hle

theorem mailbox_sizes_agree :
    ∃ ctx' size,configMapGroup (freshContext [mailboxSlave 0] 0 false false) 0=some (ctx',size) ∧
      SizesAgree ctx' size := by
  have hfresh : (freshContext [mailboxSlave 0] 0 false false).Fresh 0 :=
    freshContext_fresh _ _ (by decide) (by decide) (by decide) (by simpa using mailboxSlave_fresh 0)
  have hmapped : (configMapGroup (freshContext [mailboxSlave 0] 0 false false) 0).isSome=true := by
    decide +kernel
  obtain ⟨⟨ctx',size⟩,h⟩ := Option.isSome_iff_exists.mp hmapped
  exact ⟨ctx',size,h,(sizes_agree_iff hfresh h).mpr ⟨.inr rfl,by decide +kernel⟩⟩

/-- In group 1 the logical addresses begin at 65536, and so much is added to the length. -/
theorem group_one_disagrees :
    (freshContext [mailboxSlave 1] 1 false false).Fresh 1 ∧
      ∃ ctx' size,configMapGroup (freshContext [mailboxSlave 1] 1 false false) 1=some (ctx',size) ∧
        ctx'.group.mbxstatuslength=65537 ∧ ¬SizesAgree ctx' size := by
  have hmapped : (configMapGroup (freshContext [mailboxSlave 1] 1 false false) 1).any (fun r =>
      decide (r.1.group.mbxstatuslength=65537 ∧
        r.1.slavelist.countP (fun s => s.mbxstatus.offset.isSome)=1))=true := by decide +kernel
  refine ⟨freshContext_fresh _ _ (by decide) (by decide) (by decide)
    (by simpa using mailboxSlave_fresh 1),?_⟩
  obtain ⟨⟨ctx',size⟩,h,hlen⟩ := (Option.any_eq_true _ _).mp hmapped
  obtain ⟨hlen,hcount⟩ := of_decide_eq_true hlen
  refine ⟨ctx',size,h,hlen,?_⟩
  intro hagree
  have hstatus := hagree.status
  rw [hlen,hcount] at hstatus
  exact absurd hstatus (by decide)

end EtherCATMaster.Mapping
