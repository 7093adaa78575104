import EtherCATMaster.Mapping.Network
import Mathlib.Data.List.Nodup

namespace EtherCATMaster.Mapping

/-- The FMMU that was used last. With a mapped mailbox status it is the one for it. -/
def Slave.statusFmmu (s : Slave) : Fmmu := s.fmmu (s.fmmuUnused-1)

/-- Where the status byte of a slave is in the IO map after a cycle, seen from the slave and from the
group. Slaves without one have no pointer. -/
structure StatusLands (ctx : Context) : Prop where
  landed : ∀ reads mem,∃ mem',completeCycle ctx.overlappedMode ctx.group reads mem=some mem' ∧
    ∀ i s a b,ctx.slavelist[i]?=some s → s.mbxstatus=.ioMap a →
      reads s.statusFmmu.logStart=some b → mem' a=b ∧
        ∃ pos base,ctx.group.mbxstatuslookup[pos]?=some (i+1) ∧
          ctx.group.mbxstatus=.ioMap base ∧ mem' (base+pos)=b
  null : ∀ s ∈ ctx.slavelist,s.mbxstatus.offset=none → s.mbxstatus=.null 0

section Lookup

variable {group : Nat}

/-- The numbers of the slaves with status bytes, from slave `no` on. -/
def statusNumbers (group : Nat) : Nat → List Slave → List Nat
  | _,[] => []
  | no,s::rest =>
      if s.TakesStatus group then no::statusNumbers group (no+1) rest
      else statusNumbers group (no+1) rest

theorem statusNumbers_ge (no : Nat) (slaves : List Slave) :
    ∀ n ∈ statusNumbers group no slaves,no ≤ n := by
  induction slaves generalizing no with
  | nil => exact fun n hn => absurd hn List.not_mem_nil
  | cons s rest ih =>
    intro n hn
    rw [statusNumbers] at hn
    split_ifs at hn
    · rcases List.mem_cons.mp hn with rfl|hn
      · exact Nat.le_refl _
      · have := ih (no+1) n hn
        omega
    · have := ih (no+1) n hn
      omega

theorem statusNumbers_nodup (group no : Nat) (slaves : List Slave) :
    (statusNumbers group no slaves).Nodup := by
  induction slaves generalizing no with
  | nil => exact List.nodup_nil
  | cons s rest ih =>
    rw [statusNumbers]
    split_ifs
    · apply List.nodup_cons.mpr
      refine ⟨?_,ih (no+1)⟩
      intro hmem
      have := statusNumbers_ge (no+1) rest no hmem
      omega
    · exact ih (no+1)

theorem statusNumbers_get (no : Nat) {i : Nat} {slaves : List Slave} {s : Slave}
    (hs : slaves[i]?=some s) (htakes : s.TakesStatus group) :
    (statusNumbers group no slaves)[statusCount group (slaves.take i)]?=some (no+i) := by
  induction slaves generalizing no i with
  | nil => cases hs
  | cons first rest ih =>
    cases i with
    | zero =>
      cases hs
      rw [statusNumbers,if_pos htakes]
      rfl
    | succ i =>
      have hnext := ih (no+1) (i := i) hs
      rw [List.take_succ_cons,statusCount,statusNumbers]
      by_cases hfirst : first.TakesStatus group
      · rw [if_pos hfirst,List.countP_cons_of_pos (by exact decide_eq_true hfirst),
          List.getElem?_cons_succ]
        rw [statusCount] at hnext
        rw [hnext]
        congr 1
        omega
      · rw [if_neg hfirst,List.countP_cons_of_neg (by simpa using hfirst)]
        rw [statusCount] at hnext
        rw [hnext]
        congr 1
        omega

theorem mapStatus_lookup (moved no : Nat) (slaves : List Slave) (r : StatusRun)
    (hr : r.lookup.length=r.length) :
    (mapStatus group moved no slaves r).2.lookup=r.lookup++statusNumbers group no slaves := by
  induction slaves generalizing no r with
  | nil => exact (List.append_nil _).symm
  | cons s rest ih =>
    rw [statusNumbers]
    by_cases hin : inGroup group s
    · rw [mapStatus,if_pos hin]
      by_cases htakes : s.TakesStatus group
      · have hrun : (createMbxstatusMappings no s r).2.lookup=r.lookup++[no] := by
          rw [createMbxstatusMappings,if_pos htakes.2]
          simp only [← hr,List.take_length]
        obtain ⟨-,hlen,-⟩ := createMbxstatusMappings_of_takes no htakes r
        rw [if_pos htakes]
        have hnext := ih (no+1) { (createMbxstatusMappings no s r).2 with
          seg := r.seg.status ((createMbxstatusMappings no s r).2.logAddr-r.logAddr) }
          (by simp only [hrun,hlen,List.length_append,List.length_singleton,hr])
        rw [hnext]
        simp only [hrun,List.append_assoc,List.singleton_append]
      · have hsame := createMbxstatusMappings_of_not no hin htakes r
        rw [if_neg htakes]
        have hnext := ih (no+1) { (createMbxstatusMappings no s r).2 with
          seg := r.seg.status ((createMbxstatusMappings no s r).2.logAddr-r.logAddr) }
          (by simp only [hsame,hr])
        rw [hnext]
        simp only [hsame]
    · have hnot : ¬s.TakesStatus group := fun h => hin h.1
      rw [mapStatus,if_neg hin,if_neg hnot]
      exact ih (no+1) r hr

end Lookup

section Pointers

variable {group : Nat}

def Fmmu.ofStatus (addr : Nat) : Fmmu := ⟨addr,1,0,7,ectRegSm1Stat,1,1⟩

theorem Slave.Ready.maps_ofStatus {s s' : Slave} {addr : Nat} (hready : s.Ready)
    (hfmmu : s'.fmmu=Function.update s.fmmu s.fmmuUnused (.ofStatus addr)) (t a : Nat) :
    s'.Maps t a ↔ s.Maps t a ∨ (t=1 ∧ a=addr) := by
  rw [Slave.Maps,hfmmu]
  constructor
  · rintro ⟨j,hmaps⟩
    by_cases hj : j=s.fmmuUnused
    · rw [hj,Function.update_self] at hmaps
      have htype : 1=t := hmaps.type
      have hlow : addr ≤ a := hmaps.low
      have hhigh : a<addr+1 := hmaps.high
      exact .inr ⟨htype.symm,by omega⟩
    · rw [Function.update_of_ne hj] at hmaps
      exact .inl ⟨j,hmaps⟩
  · rintro (⟨j,hmaps⟩|⟨rfl,rfl⟩)
    · have hj : j≠s.fmmuUnused := by
        rintro rfl
        exact hmaps.active (hready.idle _ (Nat.le_refl _))
      refine ⟨j,?_⟩
      rw [Function.update_of_ne hj]
      exact hmaps
    · refine ⟨s.fmmuUnused,?_⟩
      rw [Function.update_self]
      exact ⟨Nat.one_ne_zero,rfl,Nat.le_refl _,Nat.lt_succ_self _⟩

/-- The pointer of a slave, and its FMMU. -/
structure StatusAt (group moved : Nat) (r : StatusRun) (before : List Slave) (s s' : Slave) :
    Prop where
  taken : s.TakesStatus group →
    s'.mbxstatus=.ioMap (r.logAddr+statusCount group before+moved) ∧
      s'.fmmuUnused=s.fmmuUnused+1 ∧ s'.fmmu=
        Function.update s.fmmu s.fmmuUnused (.ofStatus (r.logAddr+statusCount group before))
  other : ¬s.TakesStatus group →
    s'.mbxstatus=(if inGroup group s then s.mbxstatus.add moved else s.mbxstatus) ∧
      s'.fmmu=s.fmmu

theorem mapStatus_get (moved no : Nat) {slaves : List Slave} {r : StatusRun} {i : Nat} {s' : Slave}
    (h : (mapStatus group moved no slaves r).1[i]?=some s') :
    ∃ s,slaves[i]?=some s ∧ StatusAt group moved r (slaves.take i) s s' := by
  induction slaves generalizing no r i with
  | nil => cases h
  | cons first rest ih =>
    by_cases hin : inGroup group first
    · rw [mapStatus,if_pos hin] at h
      cases i with
      | zero =>
        cases h
        refine ⟨first,rfl,?_,?_⟩
        · intro htakes
          rw [createMbxstatusMappings,if_pos htakes.2]
          exact ⟨rfl,rfl,rfl⟩
        · intro hnot
          rw [createMbxstatusMappings_of_not no hin hnot,if_pos hin]
          exact ⟨rfl,rfl⟩
      | succ i =>
        obtain ⟨s,hs,hat⟩ := ih (no+1) h
        refine ⟨s,hs,?_⟩
        have haddr : (createMbxstatusMappings no first r).2.logAddr+
            statusCount group (rest.take i)=
            r.logAddr+statusCount group ((first::rest).take (i+1)) := by
          rw [List.take_succ_cons,statusCount,statusCount]
          by_cases htakes : first.TakesStatus group
          · obtain ⟨hlog,-,-⟩ := createMbxstatusMappings_of_takes no htakes r
            rw [hlog,List.countP_cons_of_pos (by exact decide_eq_true htakes)]
            omega
          · rw [createMbxstatusMappings_of_not no hin htakes,
              List.countP_cons_of_neg (by simpa using htakes)]
        refine ⟨?_,hat.other⟩
        intro htakes
        have htaken := hat.taken htakes
        simp only [haddr] at htaken
        exact htaken
    · rw [mapStatus,if_neg hin] at h
      have hnot : ¬first.TakesStatus group := fun h => hin h.1
      cases i with
      | zero =>
        cases h
        refine ⟨_,rfl,fun htakes => absurd htakes hnot,fun _ => ?_⟩
        rw [if_neg hin]
        exact ⟨rfl,rfl⟩
      | succ i =>
        obtain ⟨s,hs,hat⟩ := ih (no+1) h
        have hcount : statusCount group ((first::rest).take (i+1))=
            statusCount group (rest.take i) := by
          rw [List.take_succ_cons,statusCount,List.countP_cons_of_neg (by simpa using hnot),
            statusCount]
        refine ⟨s,hs,?_,hat.other⟩
        rw [hcount]
        exact hat.taken

theorem exists_status {slaves : List Slave} {n : Nat} (h : n < statusCount group slaves) :
    ∃ i s,slaves[i]?=some s ∧ s.TakesStatus group ∧ statusCount group (slaves.take i)=n := by
  induction slaves generalizing n with
  | nil => exact absurd h (Nat.not_lt_zero n)
  | cons first rest ih =>
    by_cases hfirst : first.TakesStatus group
    · rw [statusCount,List.countP_cons_of_pos (by exact decide_eq_true hfirst)] at h
      cases n with
      | zero => exact ⟨0,first,rfl,hfirst,rfl⟩
      | succ n =>
        obtain ⟨i,s,hs,htakes,hcount⟩ := ih (Nat.lt_of_succ_lt_succ h)
        refine ⟨i+1,s,hs,htakes,?_⟩
        rw [List.take_succ_cons,statusCount,
          List.countP_cons_of_pos (by exact decide_eq_true hfirst)]
        exact congrArg (·+1) hcount
    · rw [statusCount,List.countP_cons_of_neg (by simpa using hfirst)] at h
      obtain ⟨i,s,hs,htakes,hcount⟩ := ih h
      refine ⟨i+1,s,hs,htakes,?_⟩
      rw [List.take_succ_cons,statusCount,List.countP_cons_of_neg (by simpa using hfirst)]
      exact hcount

end Pointers

section Mapped

variable {ctx ctx' : Context} {group size : Nat} {p : Stage}

theorem statusNumbers_length (group no : Nat) (slaves : List Slave) :
    (statusNumbers group no slaves).length=statusCount group slaves := by
  induction slaves generalizing no with
  | nil => rfl
  | cons s rest ih =>
    rw [statusNumbers,statusCount]
    by_cases htakes : s.TakesStatus group
    · rw [if_pos htakes,List.countP_cons_of_pos (by exact decide_eq_true htakes),List.length_cons,ih]
      rfl
    · rw [if_neg htakes,List.countP_cons_of_neg (by simpa using htakes),ih]
      rfl

theorem mapStatus_length (group moved no : Nat) (slaves : List Slave) (r : StatusRun) :
    (mapStatus group moved no slaves r).1.length=slaves.length := by
  induction slaves generalizing no r with
  | nil => rfl
  | cons s rest ih =>
    rw [mapStatus]
    split_ifs <;> simp only [List.length_cons,ih]

def Stage.moved (p : Stage) (overlapped : Bool) : Nat :=
  if overlapped=true then p.obytes+p.ibytes else 0

def Stage.statusStart (p : Stage) (ctx : Context) : Nat :=
  ctx.group.logstartaddr+p.span ctx.overlappedMode

theorem Stage.Leaves.lookup (hfresh : ctx.Fresh group) (h : p.Leaves ctx ctx' group size) :
    ctx'.group.mbxstatuslookup=statusNumbers group 1 p.slavelist := by
  rw [h.entry]
  change (mapStatus _ _ _ _ _).2.lookup=_
  rw [mapStatus_lookup _ _ _ _ (by simp only [hfresh.lookup,hfresh.length]; rfl)]
  simp only [hfresh.lookup,List.nil_append]

theorem Stage.Leaves.get (h : p.Leaves ctx ctx' group size) {i : Nat} {s' : Slave}
    (hs' : ctx'.slavelist[i]?=some s') : ∃ s,p.slavelist[i]?=some s ∧
      (s.TakesStatus group →
        s'.mbxstatus=.ioMap (p.statusStart ctx+statusCount group (p.slavelist.take i)+
          p.moved ctx.overlappedMode) ∧
        s'.statusFmmu.logStart=p.statusStart ctx+statusCount group (p.slavelist.take i)) ∧
      (¬s.TakesStatus group → s'.mbxstatus=
        if inGroup group s then s.mbxstatus.add (p.moved ctx.overlappedMode) else s.mbxstatus) := by
  rw [h.slavelist] at hs'
  obtain ⟨s,hs,hat⟩ := mapStatus_get _ _ hs'
  refine ⟨s,hs,?_,fun hnot => (hat.other hnot).1⟩
  intro htakes
  obtain ⟨hmbx,hunused,hfmmu⟩ := hat.taken htakes
  refine ⟨hmbx,?_⟩
  rw [Slave.statusFmmu,hunused,hfmmu,Nat.add_sub_cancel,Function.update_self]
  rfl

theorem Stage.Leaves.length_eq (h : p.Leaves ctx ctx' group size) :
    ctx'.slavelist.length=p.slavelist.length := by
  rw [h.slavelist]
  exact mapStatus_length _ _ _ _ _

theorem Stage.Leaves.status_at (hfresh : ctx.Fresh group) (hp : p.Sound ctx group)
    (h : p.Leaves ctx ctx' group size) {i a : Nat} {s' : Slave}
    (hs' : ctx'.slavelist[i]?=some s') (ha : s'.mbxstatus=.ioMap a) :
    ∃ n,n < statusCount group p.slavelist ∧
      a=p.statusStart ctx+n+p.moved ctx.overlappedMode ∧
      s'.statusFmmu.logStart=p.statusStart ctx+n ∧ ctx'.group.mbxstatuslookup[n]?=some (i+1) := by
  obtain ⟨s,hs,htaken,hother⟩ := h.get hs'
  have hnull := hp.unmapped hfresh s (List.mem_of_getElem? hs)
  by_cases htakes : s.TakesStatus group
  · obtain ⟨hmbx,hlog⟩ := htaken htakes
    have hget := statusNumbers_get 1 hs htakes
    obtain ⟨hlt,-⟩ := List.getElem?_eq_some_iff.mp hget
    rw [statusNumbers_length] at hlt
    rw [ha] at hmbx
    refine ⟨_,hlt,Pointer.ioMap.inj hmbx,hlog,?_⟩
    rw [h.lookup hfresh,hget,Nat.add_comm]
  · have hmbx := hother htakes
    rw [ha,hnull] at hmbx
    split_ifs at hmbx
    cases hmbx

theorem Stage.Leaves.exists_at (hfresh : ctx.Fresh group) (h : p.Leaves ctx ctx' group size)
    {n : Nat} (hn : n < statusCount group p.slavelist) :
    ∃ i s',ctx'.slavelist[i]?=some s' ∧
      s'.mbxstatus=.ioMap (p.statusStart ctx+n+p.moved ctx.overlappedMode) ∧
      s'.statusFmmu.logStart=p.statusStart ctx+n ∧ ctx'.group.mbxstatuslookup[n]?=some (i+1) := by
  obtain ⟨i,s,hs,htakes,rfl⟩ := exists_status hn
  have hlen : i<ctx'.slavelist.length := by
    rw [h.length_eq]
    exact (List.getElem?_eq_some_iff.mp hs).1
  obtain ⟨s1,hs1,htaken,-⟩ := h.get (List.getElem?_eq_getElem hlen)
  cases hs.symm.trans hs1
  obtain ⟨hmbx,hlog⟩ := htaken htakes
  refine ⟨i,_,List.getElem?_eq_getElem hlen,hmbx,hlog,?_⟩
  rw [h.lookup hfresh,statusNumbers_get 1 hs htakes,Nat.add_comm]

theorem Stage.Leaves.lookup_inj (hfresh : ctx.Fresh group) (h : p.Leaves ctx ctx' group size)
    {n m i : Nat} (hn : ctx'.group.mbxstatuslookup[n]?=some (i+1))
    (hm : ctx'.group.mbxstatuslookup[m]?=some (i+1)) : n=m := by
  rw [h.lookup hfresh] at hn hm
  have hnodup := statusNumbers_nodup group 1 p.slavelist
  obtain ⟨hlt,-⟩ := List.getElem?_eq_some_iff.mp hn
  exact (List.getElem?_inj hlt hnodup).mp (hn.trans hm.symm)

theorem Stage.Leaves.maps (hp : p.Sound ctx group) (h : p.Leaves ctx ctx' group size) {i : Nat}
    {s' : Slave} (hs' : ctx'.slavelist[i]?=some s') : ∃ s,p.slavelist[i]?=some s ∧
      ∀ t a,s'.Maps t a ↔ s.Maps t a ∨ (s.TakesStatus group ∧ t=1 ∧
        a=p.statusStart ctx+statusCount group (p.slavelist.take i)) := by
  rw [h.slavelist] at hs'
  obtain ⟨s,hs,hat⟩ := mapStatus_get _ _ hs'
  refine ⟨s,hs,?_⟩
  intro t a
  by_cases htakes : s.TakesStatus group
  · obtain ⟨-,-,hfmmu⟩ := hat.taken htakes
    rw [(hp.ready s (List.mem_of_getElem? hs) htakes.1).maps_ofStatus hfmmu]
    exact or_congr_right (iff_and_self.mpr (fun _ => htakes))
  · rw [Slave.Maps,(hat.other htakes).2]
    constructor
    · exact .inl
    · rintro (hmaps|⟨htakes',-,-⟩)
      · exact hmaps
      · exact absurd htakes' htakes

theorem Stage.Sound.exists_inGroup (hp : p.Sound ctx group) :
    (∃ s ∈ ctx.slavelist,inGroup group s) ↔ ∃ s ∈ p.slavelist,inGroup group s := by
  have hgroup : ∀ s0 : Slave,(if inGroup group s0 then mapSm s0 else s0).device.group=s0.group := by
    intro s0
    split_ifs <;> rfl
  constructor
  · rintro ⟨s,hs,hin⟩
    have hdevice : (if inGroup group s then mapSm s else s).device ∈
        p.slavelist.map Slave.device := by
      rw [hp.devices,findMappings,List.map_map]
      exact List.mem_map_of_mem hs
    obtain ⟨s1,hs1,heq⟩ := List.mem_map.mp hdevice
    have hsame : s1.group=s.group := (congrArg Device.group heq).trans (hgroup s)
    refine ⟨s1,hs1,?_⟩
    rw [inGroup,hsame]
    exact hin
  · rintro ⟨s1,hs1,hin⟩
    have hdevice : s1.device ∈ (findMappings group ctx.slavelist).map Slave.device := by
      rw [← hp.devices]
      exact List.mem_map_of_mem hs1
    obtain ⟨s2,hs2,heq⟩ := List.mem_map.mp hdevice
    obtain ⟨s,hs,rfl⟩ := List.mem_map.mp hs2
    have hsame : s1.group=s.group := (congrArg Device.group heq).symm.trans (hgroup s)
    refine ⟨s,hs,?_⟩
    rw [inGroup,← hsame]
    exact hin

end Mapped

section Landing

variable {ctx ctx' : Context} {group size : Nat} {p : Stage}

def oneAnswer (addr : Nat) : Nat → Option UInt8 := fun a => if a=addr then some 1 else none

theorem afterCycle_lrw {g : Group} (overlapped : Bool) (hlrw : g.blockLRW=0)
    (reads : Nat → Option UInt8) (mem : IoMemory) (x : Nat) :
    afterCycle overlapped g reads mem x=
      if receivedStart overlapped g ≤ x ∧
          x < receivedStart overlapped g+(receivedSegments overlapped g).sum then
        (reads (g.logstartaddr+(x-receivedStart overlapped g))).getD
          (statusCleared g mem (x-receivedStart overlapped g))
      else statusCleared g mem x := by
  rw [afterCycle,readStart,readCommand,readMoved,if_pos hlrw,if_pos hlrw,if_pos hlrw]
  rfl

theorem oneAnswer_lands {g : Group} (overlapped : Bool) (hlrw : g.blockLRW=0) {addr x : Nat}
    (h : afterCycle overlapped g (oneAnswer addr) (fun _ => 0) x=1) :
    receivedStart overlapped g ≤ x ∧
      x < receivedStart overlapped g+(receivedSegments overlapped g).sum ∧
      g.logstartaddr+(x-receivedStart overlapped g)=addr := by
  have hzero : ∀ y,statusCleared g (fun _ => 0) y=0 := by
    intro y
    rw [statusCleared]
    split_ifs <;> rfl
  rw [afterCycle_lrw overlapped hlrw,hzero,hzero] at h
  by_cases hin : receivedStart overlapped g ≤ x ∧
      x < receivedStart overlapped g+(receivedSegments overlapped g).sum
  · refine ⟨hin.1,hin.2,?_⟩
    rw [if_pos hin,oneAnswer] at h
    by_contra hne
    rw [if_neg hne] at h
    cases h
  · rw [if_neg hin] at h
    cases h

theorem Stage.Leaves.landed_at (hfresh : ctx.Fresh group) (hp : p.Sound ctx group)
    (h : p.Leaves ctx ctx' group size) (hlrw : ctx'.group.blockLRW=0) (hlands : StatusLands ctx')
    {n : Nat} (hn : n < statusCount group p.slavelist) :
    p.statusStart ctx+n+p.moved ctx.overlappedMode=
        receivedStart ctx.overlappedMode ctx'.group+p.span ctx.overlappedMode+n ∧
      p.span ctx.overlappedMode+n<(receivedSegments ctx.overlappedMode ctx'.group).sum ∧
      p.obytes+p.ibytes=
        receivedStart ctx.overlappedMode ctx'.group+p.span ctx.overlappedMode := by
  have hentry := h.entry_spec hfresh
  obtain ⟨i,s',hs',hmbx,hlog,hlookup⟩ := h.exists_at hfresh hn
  obtain ⟨mem',hcycle,hbyte⟩ := hlands.landed (oneAnswer (p.statusStart ctx+n)) (fun _ => 0)
  rw [h.mode,hentry.cycle hp] at hcycle
  cases hcycle
  have hanswer : oneAnswer (p.statusStart ctx+n) s'.statusFmmu.logStart=some 1 := by
    rw [hlog,oneAnswer,if_pos rfl]
  obtain ⟨hslave,m,base,hm,hbase,hgroup⟩ := hbyte i s' _ 1 hs' hmbx hanswer
  obtain rfl := h.lookup_inj hfresh hlookup hm
  rw [hentry.mbxstatus] at hbase
  cases hbase
  obtain ⟨hlow,hhigh,haddr⟩ := oneAnswer_lands _ hlrw hslave
  obtain ⟨hlow',hhigh',haddr'⟩ := oneAnswer_lands _ hlrw hgroup
  have hstart := hentry.logstartaddr
  rw [Stage.statusStart] at *
  omega

theorem Stage.Leaves.landed_last (hfresh : ctx.Fresh group) (hp : p.Sound ctx group)
    (h : p.Leaves ctx ctx' group size) (hlrw : ctx'.group.blockLRW=0) (hlands : StatusLands ctx')
    (hsome : statusCount group p.slavelist≠0) : ctx.group.logstartaddr=0 ∧
      frameLength ctx.overlappedMode ctx'.group ≤
        (receivedSegments ctx.overlappedMode ctx'.group).sum ∧
      (ctx.overlappedMode=true → p.obytes+p.ibytes=0) := by
  have hentry := h.entry_spec hfresh
  have hframe := hentry.frame_eq
  have hlength := hentry.length
  have hobytes := hentry.obytes
  obtain ⟨hslave,hrange,hgroup⟩ := h.landed_at hfresh hp hlrw hlands
    (Nat.sub_lt (Nat.pos_of_ne_zero hsome) Nat.one_pos)
  rw [receivedStart,if_pos hlrw] at hslave hgroup
  rw [Stage.statusStart,Stage.moved] at hslave
  rw [Stage.span] at hslave hrange hgroup hframe
  by_cases hmode : ctx.overlappedMode=true
  · rw [if_pos hmode] at hslave hgroup hrange hframe hlength
    rw [if_pos hmode] at hslave
    have hreceived : (if ctx.overlappedMode=true ∧ ctx'.group.obytes≠0 then
        ctx'.group.obytes else 0)=ctx'.group.obytes := by
      by_cases hout : ctx'.group.obytes≠0
      · rw [if_pos ⟨hmode,hout⟩]
      · rw [if_neg (fun hc => hout hc.2),not_not.mp hout]
    rw [hreceived] at hslave hgroup
    have hmax := Nat.le_max_left p.obytes p.ibytes
    exact ⟨by omega,by omega,fun _ => by omega⟩
  · rw [if_neg hmode] at hslave hgroup hrange hframe hlength
    rw [if_neg hmode,if_neg (fun hc => hmode hc.1)] at hslave
    exact ⟨by omega,by omega,fun hmode' => absurd hmode' hmode⟩

theorem Stage.Leaves.null_kept (hfresh : ctx.Fresh group) (hp : p.Sound ctx group)
    (h : p.Leaves ctx ctx' group size) (hlands : StatusLands ctx')
    (hmode : ctx.overlappedMode=true) {s : Slave} (hs : s ∈ p.slavelist) (hin : inGroup group s)
    (hnot : ¬s.TakesStatus group) : p.obytes+p.ibytes=0 := by
  obtain ⟨i,hi⟩ := List.mem_iff_getElem?.mp hs
  have hlen : i<ctx'.slavelist.length := by
    rw [h.length_eq]
    exact (List.getElem?_eq_some_iff.mp hi).1
  obtain ⟨s1,hs1,-,hother⟩ := h.get (List.getElem?_eq_getElem hlen)
  cases hi.symm.trans hs1
  have hmbx := hother hnot
  rw [if_pos hin,hp.unmapped hfresh s hs,Stage.moved,if_pos hmode] at hmbx
  have hnull := hlands.null _ (List.getElem_mem hlen) (by rw [hmbx]; rfl)
  rw [hmbx] at hnull
  have hzero := Pointer.null.inj hnull
  omega

theorem Stage.Leaves.unmoved (hfresh : ctx.Fresh group) (h : p.Leaves ctx ctx' group size)
    (hlrw : ctx'.group.blockLRW=0) (hstart : ctx.group.logstartaddr=0)
    (hnoio : ctx.overlappedMode=true → p.obytes+p.ibytes=0) :
    receivedStart ctx.overlappedMode ctx'.group=0 ∧
      p.moved ctx.overlappedMode=0 ∧ p.span ctx.overlappedMode=p.obytes+p.ibytes ∧
      ctx'.group.mbxstatuslength=statusCount group p.slavelist := by
  have hentry := h.entry_spec hfresh
  have hlength := hentry.length
  have hobytes := hentry.obytes
  rw [receivedStart,if_pos hlrw,Stage.moved,Stage.span,hlength]
  by_cases hmode : ctx.overlappedMode=true
  · have hio := hnoio hmode
    have hmax : max p.obytes p.ibytes=0 := by omega
    rw [if_pos hmode,if_pos hmode,if_neg (fun hc => hc.2 (by omega)),if_pos hmode,hmax]
    exact ⟨rfl,hio,hio.symm,Nat.zero_add _⟩
  · rw [if_neg hmode,if_neg hmode,if_neg (fun hc => hmode hc.1),if_neg hmode,hstart]
    exact ⟨rfl,rfl,rfl,Nat.zero_add _⟩

/-- The status bytes land where they are read exactly if there are none, or the addresses of the
group begin at 0 and all of its datagrams are received; and in overlapped mode no slave of the group
has process data. -/
theorem status_lands_iff (hfresh : ctx.Fresh group)
    (h : configMapGroup ctx group=some (ctx',size)) (hlrw : ctx'.group.blockLRW=0) :
    StatusLands ctx' ↔
      (ctx'.slavelist.countP (fun s => s.mbxstatus.offset.isSome)=0 ∨
        group=0 ∧ frameLength ctx.overlappedMode ctx'.group ≤
          (receivedSegments ctx.overlappedMode ctx'.group).sum) ∧
      (ctx.overlappedMode=true → ctx'.group.obytes+ctx'.group.ibytes=0 ∨
        ∀ s ∈ ctx.slavelist,¬inGroup group s) := by
  obtain ⟨p,hstage,hp,hleaves⟩ := configMapGroup_stage hfresh h
  have hentry := hleaves.entry_spec hfresh
  have hcount : ctx'.slavelist.countP (fun s => s.mbxstatus.offset.isSome)=
      statusCount group p.slavelist := by
    rw [hleaves.slavelist]
    exact mapStatus_mapped _ 1 _ (hp.unmapped hfresh)
  have hstart := hfresh.start
  have hframe := hentry.frame_eq
  have hobytes := hentry.obytes
  have hibytes := hentry.ibytes
  rw [hcount]
  constructor
  · intro hlands
    have hlast := hleaves.landed_last hfresh hp hlrw hlands
    constructor
    · by_cases hnone : statusCount group p.slavelist=0
      · exact .inl hnone
      · obtain ⟨hzero,hall,-⟩ := hlast hnone
        have hpos : 0 < 2^ecLogGroupOffset := Nat.two_pow_pos _
        rw [hstart] at hzero
        exact .inr ⟨(Nat.mul_eq_zero.mp hzero).resolve_right hpos.ne',hall⟩
    · intro hmode
      rw [hobytes,hibytes]
      by_cases hnone : statusCount group p.slavelist=0
      · by_contra hbad
        obtain ⟨hio,hsome⟩ := not_or.mp hbad
        obtain ⟨s,hs,hin⟩ := hp.exists_inGroup.mp (by simpa using hsome)
        have hnot : ¬s.TakesStatus group := by
          simpa using List.countP_eq_zero.mp hnone s hs
        exact hio (hleaves.null_kept hfresh hp hlands hmode hs hin hnot)
      · exact .inl ((hlast hnone).2.2 hmode)
  · rintro ⟨hback,hover⟩
    have hinput : (∃ s ∈ p.slavelist,inGroup group s) → ctx.overlappedMode=true →
        p.obytes+p.ibytes=0 := by
      intro hin hmode
      rcases hover hmode with hzero|hnone
      · omega
      · obtain ⟨s,hs,hs'⟩ := hp.exists_inGroup.mpr hin
        exact absurd hs' (hnone s hs)
    constructor
    · intro reads mem
      refine ⟨_,by rw [hleaves.mode]; exact hentry.cycle hp reads mem,?_⟩
      intro i s a b hs hmbx hreads
      obtain ⟨n,hn,ha,hlog,hlookup⟩ := hleaves.status_at hfresh hp hs hmbx
      obtain ⟨hzero,hall⟩ := hback.resolve_left (by omega)
      obtain ⟨_,s1,hs1,htakes,-⟩ := exists_status hn
      have hnoio := hinput ⟨s1,List.mem_of_getElem? hs1,htakes.1⟩
      have hstart0 : ctx.group.logstartaddr=0 := by rw [hstart,hzero,Nat.zero_mul]
      obtain ⟨hreceived,hmoved,hspan,hlen⟩ := hleaves.unmoved hfresh hlrw hstart0 hnoio
      rw [Stage.statusStart,hstart0] at ha hlog
      have hbyte : afterCycle ctx.overlappedMode ctx'.group reads mem a=b := by
        have haddr : ctx'.group.logstartaddr+(a-0)=s.statusFmmu.logStart := by
          rw [hentry.logstartaddr,hstart0,hlog]
          omega
        rw [afterCycle_lrw _ hlrw,hreceived,if_pos (by omega),haddr,hreads]
        rfl
      refine ⟨hbyte,n,p.obytes+p.ibytes,hlookup,hentry.mbxstatus,?_⟩
      rw [show p.obytes+p.ibytes+n=a by omega]
      exact hbyte
    · intro s' hs' hoffset
      obtain ⟨i,hi⟩ := List.mem_iff_getElem?.mp hs'
      obtain ⟨s,hs,htaken,hother⟩ := hleaves.get hi
      have hmem := List.mem_of_getElem? hs
      have hnot : ¬s.TakesStatus group := by
        intro htakes
        rw [(htaken htakes).1] at hoffset
        cases hoffset
      rw [hother hnot,hp.unmapped hfresh s hmem]
      by_cases hin : inGroup group s
      · rw [if_pos hin,Stage.moved]
        by_cases hmode : ctx.overlappedMode=true
        · rw [if_pos hmode,hinput ⟨s,hmem,hin⟩ hmode]
          rfl
        · rw [if_neg hmode]
          rfl
      · rw [if_neg hin]

theorem mailbox_status_lands :
    ∃ ctx' size,configMapGroup (freshContext [mailboxSlave 0] 0 false false) 0=some (ctx',size) ∧
      StatusLands ctx' := by
  have hfresh : (freshContext [mailboxSlave 0] 0 false false).Fresh 0 :=
    freshContext_fresh _ _ (by decide) (by decide) (by decide) (by simpa using mailboxSlave_fresh 0)
  have hmapped : (configMapGroup (freshContext [mailboxSlave 0] 0 false false) 0).any (fun r =>
      decide (r.1.group.blockLRW=0 ∧
        frameLength false r.1.group ≤ (receivedSegments false r.1.group).sum))=true := by
    decide +kernel
  obtain ⟨⟨ctx',size⟩,h,hrun⟩ := (Option.any_eq_true _ _).mp hmapped
  obtain ⟨hlrw,hall⟩ := of_decide_eq_true hrun
  exact ⟨ctx',size,h,(status_lands_iff hfresh h hlrw).mpr
    ⟨.inr ⟨rfl,hall⟩,fun hmode => Bool.noConfusion hmode⟩⟩

/-- With two bytes of outputs over two bytes of inputs the status byte comes to the fifth byte of the
IO map. The pointer of the slave is at the seventh. -/
theorem overlap_status_misplaced :
    (freshContext [mailboxSlave 0] 0 false true).Fresh 0 ∧
      ∃ ctx' size,configMapGroup (freshContext [mailboxSlave 0] 0 false true) 0=some (ctx',size) ∧
        size=5 ∧ ctx'.group.blockLRW=0 ∧ ¬StatusLands ctx' := by
  have hmapped : (configMapGroup (freshContext [mailboxSlave 0] 0 false true) 0).any (fun r =>
      decide (r.2=5 ∧ r.1.group.blockLRW=0 ∧
        r.1.slavelist[0]?.map (fun s => (s.mbxstatus,s.statusFmmu.logStart))=some (.ioMap 6,2) ∧
        (completeCycle r.1.overlappedMode r.1.group (oneAnswer 2) (fun _ => 0)).map
          (fun mem => mem 6)=some 0))=true := by decide +kernel
  refine ⟨freshContext_fresh _ _ (by decide) (by decide) (by decide)
    (by simpa using mailboxSlave_fresh 0),?_⟩
  obtain ⟨⟨ctx',size⟩,h,hrun⟩ := (Option.any_eq_true _ _).mp hmapped
  obtain ⟨hsize,hlrw,hslave,hbyte⟩ := of_decide_eq_true hrun
  refine ⟨ctx',size,h,hsize,hlrw,?_⟩
  intro hlands
  obtain ⟨s,hs,hpointers⟩ := Option.map_eq_some_iff.mp hslave
  obtain ⟨hmbx,hlog⟩ := Prod.mk.inj hpointers
  obtain ⟨mem',hcycle,hlanded⟩ := hlands.landed (oneAnswer 2) (fun _ => 0)
  obtain ⟨hsix,-⟩ := hlanded 0 s 6 1 hs hmbx (by rw [hlog]; rfl)
  rw [hcycle] at hbyte
  have hzero : mem' 6=0 := Option.some.inj hbyte
  rw [hsix] at hzero
  cases hzero

end Landing

end EtherCATMaster.Mapping
