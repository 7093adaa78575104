import EtherCATMaster.Mapping.StatusBytes

namespace EtherCATMaster.Mapping

def Datagram.Reads (d : Datagram) (a : Nat) : Prop :=
  d.command≠.lwr ∧ d.logAdr ≤ a ∧ a<d.logAdr+d.length

/-- Slaves can take the byte at `x` of the IO map from a logical address. -/
def Datagram.Writes (d : Datagram) (a x : Nat) : Prop :=
  d.command≠.lrd ∧ d.logAdr ≤ a ∧ a<d.logAdr+d.length ∧ x=d.data+(a-d.logAdr)

/-- The group when LRW is blocked by `n` of its slaves. -/
def Group.blocked (g : Group) (n : Nat) : Group := { g with blockLRW := n }

def InputAddr (overlapped : Bool) (g : Group) (a : Nat) : Prop :=
  if overlapped=true then
    (g.logstartaddr ≤ a ∧ a<g.logstartaddr+g.ibytes) ∨
      (g.logstartaddr+max g.obytes g.ibytes ≤ a ∧
        a<g.logstartaddr+max g.obytes g.ibytes+g.mbxstatuslength)
  else g.logstartaddr+g.obytes ≤ a ∧ a<g.logstartaddr+g.obytes+g.ibytes+g.mbxstatuslength

/-- A cycle with LRD and LWR, as it is when `n` slaves block LRW, and one with LRW. -/
structure PathsAgree (ctx : Context) (n : Nat) : Prop where
  bytes : ∃ lrw split,groupDatagrams ctx.overlappedMode (ctx.group.blocked 0)=some lrw ∧
    groupDatagrams ctx.overlappedMode (ctx.group.blocked n)=some split ∧
    (∀ a,InputAddr ctx.overlappedMode ctx.group a →
      ((∃ d ∈ lrw,d.Reads a) ↔ ∃ d ∈ split,d.Reads a)) ∧
    ∀ a x,ctx.group.logstartaddr ≤ a → a<ctx.group.logstartaddr+ctx.group.obytes →
      ((∃ d ∈ lrw,d.Writes a x) ↔ ∃ d ∈ split,d.Writes a x)
  contents : ∀ reads : Nat → Option UInt8,
    (∀ a,(reads a).isSome=true ↔ ∃ s ∈ ctx.slavelist,s.Maps 1 a) → ∀ mem,∃ m1 m2,
      completeCycle ctx.overlappedMode (ctx.group.blocked 0) reads mem=some m1 ∧
      completeCycle ctx.overlappedMode (ctx.group.blocked n) reads mem=some m2 ∧
      ∀ x,ctx.group.obytes ≤ x →
        x<ctx.group.obytes+ctx.group.ibytes+ctx.group.mbxstatuslength → m1 x=m2 x

section Reach

theorem layout_reach (command : Command) (moved : Nat) (segments : List Nat)
    (logAdr data a x : Nat) :
    (∃ d ∈ layout command moved segments logAdr data,
        d.logAdr ≤ a ∧ a<d.logAdr+d.length ∧ x=d.data+(a-d.logAdr)) ↔
      logAdr ≤ a ∧ a<logAdr+segments.sum ∧ x=data+(a-logAdr) := by
  induction segments generalizing logAdr data with
  | nil =>
    constructor
    · rintro ⟨d,hd,-⟩
      cases hd
    · rintro ⟨hlow,hhigh,-⟩
      rw [List.sum_nil] at hhigh
      omega
  | cons s rest ih =>
    rw [layout,List.exists_mem_cons_iff,ih,List.sum_cons]
    simp only
    omega

theorem sendOutputs_reach {segments : List Nat} (hbounded : ∀ s ∈ segments,s ≤ ecMaxLrwData)
    {length : Nat} (hlen : length ≤ segments.sum) (logAdr data a x : Nat) :
    (∃ d ∈ sendOutputs segments length logAdr data,
        d.logAdr ≤ a ∧ a<d.logAdr+d.length ∧ x=d.data+(a-d.logAdr)) ↔
      logAdr ≤ a ∧ a<logAdr+length ∧ x=data+(a-logAdr) := by
  induction segments generalizing length logAdr data with
  | nil =>
    constructor
    · rintro ⟨d,hd,-⟩
      cases hd
    · rintro ⟨hlow,hhigh,-⟩
      rw [List.sum_nil] at hlen
      omega
  | cons s rest ih =>
    have hmax : ecMaxLrwData=1486 := rfl
    have hs := hbounded s List.mem_cons_self
    have hrest : ∀ t ∈ rest,t ≤ ecMaxLrwData := fun t ht => hbounded t (List.mem_cons_of_mem s ht)
    rw [List.sum_cons] at hlen
    rw [sendOutputs,shorten_eq (show s<2^16 by omega)]
    by_cases hlast : (length : Int)-s<0
    · -- the rest of the outputs
      have hshort : shorten (length : Int).toNat=length := by
        rw [Int.toNat_natCast]
        exact shorten_eq (by omega)
      simp only [if_pos hlast,hshort]
      rw [if_neg (by omega),List.exists_mem_cons_iff]
      simp only [List.not_mem_nil,false_and,exists_false,or_false]
    · simp only [if_neg hlast]
      rw [List.exists_mem_cons_iff]
      by_cases hmore : (length : Int)-s≠0
      · have hcast : (length : Int)-(s : Int)=((length-s : Nat) : Int) := by omega
        rw [if_pos hmore,hcast,ih hrest (by omega)]
        simp only
        omega
      · rw [if_neg hmore]
        simp only [List.not_mem_nil,false_and,exists_false,or_false]
        omega

theorem withDc_exists {P : Command → Nat → Nat → Nat → Prop} (hasdc : Bool) (ds : List Datagram) :
    (∃ d ∈ withDc hasdc ds,P d.command d.logAdr d.length d.data) ↔
      ∃ d ∈ ds,P d.command d.logAdr d.length d.data := by
  cases ds with
  | nil => exact Iff.rfl
  | cons first rest => rw [withDc,List.exists_mem_cons_iff,List.exists_mem_cons_iff]

end Reach

def readLength (g : Group) : Nat :=
  if g.ibytes≠0 then ((readSegments g).take (sentCount (readSegments g) g.ibytes)).sum else 0

section Paths

variable {ctx : Context} {p : Stage} {group start count : Nat} {g : Group}

theorem Stage.Entry.blocked {overlapped : Bool} (h : p.Entry overlapped group start count g)
    (n : Nat) : p.Entry overlapped group start count (g.blocked n) :=
  ⟨h.obytes,h.ibytes,h.outputs,h.inputs,h.mbxstatus,h.length,h.iosegment,h.nsegments,h.isegment,
    h.ioffset,h.logstartaddr⟩

/-- With LRW every byte of the segments is read and written. -/
theorem Stage.Entry.lrw_reach (hp : p.Sound ctx group)
    (h : p.Entry ctx.overlappedMode group start (statusCount group p.slavelist) g) :
    ∃ ds,groupDatagrams ctx.overlappedMode (g.blocked 0)=some ds ∧
      (∀ a,(∃ d ∈ ds,d.Reads a) ↔ start ≤ a ∧ a < start+g.iosegment.sum) ∧
      ∀ a x,(∃ d ∈ ds,d.Writes a x) ↔
        start ≤ a ∧ a < start+g.iosegment.sum ∧ x=a-start := by
  have hsum := h.sum_le hp
  by_cases hnone : frameLength ctx.overlappedMode g=0
  · refine ⟨[],?_,?_,?_⟩
    · rw [groupDatagrams,if_pos (by exact hnone)]
    · intro a
      simp only [List.not_mem_nil,false_and,exists_false,false_iff]
      omega
    · intro a x
      simp only [List.not_mem_nil,false_and,exists_false,false_iff]
      omega
  · have hreach := layout_reach .lrw
      (if ctx.overlappedMode=true ∧ g.obytes≠0 then g.obytes else 0)
      (g.iosegment.take (sentCount g.iosegment (frameLength ctx.overlappedMode g))) start 0
    rw [sentCount_sum hsum] at hreach
    refine ⟨_,(h.blocked 0).lrw ((h.blocked 0).bounded hp) hnone rfl,?_,?_⟩
    · intro a
      simp only [Datagram.Reads]
      rw [withDc_exists (P := fun command logAdr length _ =>
        command≠.lwr ∧ logAdr ≤ a ∧ a<logAdr+length)]
      constructor
      · rintro ⟨d,hd,-,hlow,hhigh⟩
        obtain ⟨hlow',hhigh',-⟩ := (hreach a _).mp ⟨d,hd,hlow,hhigh,rfl⟩
        exact ⟨hlow',hhigh'⟩
      · rintro ⟨hlow,hhigh⟩
        obtain ⟨d,hd,hlow',hhigh',-⟩ := (hreach a _).mpr ⟨hlow,hhigh,rfl⟩
        refine ⟨d,hd,?_,hlow',hhigh'⟩
        rw [(layout_mem hd).1]
        decide
    · intro a x
      simp only [Datagram.Writes]
      rw [withDc_exists (P := fun command logAdr length data =>
        command≠.lrd ∧ logAdr ≤ a ∧ a<logAdr+length ∧ x=data+(a-logAdr))]
      have hrange := hreach a x
      rw [Nat.zero_add] at hrange
      rw [← hrange]
      constructor
      · rintro ⟨d,hd,-,hin⟩
        exact ⟨d,hd,hin⟩
      · rintro ⟨d,hd,hin⟩
        refine ⟨d,hd,?_,hin⟩
        rw [(layout_mem hd).1]
        decide

theorem Stage.Entry.obytes_le (hp : p.Sound ctx group)
    (h : p.Entry ctx.overlappedMode group start (statusCount group p.slavelist) g) :
    g.obytes ≤ g.iosegment.sum := by
  have htotal := hp.segments_total.1
  rw [← h.sum_eq,Stage.span,← h.obytes,← h.ibytes] at htotal
  split_ifs at htotal
  · exact (Nat.le_max_left _ _).trans htotal
  · exact (Nat.le_add_right _ _).trans htotal

theorem Stage.Entry.io_le (hp : p.Sound ctx group)
    (h : p.Entry ctx.overlappedMode group start (statusCount group p.slavelist) g)
    (hout : ctx.overlappedMode=false ∨ g.obytes=0) : g.obytes+g.ibytes ≤ g.iosegment.sum := by
  have htotal := hp.segments_total.1
  rw [← h.sum_eq,Stage.span,← h.obytes,← h.ibytes] at htotal
  rcases hout with hmode|hzero
  · rw [hmode] at htotal
    exact htotal
  · rw [hzero] at htotal ⊢
    split_ifs at htotal
    · rw [Nat.zero_add]
      exact (Nat.le_max_right _ _).trans htotal
    · exact htotal

/-- With LRD and LWR the inputs are read as far as their length goes, and the outputs written. -/
theorem Stage.Entry.split_reach (hp : p.Sound ctx group)
    (h : p.Entry ctx.overlappedMode group start (statusCount group p.slavelist) g) {n : Nat}
    (hn : n≠0) :
    ∃ ds,groupDatagrams ctx.overlappedMode (g.blocked n)=some ds ∧
      (∀ a,(∃ d ∈ ds,d.Reads a) ↔ start+g.obytes ≤ a ∧ a < start+g.obytes+readLength g) ∧
      ∀ a x,(∃ d ∈ ds,d.Writes a x) ↔ start ≤ a ∧ a < start+g.obytes ∧ x=a-start := by
  by_cases hnone : frameLength ctx.overlappedMode g=0
  · have hio : g.obytes=0 ∧ g.ibytes=0 := by
      rw [frameLength] at hnone
      split_ifs at hnone <;> omega
    have hread : readLength g=0 := by rw [readLength,if_neg (not_not.mpr hio.2)]
    refine ⟨[],?_,?_,?_⟩
    · rw [groupDatagrams,if_pos (by exact hnone)]
    · intro a
      simp only [List.not_mem_nil,false_and,exists_false,false_iff]
      omega
    · intro a x
      simp only [List.not_mem_nil,false_and,exists_false,false_iff]
      omega
  · have hbounded := h.bounded hp
    have hout := h.obytes_le hp
    have hreads := layout_reach .lrd 0
      ((readSegments g).take (sentCount (readSegments g) g.ibytes)) (start+g.obytes) g.obytes
    have hwrites := sendOutputs_reach hbounded hout start 0
    refine ⟨_,(h.blocked n).lrd_lwr hnone hn,?_,?_⟩
    · intro a
      simp only [Datagram.Reads]
      rw [withDc_exists (P := fun command logAdr length _ =>
        command≠.lwr ∧ logAdr ≤ a ∧ a<logAdr+length)]
      constructor
      · rintro ⟨d,hd,hcommand,hlow,hhigh⟩
        rcases List.mem_append.mp hd with hd|hd
        · by_cases hread : (g.blocked n).ibytes≠0
          · rw [if_pos hread] at hd
            obtain ⟨hlow',hhigh',-⟩ := (hreads a _).mp ⟨d,hd,hlow,hhigh,rfl⟩
            rw [readLength,if_pos (by exact hread)]
            exact ⟨hlow',hhigh'⟩
          · rw [if_neg hread] at hd
            cases hd
        · exact absurd (writes_command (g.blocked n) start d hd) hcommand
      · rintro ⟨hlow,hhigh⟩
        by_cases hread : (g.blocked n).ibytes≠0
        · rw [readLength,if_pos (by exact hread)] at hhigh
          obtain ⟨d,hd,hlow',hhigh',-⟩ := (hreads a _).mpr ⟨hlow,hhigh,rfl⟩
          refine ⟨d,List.mem_append_left _ ?_,?_,hlow',hhigh'⟩
          · rw [if_pos hread]
            exact hd
          · rw [(layout_mem hd).1]
            decide
        · rw [readLength,if_neg (by exact hread)] at hhigh
          omega
    · intro a x
      simp only [Datagram.Writes]
      rw [withDc_exists (P := fun command logAdr length data =>
        command≠.lrd ∧ logAdr ≤ a ∧ a<logAdr+length ∧ x=data+(a-logAdr))]
      have hrange := hwrites a x
      rw [Nat.zero_add] at hrange
      constructor
      · rintro ⟨d,hd,hcommand,hin⟩
        rcases List.mem_append.mp hd with hd|hd
        · split_ifs at hd
          · exact absurd (layout_mem hd).1 hcommand
          · cases hd
        · by_cases hwrite : (g.blocked n).obytes≠0
          · rw [if_pos hwrite] at hd
            exact hrange.mp ⟨d,hd,hin⟩
          · rw [if_neg hwrite] at hd
            cases hd
      · intro hin
        obtain ⟨d,hd,hin'⟩ := hrange.mpr hin
        have hwrite : (g.blocked n).obytes≠0 := by
          intro hzero
          have hzero' : g.obytes=0 := hzero
          omega
        refine ⟨d,List.mem_append_right _ ?_,?_,hin'⟩
        · rw [if_pos hwrite]
          exact hd
        · rw [(sendOutputs_mem hd).1]
          decide

end Paths

section Borders

theorem take_sum_mono (xs : List Nat) {m n : Nat} (h : m ≤ n) : (xs.take m).sum ≤ (xs.take n).sum := by
  have htake := take_sum_le (xs.take n) m
  rw [List.take_take,Nat.min_eq_left h] at htake
  exact htake

theorem sentCount_sum_iff (segments : List Nat) {length : Int} (hlen : length≠0) :
    (segments.take (sentCount segments length)).sum=segments.sum ↔
      ∀ n,((segments.take n).sum : Int)=length → (segments.sum : Int)=length := by
  induction segments generalizing length with
  | nil =>
    refine ⟨fun _ n hn => ?_,fun _ => rfl⟩
    rw [List.take_nil] at hn
    exact hn
  | cons s rest ih =>
    rw [sentCount]
    by_cases hmore : length-s≠0
    · rw [if_pos hmore,List.take_succ_cons,List.sum_cons,List.sum_cons,Nat.add_right_inj,ih hmore]
      constructor
      · intro hall n hn
        cases n with
        | zero =>
          rw [List.take_zero,List.sum_nil] at hn
          omega
        | succ n =>
          rw [List.take_succ_cons,List.sum_cons] at hn
          have := hall n (by omega)
          omega
      · intro hall n hn
        have := hall (n+1) (by rw [List.take_succ_cons,List.sum_cons]; omega)
        omega
    · rw [if_neg hmore,List.take_succ_cons,List.take_zero,List.sum_cons,List.sum_cons,List.sum_nil]
      constructor
      · intro hrest n _
        omega
      · intro hall
        have := hall 1 (by rw [List.take_succ_cons,List.take_zero,List.sum_cons,List.sum_nil]; omega)
        omega

theorem take_min_sum {xs : List Nat} {c : Nat} (n : Nat) (h : (xs.take c).sum=xs.sum) :
    (xs.take (min n c)).sum=(xs.take n).sum := by
  rcases Nat.le_total n c with hle|hge
  · rw [Nat.min_eq_left hle]
  · rw [Nat.min_eq_right hge,h]
    have hmono := take_sum_mono xs hge
    have hle := take_sum_le xs n
    omega

theorem take_sum_eq {closed : List Nat} {last m n : Nat} (hclosed : ∀ s ∈ closed,0 < s) (h : m<n)
    (heq : ((closed++[last]).take m).sum=((closed++[last]).take n).sum) :
    ((closed++[last]).take m).sum=(closed++[last]).sum := by
  rcases Nat.lt_or_ge m closed.length with hlt|hge
  · have hmono := take_sum_mono (closed++[last]) (show m+1 ≤ n from h)
    have hget : (closed++[last])[m]?=some closed[m] := by
      rw [List.getElem?_append_left hlt,List.getElem?_eq_getElem hlt]
    have hpos := hclosed closed[m] (List.getElem_mem hlt)
    rw [List.take_add_one,hget,List.sum_append] at hmono
    simp only [Option.toList_some,List.sum_singleton] at hmono
    omega
  · have hall : (closed++[last]).take n=closed++[last] :=
      List.take_of_length_le (by rw [List.length_append,List.length_singleton]; omega)
    rw [heq,hall]

end Borders

/-- There is nothing behind the outputs, or LRD goes to the end of it: the inputs do not end with a
segment that others follow, and the datagrams that are received end as they do with LRW. -/
def ReadsToEnd (g : Group) : Prop :=
  g.iosegment.sum=g.obytes ∨ g.ibytes≠0 ∧
    (∀ n,n<g.iosegment.length → (g.iosegment.take n).sum=g.obytes+g.ibytes →
      g.iosegment.sum=g.obytes+g.ibytes) ∧
    (g.isegment=0 ∨ (g.iosegment.take ecMaxBuf).sum=g.iosegment.sum)

instance ReadsToEnd.decidable (g : Group) : Decidable (ReadsToEnd g) :=
  inferInstanceAs (Decidable (_ ∨ _))

section Ends

variable {ctx : Context} {p : Stage} {group start : Nat} {g : Group}

theorem Stage.Entry.lrw_received (hp : p.Sound ctx group)
    (h : p.Entry ctx.overlappedMode group start (statusCount group p.slavelist) g) :
    (receivedSegments ctx.overlappedMode (g.blocked 0)).sum=(g.iosegment.take ecMaxBuf).sum := by
  rw [receivedSegments,if_pos (by rfl),List.take_take]
  exact take_min_sum _ (sentCount_sum ((h.blocked 0).sum_le hp))

theorem split_received (overlapped : Bool) {n : Nat} (hn : n≠0) (hread : g.ibytes≠0) :
    (receivedSegments overlapped (g.blocked n)).sum=
      ((readSegments g).take (min ecMaxBuf (sentCount (readSegments g) g.ibytes))).sum := by
  rw [receivedSegments,if_neg (by exact hn),if_pos (by exact hread),List.take_take]
  rfl

/-- Segments of the group and those that are read, where the inputs begin behind the outputs. -/
structure ReadFrom (g : Group) : Prop where
  later : ∀ m,((readSegments g).take (m+1)).sum+g.obytes=(g.iosegment.take (g.isegment+(m+1))).sum
  sooner : ∀ n,n ≤ g.isegment → (g.iosegment.take n).sum ≤ g.obytes
  all : (readSegments g).sum+g.obytes=g.iosegment.sum

theorem Stage.Entry.readFrom (hp : p.Sound ctx group)
    (h : p.Entry ctx.overlappedMode group start (statusCount group p.slavelist) g)
    (hout : ctx.overlappedMode=false ∨ g.obytes=0) : ReadFrom g := by
  obtain ⟨before,first,rest,hsegments,hlen,hstart,hle,hread⟩ := h.read_eq hp
  have hbegin : before.sum+g.ioffset=g.obytes := by
    rcases hout with hmode|hzero
    · rw [hmode] at hstart
      exact hstart
    · rw [hstart,hzero]
      split_ifs <;> rfl
  refine ⟨?_,?_,?_⟩
  · intro m
    rw [hread,← hlen,hsegments,List.take_length_add_append,List.take_succ_cons,List.take_succ_cons,
      List.sum_append,List.sum_cons,List.sum_cons]
    omega
  · intro n hn
    have htake := take_sum_le before n
    rw [hsegments,List.take_append_of_le_length (by omega)]
    omega
  · rw [hread,hsegments,List.sum_append,List.sum_cons,List.sum_cons]
    omega

theorem Stage.Entry.take_sum_eq {overlapped : Bool} {count : Nat} (hp : p.Sound ctx group)
    (h : p.Entry overlapped group start count g) {m n : Nat} (hlt : m<n)
    (heq : (g.iosegment.take m).sum=(g.iosegment.take n).sum) :
    (g.iosegment.take m).sum=g.iosegment.sum := by
  have hclosed : ∀ s ∈ (p.segments group).iosegment,0 < s :=
    fun s hs => (hp.segments_open.1.closed s hs).1
  rw [h.iosegment] at heq ⊢
  exact Mapping.take_sum_eq hclosed hlt heq

/-- LRD is sent for everything behind the outputs exactly if the inputs do not end with a segment
that others follow. -/
theorem Stage.Entry.readLength_iff (hp : p.Sound ctx group)
    (h : p.Entry ctx.overlappedMode group start (statusCount group p.slavelist) g)
    (hout : ctx.overlappedMode=false ∨ g.obytes=0) (hread : g.ibytes≠0) :
    readLength g+g.obytes=g.iosegment.sum ↔
      ∀ n,n<g.iosegment.length → (g.iosegment.take n).sum=g.obytes+g.ibytes →
        g.iosegment.sum=g.obytes+g.ibytes := by
  have hfrom := h.readFrom hp hout
  have hall := hfrom.all
  rw [readLength,if_pos hread,← hall,Nat.add_right_cancel_iff,sentCount_sum_iff _ (by omega)]
  constructor
  · intro hends n _ hn
    -- a border at the end of the inputs is one of the segments that are read
    rcases Nat.lt_or_ge g.isegment n with hlt|hge
    · obtain ⟨m,rfl⟩ : ∃ m,n=g.isegment+(m+1) := ⟨n-g.isegment-1,by omega⟩
      have hlater := hfrom.later m
      have := hends (m+1) (by omega)
      omega
    · have := hfrom.sooner n hge
      omega
  · intro hends n hn
    cases n with
    | zero =>
      rw [List.take_zero,List.sum_nil] at hn
      omega
    | succ m =>
      have hlater := hfrom.later m
      have hborder : (g.iosegment.take (g.isegment+(m+1))).sum=g.obytes+g.ibytes := by omega
      by_cases hin : g.isegment+(m+1)<g.iosegment.length
      · have := hends _ hin hborder
        omega
      · rw [List.take_of_length_le (by omega)] at hborder
        omega

/-- Where LRD is sent for everything, the datagrams that are received end as far behind the first
one with inputs as there are buffers. -/
theorem Stage.Entry.split_received_sum (hp : p.Sound ctx group)
    (h : p.Entry ctx.overlappedMode group start (statusCount group p.slavelist) g)
    (hout : ctx.overlappedMode=false ∨ g.obytes=0) {n : Nat} (hn : n≠0) (hread : g.ibytes≠0)
    (hsent : readLength g+g.obytes=g.iosegment.sum) :
    (receivedSegments ctx.overlappedMode (g.blocked n)).sum+g.obytes=
      (g.iosegment.take (g.isegment+ecMaxBuf)).sum := by
  have hfrom := h.readFrom hp hout
  have hall := hfrom.all
  have hfull : ((readSegments g).take (sentCount (readSegments g) g.ibytes)).sum=
      (readSegments g).sum := by
    rw [readLength,if_pos hread] at hsent
    omega
  rw [split_received _ hn hread,take_min_sum _ hfull]
  exact hfrom.later 15

theorem Stage.Entry.received_end_iff (hp : p.Sound ctx group)
    (h : p.Entry ctx.overlappedMode group start (statusCount group p.slavelist) g)
    (hout : ctx.overlappedMode=false ∨ g.obytes=0) (hread : g.ibytes≠0) :
    (g.iosegment.take (g.isegment+ecMaxBuf)).sum-g.obytes=(g.iosegment.take ecMaxBuf).sum-g.obytes ↔
      g.isegment=0 ∨ (g.iosegment.take ecMaxBuf).sum=g.iosegment.sum := by
  have hfrom := h.readFrom hp hout
  have hlow := h.io_le hp hout
  have hbuf : ecMaxBuf=16 := rfl
  have hmono := take_sum_mono g.iosegment (Nat.le_add_left ecMaxBuf g.isegment)
  have hfirst := take_sum_mono g.iosegment (show g.isegment+1 ≤ g.isegment+ecMaxBuf by omega)
  have hbegin : ((readSegments g).take 1).sum+g.obytes=
      (g.iosegment.take (g.isegment+1)).sum := hfrom.later 0
  have hlast := take_sum_le g.iosegment (g.isegment+ecMaxBuf)
  constructor
  · intro heq
    by_contra hbad
    obtain ⟨hsome,hless⟩ := not_or.mp hbad
    rcases Nat.lt_or_ge (g.iosegment.take ecMaxBuf).sum g.obytes with hlt|hge
    · -- no input comes with LRW, but some with LRD
      have := h.take_sum_eq hp (show g.isegment+1<g.isegment+ecMaxBuf by omega) (by omega)
      omega
    · exact hless (h.take_sum_eq hp (show ecMaxBuf<g.isegment+ecMaxBuf by omega) (by omega))
  · rintro (hzero|hall)
    · rw [hzero,Nat.zero_add]
    · omega

theorem Stage.Entry.readsToEnd_iff (hp : p.Sound ctx group)
    (h : p.Entry ctx.overlappedMode group start (statusCount group p.slavelist) g)
    (hout : ctx.overlappedMode=false ∨ g.obytes=0) {n : Nat} (hn : n≠0) :
    ReadsToEnd g ↔ readLength g+g.obytes=g.iosegment.sum ∧
      (receivedSegments ctx.overlappedMode (g.blocked n)).sum=
        (receivedSegments ctx.overlappedMode (g.blocked 0)).sum-g.obytes := by
  have hlow := h.io_le hp hout
  have hten := take_sum_le g.iosegment ecMaxBuf
  rw [h.lrw_received hp]
  by_cases hread : g.ibytes=0
  · have hnone : (receivedSegments ctx.overlappedMode (g.blocked n)).sum=0 := by
      rw [receivedSegments,if_neg (by exact hn),if_neg (by exact not_not.mpr hread)]
      rfl
    rw [ReadsToEnd,readLength,if_neg (not_not.mpr hread),hnone]
    constructor
    · rintro (heq|⟨hsome,-⟩)
      · omega
      · exact absurd hread hsome
    · rintro ⟨heq,-⟩
      exact .inl (by omega)
  · have hreceived := h.split_received_sum hp hout hn hread
    have hends := h.received_end_iff hp hout hread
    have hout' : g.iosegment.sum≠g.obytes := by omega
    rw [ReadsToEnd,or_iff_right hout',← h.readLength_iff hp hout hread]
    constructor
    · rintro ⟨-,hall',hlast⟩
      refine ⟨hall',?_⟩
      rw [← hends.mpr hlast,← hreceived hall']
      omega
    · rintro ⟨hall',heq⟩
      refine ⟨hread,hall',hends.mp ?_⟩
      rw [← hreceived hall',← heq]
      omega

end Ends

section Contents

variable {ctx ctx' : Context} {p : Stage} {group size start : Nat} {g : Group}

theorem afterCycle_split (overlapped : Bool) {n : Nat} (hn : n≠0) (reads : Nat → Option UInt8)
    (mem : IoMemory) (x : Nat) :
    afterCycle overlapped (g.blocked n) reads mem x=
      if g.obytes ≤ x ∧ x<g.obytes+(receivedSegments overlapped (g.blocked n)).sum then
        (reads (g.logstartaddr+g.obytes+(x-g.obytes))).getD 0
      else statusCleared g mem x := by
  have hn' : ¬(g.blocked n).blockLRW=0 := hn
  rw [afterCycle,receivedStart,readStart,readCommand,if_neg hn',if_neg hn',if_neg hn']
  rfl

theorem afterCycle_free {overlapped : Bool} (hout : overlapped=false ∨ g.obytes=0)
    (reads : Nat → Option UInt8) (mem : IoMemory) (x : Nat) :
    afterCycle overlapped (g.blocked 0) reads mem x=
      if x<(receivedSegments overlapped (g.blocked 0)).sum then
        (reads (g.logstartaddr+x)).getD (statusCleared g mem x)
      else statusCleared g mem x := by
  have hzero : receivedStart overlapped (g.blocked 0)=0 := by
    rw [receivedStart,if_pos (by rfl),if_neg]
    rintro ⟨hmode,hsome⟩
    rcases hout with hmode'|hnone
    · rw [hmode] at hmode'
      cases hmode'
    · exact hsome hnone
  rw [afterCycle_lrw overlapped (by rfl),hzero]
  simp only [Nat.zero_le,true_and,Nat.zero_add,Nat.sub_zero]
  rfl

/-- Where the inputs are those of the slaves, so are they after the mapping, and the status bytes
with them. -/
theorem Stage.Leaves.covers (hp : p.Sound ctx group) (h : p.Leaves ctx ctx' group size)
    (hout : ctx.overlappedMode=false ∨ p.obytes=0) {a : Nat}
    (hlow : ctx.group.logstartaddr+p.obytes ≤ a)
    (hhigh : a<ctx.group.logstartaddr+p.obytes+p.ibytes+statusCount group p.slavelist) :
    ∃ s ∈ ctx'.slavelist,s.Maps 1 a := by
  have hget : ∀ {i : Nat} {s : Slave},p.slavelist[i]?=some s → ∃ s' ∈ ctx'.slavelist,
      ∀ t a,s'.Maps t a ↔ s.Maps t a ∨ (s.TakesStatus group ∧ t=1 ∧
        a=p.statusStart ctx+statusCount group (p.slavelist.take i)) := by
    intro i s hs
    have hlen : i<ctx'.slavelist.length := by
      rw [h.length_eq]
      exact (List.getElem?_eq_some_iff.mp hs).1
    obtain ⟨s1,hs1,hmaps⟩ := h.maps hp (List.getElem?_eq_getElem hlen)
    cases hs.symm.trans hs1
    exact ⟨_,List.getElem_mem hlen,hmaps⟩
  rcases Nat.lt_or_ge a (ctx.group.logstartaddr+p.obytes+p.ibytes) with hin|hstatus
  · obtain ⟨s,hs,-,hmaps⟩ := hp.inputs hout a hlow hin
    obtain ⟨i,hi⟩ := List.mem_iff_getElem?.mp hs
    obtain ⟨s',hs',hall⟩ := hget hi
    exact ⟨s',hs',(hall 1 a).mpr (.inl hmaps)⟩
  · obtain ⟨i,s,hs,htakes,hcount⟩ := exists_status
      (show a-(ctx.group.logstartaddr+p.obytes+p.ibytes) < statusCount group p.slavelist by omega)
    obtain ⟨s',hs',hall⟩ := hget hs
    have hstart : p.statusStart ctx=ctx.group.logstartaddr+p.obytes+p.ibytes := by
      rw [Stage.statusStart,Stage.span]
      rcases hout with hmode|hzero
      · rw [hmode]
        exact (Nat.add_assoc ..).symm
      · rw [hzero,Nat.zero_max]
        split_ifs <;> omega
    exact ⟨s',hs',(hall 1 a).mpr (.inr ⟨htakes,rfl,by omega⟩)⟩

/-- Slaves that answer with a 1 at one address, and with a 0 at the others that they map. -/
noncomputable def markedAnswer (ctx : Context) (addr : Nat) : Nat → Option UInt8 :=
  open Classical in
  fun a => if ∃ s ∈ ctx.slavelist,s.Maps 1 a then some (if a=addr then 1 else 0) else none

theorem markedAnswer_isSome (ctx : Context) (addr a : Nat) :
    (markedAnswer ctx addr a).isSome=true ↔ ∃ s ∈ ctx.slavelist,s.Maps 1 a := by
  rw [markedAnswer]
  by_cases hmaps : ∃ s ∈ ctx.slavelist,s.Maps 1 a
  · rw [if_pos hmaps]
    exact ⟨fun _ => hmaps,fun _ => rfl⟩
  · rw [if_neg hmaps]
    exact ⟨fun h => Bool.noConfusion h,fun h => absurd h hmaps⟩

theorem markedAnswer_self {ctx : Context} {addr : Nat}
    (h : ∃ s ∈ ctx.slavelist,s.Maps 1 addr) : markedAnswer ctx addr addr=some 1 := by
  rw [markedAnswer,if_pos h,if_pos rfl]

theorem markedAnswer_other {ctx : Context} {addr a : Nat} (h : a≠addr) :
    (markedAnswer ctx addr a).getD 0=0 := by
  rw [markedAnswer,if_neg h]
  split_ifs <;> rfl

end Contents

section Agreement

variable {ctx ctx' : Context} {p : Stage} {group size n : Nat}

def firstByte : IoMemory := fun a => if a=0 then 1 else 0

/-- With outputs under the inputs, LRD begins too far back. -/
theorem overlap_disagrees (hfresh : ctx.Fresh group) (hp : p.Sound ctx group)
    (h : p.Leaves ctx ctx' group size) (hn : n≠0) (hmode : ctx.overlappedMode=true)
    (hout : ctx'.group.obytes≠0)
    (hin : ctx'.group.ibytes+ctx'.group.mbxstatuslength≠0) : ¬PathsAgree ctx' n := by
  intro hagree
  have hentry := h.entry_spec hfresh
  obtain ⟨m1,m2,hm1,hm2,heq⟩ := hagree.contents _
    (markedAnswer_isSome ctx' ctx'.group.logstartaddr) firstByte
  rw [h.mode,(hentry.blocked 0).cycle hp] at hm1
  rw [h.mode,(hentry.blocked n).cycle hp] at hm2
  cases hm1
  cases hm2
  have hbyte := heq ctx'.group.obytes (Nat.le_refl _) (by omega)
  have hzero : statusCleared ctx'.group firstByte 0=1 := by
    rw [statusCleared,if_neg (by omega),firstByte,if_pos rfl]
  have hother : statusCleared ctx'.group firstByte ctx'.group.obytes=0 := by
    rw [statusCleared,firstByte,if_neg hout]
    split_ifs
    · rfl
    · rfl
  -- LRW brings the first byte of the frame, or what was sent in it
  have hsome : 0 < (ctx'.group.iosegment.take ecMaxBuf).sum := by
    have htotal := hp.segments_total.1
    rw [← hentry.sum_eq,Stage.span,if_pos hmode,← hentry.obytes] at htotal
    have hmax := Nat.le_max_left ctx'.group.obytes p.ibytes
    by_contra hnone
    have := hentry.take_sum_eq hp (show 0<ecMaxBuf by decide)
      (by rw [List.take_zero,List.sum_nil]; omega)
    rw [List.take_zero,List.sum_nil] at this
    omega
  have hlrw : afterCycle ctx.overlappedMode (ctx'.group.blocked 0)
      (markedAnswer ctx' ctx'.group.logstartaddr) firstByte
      ctx'.group.obytes=1 := by
    have hstart : receivedStart ctx.overlappedMode (ctx'.group.blocked 0)=ctx'.group.obytes := by
      rw [receivedStart,if_pos (by rfl),if_pos ⟨hmode,hout⟩]
      rfl
    rw [afterCycle_lrw _ (by rfl),hstart,hentry.lrw_received hp,if_pos (by omega),Nat.sub_self]
    change (markedAnswer ctx' ctx'.group.logstartaddr (ctx'.group.logstartaddr+0)).getD
      (statusCleared ctx'.group firstByte 0)=1
    rw [hzero,Nat.add_zero]
    by_cases hmaps : ∃ s ∈ ctx'.slavelist,s.Maps 1 ctx'.group.logstartaddr
    · rw [markedAnswer_self hmaps]
      rfl
    · rw [markedAnswer,if_neg hmaps]
      rfl
  have hlrd : afterCycle ctx.overlappedMode (ctx'.group.blocked n)
      (markedAnswer ctx' ctx'.group.logstartaddr) firstByte
      ctx'.group.obytes=0 := by
    rw [afterCycle_split _ hn,hother,markedAnswer_other (by omega)]
    split_ifs
    · rfl
    · rfl
  rw [hlrw,hlrd] at hbyte
  exact absurd hbyte (by decide)

theorem Stage.Entry.paths_bytes {g : Group} {start : Nat} (hp : p.Sound ctx group)
    (h : p.Entry ctx.overlappedMode group start (statusCount group p.slavelist) g) (hn : n≠0) :
    ∃ lrw split,groupDatagrams ctx.overlappedMode (g.blocked 0)=some lrw ∧
      groupDatagrams ctx.overlappedMode (g.blocked n)=some split ∧
      (∀ a,(∃ d ∈ lrw,d.Reads a) ↔ start ≤ a ∧ a < start+g.iosegment.sum) ∧
      (∀ a,(∃ d ∈ split,d.Reads a) ↔ start+g.obytes ≤ a ∧ a < start+g.obytes+readLength g) ∧
      ∀ a x,start ≤ a → a < start+g.obytes →
        ((∃ d ∈ lrw,d.Writes a x) ↔ ∃ d ∈ split,d.Writes a x) := by
  obtain ⟨lrw,hlrw,hreads,hwrites⟩ := h.lrw_reach hp
  obtain ⟨split,hsplit,hreads',hwrites'⟩ := h.split_reach hp hn
  have hout := h.obytes_le hp
  refine ⟨lrw,split,hlrw,hsplit,hreads,hreads',?_⟩
  intro a x hlow hhigh
  rw [hwrites,hwrites']
  omega

theorem Stage.Entry.serial {g : Group} (hp : p.Sound ctx group)
    (h : p.Entry ctx.overlappedMode group ctx.group.logstartaddr
      (statusCount group p.slavelist) g) (hout : ctx.overlappedMode=false ∨ g.obytes=0) :
    (∀ a,InputAddr ctx.overlappedMode g a ↔ ctx.group.logstartaddr+g.obytes ≤ a ∧
        a<ctx.group.logstartaddr+g.obytes+g.ibytes+g.mbxstatuslength) ∧
      g.iosegment.sum ≤ g.obytes+g.ibytes+g.mbxstatuslength ∧
      g.iosegment.sum ≤ g.obytes+g.ibytes+statusCount group p.slavelist := by
  have hsum := h.sum_le hp
  have htotal := hp.segments_total.2
  rw [← h.sum_eq,Stage.span,← h.obytes,← h.ibytes] at htotal
  rw [frameLength] at hsum
  simp only [InputAddr,h.logstartaddr]
  rcases hout with hmode|hzero
  · rw [hmode] at hsum htotal ⊢
    exact ⟨fun _ => Iff.rfl,hsum,htotal⟩
  · rw [hzero,Nat.zero_max] at hsum htotal ⊢
    split_ifs at hsum htotal ⊢
    · exact ⟨fun a => by omega,by omega,by omega⟩
    · exact ⟨fun a => Iff.rfl,by omega,by omega⟩

theorem Stage.Entry.read_le {g : Group} {start : Nat} (hp : p.Sound ctx group)
    (h : p.Entry ctx.overlappedMode group start (statusCount group p.slavelist) g)
    (hout : ctx.overlappedMode=false ∨ g.obytes=0) (hn : n≠0) :
    readLength g+g.obytes ≤ g.iosegment.sum ∧
      (receivedSegments ctx.overlappedMode (g.blocked n)).sum+g.obytes ≤ g.iosegment.sum := by
  have hall := (h.readFrom hp hout).all
  by_cases hread : g.ibytes=0
  · rw [readLength,if_neg (not_not.mpr hread),receivedSegments,if_neg (by exact hn),
      if_neg (by exact not_not.mpr hread),List.sum_nil]
    omega
  · have htake := take_sum_le (readSegments g) (sentCount (readSegments g) g.ibytes)
    have htake' := take_sum_le (readSegments g)
      (min ecMaxBuf (sentCount (readSegments g) g.ibytes))
    rw [readLength,if_pos hread,split_received _ hn hread]
    omega

/-- The same contents need the same bytes to be received. -/
theorem Stage.Leaves.received_eq (hfresh : ctx.Fresh group) (hp : p.Sound ctx group)
    (h : p.Leaves ctx ctx' group size) (hn : n≠0)
    (hout : ctx.overlappedMode=false ∨ ctx'.group.obytes=0) (hagree : PathsAgree ctx' n) :
    (receivedSegments ctx.overlappedMode (ctx'.group.blocked n)).sum=
      (receivedSegments ctx.overlappedMode (ctx'.group.blocked 0)).sum-ctx'.group.obytes := by
  have hentry := h.entry_spec hfresh
  have hout' : ctx.overlappedMode=false ∨ p.obytes=0 := by
    rw [hentry.obytes] at hout
    exact hout
  obtain ⟨-,hframe,hmapped⟩ := hentry.serial hp hout
  obtain ⟨-,hlrd⟩ := hentry.read_le hp hout hn
  have hlrw := take_sum_le ctx'.group.iosegment ecMaxBuf
  rw [← hentry.lrw_received hp] at hlrw
  -- a byte that is received on one path only has the mark on that path only
  have hbyte : ∀ x,ctx'.group.obytes ≤ x → x<ctx'.group.iosegment.sum →
      (x<(receivedSegments ctx.overlappedMode (ctx'.group.blocked 0)).sum ↔
        x<ctx'.group.obytes+
          (receivedSegments ctx.overlappedMode (ctx'.group.blocked n)).sum) := by
    intro x hlow hhigh
    have haddr : ∃ s ∈ ctx'.slavelist,s.Maps 1 (ctx'.group.logstartaddr+x) := by
      rw [hentry.logstartaddr]
      rw [hentry.obytes] at hlow hmapped
      rw [hentry.ibytes] at hmapped
      exact h.covers hp hout' (by omega) (by omega)
    obtain ⟨m1,m2,hm1,hm2,heq⟩ := hagree.contents _
      (markedAnswer_isSome ctx' (ctx'.group.logstartaddr+x)) (fun _ => 0)
    rw [h.mode,(hentry.blocked 0).cycle hp] at hm1
    rw [h.mode,(hentry.blocked n).cycle hp] at hm2
    cases hm1
    cases hm2
    have hx := heq x hlow (by omega)
    have hzero : statusCleared ctx'.group (fun _ => 0) x=0 := by
      rw [statusCleared]
      split_ifs <;> rfl
    have hsame : ctx'.group.logstartaddr+ctx'.group.obytes+(x-ctx'.group.obytes)=
        ctx'.group.logstartaddr+x := by omega
    rw [afterCycle_free hout,afterCycle_split _ hn,hzero,hsame,markedAnswer_self haddr] at hx
    by_cases hfree : x<(receivedSegments ctx.overlappedMode (ctx'.group.blocked 0)).sum
    · by_contra hbad
      rw [if_pos hfree,if_neg (fun hc => hbad ⟨fun _ => hc.2,fun _ => hfree⟩)] at hx
      exact absurd hx (by decide)
    · by_contra hbad
      have hsplit : x<ctx'.group.obytes+
          (receivedSegments ctx.overlappedMode (ctx'.group.blocked n)).sum := by
        by_contra hnot
        exact hbad ⟨fun hc => absurd hc hfree,fun hc => absurd hc hnot⟩
      rw [if_neg hfree,if_pos ⟨hlow,hsplit⟩] at hx
      exact absurd hx (by decide)
  have hless := hbyte (ctx'.group.obytes+
    (receivedSegments ctx.overlappedMode (ctx'.group.blocked n)).sum) (Nat.le_add_right _ _)
  have hmore := hbyte (max ctx'.group.obytes
    (receivedSegments ctx.overlappedMode (ctx'.group.blocked 0)).sum) (Nat.le_max_left _ _)
  omega

/-- Blocking LRW changes nothing exactly if outputs and inputs do not overlap, and LRD reads to the
end of what is behind the outputs. -/
theorem paths_agree_iff (hfresh : ctx.Fresh group)
    (h : configMapGroup ctx group=some (ctx',size)) (hn : n≠0) :
    PathsAgree ctx' n ↔
      (ctx.overlappedMode=true ∧ ctx'.group.ibytes+ctx'.group.mbxstatuslength=0) ∨
        (ctx.overlappedMode=false ∨ ctx'.group.obytes=0) ∧ ReadsToEnd ctx'.group := by
  obtain ⟨p,hstage,hp,hleaves⟩ := configMapGroup_stage hfresh h
  have hentry := hleaves.entry_spec hfresh
  obtain ⟨lrw,split,hlrw,hsplit,hreads,hreads',hwrites⟩ := hentry.paths_bytes hp hn
  have hstart := hentry.logstartaddr
  have hcycle : ∀ k reads mem,completeCycle ctx'.overlappedMode (ctx'.group.blocked k) reads mem=
      some (afterCycle ctx.overlappedMode (ctx'.group.blocked k) reads mem) := by
    intro k reads mem
    rw [hleaves.mode]
    exact (hentry.blocked k).cycle hp reads mem
  by_cases hempty : ctx.overlappedMode=true ∧ ctx'.group.ibytes+ctx'.group.mbxstatuslength=0
  · -- there is nothing to be read
    refine ⟨fun _ => .inl hempty,fun _ => ⟨⟨lrw,split,?_,?_,?_,?_⟩,?_⟩⟩
    · rw [hleaves.mode]
      exact hlrw
    · rw [hleaves.mode]
      exact hsplit
    · intro a ha
      rw [hleaves.mode,InputAddr,if_pos hempty.1] at ha
      omega
    · rw [hstart]
      exact hwrites
    · intro reads _ mem
      refine ⟨_,_,hcycle 0 reads mem,hcycle n reads mem,?_⟩
      intro x hlow hhigh
      omega
  · rw [or_iff_right hempty]
    by_cases hout : ctx.overlappedMode=false ∨ ctx'.group.obytes=0
    · rw [and_iff_right hout,hentry.readsToEnd_iff hp hout hn]
      obtain ⟨hinput,hframe,hmapped⟩ := hentry.serial hp hout
      constructor
      · intro hagree
        refine ⟨?_,hleaves.received_eq hfresh hp hn hout hagree⟩
        obtain ⟨lrw1,split1,hlrw1,hsplit1,hread,-⟩ := hagree.bytes
        rw [hleaves.mode] at hlrw1 hsplit1 hread
        cases hlrw.symm.trans hlrw1
        cases hsplit.symm.trans hsplit1
        obtain ⟨hle,-⟩ := hentry.read_le hp hout hn
        by_contra hless
        -- the first byte that LRD leaves out
        have hfirst := hread (ctx.group.logstartaddr+ctx'.group.obytes+readLength ctx'.group)
          ((hinput _).mpr ⟨by omega,by omega⟩)
        rw [hreads,hreads'] at hfirst
        omega
      · rintro ⟨hsent,hreceived⟩
        refine ⟨⟨lrw,split,?_,?_,?_,?_⟩,?_⟩
        · rw [hleaves.mode]
          exact hlrw
        · rw [hleaves.mode]
          exact hsplit
        · intro a ha
          rw [hleaves.mode] at ha
          have hrange := (hinput a).mp ha
          rw [hreads,hreads']
          omega
        · rw [hstart]
          exact hwrites
        · intro reads hanswers mem
          refine ⟨_,_,hcycle 0 reads mem,hcycle n reads mem,?_⟩
          intro x hlow hhigh
          have hlast := take_sum_le ctx'.group.iosegment ecMaxBuf
          rw [← hentry.lrw_received hp] at hlast
          rw [afterCycle_free hout,afterCycle_split _ hn]
          by_cases hin : x<(receivedSegments ctx.overlappedMode (ctx'.group.blocked 0)).sum
          · have haddr : ∃ s ∈ ctx'.slavelist,s.Maps 1 (ctx'.group.logstartaddr+x) := by
              rw [hstart]
              rw [hentry.obytes] at hout hlow hmapped
              rw [hentry.ibytes] at hmapped
              exact hleaves.covers hp hout (by omega) (by omega)
            obtain ⟨v,hv⟩ := Option.isSome_iff_exists.mp ((hanswers _).mpr haddr)
            have hsame : ctx'.group.logstartaddr+ctx'.group.obytes+(x-ctx'.group.obytes)=
                ctx'.group.logstartaddr+x := by omega
            rw [if_pos hin,if_pos ⟨hlow,by omega⟩,hsame,hv]
            rfl
          · rw [if_neg hin,if_neg (by omega)]
    · obtain ⟨hmode,hsome⟩ := not_or.mp hout
      have hmode' : ctx.overlappedMode=true := by simpa using hmode
      constructor
      · intro hagree
        exact absurd hagree (overlap_disagrees hfresh hp hleaves hn hmode' hsome
          (fun hzero => hempty ⟨hmode',hzero⟩))
      · rintro ⟨hbad,-⟩
        exact absurd hbad hout

theorem mailbox_paths_agree :
    ∃ ctx' size,configMapGroup (freshContext [mailboxSlave 0] 0 false false) 0=some (ctx',size) ∧
      PathsAgree ctx' 1 := by
  have hfresh : (freshContext [mailboxSlave 0] 0 false false).Fresh 0 :=
    freshContext_fresh _ _ (by decide) (by decide) (by decide) (by simpa using mailboxSlave_fresh 0)
  have hmapped : (configMapGroup (freshContext [mailboxSlave 0] 0 false false) 0).any (fun r =>
      decide (ReadsToEnd r.1.group))=true := by decide +kernel
  obtain ⟨⟨ctx',size⟩,h,hends⟩ := (Option.any_eq_true _ _).mp hmapped
  exact ⟨ctx',size,h,(paths_agree_iff hfresh h Nat.one_ne_zero).mpr
    (.inr ⟨.inl rfl,of_decide_eq_true hends⟩)⟩

/-- A slave with a mailbox and two bytes of outputs. -/
def writeOnlySlave (group : Nat) : Slave :=
  { mailboxSlave group with
    ibits := 0
    sm := fun i => [Sm.mk 0x1000 128 1,Sm.mk 0x1080 128 2,Sm.mk 0x1100 2 3].getD i ⟨0,0,0⟩ }

theorem writeOnlySlave_fresh (group : Nat) : (writeOnlySlave group).Fresh :=
  ⟨rfl,rfl,rfl,fun _ => rfl,rfl,rfl,rfl⟩

/-- Without inputs LRD is not sent, and the status byte is not read. -/
theorem status_not_read :
    (freshContext [writeOnlySlave 0] 0 false false).Fresh 0 ∧
      ∃ ctx' size,configMapGroup (freshContext [writeOnlySlave 0] 0 false false) 0=
        some (ctx',size) ∧ size=3 ∧ ¬PathsAgree ctx' 1 := by
  have hmapped : (configMapGroup (freshContext [writeOnlySlave 0] 0 false false) 0).any (fun r =>
      decide (r.2=3 ∧ r.1.overlappedMode=false ∧ r.1.group.logstartaddr=0 ∧
        (r.1.group.obytes,r.1.group.ibytes,r.1.group.mbxstatuslength)=(2,0,1) ∧
        groupDatagrams false (r.1.group.blocked 0)=some [⟨.lrw,0,3,0,0,false⟩] ∧
        groupDatagrams false (r.1.group.blocked 1)=some [⟨.lwr,0,2,0,0,false⟩]))=true := by
    decide +kernel
  refine ⟨freshContext_fresh _ _ (by decide) (by decide) (by decide)
    (by simpa using writeOnlySlave_fresh 0),?_⟩
  obtain ⟨⟨ctx',size⟩,h,hrun⟩ := (Option.any_eq_true _ _).mp hmapped
  obtain ⟨hsize,hmode,hstart,hsizes,hlrw,hsplit⟩ := of_decide_eq_true hrun
  obtain ⟨hout,hin,hlen⟩ : ctx'.group.obytes=2 ∧ ctx'.group.ibytes=0 ∧
      ctx'.group.mbxstatuslength=1 := by
    simpa only [Prod.mk.injEq] using hsizes
  refine ⟨ctx',size,h,hsize,?_⟩
  intro hagree
  obtain ⟨lrw,split,hlrw1,hsplit1,hread,-⟩ := hagree.bytes
  rw [hmode] at hlrw1 hsplit1 hread
  cases hlrw.symm.trans hlrw1
  cases hsplit.symm.trans hsplit1
  have haddr : InputAddr false ctx'.group 2 := by
    rw [InputAddr,if_neg Bool.false_ne_true,hstart,hout,hin,hlen]
    exact ⟨by decide,by decide⟩
  obtain ⟨d,hd,hcommand,-,-⟩ := (hread 2 haddr).mp
    ⟨_,List.mem_cons_self,⟨by decide,by decide,by decide⟩⟩
  rw [List.mem_singleton.mp hd] at hcommand
  exact hcommand rfl

end Agreement

end EtherCATMaster.Mapping
