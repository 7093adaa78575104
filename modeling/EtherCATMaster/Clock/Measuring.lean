import EtherCATMaster.Clock.Propagation

namespace EtherCATMaster.Clock

section Step

variable {d : DcState} (reg : Nat → Registers) (mastertime : UInt64) {i j p : Nat}

theorem chain_slavelist (hj : 0<j) : (d.chain i).slavelist j=d.slavelist j := by
  rw [DcState.chain]
  by_cases h : (d.slavelist 0).hasdc
  · rw [if_pos h]
  · rw [if_neg h]
    exact Function.update_of_ne (Nat.ne_of_gt hj) _ _

theorem dcParent_near {slavelist : Nat → Slave} (hi : 0 < i)
    (h : (slavelist i).parent=0 ∨ (slavelist (slavelist i).parent).hasdc) :
    dcParent slavelist i i=((slavelist i).parent,i) := by
  obtain ⟨n,rfl⟩ := Nat.exists_eq_succ_of_ne_zero (Nat.ne_of_gt hi)
  exact if_pos h

theorem readTimes_slavelist (d : DcState) :
    (d.readTimes reg mastertime i).slavelist=
      Function.update d.slavelist i ((d.slavelist i).latch (reg i)) := rfl

theorem readTimes_self (hi : 0 < i) :
    ((d.chain i).readTimes reg mastertime i).slavelist i=(d.slavelist i).latch (reg i) := by
  rw [readTimes_slavelist reg mastertime,Function.update_self,chain_slavelist hi]

theorem readTimes_other (hj : 0<j) (hne : j≠i) :
    ((d.chain i).readTimes reg mastertime i).slavelist j=d.slavelist j := by
  rw [readTimes_slavelist reg mastertime,Function.update_of_ne hne,chain_slavelist hj]

theorem slave_first (hi : 0 < i) (hdc : (d.slavelist i).hasdc) (hparent : (d.slavelist i).parent=0) :
    d.slave reg mastertime i=(d.chain i).readTimes reg mastertime i := by
  have hzero : (((d.chain i).readTimes reg mastertime i).slavelist i).parent=0 := by
    rw [readTimes_self reg mastertime hi]
    exact hparent
  have hsearch := dcParent_near hi (.inl hzero)
  rw [hzero] at hsearch
  rw [DcState.slave,if_pos hdc,DcState.withClock,hsearch,if_neg (Nat.lt_irrefl 0)]

theorem slave_child (hp : 0<p) (hpi : p < i) (hdc : (d.slavelist i).hasdc)
    (hparent : (d.slavelist i).parent=p) (hpdc : (d.slavelist p).hasdc) :
    (d.slave reg mastertime i).slavelist=
      measure ((d.chain i).readTimes reg mastertime i).slavelist i p i := by
  have hi : 0 < i := by omega
  have hself : (((d.chain i).readTimes reg mastertime i).slavelist i).parent=p := by
    rw [readTimes_self reg mastertime hi]
    exact hparent
  have hpar : (((d.chain i).readTimes reg mastertime i).slavelist p).hasdc := by
    rw [readTimes_other reg mastertime hp (Nat.ne_of_lt hpi)]
    exact hpdc
  rw [← hself] at hpar
  have hsearch := dcParent_near hi (.inr hpar)
  rw [hself] at hsearch
  rw [DcState.slave,if_pos hdc,DcState.withClock,hsearch,if_pos hp]

section Measure

variable {slavelist : Nat → Slave} {port : Nat} {rest : UInt8}

theorem measure_self (hne : i≠p) (htaken : parentport (slavelist p).consumedports=(port,rest))
    (htop : (slavelist p).topology≠1) :
    measure slavelist i p i i=
      { slavelist i with
        parentport := port
        pdelay := propagation (slavelist i) (slavelist p) port (i-p>1) } := by
  simp only [measure,Function.update_self,Function.update_of_ne hne,htaken,if_neg htop]
  rfl

theorem measure_parent (hne : i≠p)
    (htaken : parentport (slavelist p).consumedports=(port,rest)) :
    measure slavelist i p i p={ slavelist p with consumedports := rest } := by
  simp only [measure,Function.update_self,Function.update_of_ne hne.symm,htaken]

theorem measure_other (hji : j≠i) (hjp : j≠p) : measure slavelist i p i j=slavelist j := by
  simp only [measure,Function.update_of_ne hji,Function.update_of_ne hjp]

end Measure

end Step

section Latch

variable {v : Visit} {s : Slave} {r : Registers} {offset : Int}

theorem lowest_first {first : Nat × Int32} {rest : List (Nat × Int32)}
    (h : ∀ x ∈ rest,¬x.2<first.2) : lowest (first :: rest)=first.1 := by
  rw [lowest]
  induction rest with
  | nil => rfl
  | cons x rest ih =>
    obtain ⟨hx,hrest⟩ := List.forall_mem_cons.mp h
    rw [List.foldl_cons,if_neg hx]
    exact ih hrest

/-- The bits of `activeports` are the ports in use. -/
theorem active_inUse {port : Nat} (hport : port ∈ [3,1,2])
    (hbit : (portMask 0 ||| v.waiting 3) &&& portMask port≠0) : v.inUse port := by
  rw [Visit.waiting] at hbit
  simp only [List.mem_cons,List.not_mem_nil,or_false] at hport
  rcases hport with rfl|rfl|rfl
  · change v.on3.plugged=true
    revert hbit
    cases v.on3.plugged <;> cases v.on1.plugged <;> cases v.on2.plugged <;> decide
  · change v.on1.plugged=true
    revert hbit
    cases v.on3.plugged <;> cases v.on1.plugged <;> cases v.on2.plugged <;> decide
  · change v.on2.plugged=true
    revert hbit
    cases v.on3.plugged <;> cases v.on1.plugged <;> cases v.on2.plugged <;> decide

theorem lowest_portList (h : v.Known s)
    (htimes : ∀ port,v.inUse port → (s.porttime port).toInt=v.portTime port+offset) :
    lowest s.portList=0 := by
  have hentry : s.activeports &&& portMask 0≠0 := by
    rw [h.activeports,Visit.waiting]
    cases v.on3.plugged <;> cases v.on1.plugged <;> cases v.on2.plugged <;> decide
  have hactive : [0,3,1,2].filter (fun p => s.activeports &&& portMask p≠0)=
      0 :: [3,1,2].filter (fun p => s.activeports &&& portMask p≠0) :=
    List.filter_cons_of_pos (decide_eq_true hentry)
  rw [Slave.portList,hactive,List.map_cons]
  apply lowest_first
  intro x hx
  obtain ⟨port,hport,rfl⟩ := List.mem_map.mp hx
  obtain ⟨hmem,hbit⟩ := List.mem_filter.mp hport
  have hbit := of_decide_eq_true hbit
  rw [h.activeports] at hbit
  rw [Int32.lt_iff_toInt_lt,htimes port (active_inUse hmem hbit),htimes 0 rfl]
  have hle := v.arrival_le port
  have harrival : v.portTime 0=v.arrival := rfl
  omega

/-- The spec of `Slave.latch`. -/
theorem latch_spec (h : v.Known s) (hseen : v.Seen r offset) :
    v.Latched offset (s.latch r) ∧ (s.latch r).consumedports=v.waiting 3 := by
  let timed : Slave :=
    { s with dcRtA := r.dcTime 0, dcRtB := r.dcTime 1, dcRtC := r.dcTime 2, dcRtD := r.dcTime 3 }
  have hknown : v.Known timed := ⟨h.hasdc,h.topology,h.activeports,h.parent⟩
  have htimes : ∀ port,v.inUse port → (timed.porttime port).toInt=v.portTime port+offset := by
    intro port hport
    have htime := hseen.times port (hseen.inUse hport)
    match port with
    | 0 => exact htime
    | 3 => exact htime
    | 1 => exact htime
    | 2 => exact htime
  have hlow := lowest_portList hknown htimes
  refine ⟨⟨⟨h.hasdc,h.topology,h.activeports,h.parent⟩,hlow,htimes⟩,?_⟩
  change timed.activeports &&& ~~~portMask (lowest timed.portList)=_
  rw [hlow,hknown.activeports]
  exact consume_entry _ _ _

end Latch

section Tree

variable {d : DcState} (reg : Nat → Registers) (mastertime : UInt64) {offset : Nat → Int}
  {first : Nat}

/-- A slave that is still to be measured. -/
def DcState.Ready (d : DcState) (reg : Nat → Registers) (offset : Nat → Int) (i : Nat)
    (v : Visit) : Prop := v.Known (d.slavelist i) ∧ v.Seen (reg i) (offset i)

def DcState.Done (d : DcState) (offset : Nat → Int) (first i : Nat) (v : Visit) : Prop :=
  v.Measured first (offset i) (d.slavelist i)

/-- What one pass does for a slave that is connected to `port` of a measured one. -/
theorem slave_spec {u v : Visit} {p i port delay : Nat} {positive : 0<delay} (hp : 0<p)
    (hi : i=p+u.before port+1) (hu : d.Done offset first p u)
    (hwaiting : (d.slavelist p).consumedports=u.waiting port) (hv : d.Ready reg offset i v)
    (hparent : v.parent=p) (hport : v.port=port)
    (hcable : u.cableAt port=.link delay positive v.on3 v.on1 v.on2)
    (harrival : v.arrival=u.sentAt port+delay) (hfirst : first ≤ u.arrival)
    (hbound : u.back<first+2147483648) :
    (d.slave reg mastertime i).Done offset first i v ∧
      ((d.slave reg mastertime i).slavelist i).consumedports=v.waiting 3 ∧
      (d.slave reg mastertime i).slavelist p=
        { d.slavelist p with consumedports := u.waiting (Visit.next port) } ∧
      ∀ j,0<j → j≠i → j≠p → (d.slave reg mastertime i).slavelist j=d.slavelist j := by
  have hpi : p < i := by omega
  have hup : (u.cableAt port).plugged := by rw [hcable]; rfl
  obtain ⟨hknown,hseen⟩ := hv
  obtain ⟨hlatched,hconsumed⟩ := latch_spec hknown hseen
  have hstep := slave_child reg mastertime hp hpi hknown.hasdc
    (hknown.parent.trans hparent) hu.hasdc
  have hself := readTimes_self (d := d) reg mastertime 
    (show 0 < i by omega)
  have hpar := readTimes_other (d := d) reg mastertime hp
    (Nat.ne_of_lt hpi)
  have htaken := u.parentport_spec hup
  rw [← hwaiting,← hpar] at htaken
  have htop : (((d.chain i).readTimes reg mastertime i).slavelist p).topology≠1 := by
    rw [hpar,hu.topology]
    have := u.children_pos hup
    omega
  have hmeasured := measure_self (Nat.ne_of_gt hpi) htaken htop
  rw [hself,hpar] at hmeasured
  have hfollowing : decide (i-p>1)=false → u.sentAt port=u.arrival := by
    intro hnear
    have := of_decide_eq_false hnear
    exact u.sentAt_of_before (by omega)
  have hlast := u.portTime_le_back port
  have hdelay := Visit.propagation_spec hu hlatched hcable harrival hfollowing hfirst (by omega)
  rw [DcState.Done,hstep,hmeasured]
  refine ⟨⟨⟨⟨hlatched.hasdc,hlatched.topology,hlatched.activeports,hlatched.parent⟩,
      hlatched.entryport,hlatched.times⟩,hport.symm,hdelay⟩,hconsumed,?_,?_⟩
  · rw [measure_parent (Nat.ne_of_gt hpi) htaken,hpar]
  · intro j hj hji hjp
    rw [measure_other hji hjp,readTimes_other reg mastertime hj hji]

/-- The passes for the slaves `n+1` to `n+count`. -/
def DcState.passes (d : DcState) (reg : Nat → Registers) (mastertime : UInt64) (n count : Nat) :
    DcState := (List.range' (n+1) count).foldl (DcState.slave reg mastertime) d

theorem passes_succ (d : DcState) (n a : Nat) :
    d.passes reg mastertime n (1+a)=
      (d.slave reg mastertime (n+1)).passes reg mastertime (n+1) a := by
  rw [DcState.passes,Nat.add_comm 1 a,List.range'_succ,List.foldl_cons]
  rfl

theorem passes_add (d : DcState) (n a b : Nat) :
    d.passes reg mastertime n (a+b)=
      (d.passes reg mastertime n a).passes reg mastertime (n+a) b := by
  have hnum : n+1+a=n+a+1 := by omega
  rw [DcState.passes,DcState.passes,DcState.passes,← List.foldl_append,← hnum,
    List.range'_append_1]

/-- The passes for the slaves behind a cable: they measure these slaves, the port of the parent is
consumed, nothing else changes. -/
def Cable.Passed (reg : Nat → Registers) (mastertime : UInt64) (offset : Nat → Int) (first : Nat)
    (c : Cable) : Prop :=
  ∀ (u : Visit) (p port n : Nat) (d : DcState),u.cableAt port=c → 0<p → n=p+u.before port →
    d.Done offset first p u → (d.slavelist p).consumedports=u.waiting port → first ≤ u.arrival →
    u.back<first+2147483648 →
    Along (d.Ready reg offset) n (c.visits p port n (u.sentAt port)) →
      (d.passes reg mastertime n c.size).slavelist p=
          { d.slavelist p with consumedports := u.waiting (Visit.next port) } ∧
        Along ((d.passes reg mastertime n c.size).Done offset first) n
          (c.visits p port n (u.sentAt port)) ∧
        ∀ j,0<j → j≠p → (j ≤ n ∨ n+c.size<j) →
          (d.passes reg mastertime n c.size).slavelist j=d.slavelist j

theorem measured_consume {v : Visit} {o : Int} {s s' : Slave} {b : UInt8}
    (h : v.Measured first o s) (hs : s'={ s with consumedports := b }) :
    v.Measured first o s' := by
  subst hs
  exact ⟨⟨⟨h.hasdc,h.topology,h.activeports,h.parent⟩,h.entryport,h.times⟩,h.parentport,h.pdelay⟩

theorem done_frame {n : Nat} {d d' : DcState} {visits : List Visit}
    (h : Along (d.Done offset first) n visits)
    (hkept : ∀ i,n < i → i ≤ n+visits.length → d'.slavelist i=d.slavelist i) :
    Along (d'.Done offset first) n visits := by
  apply h.mono
  intro i v hlo hhi hdone
  rw [DcState.Done,hkept i hlo hhi]
  exact hdone

theorem ready_frame {n : Nat} {d d' : DcState} {visits : List Visit}
    (h : Along (d.Ready reg offset) n visits)
    (hkept : ∀ i,n < i → d'.slavelist i=d.slavelist i) : Along (d'.Ready reg offset) n visits := by
  apply h.mono
  intro i v hlo _ hready
  rw [DcState.Ready,hkept i hlo]
  exact hready

def Visit.behind (v : Visit) (k : Nat) : List Visit :=
  v.on3.visits k 3 k v.arrival ++
    (v.on1.visits k 1 (k+v.on3.size) (v.arrival+v.on3.round) ++
      v.on2.visits k 2 (k+v.on3.size+v.on1.size) (v.arrival+v.on3.round+v.on1.round))

/-- The passes for all slaves behind a measured one. -/
theorem passed_behind {v : Visit} {k : Nat} {d : DcState} (hk : 0<k)
    (h3 : v.on3.Passed reg mastertime offset first)
    (h1 : v.on1.Passed reg mastertime offset first)
    (h2 : v.on2.Passed reg mastertime offset first) (hv : d.Done offset first k v)
    (hwaiting : (d.slavelist k).consumedports=v.waiting 3) (hfirst : first ≤ v.arrival)
    (hbound : v.back<first+2147483648) (hready : Along (d.Ready reg offset) k (v.behind k)) :
    let d' := d.passes reg mastertime k (v.on3.size+v.on1.size+v.on2.size)
    d'.Done offset first k v ∧ Along (d'.Done offset first) k (v.behind k) ∧
      ∀ j,0<j → j≠k → (j<k ∨ k+(v.on3.size+v.on1.size+v.on2.size)<j) →
        d'.slavelist j=d.slavelist j := by
  obtain ⟨hready3,hrest⟩ := along_append.mp hready
  obtain ⟨hready1,hready2⟩ := along_append.mp hrest
  simp only [Cable.length_visits] at hready1 hready2
  obtain ⟨hp3,hdone3,hkept3⟩ := h3 v k 3 k d rfl hk rfl hv hwaiting hfirst hbound hready3
  have hlen3 := v.on3.length_visits k 3 k v.arrival
  have hlen1 := v.on1.length_visits k 1 (k+v.on3.size) (v.arrival+v.on3.round)
  obtain ⟨hp1,hdone1,hkept1⟩ := h1 v k 1 (k+v.on3.size) (d.passes reg mastertime k v.on3.size)
    rfl hk rfl (measured_consume hv hp3) (by rw [hp3]; rfl) hfirst hbound
    (ready_frame reg hready1 (fun i hi => hkept3 i (by omega) (by omega) (by omega)))
  have hv1 := measured_consume (measured_consume hv hp3) hp1
  obtain ⟨hp2,hdone2,hkept2⟩ := h2 v k 2 (k+v.on3.size+v.on1.size)
    ((d.passes reg mastertime k v.on3.size).passes reg mastertime (k+v.on3.size) v.on1.size)
    rfl hk (Nat.add_assoc _ _ _) hv1 (by rw [hp1]; rfl) hfirst hbound
    (ready_frame reg hready2 (fun i hi => by
      rw [hkept1 i (by omega) (by omega) (by omega),
        hkept3 i (by omega) (by omega) (by omega)]))
  intro d'
  have hd' : d'=((d.passes reg mastertime k v.on3.size).passes reg mastertime
      (k+v.on3.size) v.on1.size).passes reg mastertime (k+v.on3.size+v.on1.size) v.on2.size := by
    rw [← passes_add reg mastertime,← passes_add reg mastertime,← Nat.add_assoc]
  rw [hd']
  refine ⟨measured_consume hv1 hp2,along_append.mpr ⟨?_,along_append.mpr ⟨?_,?_⟩⟩,?_⟩
  · apply done_frame hdone3
    intro i hlo hhi
    rw [Cable.length_visits] at hhi
    rw [hkept2 i (by omega) (by omega) (by omega),hkept1 i (by omega) (by omega) (by omega)]
  · rw [hlen3]
    apply done_frame hdone1
    intro i hlo hhi
    rw [Cable.length_visits] at hhi
    rw [hkept2 i (by omega) (by omega) (by omega)]
  · rw [hlen3,hlen1]
    exact hdone2
  · intro j hj hjk hout
    rw [hkept2 j hj hjk (by omega),hkept1 j hj hjk (by omega),hkept3 j hj hjk (by omega)]

/-- The passes for the slaves behind any cable, by induction on what is connected. -/
theorem cable_passed (c : Cable) : c.Passed reg mastertime offset first := by
  induction c with
  | free =>
    intro u p port n d hcable hp hn hu hwaiting _ _ _
    refine ⟨?_,trivial,fun _ _ _ _ => rfl⟩
    change d.slavelist p=_
    rw [← u.waiting_of_free hcable,← hwaiting]
  | link delay positive on3 on1 on2 ih3 ih1 ih2 =>
    intro u p port n d hcable hp hn hu hwaiting hfirst hbound hready
    obtain ⟨hhead,hbehind⟩ := hready
    subst hn
    obtain ⟨hdone,hconsumed,hparent,hkept⟩ := slave_spec reg mastertime hp rfl hu
      hwaiting hhead rfl rfl hcable rfl hfirst hbound
    have hround : (u.cableAt port).round=2*delay+on3.round+on1.round+on2.round := by
      rw [hcable]
      rfl
    have hplugged : (u.cableAt port).plugged := by rw [hcable]; rfl
    have htime := Visit.portTime_cable hplugged
    have hlast := u.portTime_le_back port
    have hback : (Visit.mk p port (u.sentAt port+delay) on3 on1 on2).back=
        u.sentAt port+delay+on3.round+on1.round+on2.round := rfl
    have hsent := u.sentAt_ge port
    have hfirst' : first ≤ u.sentAt port+delay := by omega
    obtain ⟨hself,hinner,hframe⟩ := passed_behind reg mastertime (Nat.succ_pos _) ih3 ih1 ih2
      hdone hconsumed hfirst' (by rw [hback]; omega)
      (ready_frame reg hbehind (fun i hi => hkept i (by omega) (by omega) (by omega)))
    have hsize : (Cable.link delay positive on3 on1 on2).size=
        1+(on3.size+on1.size+on2.size) := by
      rw [Cable.size]
      omega
    rw [hsize,passes_succ reg mastertime]
    refine ⟨?_,⟨hself,hinner⟩,?_⟩
    · rw [hframe p hp (by omega) (.inl (by omega)),hparent]
    · intro j hj hjp hout
      rw [hframe j hj (by omega) (by simp only; omega),hkept j hj (by omega) hjp]

theorem first_spec {v : Visit} (hv : d.Ready reg offset 1 v) (hparent : v.parent=0)
    (hport : v.port=0) (hfirst : v.arrival=first) (hblank : (d.slavelist 1).parentport=0)
    (hzero : (d.slavelist 1).pdelay=0) :
    (d.slave reg mastertime 1).Done offset first 1 v ∧
      ((d.slave reg mastertime 1).slavelist 1).consumedports=v.waiting 3 ∧
      ∀ j,1<j → (d.slave reg mastertime 1).slavelist j=d.slavelist j := by
  obtain ⟨hknown,hseen⟩ := hv
  obtain ⟨hlatched,hconsumed⟩ := latch_spec hknown hseen
  rw [DcState.Done,slave_first reg mastertime Nat.one_pos hknown.hasdc (hknown.parent.trans hparent),
    readTimes_self reg mastertime Nat.one_pos]
  refine ⟨⟨hlatched,?_,?_⟩,hconsumed,fun j hj => readTimes_other reg mastertime (by omega) (by omega)⟩
  · rw [hport]
    exact hblank
  · change (d.slavelist 1).pdelay.toInt=_
    rw [hzero,hfirst]
    exact (Int.sub_self _).symm

end Tree

/-- The slaves behind the cable of the master, in the order that gives them their numbers. -/
def Cable.slaves (net : Cable) : List Visit := net.visits 0 0 0 0

theorem net_measured {net : Cable} {d : DcState} (reg : Nat → Registers) (mastertime : UInt64)
    {offset : Nat → Int} {first : Visit} (hhead : net.slaves.head?=some first)
    (hready : Along (d.Ready reg offset) 0 net.slaves) (hblank : (d.slavelist 1).parentport=0)
    (hzero : (d.slavelist 1).pdelay=0) (hspan : first.back<first.arrival+2^31) :
    Along ((d.passes reg mastertime 0 net.size).Done offset first.arrival) 0 net.slaves := by
  cases net with
  | free => trivial
  | link delay positive on3 on1 on2 =>
    obtain rfl := Option.some.inj hhead
    obtain ⟨hfirst,hbehind⟩ := hready
    obtain ⟨hdone,hconsumed,hkept⟩ :=
      first_spec reg mastertime hfirst rfl rfl rfl hblank hzero
    have hafter := passed_behind reg mastertime Nat.one_pos (cable_passed _ _ on3)
      (cable_passed _ _ on1) (cable_passed _ _ on2) hdone hconsumed (Nat.le_refl _) hspan
      (ready_frame reg hbehind hkept)
    have hsize : (Cable.link delay positive on3 on1 on2).size=
        1+(on3.size+on1.size+on2.size) := by
      rw [Cable.size]
      omega
    rw [hsize,passes_succ reg mastertime]
    exact ⟨hafter.1,hafter.2.1⟩

theorem connected_ready {net : Cable} {reg : Nat → Registers} {offset : Nat → Int}
    (hseen : ∀ j (v : Visit),net.slaves[j]?=some v → v.Seen (reg (j+1)) (offset (j+1))) :
    Along (fun i v => v.Known (connected reg i) ∧ v.Seen (reg i) (offset i)) 0 net.slaves := by
  have hall : Along (fun i v => v.Seen (reg i) (offset i)) 0 net.slaves := by
    rw [along_iff]
    intro j v hj
    have hnum : 0+1+j=j+1 := by omega
    rw [hnum]
    exact hseen j v hj
  have hcounted : Along (Counted (fun i => (readTopology (reg i).dlStatus).1)) 0 net.slaves :=
    hall.mono (fun i v _ _ hv => hv.topology)
  have hparents := net.parentsFound 0 0 0 0 hcounted
  cases net with
  | free => trivial
  | link delay positive on3 on1 on2 =>
    refine ⟨⟨hall.1.known reg rfl rfl,hall.1⟩,?_⟩
    apply (hall.2.and hparents).mono
    intro i v hi _ hv
    obtain ⟨hv,hparent⟩ := hv
    refine ⟨hv.known reg rfl ?_,hv⟩
    rw [← hparent]
    exact if_pos hi

/-- The delays that `ecx_configdc` stores are the times the frame takes, when the times that a
slave has latched are less than 2^31 apart. -/
theorem delays_measured (net : Cable) (reg : Nat → Registers) (offset : Nat → Int)
    (mastertime : UInt64)
    (hseen : ∀ j (v : Visit),net.slaves[j]?=some v → v.Seen (reg (j+1)) (offset (j+1)))
    (hspan : ∀ v ∈ net.slaves,v.back<v.arrival+2^31) :
    ∀ first,net.slaves.head?=some first → ∀ j v,net.slaves[j]?=some v →
      let s := (configdc reg mastertime net.size (configTopology reg net.size)).slavelist (j+1)
      s.entryport=0 ∧ s.parent=v.parent ∧ s.parentport=v.port ∧
        s.pdelay.toInt=(v.arrival : Int)-first.arrival := by
  intro first hhead j v hj
  have hstart : ∀ i,0 < i → i ≤ net.size →
      (DcState.start (configTopology reg net.size)).slavelist i=connected reg i := by
    intro i hi hle
    change Function.update _ 0 _ i=_
    rw [Function.update_of_ne (Nat.ne_of_gt hi),configTopology_eq,if_pos ⟨hi,hle⟩]
  have hready : Along ((DcState.start (configTopology reg net.size)).Ready reg offset) 0
      net.slaves := by
    apply (connected_ready hseen).mono
    intro i v hi hle hv
    rw [Cable.slaves,Cable.length_visits] at hle
    rw [DcState.Ready,hstart i hi (by omega)]
    exact hv
  have hone : 1 ≤ net.size := by
    have := (List.getElem?_eq_some_iff.mp hj).1
    rw [Cable.slaves,Cable.length_visits] at this
    omega
  have hdone := net_measured reg mastertime hhead hready
    (by rw [hstart 1 Nat.one_pos hone]; rfl) (by rw [hstart 1 Nat.one_pos hone]; rfl)
    (hspan first (List.mem_of_mem_head? hhead))
  have hslave := along_iff.mp hdone j v hj
  have hnum : 0+1+j=j+1 := by omega
  rw [hnum] at hslave
  exact ⟨hslave.entryport,hslave.parent,hslave.parentport,hslave.pdelay⟩

section Example

def dlStatusOf (up3 up1 up2 : Bool) : UInt16 :=
  0x0200 ||| (if up3 then 0x8000 else 0) ||| (if up1 then 0x0800 else 0) |||
    (if up2 then 0x2000 else 0)

theorem portUp_dlStatusOf (up3 up1 up2 : Bool) :
    portUp (dlStatusOf up3 up1 up2) 0=true ∧ portUp (dlStatusOf up3 up1 up2) 3=up3 ∧
      portUp (dlStatusOf up3 up1 up2) 1=up1 ∧ portUp (dlStatusOf up3 up1 up2) 2=up2 := by
  revert up3 up1 up2
  decide

/-- Registers that show what a slave has seen of the frame. -/
def Visit.registers (v : Visit) (offset : Int) : Registers where
  escSup := 0x04
  dlStatus := dlStatusOf v.on3.plugged v.on1.plugged v.on2.plugged
  dcTime := fun port => Int32.ofInt (v.portTime port+offset)
  dcSof := 0

theorem Visit.registers_seen {v : Visit} {offset : Int}
    (hlo : -2147483648 ≤ (v.arrival : Int)+offset) (hhi : (v.back : Int)+offset<2147483648) :
    v.Seen (v.registers offset) offset := by
  obtain ⟨h0,h3,h1,h2⟩ := portUp_dlStatusOf v.on3.plugged v.on1.plugged v.on2.plugged
  have hclock : (0x04 : UInt16) &&& 0x04>0 := by decide
  refine ⟨hclock,h0,h3,h1,h2,?_⟩
  intro port _
  have := v.arrival_le port
  have := v.portTime_le_back port
  exact Int32.toInt_ofInt_of_le (by omega) (by omega)

def Cable.registers (net : Cable) (offset : Nat → Int) (i : Nat) : Registers :=
  match net.slaves[i-1]? with
  | some v => v.registers (offset i)
  | none => ⟨0,0,fun _ => 0,0⟩

theorem Cable.registers_seen (net : Cable) (offset : Nat → Int)
    (h : ∀ e ∈ net.slaves.zipIdx,-2147483648 ≤ (e.1.arrival : Int)+offset (e.2+1) ∧
      (e.1.back : Int)+offset (e.2+1)<2147483648) :
    ∀ j (v : Visit),net.slaves[j]?=some v → v.Seen (net.registers offset (j+1)) (offset (j+1)) := by
  intro j v hj
  obtain ⟨hlo,hhi⟩ := h (v,j) (List.mem_zipIdx_iff_getElem?.mpr hj)
  rw [Cable.registers,Nat.add_sub_cancel,hj]
  exact Visit.registers_seen hlo hhi

/-- A line of two slaves. -/
def lineOfTwo (delay : Nat) (positive : 0<delay) : Cable :=
  .link 1 Nat.one_pos (.link delay positive .free .free .free) .free .free

/-- A split with three slaves behind it, the second of them with one more. -/
def splitNet : Cable :=
  .link 5 (by decide) (.link 10 (by decide) .free .free .free)
    (.link 20 (by decide) (.link 7 (by decide) .free .free .free) .free .free)
    (.link 3 (by decide) .free .free .free)

theorem splitNet_measured :
    ((configdc (splitNet.registers (fun i => 100*i)) 0 5
      (configTopology (splitNet.registers (fun i => 100*i)) 5)).slavelist 4).pdelay.toInt=47 := by
  have hseen := splitNet.registers_seen (fun i => 100*i) (by decide)
  exact (delays_measured splitNet _ (fun i => 100*i) 0 hseen (by decide) _ rfl 3 _ rfl).2.2.2

def farOffset (i : Nat) : Int := if i=1 then -2147483649 else 0

/-- The frame takes 2^31 back to the first slave: the difference of its times wraps. -/
theorem long_line_mismeasured :
    ¬∀ (net : Cable) (reg : Nat → Registers) (offset : Nat → Int) (mastertime : UInt64),
      (∀ j (v : Visit),net.slaves[j]?=some v → v.Seen (reg (j+1)) (offset (j+1))) →
      ∀ first,net.slaves.head?=some first → ∀ j v,net.slaves[j]?=some v →
        let s := (configdc reg mastertime net.size (configTopology reg net.size)).slavelist (j+1)
        s.entryport=0 ∧ s.parent=v.parent ∧ s.parentport=v.port ∧
          s.pdelay.toInt=(v.arrival : Int)-first.arrival := by
  intro hall
  have hseen := (lineOfTwo (2^30) (by decide)).registers_seen farOffset (by decide +kernel)
  have hdelay := (hall _ _ farOffset 0 hseen _ rfl 1 _ rfl).2.2.2
  revert hdelay
  decide +kernel

end Example

end EtherCATMaster.Clock
