import EtherCATMaster.Clock.Measuring

namespace EtherCATMaster.Clock

/-- The times of a slave whose clock is ahead by `c`. -/
def Slave.shifted (s : Slave) (c : Int32) : Slave :=
  { s with dcRtA := s.dcRtA+c, dcRtB := s.dcRtB+c, dcRtC := s.dcRtC+c, dcRtD := s.dcRtD+c }

/-- The registers of a slave whose clock is ahead by `c`. -/
def Registers.shifted (r : Registers) (c : Int32) : Registers :=
  { r with dcTime := fun port => r.dcTime port+c }

def shiftList (δ : Nat → Int32) (slavelist : Nat → Slave) (i : Nat) : Slave :=
  (slavelist i).shifted (δ i)

def DcState.shifted (d : DcState) (δ : Nat → Int32) : DcState :=
  { d with slavelist := shiftList δ d.slavelist }

/-- Adding the constant takes a time out of its 32 bits. -/
def Wraps (t c : Int32) : Prop :=
  ¬(-2147483648 ≤ t.toInt+c.toInt ∧ t.toInt+c.toInt<2147483648)

instance (t c : Int32) : Decidable (Wraps t c) := inferInstanceAs (Decidable ¬_)

section Lowest

variable {ports : List Nat} {f g : Nat → Int32} {c : Int32}

/-- The port that `lowest` finds among times. -/
def lowestOf (ports : List Nat) (f : Nat → Int32) : Nat := lowest (ports.map fun p => (p,f p))

theorem foldl_lowest_spec (rest : List Nat) : ∀ p,
    ∃ q,(rest.map fun p => (p,f p)).foldl (fun e x => if x.2 < e.2 then x else e) (p,f p)=(q,f q) ∧
      q ∈ p::rest ∧ ∀ r ∈ p::rest,(f q).toInt ≤ (f r).toInt := by
  induction rest with
  | nil => exact fun p => ⟨p,rfl,List.mem_singleton_self p,fun r hr => by
      rw [List.mem_singleton.mp hr]⟩
  | cons x rest ih =>
    intro p
    rw [List.map_cons,List.foldl_cons]
    dsimp only
    by_cases hx : f x < f p
    · rw [if_pos hx]
      obtain ⟨q,hq,hmem,hle⟩ := ih x
      refine ⟨q,hq,List.mem_cons_of_mem p hmem,?_⟩
      intro r hr
      rcases List.mem_cons.mp hr with rfl|hr
      · have := hle x List.mem_cons_self
        rw [Int32.lt_iff_toInt_lt] at hx
        omega
      · exact hle r hr
    · rw [if_neg hx]
      obtain ⟨q,hq,hmem,hle⟩ := ih p
      refine ⟨q,hq,?_,?_⟩
      · rcases List.mem_cons.mp hmem with rfl|hmem
        · exact List.mem_cons_self
        · exact List.mem_cons_of_mem _ (List.mem_cons_of_mem _ hmem)
      · intro r hr
        rcases List.mem_cons.mp hr with rfl|hr
        · exact hle r List.mem_cons_self
        · rcases List.mem_cons.mp hr with rfl|hr
          · have := hle p List.mem_cons_self
            rw [Int32.lt_iff_toInt_lt] at hx
            omega
          · exact hle r (List.mem_cons_of_mem _ hr)

theorem lowestOf_spec (hne : ports≠[]) : lowestOf ports f ∈ ports ∧
    ∀ p ∈ ports,(f (lowestOf ports f)).toInt ≤ (f p).toInt := by
  cases ports with
  | nil => exact absurd rfl hne
  | cons p rest =>
    obtain ⟨q,hq,hmem,hle⟩ := foldl_lowest_spec (f := f) rest p
    have hfound : lowestOf (p::rest) f=q := congrArg Prod.fst hq
    rw [hfound]
    exact ⟨hmem,hle⟩

theorem lowestOf_congr (h : ∀ p ∈ ports,∀ q ∈ ports,(f p < f q ↔ g p < g q)) :
    lowestOf ports f=lowestOf ports g := by
  cases ports with
  | nil => rfl
  | cons p rest =>
    have hfold : ∀ (rest : List Nat) (p : Nat),
        (∀ x ∈ p::rest,∀ y ∈ p::rest,(f x < f y ↔ g x < g y)) →
        ((rest.map fun p => (p,f p)).foldl (fun e x => if x.2 < e.2 then x else e) (p,f p)).1=
          ((rest.map fun p => (p,g p)).foldl (fun e x => if x.2 < e.2 then x else e) (p,g p)).1 := by
      intro rest
      induction rest with
      | nil => exact fun _ _ => rfl
      | cons x rest ih =>
        intro p h
        rw [List.map_cons,List.map_cons,List.foldl_cons,List.foldl_cons]
        dsimp only
        have hxp := h x (List.mem_cons_of_mem _ List.mem_cons_self) p List.mem_cons_self
        by_cases hx : f x < f p
        · rw [if_pos hx,if_pos (hxp.mp hx)]
          exact ih x fun y hy z hz =>
            h y (List.mem_cons_of_mem _ hy) z (List.mem_cons_of_mem _ hz)
        · rw [if_neg hx,if_neg (fun hg => hx (hxp.mpr hg))]
          refine ih p fun y hy z hz => h y ?_ z ?_
          · rcases List.mem_cons.mp hy with rfl|hy
            · exact List.mem_cons_self
            · exact List.mem_cons_of_mem _ (List.mem_cons_of_mem _ hy)
          · rcases List.mem_cons.mp hz with rfl|hz
            · exact List.mem_cons_self
            · exact List.mem_cons_of_mem _ (List.mem_cons_of_mem _ hz)
    exact hfold rest p h

theorem toInt_fits {t : Int32} (h : ¬Wraps t c) : (t+c).toInt=t.toInt+c.toInt := by
  rw [Wraps,not_not] at h
  rw [Int32.toInt_add]
  exact Int.bmod_eq_of_le (by omega) (by omega)

theorem toInt_wraps {t : Int32} (h : Wraps t c) :
    (0 ≤ c.toInt ∧ (t+c).toInt=t.toInt+c.toInt-4294967296) ∨
      (c.toInt<0 ∧ (t+c).toInt=t.toInt+c.toInt+4294967296) := by
  have ht := t.toInt_lt
  have ht' := t.le_toInt
  have hc := c.toInt_lt
  have hc' := c.le_toInt
  rw [Wraps] at h
  rw [Int32.toInt_add,Int.bmod_def]
  omega

theorem lt_shifted_iff {t u : Int32} (h : Wraps t c ↔ Wraps u c) :
    (t+c).toInt<(u+c).toInt ↔ t.toInt<u.toInt := by
  by_cases hw : Wraps t c
  · have ht := toInt_wraps hw
    have hu := toInt_wraps (h.mp hw)
    omega
  · have ht := toInt_fits hw
    have hu := toInt_fits (fun hu => hw (h.mpr hu))
    omega

theorem lt_shifted_of_mixed {t u : Int32} (ht : Wraps t c) (hu : ¬Wraps u c) :
    ((t+c).toInt<(u+c).toInt ↔ u.toInt<t.toInt) ∧
      ((u+c).toInt<(t+c).toInt ↔ t.toInt<u.toInt) := by
  have ht1 := toInt_wraps ht
  have hu1 := toInt_fits hu
  have htlt := t.toInt_lt
  have htle := t.le_toInt
  have hult := u.toInt_lt
  have hule := u.le_toInt
  rw [Wraps] at ht hu
  omega

theorem lowestOf_shifted_iff : lowestOf ports (fun p => f p+c)=lowestOf ports f ↔
    ∀ p ∈ ports,∀ q ∈ ports,(Wraps (f p) c ↔ Wraps (f q) c) := by
  constructor
  · intro hsame p hp q hq
    have hne : ports≠[] := List.ne_nil_of_mem hp
    obtain ⟨hmem,hle⟩ := lowestOf_spec (f := f) hne
    obtain ⟨-,hle'⟩ := lowestOf_spec (f := fun p => f p+c) hne
    rw [hsame] at hle'
    have hlike : ∀ r ∈ ports,(Wraps (f r) c ↔ Wraps (f (lowestOf ports f)) c) := by
      intro r hr
      have h1 := hle r hr
      have h2 : (f (lowestOf ports f)+c).toInt ≤ (f r+c).toInt := hle' r hr
      by_cases heq : (f r).toInt=(f (lowestOf ports f)).toInt
      · rw [Wraps,Wraps,heq]
      · by_cases hw : Wraps (f r) c
        · refine iff_of_true hw (by_contra fun hw' => ?_)
          have hturned := lt_shifted_of_mixed hw hw'
          omega
        · refine iff_of_false hw (fun hw' => ?_)
          have hturned := lt_shifted_of_mixed hw' hw
          omega
    rw [hlike p hp,hlike q hq]
  · intro hall
    apply lowestOf_congr
    intro p hp q hq
    rw [Int32.lt_iff_toInt_lt,Int32.lt_iff_toInt_lt]
    exact lt_shifted_iff (hall p hp q hq)

end Lowest

section Shift

theorem Slave.shifted_zero (s : Slave) : s.shifted 0=s := by
  simp [Slave.shifted]

theorem sub_shifted (a b c : Int32) : a+c-(b+c)=a-b := by grind

theorem firstActive_lt {aport : UInt8} {port : Nat} {ports : List Nat} (hport : port<4)
    (hports : ∀ p ∈ ports,p<4) : firstActive aport port ports<4 := by
  rw [firstActive]
  cases hfind : ports.find? (fun p => aport &&& portMask p≠0) with
  | none => exact hport
  | some p => exact hports p (List.mem_of_find?_eq_some hfind)

theorem prevport_lt {aport : UInt8} {port : Nat} (hport : port<4) : prevport aport port<4 := by
  have h : port=0 ∨ port=1 ∨ port=2 ∨ port=3 := by omega
  rcases h with rfl|rfl|rfl|rfl <;> exact firstActive_lt (by omega) (by simp)

theorem parentport_lt (b : UInt8) : (parentport b).1<4 := by
  rw [parentport]
  split_ifs <;> simp

theorem porttime_shifted (s : Slave) (c : Int32) {port : Nat} (hport : port<4) :
    (s.shifted c).porttime port=s.porttime port+c := by
  have h : port=0 ∨ port=1 ∨ port=2 ∨ port=3 := by omega
  rcases h with rfl|rfl|rfl|rfl <;> rfl

theorem porttime_sub_shifted (s : Slave) (c : Int32) {port port' : Nat} (hport : port<4)
    (hport' : port'<4) : (s.shifted c).porttime port-(s.shifted c).porttime port'=
      s.porttime port-s.porttime port' := by
  rw [porttime_shifted s c hport,porttime_shifted s c hport',sub_shifted]

theorem propagation_shifted (s p : Slave) (cs cp : Int32) {port : Nat} (following : Bool)
    (hport : port<4) (hs : s.entryport<4) (hp : p.entryport<4) :
    propagation (s.shifted cs) (p.shifted cp) port following=propagation s p port following := by
  have hdt3 : (p.shifted cp).dt3 port=p.dt3 port :=
    porttime_sub_shifted p cp hport (prevport_lt hport)
  have hdt2 : (p.shifted cp).dt2 port following=p.dt2 port following := by
    cases following with
    | false => rfl
    | true => exact porttime_sub_shifted p cp (prevport_lt hport) hp
  have hdt1 : (s.shifted cs).dt1=s.dt1 := by
    by_cases htop : s.topology>1
    · rw [Slave.dt1,Slave.dt1,if_pos htop,if_pos (show (s.shifted cs).topology>1 from htop)]
      exact porttime_sub_shifted s cs (prevport_lt hs) hs
    · rw [Slave.dt1,Slave.dt1,if_neg htop,if_neg (show ¬(s.shifted cs).topology>1 from htop)]
  rw [propagation,propagation,hdt1,hdt2,hdt3]
  rfl

theorem shiftList_update (δ : Nat → Int32) (slavelist : Nat → Slave) (i : Nat) (s : Slave)
    (c : Int32) : shiftList (Function.update δ i c) (Function.update slavelist i s)=
      Function.update (shiftList δ slavelist) i (s.shifted c) := by
  funext k
  by_cases hk : k=i
  · subst hk
    rw [shiftList,Function.update_self,Function.update_self,Function.update_self]
  · rw [shiftList,Function.update_of_ne hk,Function.update_of_ne hk,Function.update_of_ne hk]
    rfl

theorem shiftList_update_self (δ : Nat → Int32) (slavelist : Nat → Slave) (i : Nat) (s : Slave) :
    shiftList δ (Function.update slavelist i s)=
      Function.update (shiftList δ slavelist) i (s.shifted (δ i)) := by
  rw [← shiftList_update,Function.update_eq_self]

theorem dcParent_shifted (δ : Nat → Int32) (slavelist : Nat → Slave) (n : Nat) :
    ∀ slave,dcParent (shiftList δ slavelist) n slave=dcParent slavelist n slave := by
  induction n with
  | zero => exact fun _ => rfl
  | succ n ih =>
    intro slave
    rw [dcParent,dcParent,ih]
    rfl

/-- The port that a child of `p` is connected to is consumed. -/
def consumed (slavelist : Nat → Slave) (p : Nat) : Nat → Slave :=
  Function.update slavelist p
    { slavelist p with consumedports := (parentport (slavelist p).consumedports).2 }

def Slave.placed (s p : Slave) (port : Nat) (following : Bool) : Slave :=
  { s with parentport := port, pdelay := propagation s p port following }

def childPort (slavelist : Nat → Slave) (p : Nat) : Nat :=
  if (slavelist p).topology=1 then (slavelist p).entryport
  else (parentport (slavelist p).consumedports).1

theorem consumed_fields (slavelist : Nat → Slave) (p k : Nat) :
    (consumed slavelist p k).entryport=(slavelist k).entryport ∧
    (consumed slavelist p k).activeports=(slavelist k).activeports ∧
    (consumed slavelist p k).hasdc=(slavelist k).hasdc ∧
    (consumed slavelist p k).topology=(slavelist k).topology := by
  rw [consumed]
  by_cases hk : k=p
  · subst hk
    rw [Function.update_self]
    exact ⟨rfl,rfl,rfl,rfl⟩
  · rw [Function.update_of_ne hk]
    exact ⟨rfl,rfl,rfl,rfl⟩

theorem measure_eq (slavelist : Nat → Slave) (i p child : Nat) :
    measure slavelist i p child=Function.update (consumed slavelist p) i
      ((consumed slavelist p i).placed (consumed slavelist p p) (childPort slavelist p)
        (child-p>1)) := by
  obtain ⟨hentry,-,-,htop⟩ := consumed_fields slavelist p p
  rw [childPort,← hentry,← htop]
  rfl

theorem childPort_lt {slavelist : Nat → Slave} (hports : ∀ k,(slavelist k).entryport<4) (p : Nat) :
    childPort slavelist p<4 := by
  rw [childPort]
  split_ifs
  · exact hports p
  · exact parentport_lt _

theorem consumed_shifted (δ : Nat → Int32) (slavelist : Nat → Slave) (p : Nat) :
    consumed (shiftList δ slavelist) p=shiftList δ (consumed slavelist p) := by
  rw [consumed,consumed,shiftList_update_self]
  rfl

theorem placed_shifted (s p : Slave) (cs cp : Int32) {port : Nat} (following : Bool)
    (hport : port<4) (hs : s.entryport<4) (hp : p.entryport<4) :
    (s.shifted cs).placed (p.shifted cp) port following=
      (s.placed p port following).shifted cs := by
  rw [Slave.placed,Slave.placed,propagation_shifted s p cs cp following hport hs hp]
  rfl

theorem measure_shifted (δ : Nat → Int32) {slavelist : Nat → Slave} (i p child : Nat)
    (hports : ∀ k,(slavelist k).entryport<4) :
    measure (shiftList δ slavelist) i p child=shiftList δ (measure slavelist i p child) := by
  have hentry : ∀ k,(consumed slavelist p k).entryport<4 := by
    intro k
    rw [(consumed_fields slavelist p k).1]
    exact hports k
  have hport : childPort (shiftList δ slavelist) p=childPort slavelist p := rfl
  rw [measure_eq,measure_eq,consumed_shifted,hport,shiftList_update_self,
    ← placed_shifted _ _ (δ i) (δ p) _ (childPort_lt hports p) (hentry i) (hentry p)]
  rfl

/-- The active ports, in the order in which their times are compared. -/
def activePorts (aport : UInt8) : List Nat :=
  [0,3,1,2].filter fun port => aport &&& portMask port≠0

theorem latch_entryport (s : Slave) (r : Registers) :
    (s.latch r).entryport=lowestOf (activePorts s.activeports) r.dcTime := by
  have htimes : ∀ port ∈ activePorts s.activeports,
      ({ s with dcRtA := r.dcTime 0, dcRtB := r.dcTime 1, dcRtC := r.dcTime 2,
                dcRtD := r.dcTime 3 } : Slave).porttime port=r.dcTime port := by
    intro port hport
    have hmem := (List.mem_filter.mp hport).1
    simp only [List.mem_cons,List.not_mem_nil,or_false] at hmem
    rcases hmem with rfl|rfl|rfl|rfl <;> rfl
  rw [lowestOf,← List.map_congr_left fun port hport => congrArg (Prod.mk port) (htimes port hport)]
  rfl

theorem lowestOf_lt (aport : UInt8) (f : Nat → Int32) : lowestOf (activePorts aport) f<4 := by
  by_cases hne : activePorts aport=[]
  · rw [hne]
    exact Nat.zero_lt_succ 3
  · have hmem := (List.mem_filter.mp (lowestOf_spec (f := f) hne).1).1
    simp only [List.mem_cons,List.not_mem_nil,or_false] at hmem
    omega

/-- The times that are latched are ahead as the registers are, and nothing else is different if the
entry port is the same. -/
theorem latch_shifted (s : Slave) (r : Registers) (a c : Int32)
    (h : ((s.latch (r.shifted c)).entryport=(s.latch r).entryport)) :
    (s.shifted a).latch (r.shifted c)=(s.latch r).shifted c := by
  have hlatch : (s.shifted a).latch (r.shifted c)=s.latch (r.shifted c) := rfl
  have hparts : ∀ r : Registers,s.latch r=
      { s with
        dcRtA := r.dcTime 0, dcRtB := r.dcTime 1, dcRtC := r.dcTime 2, dcRtD := r.dcTime 3
        entryport := (s.latch r).entryport
        consumedports := s.activeports &&& ~~~portMask (s.latch r).entryport } := fun _ => rfl
  rw [hlatch,hparts (r.shifted c),hparts r,h]
  rfl

theorem unlatched_shifted (s : Slave) (a : Int32) :
    (s.shifted a).unlatched=s.unlatched.shifted 0 := by
  rw [Slave.shifted_zero]
  rfl

end Shift

section Passes

variable {d : DcState} {reg : Nat → Registers} {ε δ : Nat → Int32} {mastertime : UInt64} {i : Nat}

theorem chain_shifted (d : DcState) (δ : Nat → Int32) (i : Nat) :
    (d.shifted δ).chain i=(d.chain i).shifted δ := by
  by_cases h : (d.slavelist 0).hasdc
  · rw [DcState.chain,DcState.chain,if_pos h,if_pos (show ((d.shifted δ).slavelist 0).hasdc from h)]
    rfl
  · rw [DcState.chain,DcState.chain,if_neg h,
      if_neg (show ¬((d.shifted δ).slavelist 0).hasdc from h)]
    simp only [DcState.shifted,shiftList_update_self]
    rfl

def shiftRegisters (ε : Nat → Int32) (reg : Nat → Registers) (i : Nat) : Registers :=
  (reg i).shifted (ε i)

/-- The entry port of slave `i` is found alike. -/
def SameEntry (ε : Nat → Int32) (reg : Nat → Registers) (aport : UInt8) (i : Nat) : Prop :=
  lowestOf (activePorts aport) (shiftRegisters ε reg i).dcTime=
    lowestOf (activePorts aport) (reg i).dcTime

theorem readTimes_shifted (h : SameEntry ε reg (d.slavelist i).activeports i) :
    (d.shifted δ).readTimes (shiftRegisters ε reg) mastertime i=
      (d.readTimes reg mastertime i).shifted (Function.update δ i (ε i)) := by
  have hentry : ((d.slavelist i).latch ((reg i).shifted (ε i))).entryport=
      ((d.slavelist i).latch (reg i)).entryport := by
    rw [latch_entryport,latch_entryport]
    exact h
  have hlatch := latch_shifted (d.slavelist i) (reg i) (δ i) (ε i) hentry
  simp only [DcState.readTimes,DcState.shifted,shiftList_update]
  rw [← hlatch]
  rfl

theorem readTimes_ports (hports : ∀ k,(d.slavelist k).entryport<4) :
    ∀ k,((d.readTimes reg mastertime i).slavelist k).entryport<4 := by
  intro k
  rw [readTimes_slavelist]
  by_cases hk : k=i
  · subst hk
    rw [Function.update_self,latch_entryport]
    exact lowestOf_lt _ _
  · rw [Function.update_of_ne hk]
    exact hports k

theorem chain_ports (hports : ∀ k,(d.slavelist k).entryport<4) :
    ∀ k,((d.chain i).slavelist k).entryport<4 := by
  intro k
  by_cases hk : k=0
  · subst hk
    rw [DcState.chain]
    split_ifs
    · exact hports 0
    · exact hports 0
  · rw [chain_slavelist (Nat.pos_of_ne_zero hk)]
    exact hports k

def DcState.measured (d : DcState) (i : Nat) : DcState :=
  let r := dcParent d.slavelist i i
  if r.1>0 then
    { d with
      slavelist := measure d.slavelist i r.1 r.2
      written := d.written ++ [(i,.sysDelay (measure d.slavelist i r.1 r.2 i).pdelay)] }
  else d

theorem withClock_eq (d : DcState) (reg : Nat → Registers) (mastertime : UInt64) (i : Nat) :
    d.withClock reg mastertime i=((d.chain i).readTimes reg mastertime i).measured i := rfl

theorem measured_shifted (hports : ∀ k,(d.slavelist k).entryport<4) :
    (d.shifted δ).measured i=(d.measured i).shifted δ := by
  have hparent : dcParent (d.shifted δ).slavelist i i=dcParent d.slavelist i i :=
    dcParent_shifted δ d.slavelist i i
  have hmeasure : measure (d.shifted δ).slavelist i (dcParent d.slavelist i i).1
      (dcParent d.slavelist i i).2=shiftList δ (measure d.slavelist i
        (dcParent d.slavelist i i).1 (dcParent d.slavelist i i).2) := measure_shifted δ i _ _ hports
  simp only [DcState.measured]
  rw [hparent]
  by_cases hpos : (dcParent d.slavelist i i).1>0
  · rw [if_pos hpos,if_pos hpos,hmeasure]
    rfl
  · rw [if_neg hpos,if_neg hpos]

theorem withClock_shifted (hi : 0 < i) (hports : ∀ k,(d.slavelist k).entryport<4)
    (h : SameEntry ε reg (d.slavelist i).activeports i) :
    (d.shifted δ).withClock (shiftRegisters ε reg) mastertime i=
      (d.withClock reg mastertime i).shifted (Function.update δ i (ε i)) := by
  have hentry : SameEntry ε reg ((d.chain i).slavelist i).activeports i := by
    rw [chain_slavelist hi]
    exact h
  rw [withClock_eq,withClock_eq,chain_shifted,readTimes_shifted hentry,
    measured_shifted (readTimes_ports (chain_ports hports))]

def DcState.hold (d : DcState) (i : Nat) : Nat :=
  if (d.slavelist i).parent>0 ∧ (d.slavelist (d.slavelist i).parent).topology>2 then
    (d.slavelist i).parent
  else d.parenthold

def DcState.released (d : DcState) (i : Nat) : DcState :=
  if d.hold i≠0 ∧ (d.slavelist i).topology=1 then
    { d with slavelist := consumed d.slavelist (d.hold i), parenthold := 0 }
  else { d with parenthold := d.hold i }

def DcState.unlatch (d : DcState) (i : Nat) : DcState :=
  { d with slavelist := Function.update d.slavelist i (d.slavelist i).unlatched }

theorem unlatch_slavelist (d : DcState) (i : Nat) :
    (d.unlatch i).slavelist=Function.update d.slavelist i (d.slavelist i).unlatched := rfl

theorem withoutClock_eq (d : DcState) (i : Nat) : d.withoutClock i=(d.unlatch i).released i := rfl

theorem released_shifted : (d.shifted δ).released i=(d.released i).shifted δ := by
  have hhold : (d.shifted δ).hold i=d.hold i := rfl
  have htop : ((d.shifted δ).slavelist i).topology=(d.slavelist i).topology := rfl
  rw [DcState.released,DcState.released,hhold,htop]
  by_cases hrelease : d.hold i≠0 ∧ (d.slavelist i).topology=1
  · rw [if_pos hrelease,if_pos hrelease]
    simp only [DcState.shifted,consumed_shifted]
  · rw [if_neg hrelease,if_neg hrelease]
    rfl

theorem unlatch_shifted :
    (d.shifted δ).unlatch i=(d.unlatch i).shifted (Function.update δ i 0) := by
  simp only [DcState.unlatch,DcState.shifted,shiftList_update]
  rw [← unlatched_shifted (d.slavelist i) (δ i)]
  rfl

theorem withoutClock_shifted :
    (d.shifted δ).withoutClock i=(d.withoutClock i).shifted (Function.update δ i 0) := by
  rw [withoutClock_eq,withoutClock_eq,unlatch_shifted,released_shifted]

theorem slave_shifted (hi : 0 < i) (hports : ∀ k,(d.slavelist k).entryport<4)
    (h : (d.slavelist i).hasdc → SameEntry ε reg (d.slavelist i).activeports i) :
    ∃ δ',(d.shifted δ).slave (shiftRegisters ε reg) mastertime i=
      (d.slave reg mastertime i).shifted δ' := by
  have hdc : ((d.shifted δ).slavelist i).hasdc=(d.slavelist i).hasdc := rfl
  rw [DcState.slave,DcState.slave,hdc]
  by_cases hclock : (d.slavelist i).hasdc
  · rw [if_pos hclock,if_pos hclock]
    exact ⟨_,withClock_shifted hi hports (h hclock)⟩
  · rw [if_neg hclock,if_neg hclock]
    exact ⟨_,withoutClock_shifted⟩

end Passes

section Kept

variable {d : DcState} {reg : Nat → Registers} {mastertime : UInt64} {i k : Nat}

/-- What no pass changes of a slave, and what only its own pass does. -/
structure Kept (s s' : Slave) (own : Prop) : Prop where
  hasdc : s'.hasdc=s.hasdc
  activeports : s'.activeports=s.activeports
  entryport : ¬own → s'.entryport=s.entryport

theorem Kept.refl (s : Slave) (own : Prop) : Kept s s own := ⟨rfl,rfl,fun _ => rfl⟩

theorem Kept.trans {s s' s'' : Slave} {own : Prop} (h : Kept s s' own) (h' : Kept s' s'' own) :
    Kept s s'' own :=
  ⟨h'.hasdc.trans h.hasdc,h'.activeports.trans h.activeports,
    fun hn => (h'.entryport hn).trans (h.entryport hn)⟩

theorem measured_kept : Kept (d.slavelist k) ((d.measured i).slavelist k) False := by
  simp only [DcState.measured]
  by_cases hpos : (dcParent d.slavelist i i).1>0
  · rw [if_pos hpos]
    obtain ⟨hentry,hactive,hdc,-⟩ := consumed_fields d.slavelist (dcParent d.slavelist i i).1 k
    change Kept _ (measure d.slavelist i _ _ k) False
    rw [measure_eq]
    by_cases hk : k=i
    · subst hk
      rw [Function.update_self]
      exact ⟨hdc,hactive,fun _ => hentry⟩
    · rw [Function.update_of_ne hk]
      exact ⟨hdc,hactive,fun _ => hentry⟩
  · rw [if_neg hpos]
    exact .refl _ _

theorem released_kept : Kept (d.slavelist k) ((d.released i).slavelist k) False := by
  rw [DcState.released]
  by_cases hrelease : d.hold i≠0 ∧ (d.slavelist i).topology=1
  · rw [if_pos hrelease]
    obtain ⟨hentry,hactive,hdc,-⟩ := consumed_fields d.slavelist (d.hold i) k
    exact ⟨hdc,hactive,fun _ => hentry⟩
  · rw [if_neg hrelease]
    exact .refl _ _

theorem slave_kept (hk : 0<k) :
    Kept (d.slavelist k) ((d.slave reg mastertime i).slavelist k) (k=i) := by
  rw [DcState.slave]
  by_cases hclock : (d.slavelist i).hasdc
  · rw [if_pos hclock,withClock_eq]
    have hend := measured_kept (d := (d.chain i).readTimes reg mastertime i) (i := i) (k := k)
    refine Kept.trans ?_ ⟨hend.hasdc,hend.activeports,fun _ => hend.entryport id⟩
    rw [readTimes_slavelist]
    by_cases hki : k=i
    · subst hki
      rw [Function.update_self,chain_slavelist hk]
      exact ⟨rfl,rfl,fun h => absurd rfl h⟩
    · rw [Function.update_of_ne hki,chain_slavelist hk]
      exact .refl _ _
  · rw [if_neg hclock,withoutClock_eq]
    have hend := released_kept (d := d.unlatch i) (i := i) (k := k)
    refine Kept.trans ?_ ⟨hend.hasdc,hend.activeports,fun _ => hend.entryport id⟩
    rw [unlatch_slavelist]
    by_cases hki : k=i
    · subst hki
      rw [Function.update_self]
      exact ⟨rfl,rfl,fun h => absurd rfl h⟩
    · rw [Function.update_of_ne hki]
      exact .refl _ _

theorem unlatch_ports (hports : ∀ k,(d.slavelist k).entryport<4) :
    ∀ k,((d.unlatch i).slavelist k).entryport<4 := by
  intro k
  rw [unlatch_slavelist]
  by_cases hk : k=i
  · subst hk
    rw [Function.update_self]
    exact hports k
  · rw [Function.update_of_ne hk]
    exact hports k

theorem slave_ports (hports : ∀ k,(d.slavelist k).entryport<4) :
    ∀ k,((d.slave reg mastertime i).slavelist k).entryport<4 := by
  intro k
  rw [DcState.slave]
  by_cases hclock : (d.slavelist i).hasdc
  · rw [if_pos hclock,withClock_eq,measured_kept.entryport id]
    exact readTimes_ports (chain_ports hports) k
  · rw [if_neg hclock,withoutClock_eq,released_kept.entryport id]
    exact unlatch_ports hports k

theorem slave_entryport (hi : 0 < i) (hdc : (d.slavelist i).hasdc) :
    ((d.slave reg mastertime i).slavelist i).entryport=
      lowestOf (activePorts (d.slavelist i).activeports) (reg i).dcTime := by
  rw [DcState.slave,if_pos hdc,withClock_eq,measured_kept.entryport id,readTimes_slavelist,
    Function.update_self,chain_slavelist hi]
  exact latch_entryport _ _

end Kept

section Runs

variable (reg : Nat → Registers) (mastertime : UInt64) {slavelist : Nat → Slave}

theorem configdc_succ (n : Nat) (slavelist : Nat → Slave) :
    configdc reg mastertime (n+1) slavelist=
      (configdc reg mastertime n slavelist).slave reg mastertime (n+1) := by
  rw [configdc,List.range'_concat,List.foldl_append,Nat.one_mul,Nat.add_comm 1 n]
  rfl

theorem start_slavelist {k : Nat} (hk : 0<k) :
    (DcState.start slavelist).slavelist k=slavelist k :=
  Function.update_of_ne (Nat.ne_of_gt hk) _ _

theorem configdc_ports (hports : ∀ k,(slavelist k).entryport<4) (n : Nat) :
    ∀ k,((configdc reg mastertime n slavelist).slavelist k).entryport<4 := by
  induction n with
  | zero =>
    intro k
    by_cases hk : k=0
    · subst hk
      exact hports 0
    · change ((DcState.start slavelist).slavelist k).entryport<4
      rw [start_slavelist (Nat.pos_of_ne_zero hk)]
      exact hports k
  | succ n ih =>
    rw [configdc_succ]
    exact slave_ports ih

theorem configdc_kept {k : Nat} (hk : 0<k) (n : Nat) :
    Kept (slavelist k) ((configdc reg mastertime n slavelist).slavelist k) (k ≤ n) := by
  induction n with
  | zero =>
    change Kept _ ((DcState.start slavelist).slavelist k) _
    rw [start_slavelist hk]
    exact .refl _ _
  | succ n ih =>
    rw [configdc_succ]
    have hstep := @slave_kept (configdc reg mastertime n slavelist) reg mastertime (n+1) k hk
    refine ⟨hstep.hasdc.trans ih.hasdc,hstep.activeports.trans ih.activeports,fun hn => ?_⟩
    exact (hstep.entryport (by omega)).trans (ih.entryport (by omega))

theorem configdc_entryport {k : Nat} (hk : 0<k) (hdc : (slavelist k).hasdc) (n : Nat) (hkn : k ≤ n) :
    ((configdc reg mastertime n slavelist).slavelist k).entryport=
      lowestOf (activePorts (slavelist k).activeports) (reg k).dcTime := by
  induction n with
  | zero => omega
  | succ n ih =>
    rw [configdc_succ]
    have hkept := @configdc_kept reg mastertime slavelist k hk n
    by_cases hlast : k=n+1
    · subst hlast
      rw [slave_entryport hk (hkept.hasdc.trans hdc),hkept.activeports]
    · rw [(slave_kept hk).entryport hlast]
      exact ih (by omega)

theorem configdc_shifted {ε : Nat → Int32} (hports : ∀ k,(slavelist k).entryport<4) (n : Nat)
    (h : ∀ k,0<k → k ≤ n → SameEntry ε reg (slavelist k).activeports k) :
    ∃ δ,configdc (shiftRegisters ε reg) mastertime n slavelist=
      (configdc reg mastertime n slavelist).shifted δ := by
  induction n with
  | zero =>
    refine ⟨fun _ => 0,?_⟩
    have hlist : shiftList (fun _ => 0) (DcState.start slavelist).slavelist=
        (DcState.start slavelist).slavelist := funext fun k => Slave.shifted_zero _
    change DcState.start slavelist=(DcState.start slavelist).shifted _
    rw [DcState.shifted,hlist]
  | succ n ih =>
    obtain ⟨δ,hrun⟩ := ih (fun k hk hkn => h k hk (by omega))
    have hkept := @configdc_kept reg mastertime slavelist (n+1) (Nat.succ_pos n) n
    rw [configdc_succ,configdc_succ,hrun]
    refine slave_shifted (Nat.succ_pos n) (configdc_ports reg mastertime hports n) (fun _ => ?_)
    rw [hkept.activeports]
    exact h (n+1) (Nat.succ_pos n) (Nat.le_refl _)

end Runs

/-- The registers when a constant is added to the port times of slave `j`. -/
def ahead (reg : Nat → Registers) (j : Nat) (c : Int32) : Nat → Registers :=
  Function.update reg j ((reg j).shifted c)

theorem ahead_eq (reg : Nat → Registers) (j : Nat) (c : Int32) :
    ahead reg j c=shiftRegisters (Function.update (fun _ => 0) j c) reg := by
  funext k
  rw [ahead,shiftRegisters]
  by_cases hk : k=j
  · subst hk
    rw [Function.update_self,Function.update_self]
  · rw [Function.update_of_ne hk,Function.update_of_ne hk]
    simp [Registers.shifted]

theorem configTopology_ahead (reg : Nat → Registers) (j : Nat) (c : Int32) (n : Nat) :
    configTopology (ahead reg j c) n=configTopology reg n := by
  rw [ahead_eq]
  rfl

/-- The delays that are measured, with parents, topology and active ports as they are found before. -/
def measuredDelays (reg : Nat → Registers) (mastertime : UInt64) (n i : Nat) : Nat × Nat × Int32 :=
  let s := (configdc reg mastertime n (configTopology reg n)).slavelist i
  (s.entryport,s.parentport,s.pdelay)

/-- A constant that is added to the port times of a slave changes nothing of what is measured, if
and only if it wraps the times of all its active ports or of none. -/
theorem offset_invariant_iff (reg : Nat → Registers) (mastertime : UInt64) (n j : Nat) (c : Int32)
    (hj : 0<j) (hn : j ≤ n) (hdc : (reg j).escSup &&& 0x04>0) :
    (∀ i,measuredDelays (ahead reg j c) mastertime n i=measuredDelays reg mastertime n i) ↔
      ∀ p ∈ activePorts (readTopology (reg j).dlStatus).2,
        ∀ q ∈ activePorts (readTopology (reg j).dlStatus).2,
          (Wraps ((reg j).dcTime p) c ↔ Wraps ((reg j).dcTime q) c) := by
  have hlist := configTopology_eq reg n j
  rw [if_pos ⟨hj,hn⟩] at hlist
  have hclock : (configTopology reg n j).hasdc=true := by
    rw [hlist]
    exact decide_eq_true hdc
  have hactive : (configTopology reg n j).activeports=(readTopology (reg j).dlStatus).2 := by
    rw [hlist]
    rfl
  have hports : ∀ k,(configTopology reg n k).entryport<4 := by
    intro k
    rw [configTopology_eq]
    split_ifs
    · exact Nat.zero_lt_succ 3
    · exact Nat.zero_lt_succ 3
  have hself : (ahead reg j c j).dcTime=fun port => (reg j).dcTime port+c := by
    rw [ahead,Function.update_self]
    rfl
  rw [← lowestOf_shifted_iff (f := (reg j).dcTime),← hself,← hactive]
  constructor
  · intro h
    have hentry := congrArg Prod.fst (h j)
    simp only [measuredDelays] at hentry
    rw [configTopology_ahead,configdc_entryport _ _ hj hclock n hn,
      configdc_entryport _ _ hj hclock n hn] at hentry
    exact hentry
  · intro h i
    have hsame : ∀ k,0<k → k ≤ n → SameEntry (Function.update (fun _ => 0) j c) reg
        (configTopology reg n k).activeports k := by
      intro k _ _
      rw [SameEntry,← ahead_eq]
      by_cases hk : k=j
      · subst hk
        exact h
      · rw [ahead,Function.update_of_ne hk]
    obtain ⟨δ,hrun⟩ := configdc_shifted reg mastertime hports n hsame
    simp only [measuredDelays]
    rw [configTopology_ahead,ahead_eq,hrun]
    rfl

section Example

/-- A line of two slaves. The first one's clock is about to wrap. -/
def wrappingLine : Nat → Registers :=
  (lineOfTwo 10 (Nat.succ_pos 9)).registers fun i => if i=1 then 2147483600 else 0

/-- A constant that wraps no time changes nothing. -/
theorem wrappingLine_ahead :
    measuredDelays (ahead wrappingLine 1 5) 0 2=measuredDelays wrappingLine 0 2 :=
  funext ((offset_invariant_iff wrappingLine 0 2 1 5 (by decide) (by decide)
    (by decide +kernel)).mpr (by decide +kernel))

/-- A constant that wraps the time of the second port only makes it the entry port. -/
theorem wrappingLine_changed : ¬∀ c i,measuredDelays (ahead wrappingLine 1 c) 0 2 i=
    measuredDelays wrappingLine 0 2 i := by
  intro h
  have hentry := h 40 1
  revert hentry
  decide +kernel

end Example

end EtherCATMaster.Clock
