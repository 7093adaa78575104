import EtherCATMaster.Clock.Cabling
import EtherCATMaster.Clock.Delays

namespace EtherCATMaster.Clock

section Difference

variable {a b : Int32} {x y : Int}

theorem toInt_sub_eq (ha : a.toInt=x) (hb : b.toInt=y) (hlo : -2147483648 ≤ x-y)
    (hhi : x-y<2147483648) : (a-b).toInt=x-y := by
  rw [Int32.toInt_sub,ha,hb]
  exact Int.bmod_eq_of_le hlo hhi

theorem toInt_add_eq (ha : a.toInt=x) (hb : b.toInt=y) (hlo : -2147483648 ≤ x+y)
    (hhi : x+y<2147483648) : (a+b).toInt=x+y := by
  rw [Int32.toInt_add,ha,hb]
  exact Int.bmod_eq_of_le hlo hhi

theorem toInt_half_eq (ha : a.toInt=2*x) (hlo : 0 ≤ x) (hhi : x<1073741824) :
    (a/2).toInt=x := by
  have htwo : (2 : Int32).toInt=2 := by decide
  rw [Int32.toInt_div,ha,htwo,Int.mul_tdiv_cancel_left x (by decide)]
  exact Int.bmod_eq_of_le (by omega) (by omega)

end Difference

section Ports

/-- The mask of the ports from `port` on, in the order 3, 1, 2. -/
def portsFrom (up3 up1 up2 : Bool) (port : Nat) : UInt8 :=
  let on3 := if up3 then portMask 3 else 0
  let on1 := if up1 then portMask 1 else 0
  let on2 := if up2 then portMask 2 else 0
  match port with
  | 3 => on3 ||| on1 ||| on2
  | 1 => on1 ||| on2
  | 2 => on2
  | _ => 0

variable (up3 up1 up2 : Bool)

theorem prevport_entry :
    prevport (portMask 0 ||| portsFrom up3 up1 up2 3) 0=
      if up2 then 2 else if up1 then 1 else if up3 then 3 else 0 := by
  revert up3 up1 up2
  decide

theorem prevport_three : prevport (portMask 0 ||| portsFrom true up1 up2 3) 3=0 := by
  revert up1 up2
  decide

theorem prevport_one :
    prevport (portMask 0 ||| portsFrom up3 true up2 3) 1=if up3 then 3 else 0 := by
  revert up3 up2
  decide

theorem prevport_two :
    prevport (portMask 0 ||| portsFrom up3 up1 true 3) 2=
      if up1 then 1 else if up3 then 3 else 0 := by
  revert up3 up1
  decide

theorem parentport_three :
    parentport (portsFrom true up1 up2 3)=(3,portsFrom true up1 up2 1) := by
  revert up1 up2
  decide

theorem parentport_one :
    parentport (portsFrom up3 true up2 1)=(1,portsFrom up3 true up2 2) := by
  revert up3 up2
  decide

theorem parentport_two :
    parentport (portsFrom up3 up1 true 2)=(2,portsFrom up3 up1 true 0) := by
  revert up3 up1
  decide

theorem consume_entry :
    (portMask 0 ||| portsFrom up3 up1 up2 3) &&& ~~~portMask 0=portsFrom up3 up1 up2 3 := by
  revert up3 up1 up2
  decide

end Ports

namespace Visit

def inUse (v : Visit) : Nat → Bool
  | 0 => true
  | 3 => v.on3.plugged
  | 1 => v.on1.plugged
  | 2 => v.on2.plugged
  | _ => false

def cableAt (v : Visit) : Nat → Cable
  | 3 => v.on3
  | 1 => v.on1
  | 2 => v.on2
  | _ => .free

def sentAt (v : Visit) : Nat → Nat
  | 1 => v.arrival+v.on3.round
  | 2 => v.arrival+v.on3.round+v.on1.round
  | _ => v.arrival

def before (v : Visit) : Nat → Nat
  | 1 => v.on3.size
  | 2 => v.on3.size+v.on1.size
  | _ => 0

/-- The ports whose slaves are still to come when the frame goes on to a port. -/
def waiting (v : Visit) (port : Nat) : UInt8 :=
  portsFrom v.on3.plugged v.on1.plugged v.on2.plugged port

def next : Nat → Nat
  | 3 => 1
  | 1 => 2
  | _ => 0

/-- What `ecx_config_init` knows of a slave. -/
structure Known (v : Visit) (s : Slave) : Prop where
  hasdc : s.hasdc=true
  topology : s.topology=1+v.children
  activeports : s.activeports=portMask 0 ||| v.waiting 3
  parent : s.parent=v.parent

/-- Its times are read, and its entry port is found. -/
structure Latched (v : Visit) (offset : Int) (s : Slave) : Prop extends v.Known s where
  entryport : s.entryport=0
  times : ∀ port,v.inUse port → (s.porttime port).toInt=v.portTime port+offset

/-- Its delay is measured, from slave 1 that the frame has reached at `first`. -/
structure Measured (v : Visit) (first : Nat) (offset : Int) (s : Slave) : Prop
    extends v.Latched offset s where
  parentport : s.parentport=v.port
  pdelay : s.pdelay.toInt=(v.arrival : Int)-first

variable {v : Visit}

theorem Seen.known {r : Registers} {offset : Int} (h : v.Seen r offset) (reg : Nat → Registers)
    {i : Nat} (hi : reg i=r) (hparent : (connected reg i).parent=v.parent) :
    v.Known (connected reg i) := by
  refine ⟨?_,?_,?_,hparent⟩
  · rw [connected,hi]
    exact decide_eq_true h.clock
  · rw [connected,hi]
    exact h.topology
  · rw [connected,hi]
    simp only [readTopology,List.foldl_cons,List.foldl_nil,h.entry,h.up3,h.up1,h.up2,waiting]
    cases v.on3.plugged <;> cases v.on1.plugged <;> cases v.on2.plugged <;> decide

theorem Seen.inUse {r : Registers} {offset : Int} (h : v.Seen r offset) {port : Nat}
    (hport : v.inUse port) : portUp r.dlStatus port := by
  match port with
  | 0 => exact h.entry
  | 3 => exact h.up3.trans hport
  | 1 => exact h.up1.trans hport
  | 2 => exact h.up2.trans hport

theorem arrival_le (port : Nat) : v.arrival ≤ v.portTime port := by
  unfold portTime
  split
  · omega
  · omega
  · omega
  · exact Nat.le_refl _

theorem prevport_spec {port : Nat} (hport : (v.cableAt port).plugged) :
    v.inUse (prevport (portMask 0 ||| v.waiting 3) port) ∧
      v.portTime (prevport (portMask 0 ||| v.waiting 3) port)=v.sentAt port := by
  have hround3 := v.on3.round_of_free
  have hround1 := v.on1.round_of_free
  rw [waiting]
  match port with
  | 3 =>
    rw [show v.on3.plugged=true from hport,prevport_three]
    exact ⟨rfl,rfl⟩
  | 1 =>
    rw [show v.on1.plugged=true from hport,prevport_one]
    by_cases h3 : v.on3.plugged
    · rw [if_pos h3]
      exact ⟨h3,rfl⟩
    · rw [if_neg h3]
      exact ⟨rfl,by rw [sentAt,hround3 h3]; rfl⟩
  | 2 =>
    rw [show v.on2.plugged=true from hport,prevport_two]
    by_cases h1 : v.on1.plugged
    · rw [if_pos h1]
      exact ⟨h1,rfl⟩
    · rw [if_neg h1]
      by_cases h3 : v.on3.plugged
      · rw [if_pos h3]
        exact ⟨h3,by rw [sentAt,hround1 h1]; rfl⟩
      · rw [if_neg h3]
        exact ⟨rfl,by rw [sentAt,hround1 h1,hround3 h3]; rfl⟩

/-- The time at which the frame leaves the slave for its parent. -/
def back (v : Visit) : Nat := v.arrival+v.on3.round+v.on1.round+v.on2.round

theorem prevport_entry_spec :
    v.inUse (prevport (portMask 0 ||| v.waiting 3) 0) ∧
      v.portTime (prevport (portMask 0 ||| v.waiting 3) 0)=v.back := by
  have hround3 := v.on3.round_of_free
  have hround1 := v.on1.round_of_free
  have hround2 := v.on2.round_of_free
  rw [waiting,prevport_entry,back]
  by_cases h2 : v.on2.plugged
  · rw [if_pos h2]
    exact ⟨h2,rfl⟩
  rw [if_neg h2,hround2 h2]
  by_cases h1 : v.on1.plugged
  · rw [if_pos h1]
    exact ⟨h1,rfl⟩
  rw [if_neg h1,hround1 h1]
  by_cases h3 : v.on3.plugged
  · rw [if_pos h3]
    exact ⟨h3,rfl⟩
  rw [if_neg h3,hround3 h3]
  exact ⟨rfl,rfl⟩

theorem parentport_spec {port : Nat} (hport : (v.cableAt port).plugged) :
    Clock.parentport (v.waiting port)=(port,v.waiting (next port)) := by
  match port with
  | 3 =>
    rw [waiting,waiting,show v.on3.plugged=true from hport]
    exact parentport_three _ _
  | 1 =>
    rw [waiting,waiting,show v.on1.plugged=true from hport]
    exact parentport_one _ _
  | 2 =>
    rw [waiting,waiting,show v.on2.plugged=true from hport]
    exact parentport_two _ _

theorem waiting_of_free {port : Nat} (h : v.cableAt port=.free) :
    v.waiting port=v.waiting (next port) := by
  match port with
  | 3 =>
    rw [waiting,waiting,show v.on3=.free from h]
    cases v.on1.plugged <;> cases v.on2.plugged <;> rfl
  | 1 =>
    rw [waiting,waiting,show v.on1=.free from h]
    cases v.on2.plugged <;> rfl
  | 2 =>
    rw [waiting,waiting,show v.on2=.free from h]
    rfl
  | 0 => rfl
  | _+4 => rfl

theorem portTime_cable {port : Nat} (hport : (v.cableAt port).plugged) :
    v.portTime port=v.sentAt port+(v.cableAt port).round := by
  match port with
  | 3 => rfl
  | 1 => rfl
  | 2 => rfl

theorem inUse_cable {port : Nat} (hport : (v.cableAt port).plugged) : v.inUse port := by
  match port with
  | 3 => exact hport
  | 1 => exact hport
  | 2 => exact hport

theorem sentAt_ge (port : Nat) : v.arrival ≤ v.sentAt port := by
  unfold sentAt
  split
  · omega
  · omega
  · exact Nat.le_refl _

theorem sentAt_of_before {port : Nat} (h : v.before port=0) : v.sentAt port=v.arrival := by
  match port with
  | 0 => rfl
  | 1 => rw [sentAt,v.on3.round_of_size h]; rfl
  | 2 =>
    obtain ⟨h3,h1⟩ := Nat.add_eq_zero_iff.mp h
    rw [sentAt,v.on3.round_of_size h3,v.on1.round_of_size h1]
    rfl
  | _+3 => rfl

theorem portTime_le_back (port : Nat) : v.portTime port ≤ v.back := by
  unfold portTime back
  split
  · omega
  · omega
  · omega
  · omega

theorem children_pos {port : Nat} (hport : (v.cableAt port).plugged) : 0<v.children := by
  rw [children]
  unfold cableAt at hport
  split at hport
  · rw [hport,Bool.toNat_true]
    omega
  · rw [hport,Bool.toNat_true]
    omega
  · rw [hport,Bool.toNat_true]
    omega
  · cases hport

theorem back_of_leaf (h : ¬1+v.children>1) : v.back=v.arrival := by
  have hfree : ∀ c : Cable,c.plugged.toNat=0 → c.round=0 := by
    intro c hc
    apply c.round_of_free
    intro hup
    rw [hup] at hc
    cases hc
  rw [children] at h
  rw [back,hfree v.on3 (by omega),hfree v.on1 (by omega),hfree v.on2 (by omega)]
  rfl

theorem Latched.behind {offset : Int} {s : Slave} (h : v.Latched offset s)
    (hbound : v.back<v.arrival+2147483648) :
    s.dt1.toInt=(v.back : Int)-v.arrival := by
  obtain ⟨huse,htime⟩ := v.prevport_entry_spec
  rw [Slave.dt1,h.topology,h.activeports,h.entryport]
  by_cases hleaf : 1+v.children>1
  · rw [if_pos hleaf]
    have hlast := h.times _ huse
    have hentry := h.times 0 rfl
    rw [htime] at hlast
    have hle : v.arrival ≤ v.back := by
      rw [back]
      omega
    have harrival : v.portTime 0=v.arrival := rfl
    rw [toInt_sub_eq hlast hentry (by omega) (by omega)]
    omega
  · rw [if_neg hleaf,v.back_of_leaf hleaf]
    exact (Int.sub_self _).symm

/-- The delay that is computed for a slave behind `port` of a measured one. -/
theorem propagation_spec {u : Visit} {su sv : Slave} {port first delay : Nat} {ou ov : Int}
    {positive : 0<delay} {following : Bool} (hu : u.Measured first ou su) (hv : v.Latched ov sv)
    (hcable : u.cableAt port=.link delay positive v.on3 v.on1 v.on2)
    (harrival : v.arrival=u.sentAt port+delay)
    (hfollowing : following=false → u.sentAt port=u.arrival) (hfirst : first ≤ u.arrival)
    (hbound : u.portTime port<first+2147483648) :
    (propagation sv su port following).toInt=(v.arrival : Int)-first := by
  have hport : (u.cableAt port).plugged := by rw [hcable]; rfl
  obtain ⟨huse,hprev⟩ := prevport_spec hport
  have htime := portTime_cable hport
  have hround : (u.cableAt port).round=2*delay+v.on3.round+v.on1.round+v.on2.round := by
    rw [hcable]
    rfl
  have hsent := u.sentAt_ge port
  have hback : v.back=v.arrival+v.on3.round+v.on1.round+v.on2.round := rfl
  have hentry := hu.times 0 rfl
  have hbefore := hu.times _ huse
  rw [hprev] at hbefore
  have h0 : u.portTime 0=u.arrival := rfl
  have hdt3 : (su.dt3 port).toInt=(u.portTime port : Int)+ou-(u.sentAt port+ou) := by
    rw [Slave.dt3,hu.activeports]
    exact toInt_sub_eq (hu.times port (inUse_cable hport)) hbefore (by omega) (by omega)
  have hdt1 := hv.behind (by omega)
  have hdt2 : (su.dt2 port following).toInt=(u.sentAt port : Int)-u.arrival := by
    rw [Slave.dt2,hu.activeports,hu.entryport]
    cases following with
    | true =>
      rw [if_pos rfl,toInt_sub_eq hbefore hentry (by omega) (by omega)]
      omega
    | false =>
      rw [if_neg Bool.false_ne_true,hfollowing rfl]
      exact (Int.sub_self _).symm
  have hsmall : ¬sv.dt1>su.dt3 port := by
    rw [gt_iff_lt,Int32.lt_iff_toInt_lt,hdt1,hdt3]
    omega
  have hpositive : ¬su.dt2 port following<0 := by
    rw [Int32.lt_iff_toInt_lt,hdt2,Int32.toInt_zero]
    omega
  simp only [propagation]
  rw [if_neg hsmall,if_neg hpositive]
  have htwice := toInt_sub_eq hdt3 hdt1 (by omega) (by omega)
  have hhalf := toInt_half_eq (x := delay) (by rw [htwice]; omega) (by omega) (by omega)
  have hsum := toInt_add_eq hhalf hdt2 (by omega) (by omega)
  rw [toInt_add_eq hsum hu.pdelay (by omega) (by omega)]
  omega

end Visit

end EtherCATMaster.Clock
