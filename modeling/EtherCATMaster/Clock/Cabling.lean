import EtherCATMaster.Clock.Topology
import Mathlib

namespace EtherCATMaster.Clock

/-- What is plugged into a port: nothing, or a cable with its delay to the entry port of a slave,
and what is plugged into the ports 3, 1 and 2 of that slave, in the order a frame visits them. -/
inductive Cable where
  | free
  | link (delay : Nat) (positive : 0<delay) (on3 on1 on2 : Cable)

namespace Cable

def plugged : Cable → Bool
  | free => false
  | link .. => true

/-- The number of slaves that are reached over a cable. -/
def size : Cable → Nat
  | free => 0
  | link _ _ on3 on1 on2 => 1+on3.size+on1.size+on2.size

def round : Cable → Nat
  | free => 0
  | link delay _ on3 on1 on2 => 2*delay+on3.round+on1.round+on2.round

theorem round_of_free (c : Cable) (h : ¬c.plugged) : c.round=0 := by
  cases c with
  | free => rfl
  | link => exact absurd rfl h

theorem round_of_size (c : Cable) (h : c.size=0) : c.round=0 := by
  cases c with
  | free => rfl
  | link =>
    rw [size] at h
    omega

end Cable

/-- A slave in the order the frame reaches them: the port it is connected to, the time the frame
arrives, and what is plugged into it. -/
structure Visit where
  parent : Nat
  port : Nat
  arrival : Nat
  on3 : Cable
  on1 : Cable
  on2 : Cable

/-- The slaves that a frame visits when it leaves `port` of slave `parent` at time `t`, after it
has visited `n` others. -/
def Cable.visits : Cable → Nat → Nat → Nat → Nat → List Visit
  | .free,_,_,_,_ => []
  | .link delay _ on3 on1 on2,parent,port,n,t =>
      ⟨parent,port,t+delay,on3,on1,on2⟩ ::
        (on3.visits (n+1) 3 (n+1) (t+delay) ++
          (on1.visits (n+1) 1 (n+1+on3.size) (t+delay+on3.round) ++
            on2.visits (n+1) 2 (n+1+on3.size+on1.size) (t+delay+on3.round+on1.round)))

namespace Visit

def children (v : Visit) : Nat :=
  v.on3.plugged.toNat+v.on1.plugged.toNat+v.on2.plugged.toNat

def portTime (v : Visit) : Nat → Nat
  | 3 => v.arrival+v.on3.round
  | 1 => v.arrival+v.on3.round+v.on1.round
  | 2 => v.arrival+v.on3.round+v.on1.round+v.on2.round
  | _ => v.arrival

/-- The registers of a slave that the frame has visited. Its clock is `offset` ahead, and the
times of the ports in use are what it shows, without a wrap. -/
structure Seen (v : Visit) (r : Registers) (offset : Int) : Prop where
  clock : r.escSup &&& 0x04>0
  entry : portUp r.dlStatus 0
  up3 : portUp r.dlStatus 3=v.on3.plugged
  up1 : portUp r.dlStatus 1=v.on1.plugged
  up2 : portUp r.dlStatus 2=v.on2.plugged
  times : ∀ port,portUp r.dlStatus port → (r.dcTime port).toInt=v.portTime port+offset

theorem Seen.topology {v : Visit} {r : Registers} {offset : Int} (h : v.Seen r offset) :
    (readTopology r.dlStatus).1=1+v.children := by
  simp only [readTopology,List.foldl_cons,List.foldl_nil,h.entry,h.up3,h.up1,h.up2,
    Visit.children]
  cases v.on3.plugged <;> cases v.on1.plugged <;> cases v.on2.plugged <;> rfl

end Visit

theorem Cable.length_visits (c : Cable) (parent port n t : Nat) :
    (c.visits parent port n t).length=c.size := by
  induction c generalizing parent port n t with
  | free => rfl
  | link delay _ on3 on1 on2 ih3 ih1 ih2 =>
    simp only [Cable.visits,Cable.size,List.length_cons,List.length_append,ih3,ih1,ih2]
    omega

section Along

/-- The slaves of a list, the first of which has number `n+1`, have a property. -/
def Along (P : Nat → Visit → Prop) : Nat → List Visit → Prop
  | _,[] => True
  | n,v :: rest => P (n+1) v ∧ Along P (n+1) rest

variable {P Q : Nat → Visit → Prop}

theorem along_append {n : Nat} {a b : List Visit} :
    Along P n (a ++ b) ↔ Along P n a ∧ Along P (n+a.length) b := by
  induction a generalizing n with
  | nil => exact (iff_of_eq (true_and _)).symm
  | cons v a ih =>
    have hlen : n+(v :: a).length=n+1+a.length := by
      rw [List.length_cons]
      omega
    rw [List.cons_append,Along,Along,ih,hlen,and_assoc]

theorem Along.mono {n : Nat} {visits : List Visit} (h : Along P n visits)
    (himp : ∀ i v,n < i → i ≤ n+visits.length → P i v → Q i v) : Along Q n visits := by
  induction visits generalizing n with
  | nil => trivial
  | cons v rest ih =>
    rw [List.length_cons] at himp
    exact ⟨himp (n+1) v (by omega) (by omega) h.1,
      ih h.2 (fun i w hi hle => himp i w (by omega) (by omega))⟩

theorem Along.and {n : Nat} {visits : List Visit} (hp : Along P n visits)
    (hq : Along Q n visits) : Along (fun i v => P i v ∧ Q i v) n visits := by
  induction visits generalizing n with
  | nil => trivial
  | cons v rest ih => exact ⟨⟨hp.1,hq.1⟩,ih hp.2 hq.2⟩

theorem along_iff {n : Nat} {visits : List Visit} :
    Along P n visits ↔ ∀ j v,visits[j]?=some v → P (n+1+j) v := by
  induction visits generalizing n with
  | nil => exact ⟨fun _ _ _ hj => (nomatch hj),fun _ => trivial⟩
  | cons v rest ih =>
    rw [Along,ih]
    constructor
    · intro ⟨hfirst,hrest⟩ j w hj
      cases j with
      | zero =>
        obtain rfl := Option.some.inj hj
        exact hfirst
      | succ j =>
        have hnum : n+1+(j+1)=n+1+1+j := by omega
        rw [hnum]
        exact hrest j w hj
    · intro hall
      refine ⟨hall 0 v rfl,?_⟩
      intro j w hj
      have hnum : n+1+1+j=n+1+(j+1) := by omega
      rw [hnum]
      exact hall (j+1) w hj

end Along

section ParentSearch

/-- What the slaves of a list add to `topoc`. -/
def balance (visits : List Visit) : Int := (visits.map (fun v => (v.children : Int)-1)).sum

def Counted (topology : Nat → Nat) (i : Nat) (v : Visit) : Prop := topology i=1+v.children

def Parented (topology : Nat → Nat) (i : Nat) (v : Visit) : Prop :=
  parentSearch topology (i-1) 0=v.parent

/-- Every end of a list leaves `topoc` negative. -/
def Deficit (visits : List Visit) : Prop :=
  ∀ n,n<visits.length → balance (visits.drop n)<0

variable {topology : Nat → Nat}

theorem Visit.step_eq (v : Visit) : topologyStep (1+v.children)=(v.children : Int)-1 := by
  rw [Visit.children]
  cases v.on3.plugged <;> cases v.on1.plugged <;> cases v.on2.plugged <;> rfl

theorem balance_append (a b : List Visit) : balance (a ++ b)=balance a+balance b := by
  rw [balance,List.map_append,List.sum_append]
  rfl

theorem balance_cons (v : Visit) (a : List Visit) :
    balance (v :: a)=(v.children : Int)-1+balance a := by
  rw [balance,List.map_cons,List.sum_cons]
  rfl

theorem Cable.balance_visits (c : Cable) (parent port n t : Nat) :
    balance (c.visits parent port n t)=-(c.plugged.toNat : Int) := by
  induction c generalizing parent port n t with
  | free => rfl
  | link delay _ on3 on1 on2 ih3 ih1 ih2 =>
    rw [Cable.visits,balance_cons,balance_append,balance_append,ih3,ih1,ih2,Visit.children]
    simp only [Cable.plugged,Bool.toNat_true]
    omega

theorem Deficit.nil : Deficit [] := nofun

theorem Deficit.balance_le {a : List Visit} (h : Deficit a) : balance a ≤ 0 := by
  cases a with
  | nil => exact Int.le_refl 0
  | cons v a => exact Int.le_of_lt (h 0 (Nat.succ_pos _))

theorem Deficit.append {a b : List Visit} (ha : Deficit a) (hb : Deficit b) :
    Deficit (a ++ b) := by
  intro n hn
  rw [List.drop_append,balance_append]
  by_cases hlt : n<a.length
  · have hzero : n-a.length=0 := by omega
    rw [hzero,List.drop_zero]
    have := ha n hlt
    have := hb.balance_le
    omega
  · rw [List.drop_eq_nil_of_le (by omega)]
    rw [List.length_append] at hn
    have := hb (n-a.length) (by omega)
    simpa [balance] using this

theorem Deficit.cons {v : Visit} {a : List Visit} (hv : balance (v :: a)<0) (ha : Deficit a) :
    Deficit (v :: a) := by
  intro n hn
  cases n with
  | zero => exact hv
  | succ n => exact ha n (Nat.lt_of_succ_lt_succ hn)

theorem Cable.deficit_visits (c : Cable) (parent port n t : Nat) :
    Deficit (c.visits parent port n t) := by
  induction c generalizing parent port n t with
  | free => exact Deficit.nil
  | link delay positive on3 on1 on2 ih3 ih1 ih2 =>
    apply Deficit.cons
    · change balance ((Cable.link delay positive on3 on1 on2).visits parent port n t)<0
      rw [Cable.balance_visits,Cable.plugged,Bool.toNat_true]
      decide
    · exact (ih3 _ _ _ _).append ((ih1 _ _ _ _).append (ih2 _ _ _ _))

theorem parentSearch_past {k : Nat} (hk : 0<k) {visits : List Visit}
    (hcounted : Along (Counted topology) k visits) (hdeficit : Deficit visits) :
    parentSearch topology (k+visits.length) 0=parentSearch topology k (balance visits) := by
  induction visits generalizing k with
  | nil => rfl
  | cons v rest ih =>
    have hrest : Deficit rest := fun n hn => hdeficit (n+1) (Nat.succ_lt_succ hn)
    obtain ⟨hstep,hfollowing⟩ := hcounted
    rw [Counted] at hstep
    have hneg : balance rest+topologyStep (topology (k+1))=balance (v :: rest) := by
      rw [hstep,v.step_eq,balance_cons,Int.add_comm]
    have hlast := ih (Nat.succ_pos k) hfollowing hrest
    have := hdeficit 0 (Nat.succ_pos _)
    have hlen : k+(v :: rest).length=k+1+rest.length := by
      rw [List.length_cons]
      omega
    rw [hlen,hlast,parentSearch,hneg,if_neg]
    rw [List.drop_zero] at this
    omega

theorem parentSearch_stop {v : Visit} {p : Nat} {visits : List Visit} (hp : 0<p)
    (htop : Counted topology p v) (hopen : -balance visits<v.children)
    (hfull : balance visits ≤ 0) :
    parentSearch topology p (balance visits)=p := by
  obtain ⟨p,rfl⟩ := Nat.exists_eq_succ_of_ne_zero (Nat.ne_of_gt hp)
  rw [Counted] at htop
  rw [Nat.succ_eq_add_one,parentSearch,htop,v.step_eq,if_pos]
  exact .inl ⟨by omega,by omega⟩

/-- The parent of the slave after `before`, when these are the slaves of complete branches. -/
theorem parentSearch_child {v : Visit} {k : Nat} {before : List Visit} (hk : 0<k)
    (htop : Counted topology k v) (hcounted : Along (Counted topology) k before)
    (hdeficit : Deficit before) (hopen : -balance before<v.children) :
    parentSearch topology (k+before.length) 0=k := by
  rw [parentSearch_past hk hcounted hdeficit]
  exact parentSearch_stop hk htop hopen hdeficit.balance_le

def Cable.ParentsFound (topology : Nat → Nat) (c : Cable) : Prop :=
  ∀ parent port n t,Along (Counted topology) n (c.visits parent port n t) →
    Along (Parented topology) (n+1) (c.visits parent port n t).tail

/-- With its first slave, that is connected to `u`. -/
theorem Cable.ParentsFound.first {c : Cable} (h : c.ParentsFound topology) {u : Visit}
    {k n port t : Nat} {before : List Visit} (hk : 0<k) (htop : Counted topology k u)
    (hn : n=k+before.length) (hbefore : Along (Counted topology) k before)
    (hdeficit : Deficit before) (hopen : c.plugged → -balance before<u.children)
    (hcounted : Along (Counted topology) n (c.visits k port n t)) :
    Along (Parented topology) n (c.visits k port n t) := by
  subst hn
  cases c with
  | free => trivial
  | link delay positive on3 on1 on2 =>
    exact ⟨parentSearch_child hk htop hbefore hdeficit (hopen rfl),h _ _ _ _ hcounted⟩

theorem Cable.parentsFound (c : Cable) : c.ParentsFound topology := by
  induction c with
  | free => exact fun _ _ _ _ _ => trivial
  | link delay positive on3 on1 on2 ih3 ih1 ih2 =>
    intro parent port n t hcounted
    have hchildren : (Visit.mk parent port (t+delay) on3 on1 on2).children=
        on3.plugged.toNat+on1.plugged.toNat+on2.plugged.toNat := rfl
    obtain ⟨htop,hinner⟩ := hcounted
    obtain ⟨h3,hrest⟩ := along_append.mp hinner
    obtain ⟨h1,h2⟩ := along_append.mp hrest
    rw [← List.append_assoc] at hinner
    have hfront := (along_append.mp hinner).1
    have hlen3 := on3.length_visits (n+1) 3 (n+1) (t+delay)
    have hlen1 := on1.length_visits (n+1) 1 (n+1+on3.size) (t+delay+on3.round)
    have hsum3 := on3.balance_visits (n+1) 3 (n+1) (t+delay)
    have hsum1 := on1.balance_visits (n+1) 1 (n+1+on3.size) (t+delay+on3.round)
    have hdef3 := on3.deficit_visits (n+1) 3 (n+1) (t+delay)
    have hdef1 := on1.deficit_visits (n+1) 1 (n+1+on3.size) (t+delay+on3.round)
    rw [hlen3] at h1 h2
    rw [hlen1] at h2
    change Along _ (n+1) (_ ++ (_ ++ _))
    rw [along_append,along_append,hlen3,hlen1]
    refine ⟨?_,?_,?_⟩
    · apply ih3.first (Nat.succ_pos n) htop rfl (show Along _ (n+1) [] from trivial) Deficit.nil _ h3
      intro hup
      rw [hchildren,hup,balance,List.map_nil,List.sum_nil,Bool.toNat_true]
      omega
    · apply ih1.first (Nat.succ_pos n) htop (by rw [hlen3]) h3 hdef3 _ h1
      intro hup
      rw [hchildren,hup,hsum3,Bool.toNat_true]
      omega
    · apply ih2.first (Nat.succ_pos n) htop (by
        rw [List.length_append,hlen3,hlen1,Nat.add_assoc]) hfront (hdef3.append hdef1) _ h2
      intro hup
      rw [hchildren,hup,balance_append,hsum3,hsum1,Bool.toNat_true]
      omega

end ParentSearch

end EtherCATMaster.Clock
