import EtherCATMaster.Clock.Cabling

namespace EtherCATMaster.Clock

/-- A slave with the slaves that are connected to it, in processing order. -/
inductive SlaveTree where
  | slave (children : List SlaveTree)

/-- A slave in processing order: its parent, and the slaves that are connected to it. -/
structure Place where
  parent : Nat
  children : Nat
  deriving DecidableEq, Repr

namespace SlaveTree

def children : SlaveTree → List SlaveTree
  | slave children => children

mutual

/-- The slaves of a tree in processing order, when `n` come before it and it is connected to
`parent`. -/
def places : SlaveTree → Nat → Nat → List Place
  | slave children,parent,n => ⟨parent,children.length⟩::forestPlaces children (n+1) (n+1)

/-- The slaves of trees that are all connected to `parent`. -/
def forestPlaces : List SlaveTree → Nat → Nat → List Place
  | [],_,_ => []
  | t::rest,parent,n =>
      t.places parent n++forestPlaces rest parent (n+(t.places parent n).length)

end

mutual

/-- A slave has four ports, and one of them leads to its parent. -/
def Wired : SlaveTree → Prop
  | slave children => children.length ≤ 3 ∧ ForestWired children

def ForestWired : List SlaveTree → Prop
  | [] => True
  | t::rest => t.Wired ∧ ForestWired rest

end

/-- The slaves of a network, in which the first one is connected to the master. -/
def network (t : SlaveTree) : List Place := t.places 0 0

def cable : SlaveTree → Cable
  | slave [] => .link 1 Nat.one_pos .free .free .free
  | slave [a] => .link 1 Nat.one_pos a.cable .free .free
  | slave [a,b] => .link 1 Nat.one_pos a.cable b.cable .free
  | slave (a::b::c::_) => .link 1 Nat.one_pos a.cable b.cable c.cable


theorem cable_plugged (t : SlaveTree) : t.cable.plugged=true := by
  cases t with
  | slave children => rcases children with _|⟨a,_|⟨b,_|⟨c,rest⟩⟩⟩ <;> rfl

end SlaveTree

/-- A visit without its times and ports. -/
def Visit.place (v : Visit) : Place := ⟨v.parent,v.children⟩

namespace SlaveTree

/-- The frame visits the slaves of the cabling in processing order. -/
theorem places_cable (t : SlaveTree) : ∀ (parent port n time : Nat),t.Wired →
    (t.cable.visits parent port n time).map Visit.place=t.places parent n := by
  induction t using cable.induct with
  | case1 =>
    intro parent port n time _
    rfl
  | case2 a iha =>
    intro parent port n time hw
    obtain ⟨-,ha,-⟩ := hw
    simp only [cable,Cable.visits,List.append_nil,List.map_cons,iha _ _ _ _ ha,places,
      forestPlaces,Visit.place,Visit.children,cable_plugged]
    rfl
  | case3 a b iha ihb =>
    intro parent port n time hw
    obtain ⟨-,ha,hb,-⟩ := hw
    have hsize : a.cable.size=(a.places (n+1) (n+1)).length := by
      rw [← iha (n+1) 3 (n+1) (time+1) ha,List.length_map,Cable.length_visits]
    simp only [cable,Cable.visits,List.append_nil,List.map_cons,List.map_append,iha _ _ _ _ ha,
      ihb _ _ _ _ hb,places,forestPlaces,Visit.place,Visit.children,cable_plugged,hsize]
    rfl
  | case4 a b c rest iha ihb ihc =>
    intro parent port n time hw
    obtain ⟨hlen,ha,hb,hc,-⟩ := hw
    have hrest : rest=[] := by
      simp only [List.length_cons] at hlen
      exact List.eq_nil_of_length_eq_zero (by omega)
    subst hrest
    have hsize : a.cable.size=(a.places (n+1) (n+1)).length := by
      rw [← iha (n+1) 3 (n+1) (time+1) ha,List.length_map,Cable.length_visits]
    have hsize' : b.cable.size=(b.places (n+1) (n+1+a.cable.size)).length := by
      rw [← ihb (n+1) 1 (n+1+a.cable.size) (time+1+a.cable.round) hb,List.length_map,
        Cable.length_visits]
    rw [hsize] at hsize'
    simp only [cable,Cable.visits,List.append_nil,List.map_cons,List.map_append,iha _ _ _ _ ha,
      ihb _ _ _ _ hb,ihc _ _ _ _ hc,places,forestPlaces,Visit.place,Visit.children,cable_plugged,
      hsize,hsize']
    rfl

end SlaveTree

/-- The slaves have come to be stored with the topology of a tree. -/
def Stored (slavelist : Nat → Slave) (t : SlaveTree) : Prop :=
  ∀ i place,t.network[i]?=some place → (slavelist (i+1)).topology=place.children+1

/-- Every slave but the first gets its parent in the tree. -/
theorem parents_in_tree (reg : Nat → Registers) (t : SlaveTree) (hw : t.Wired)
    (hstored : Stored (configTopology reg t.network.length) t) {i : Nat} {place : Place}
    (hi : 0 < i) (hplace : t.network[i]?=some place) :
    (configTopology reg t.network.length (i+1)).parent=place.parent := by
  have hnetwork : t.network=(t.cable.visits 0 0 0 0).map Visit.place :=
    (t.places_cable 0 0 0 0 hw).symm
  have hlt : ∀ {j p},t.network[j]?=some p → j < t.network.length :=
    fun h => (List.getElem?_eq_some_iff.mp h).1
  have hconnected : ∀ {j p},t.network[j]?=some p →
      configTopology reg t.network.length (j+1)=connected reg (j+1) := by
    intro j p hj
    have := hlt hj
    rw [configTopology_eq,if_pos (by omega)]
  have hcounted : Along (Counted (fun j => (readTopology (reg j).dlStatus).1)) 0
      (t.cable.visits 0 0 0 0) := by
    refine along_iff.mpr fun j v hv => ?_
    have hj : t.network[j]?=some v.place := by
      rw [hnetwork,List.getElem?_map,hv]
      rfl
    have htop := hstored j v.place hj
    rw [hconnected hj] at htop
    rw [Counted,show 0+1+j=j+1 by omega]
    exact htop.trans (Nat.add_comm _ _)
  have hfound := along_iff.mp (Cable.parentsFound t.cable 0 0 0 0 hcounted)
  obtain ⟨k,rfl⟩ := Nat.exists_eq_succ_of_ne_zero (Nat.ne_of_gt hi)
  have hv := hplace
  rw [hnetwork,List.getElem?_map] at hv
  obtain ⟨v,hget,rfl⟩ := Option.map_eq_some_iff.mp hv
  have hparent := hfound k v (by rw [List.getElem?_tail]; exact hget)
  rw [Parented,show 0+1+1+k-1=k+1 by omega] at hparent
  rw [hconnected hplace,connected,if_pos (by omega)]
  exact hparent

/-- A line of two slaves and a single one behind a slave with three links. -/
def branched : SlaveTree := .slave [.slave [.slave []],.slave []]

def branchedRegisters : Nat → Registers
  | 1 => ⟨0,0x2a00,fun _ => 0,0⟩
  | 2 => ⟨0,0x0a00,fun _ => 0,0⟩
  | _ => ⟨0,0x0200,fun _ => 0,0⟩

theorem branched_stored :
    Stored (configTopology branchedRegisters branched.network.length) branched := by
  intro i place h
  match i,h with
  | 0,h => cases h; rfl
  | 1,h => cases h; rfl
  | 2,h => cases h; rfl
  | 3,h => cases h; rfl
  | _+4,h => cases h

/-- The search goes past the line of two. -/
theorem branched_parent :
    branched.network=[⟨0,2⟩,⟨1,1⟩,⟨2,0⟩,⟨1,0⟩] ∧
    (configTopology branchedRegisters branched.network.length 4).parent=1 := by
  have hwired : branched.Wired :=
    ⟨by decide,⟨by decide,⟨by decide,trivial⟩,trivial⟩,⟨by decide,trivial⟩,trivial⟩
  have hthird : 0<3 := by decide
  exact ⟨rfl,parents_in_tree branchedRegisters branched hwired branched_stored hthird rfl⟩

end EtherCATMaster.Clock
