import EtherCATMaster.Nicdrv.Requests

namespace EtherCATMaster.Nicdrv

open EtherCATMaster.Framework
open EtherCATMaster.Mapping (ecMaxBuf ecNoFrame ecBufsize ethHeadersize writeBytes readBytes)

/-- No two threads have the same index. -/
def Shared.Exclusive (s : Shared) : Prop :=
  ∀ t u idx,s.held t=some idx → s.held u=some idx → t=u

/-- The search of `ecx_getindex` does not come round without an empty index, and an empty index that it
comes to is not that of a thread whose frame did not go out. -/
def IndexFree (s : Shared) : PortEvent → Prop
  | .run t _ =>
      match (s.threads t).phase with
      | .search idx cnt =>
          ((s.lane .primary).rxbufstat idx=.empty ∨ cnt < ecMaxBuf) ∧
            ((s.lane .primary).rxbufstat idx=.empty →
              ∀ u,s.held u=some idx → (s.threads u).unsent=false)
      | _ => True
  | _ => True

/-- The thread has `getindex_mutex`. -/
def Phase.indexing : Phase → Bool
  | .search _ _ => true
  | .alloc _ => true
  | .allocRed _ => true
  | .last _ => true
  | .unlockIndex _ => true
  | _ => false

/-- What holds of the indices at any time. -/
structure Guarded (s : Shared) : Prop where
  owner : ∀ t,(s.threads t).phase.indexing=true ↔ s.getindexMutex=some t
  kept : ∀ t idx,s.held t=some idx → (s.threads t).unsent=false →
    (s.lane .primary).rxbufstat idx≠.empty
  single : s.Exclusive
  chosen : ∀ t u idx,(s.threads t).phase=.alloc idx → s.held u≠some idx

/-- A step that changes nothing about indices, but for states of buffers that are not empty. -/
structure Silent (t : Nat) (s s' : Shared) : Prop where
  mutex : s'.getindexMutex=s.getindexMutex
  other : ∀ u,u≠t → s'.threads u=s.threads u
  held : s'.held t=s.held t
  indexing : (s'.threads t).phase.indexing=(s.threads t).phase.indexing
  alloc : ∀ idx,(s'.threads t).phase≠.alloc idx
  stat : ∀ j,(s'.lane .primary).rxbufstat j=.empty → (s.lane .primary).rxbufstat j=.empty
  unsent : (s'.threads t).unsent=false → (s.threads t).unsent=false ∨
    ∀ idx,s.held t=some idx → (s'.lane .primary).rxbufstat idx≠.empty

section Phases

variable {s : Shared} {t : Nat}

theorem Shared.goto_self (s : Shared) (t : Nat) (p : Phase) :
    (s.goto t p).threads t={ s.threads t with phase := p } := Function.update_self ..

theorem Shared.goto_other (s : Shared) (p : Phase) {u : Nat} (h : u≠t) :
    (s.goto t p).threads u=s.threads u := Function.update_of_ne h ..

theorem Shared.held_goto (s : Shared) (t : Nat) (p : Phase) : (s.goto t p).held t=p.held := by
  rw [Shared.held,s.goto_self]

theorem Shared.setLane_lane (s : Shared) (side : Side) (l : Lane) :
    (s.setLane side l).lane side=l := Function.update_self ..

theorem Shared.setLane_other (s : Shared) {side side' : Side} (h : side'≠side) (l : Lane) :
    (s.setLane side l).lane side'=s.lane side' := Function.update_of_ne h ..

theorem Shared.mark_lane (s : Shared) (side : Side) (idx : Nat) (bufstat : BufStat) :
    (s.mark side idx bufstat).lane side=(s.lane side).mark idx bufstat := s.setLane_lane side _

theorem Shared.mark_lane_other (s : Shared) {side side' : Side} (h : side'≠side) (idx : Nat)
    (bufstat : BufStat) : (s.mark side idx bufstat).lane side'=s.lane side' := s.setLane_other h _

theorem Lane.mark_self (l : Lane) (idx : Nat) (bufstat : BufStat) :
    (l.mark idx bufstat).rxbufstat idx=bufstat := Function.update_self ..

theorem Lane.mark_other (l : Lane) {idx j : Nat} (h : j≠idx) (bufstat : BufStat) :
    (l.mark idx bufstat).rxbufstat j=l.rxbufstat j := Function.update_of_ne h ..

theorem Lane.mark_empty {l : Lane} {idx j : Nat} {bufstat : BufStat} (hne : bufstat≠.empty)
    (h : (l.mark idx bufstat).rxbufstat j=.empty) : l.rxbufstat j=.empty := by
  by_cases hj : j=idx
  · rw [hj,l.mark_self] at h
    exact absurd h hne
  · rw [l.mark_other hj] at h
    exact h

/-- `ecx_inframe` does not make a buffer empty. -/
theorem inframeStep_empty (txbuflength : Nat → Nat) (t idx : Nat) (l : Lane) (mutex : Option Nat)
    (stage : Stage) {j : Nat}
    (h : (inframeStep txbuflength t idx l mutex stage).1.rxbufstat j=.empty) :
    l.rxbufstat j=.empty := by
  cases stage with
  | mark locked wkc => exact Lane.mark_empty (by decide) h
  | completeOwn f wkc => exact Lane.mark_empty (by decide) h
  | receivedOther f idxf => exact Lane.mark_empty (by decide) h
  | lock =>
    simp only [inframeStep] at h
    split_ifs at h <;> exact h
  | recv =>
    simp only [inframeStep] at h
    cases hsocket : l.socket with
    | nil =>
      rw [hsocket] at h
      exact h
    | cons f rest =>
      rw [hsocket] at h
      exact h
  | _ => exact h

/-- Where a thread stands behind a step: at the stage it has come to, or, when `ecx_inframe` has
returned, at a call of it, behind the loop or behind the wait. -/
theorem behindStep_elim {P : Stage → Phase → Prop} {redundant : Bool} {idx : Nat}
    (hstay : ∀ side wkc wkc2 again stage,P stage (.inframe side idx wkc wkc2 again stage))
    (hcheck : ∀ rval side wkc wkc2 again,
      P (.returned rval) (.inframe side idx wkc wkc2 again .check))
    (hcopy : ∀ rval wkc,P (.returned rval) (.copyBack idx wkc))
    (hroute : ∀ rval wkc wkc2,P (.returned rval) (.reroute idx wkc wkc2))
    (hdone : ∀ rval wkc,P (.returned rval) (.done idx wkc))
    (side : Side) (wkc wkc2 : Int) (again expired : Bool) (stage : Stage) :
    P stage (behindStep redundant side idx wkc wkc2 again expired stage) := by
  have hround : ∀ rval wkc wkc2,P (.returned rval) (nextRound redundant idx wkc wkc2 expired) := by
    intro rval wkc wkc2
    rw [nextRound]
    split_ifs
    · exact hcheck ..
    · exact hcheck ..
    · exact hroute ..
    · exact hdone ..
  cases stage with
  | returned rval =>
    cases side with
    | primary =>
      simp only [behindStep,behindInframe]
      split_ifs
      · exact hcheck ..
      · exact hcopy ..
      · exact hdone ..
      · exact hcheck ..
      · exact hround ..
    | secondary =>
      simp only [behindStep,behindInframe]
      split_ifs
      · exact hcheck ..
      · exact hcopy ..
      · exact hdone ..
      · exact hround ..
  | _ => exact hstay ..

theorem behindStep_waits (redundant : Bool) (side : Side) (idx : Nat) (wkc wkc2 : Int)
    (again expired : Bool) (stage : Stage) :
    (behindStep redundant side idx wkc wkc2 again expired stage).held=some idx ∧
      (behindStep redundant side idx wkc wkc2 again expired stage).indexing=false := by
  apply behindStep_elim (P := fun _ phase => phase.held=some idx ∧ phase.indexing=false)
  all_goals
    intros
    exact ⟨rfl,rfl⟩

theorem route_waits (s : Shared) (idx : Nat) (wkc wkc2 : Int) :
    (s.route idx wkc wkc2).held=some idx ∧ (s.route idx wkc wkc2).indexing=false := by
  simp only [Shared.route]
  split_ifs <;> exact ⟨rfl,rfl⟩

theorem not_alloc {p : Phase} (h : p.indexing=false) (idx : Nat) : p≠.alloc idx := by
  rintro rfl
  cases h

theorem Silent.goto {s₁ : Shared} {p q : Phase} (hp : (s.threads t).phase=q)
    (hmutex : s₁.getindexMutex=s.getindexMutex) (hthreads : s₁.threads=s.threads)
    (hstat : ∀ j,(s₁.lane .primary).rxbufstat j=.empty → (s.lane .primary).rxbufstat j=.empty)
    (hheld : p.held=q.held) (hindexing : p.indexing=q.indexing) (halloc : ∀ idx,p≠.alloc idx) :
    Silent t s (s₁.goto t p) := by
  have hself : (s₁.goto t p).threads t={ s.threads t with phase := p } := by
    rw [s₁.goto_self,hthreads]
  refine ⟨hmutex,?_,?_,?_,?_,hstat,?_⟩
  · intro u hu
    rw [s₁.goto_other p hu,hthreads]
  · rw [s₁.held_goto,Shared.held,hp]
    exact hheld
  · rw [hself,hp]
    exact hindexing
  · rw [hself]
    exact halloc
  · rw [hself]
    exact .inl

theorem Silent.secondary {p q : Phase} (hp : (s.threads t).phase=q) (idx : Nat)
    (bufstat : BufStat) (hheld : p.held=q.held) (hindexing : p.indexing=q.indexing)
    (halloc : ∀ idx,p≠.alloc idx) : Silent t s ((s.mark .secondary idx bufstat).goto t p) := by
  refine .goto hp rfl rfl ?_ hheld hindexing halloc
  intro j hj
  rw [s.mark_lane_other (by decide)] at hj
  exact hj

theorem Guarded.silent {s' : Shared} (h : Guarded s) (hs : Silent t s s') : Guarded s' := by
  have hheld : ∀ u,s'.held u=s.held u := by
    intro u
    by_cases hu : u=t
    · rw [hu,hs.held]
    · rw [Shared.held,hs.other u hu,Shared.held]
  refine ⟨?_,?_,?_,?_⟩
  · intro u
    rw [hs.mutex,← h.owner u]
    by_cases hu : u=t
    · rw [hu,hs.indexing]
    · rw [hs.other u hu]
  · intro u idx hidx hsent
    rw [hheld] at hidx
    by_cases hu : u=t
    · rw [hu] at hidx hsent
      rcases hs.unsent hsent with hbefore|hfull
      · exact fun hempty => h.kept t idx hidx hbefore (hs.stat idx hempty)
      · exact hfull idx hidx
    · rw [hs.other u hu] at hsent
      exact fun hempty => h.kept u idx hidx hsent (hs.stat idx hempty)
  · intro u v idx hu hv
    rw [hheld] at hu hv
    exact h.single u v idx hu hv
  · intro u v idx hu
    by_cases hut : u=t
    · rw [hut] at hu
      exact absurd hu (hs.alloc idx)
    · rw [hs.other u hut] at hu
      rw [hheld]
      exact h.chosen u v idx hu

end Phases

section Steps

variable {s : Shared} {t : Nat}

/-- What another thread has is not touched. -/
structure Elsewhere (t : Nat) (s s' : Shared) : Prop where
  threads : ∀ u,u≠t → s'.threads u=s.threads u

theorem Elsewhere.held {s' : Shared} (h : Elsewhere t s s') {u : Nat} (hu : u≠t) :
    s'.held u=s.held u := by
  rw [Shared.held,h.threads u hu,Shared.held]

theorem Elsewhere.goto {s₁ : Shared} (h : Elsewhere t s s₁) (p : Phase) :
    Elsewhere t s (s₁.goto t p) := by
  refine ⟨fun u hu => ?_⟩
  rw [s₁.goto_other p hu,h.threads u hu]

theorem act_elsewhere (s : Shared) (t : Nat) (c : Choice) : Elsewhere t s (s.act t c) := by
  have hself : Elsewhere t s s := ⟨fun _ _ => rfl⟩
  have hgoto : ∀ {s₁ : Shared} {p : Phase},s₁.threads=s.threads →
      Elsewhere t s (s₁.goto t p) := by
    intro s₁ p heq
    have hsame : Elsewhere t s s₁ := ⟨fun u _ => congrFun heq u⟩
    exact hsame.goto p
  have hupdate : ∀ {s₁ : Shared} {th : Thread},s₁.threads=Function.update s.threads t th →
      Elsewhere t s s₁ := by
    intro s₁ th heq
    refine ⟨fun u hu => ?_⟩
    rw [heq]
    exact Function.update_of_ne hu ..
  cases hp : (s.threads t).phase <;> simp only [Shared.act,hp]
  case alloc idx => exact hupdate rfl
  case tx idx => exact Elsewhere.goto (hupdate rfl) _
  case failed idx => exact Elsewhere.goto (hupdate rfl) _
  case lockIndex =>
    split_ifs
    · exact hgoto rfl
    · exact hself
  case lockTx idx =>
    split_ifs
    · exact hgoto rfl
    · exact hself
  case search idx cnt => split_ifs <;> exact hgoto rfl
  case send idx => split_ifs <;> exact hgoto rfl
  case sendRed idx => split_ifs <;> exact hgoto rfl
  case sendAgain idx wkc => split_ifs <;> exact hgoto rfl
  case done idx wkc => split_ifs <;> exact hgoto rfl
  all_goals exact hgoto rfl

/-- The steps that take no part in giving and releasing indices. -/
def Phase.plain : Phase → Bool
  | .lockIndex => false
  | .search _ _ => false
  | .alloc _ => false
  | .unlockIndex _ => false
  | .failed _ => false
  | .empty _ => false
  | _ => true

theorem act_silent (c : Choice) (hplain : (s.threads t).phase.plain=true) :
    Silent t s (s.act t c) := by
  have hstat : ∀ j,(s.lane .primary).rxbufstat j=.empty → (s.lane .primary).rxbufstat j=.empty :=
    fun _ => id
  cases hp : (s.threads t).phase <;> rw [hp] at hplain <;> simp only [Shared.act,hp]
  case lockIndex => cases hplain
  case search idx cnt => cases hplain
  case alloc idx => cases hplain
  case unlockIndex idx => cases hplain
  case failed idx => cases hplain
  case empty idx => cases hplain
  case idle => exact .goto hp rfl rfl hstat rfl rfl (not_alloc rfl)
  case allocRed idx => exact .secondary hp idx .alloc rfl rfl (fun j hj => by cases hj)
  case last idx => exact .goto hp rfl rfl hstat rfl rfl (fun j hj => by cases hj)
  case taken idx => exact .goto hp rfl rfl hstat rfl rfl (not_alloc rfl)
  case source idx => exact .goto hp rfl rfl hstat rfl rfl (not_alloc rfl)
  case tx idx =>
    refine ⟨rfl,?_,?_,?_,?_,?_,?_⟩
    · intro u hu
      rw [Shared.goto_other _ _ hu]
      exact Function.update_of_ne hu ..
    · rw [Shared.held_goto,Shared.held,hp]
      rfl
    · rw [Shared.goto_self,hp]
      rfl
    · rw [Shared.goto_self]
      exact not_alloc rfl
    · intro j hj
      change ((s.mark .primary idx .tx).lane .primary).rxbufstat j=.empty at hj
      rw [s.mark_lane] at hj
      exact Lane.mark_empty (by decide) hj
    · intro _
      right
      intro j hj
      rw [Shared.held,hp] at hj
      cases hj
      change ((s.mark .primary idx .tx).lane .primary).rxbufstat idx≠.empty
      rw [s.mark_lane,Lane.mark_self]
      decide
  case send idx =>
    split_ifs
    · exact .goto hp rfl rfl hstat rfl rfl (not_alloc rfl)
    · exact .goto hp rfl rfl hstat rfl rfl (not_alloc rfl)
    · exact .goto hp rfl rfl hstat rfl rfl (not_alloc rfl)
  case lockTx idx =>
    split_ifs
    · exact .goto hp rfl rfl hstat rfl rfl (not_alloc rfl)
    · refine ⟨rfl,fun _ _ => rfl,rfl,rfl,?_,hstat,.inl⟩
      rw [hp]
      exact not_alloc rfl
  case dummy idx => exact .goto hp rfl rfl hstat rfl rfl (not_alloc rfl)
  case txRed idx => exact .secondary hp idx .tx rfl rfl (not_alloc rfl)
  case sendRed idx =>
    split_ifs
    · exact .goto hp rfl rfl hstat rfl rfl (not_alloc rfl)
    · exact .goto hp rfl rfl hstat rfl rfl (not_alloc rfl)
  case failedRed idx => exact .secondary hp idx .empty rfl rfl (not_alloc rfl)
  case unlockTx idx => exact .goto hp rfl rfl hstat rfl rfl (not_alloc rfl)
  case inframe side idx wkc wkc2 again stage =>
    obtain ⟨hheld,hindexing⟩ := behindStep_waits s.redundant side idx wkc wkc2 again c.expired
      (inframeStep s.txbuflength t idx (s.lane side) s.rxMutex stage).2.2
    refine .goto hp rfl rfl ?_ hheld hindexing (not_alloc hindexing)
    intro j hj
    cases side with
    | primary =>
      rw [Shared.setLane_lane] at hj
      exact inframeStep_empty _ _ _ _ _ _ hj
    | secondary =>
      rw [Shared.setLane_other _ (by decide)] at hj
      exact hj
  case reroute idx wkc wkc2 =>
    obtain ⟨hheld,hindexing⟩ := route_waits s idx wkc wkc2
    exact .goto hp rfl rfl hstat hheld hindexing (not_alloc hindexing)
  case copyTx idx wkc => exact .goto hp rfl rfl hstat rfl rfl (not_alloc rfl)
  case txAgain idx wkc => exact .secondary hp idx .tx rfl rfl (not_alloc rfl)
  case sendAgain idx wkc =>
    split_ifs
    · exact .goto hp rfl rfl hstat rfl rfl (not_alloc rfl)
    · exact .goto hp rfl rfl hstat rfl rfl (not_alloc rfl)
  case failedAgain idx wkc => exact .secondary hp idx .empty rfl rfl (not_alloc rfl)
  case copyBack idx wkc =>
    refine .goto hp rfl rfl ?_ rfl rfl (not_alloc rfl)
    intro j hj
    simp only [Shared.copySecondary,Shared.setLane_lane] at hj
    exact hj
  case done idx wkc =>
    split_ifs
    · exact .goto hp rfl rfl hstat rfl rfl (not_alloc rfl)
    · exact .goto hp rfl rfl hstat rfl rfl (not_alloc rfl)
  case emptyRed idx => exact .secondary hp idx .empty rfl rfl (not_alloc rfl)

theorem Guarded.lockIndex (h : Guarded s) (hp : (s.threads t).phase=.lockIndex)
    (hfree : s.getindexMutex=none) (idx cnt : Nat) :
    Guarded ({ s with getindexMutex := some t }.goto t (.search idx cnt)) := by
  have hother : Elsewhere t s ({ s with getindexMutex := some t }.goto t (.search idx cnt)) :=
    ⟨fun u hu => Shared.goto_other _ _ hu⟩
  have hnone : ∀ u,(s.threads u).phase.indexing=false := by
    intro u
    cases hu : (s.threads u).phase.indexing with
    | false => rfl
    | true =>
      have := (h.owner u).mp hu
      rw [hfree] at this
      cases this
  have hheld : ∀ u,({ s with getindexMutex := some t }.goto t (.search idx cnt)).held u=
      s.held u := by
    intro u
    by_cases hu : u=t
    · rw [hu,Shared.held_goto,Shared.held,hp]
      rfl
    · exact hother.held hu
  refine ⟨?_,?_,?_,?_⟩
  · intro u
    by_cases hu : u=t
    · rw [hu,Shared.goto_self]
      exact iff_of_true rfl rfl
    · rw [hother.threads u hu,hnone u]
      exact iff_of_false (by decide) (fun hc => hu (Option.some.inj hc).symm)
  · intro u i hi hsent
    rw [hheld] at hi
    by_cases hu : u=t
    · rw [hu,Shared.held,hp] at hi
      cases hi
    · rw [hother.threads u hu] at hsent
      exact h.kept u i hi hsent
  · intro u v i hu hv
    rw [hheld] at hu hv
    exact h.single u v i hu hv
  · intro u v i hu
    by_cases hut : u=t
    · rw [hut,Shared.goto_self] at hu
      cases hu
    · rw [hother.threads u hut] at hu
      rw [hheld]
      exact h.chosen u v i hu

theorem Guarded.search {idx cnt : Nat} {p : Phase} (h : Guarded s)
    (hp : (s.threads t).phase=.search idx cnt) (hindexing : p.indexing=true) (hheld : p.held=none)
    (halloc : ∀ i,p=.alloc i → ∀ u,s.held u≠some i) : Guarded (s.goto t p) := by
  have hother : Elsewhere t s (s.goto t p) := ⟨fun u hu => Shared.goto_other _ _ hu⟩
  have hheld' : ∀ u,(s.goto t p).held u=s.held u := by
    intro u
    by_cases hu : u=t
    · rw [hu,Shared.held_goto,hheld,Shared.held,hp]
      rfl
    · exact hother.held hu
  refine ⟨?_,?_,?_,?_⟩
  · intro u
    refine Iff.trans ?_ (h.owner u)
    by_cases hu : u=t
    · rw [hu,Shared.goto_self,hp]
      exact iff_of_true hindexing rfl
    · rw [hother.threads u hu]
  · intro u i hi hsent
    rw [hheld'] at hi
    by_cases hu : u=t
    · rw [hu,Shared.held,hp] at hi
      cases hi
    · rw [hother.threads u hu] at hsent
      exact h.kept u i hi hsent
  · intro u v i hu hv
    rw [hheld'] at hu hv
    exact h.single u v i hu hv
  · intro u v i hu
    rw [hheld']
    by_cases hut : u=t
    · rw [hut,Shared.goto_self] at hu
      exact halloc i hu v
    · rw [hother.threads u hut] at hu
      exact h.chosen u v i hu

/-- The index is taken. -/
theorem Guarded.alloc {idx : Nat} (h : Guarded s) (hp : (s.threads t).phase=.alloc idx)
    (c : Choice) : Guarded (s.act t c) := by
  have hact : s.act t c={ s.mark .primary idx .alloc with
      requests := s.requests+1
      threads := Function.update s.threads t
        ⟨if s.redundant=true then .allocRed idx else .last idx,s.requests,false⟩ } := by
    simp only [Shared.act,hp]
    rfl
  have hother := act_elsewhere s t c
  have hself : ((s.act t c).threads t).phase.indexing=true ∧ (s.act t c).held t=some idx ∧
      ∀ i,((s.act t c).threads t).phase≠.alloc i := by
    rw [hact,Shared.held]
    simp only [Function.update_self]
    split_ifs
    · exact ⟨rfl,rfl,fun i hi => by cases hi⟩
    · exact ⟨rfl,rfl,fun i hi => by cases hi⟩
  have hstat : ∀ i,((s.act t c).lane .primary).rxbufstat i=
      ((s.lane .primary).mark idx .alloc).rxbufstat i := by
    intro i
    rw [hact]
    exact congrArg (fun l : Lane => l.rxbufstat i) (s.mark_lane .primary idx .alloc)
  have howner := (h.owner t).mp (by rw [hp]; rfl)
  refine ⟨?_,?_,?_,?_⟩
  · intro u
    have hmutex : (s.act t c).getindexMutex=s.getindexMutex := by rw [hact]; rfl
    rw [hmutex]
    by_cases hu : u=t
    · rw [hu]
      exact iff_of_true hself.1 howner
    · rw [hother.threads u hu]
      exact h.owner u
  · intro u i hi hsent
    rw [hstat]
    by_cases hu : u=t
    · rw [hu,hself.2.1] at hi
      cases hi
      rw [Lane.mark_self]
      decide
    · rw [hother.held hu] at hi
      rw [hother.threads u hu] at hsent
      exact fun hempty => h.kept u i hi hsent (Lane.mark_empty (by decide) hempty)
  · have hnew : ∀ u i,u≠t → (s.act t c).held u=some i → (s.act t c).held t≠some i := by
      intro u i hu hi hti
      rw [hself.2.1] at hti
      rw [hother.held hu,← hti] at hi
      exact h.chosen t u idx hp hi
    intro u v i hu hv
    by_cases hut : u=t
    · by_cases hvt : v=t
      · rw [hut,hvt]
      · rw [hut] at hu
        exact absurd hu (hnew v i hvt hv)
    · by_cases hvt : v=t
      · rw [hvt] at hv
        exact absurd hv (hnew u i hut hu)
      · rw [hother.held hut] at hu
        rw [hother.held hvt] at hv
        exact h.single u v i hu hv
  · intro u v i hu
    by_cases hut : u=t
    · rw [hut] at hu
      exact absurd hu (hself.2.2 i)
    · rw [hother.threads u hut] at hu
      have hindex := (h.owner u).mp (by rw [hu]; rfl)
      rw [howner] at hindex
      exact absurd (Option.some.inj hindex).symm hut

theorem Guarded.unlockIndex {idx : Nat} (h : Guarded s)
    (hp : (s.threads t).phase=.unlockIndex idx) :
    Guarded ({ s with getindexMutex := none }.goto t (.taken idx)) := by
  have hother : Elsewhere t s ({ s with getindexMutex := none }.goto t (.taken idx)) :=
    ⟨fun u hu => Shared.goto_other _ _ hu⟩
  have howner := (h.owner t).mp (by rw [hp]; rfl)
  have hheld : ∀ u,({ s with getindexMutex := none }.goto t (.taken idx)).held u=s.held u := by
    intro u
    by_cases hu : u=t
    · rw [hu,Shared.held_goto,Shared.held,hp]
      rfl
    · exact hother.held hu
  refine ⟨?_,?_,?_,?_⟩
  · intro u
    by_cases hu : u=t
    · rw [hu,Shared.goto_self]
      exact iff_of_false (by intro hc; cases hc) (by intro hc; cases hc)
    · rw [hother.threads u hu,h.owner u,howner]
      exact iff_of_false (fun hc => hu (Option.some.inj hc).symm) (by intro hc; cases hc)
  · intro u i hi hsent
    rw [hheld] at hi
    refine h.kept u i hi ?_
    by_cases hu : u=t
    · rw [hu,Shared.goto_self] at hsent
      rw [hu]
      exact hsent
    · rw [hother.threads u hu] at hsent
      exact hsent
  · intro u v i hu hv
    rw [hheld] at hu hv
    exact h.single u v i hu hv
  · intro u v i hu
    by_cases hut : u=t
    · rw [hut,Shared.goto_self] at hu
      cases hu
    · rw [hother.threads u hut] at hu
      rw [hheld]
      exact h.chosen u v i hu

/-- A buffer is made empty by the thread that has it, which releases it or notes that its frame has
not gone out. -/
theorem Guarded.emptied {s' : Shared} {idx : Nat} (h : Guarded s) (hheld : s.held t=some idx)
    (hindexing : (s.threads t).phase.indexing=false) (hother : Elsewhere t s s')
    (hmutex : s'.getindexMutex=s.getindexMutex)
    (hstat : ∀ i,i≠idx → (s'.lane .primary).rxbufstat i=(s.lane .primary).rxbufstat i)
    (hindexing' : (s'.threads t).phase.indexing=false)
    (hself : s'.held t=none ∨ s'.held t=some idx ∧ (s'.threads t).unsent=true) : Guarded s' := by
  have hkeeps : ∀ u i,s'.held u=some i → s.held u=some i := by
    intro u i hi
    by_cases hu : u=t
    · rw [hu] at hi ⊢
      rcases hself with hnone|⟨hsome,-⟩
      · rw [hnone] at hi
        cases hi
      · rw [hheld,← hsome,hi]
    · rw [hother.held hu] at hi
      exact hi
  refine ⟨?_,?_,?_,?_⟩
  · intro u
    rw [hmutex,← h.owner u]
    by_cases hu : u=t
    · rw [hu,hindexing,hindexing']
    · rw [hother.threads u hu]
  · intro u i hi hsent
    by_cases hu : u=t
    · rw [hu] at hi hsent
      rcases hself with hnone|⟨-,hunsent⟩
      · rw [hnone] at hi
        cases hi
      · rw [hunsent] at hsent
        cases hsent
    · have hi' := hkeeps u i hi
      have hne : i≠idx := by
        intro hc
        rw [hc] at hi'
        exact hu (h.single u t idx hi' hheld)
      rw [hstat i hne]
      rw [hother.threads u hu] at hsent
      exact h.kept u i hi' hsent
  · intro u v i hu hv
    exact h.single u v i (hkeeps u i hu) (hkeeps v i hv)
  · intro u v i hu hv
    by_cases hut : u=t
    · rw [hut] at hu
      rw [hu] at hindexing'
      cases hindexing'
    · rw [hother.threads u hut] at hu
      exact h.chosen u v i hu (hkeeps v i hv)

theorem Guarded.act (h : Guarded s) (c : Choice) (hfree : IndexFree s (.run t c)) :
    Guarded (s.act t c) := by
  cases hplain : (s.threads t).phase.plain with
  | true => exact h.silent (act_silent c hplain)
  | false =>
    cases hp : (s.threads t).phase <;> rw [hp] at hplain
    case lockIndex =>
      simp only [Shared.act,hp]
      split_ifs with hmutex
      · exact h.lockIndex hp hmutex _ _
      · exact h
    case search idx cnt =>
      simp only [IndexFree,hp] at hfree
      simp only [Shared.act,hp]
      split_ifs with hmore
      · refine h.search hp rfl rfl ?_
        intro i hi
        cases hi
      · refine h.search hp rfl rfl ?_
        rintro i hi u hu
        cases hi
        have hempty : (s.lane .primary).rxbufstat idx=.empty := by
          by_contra hc
          exact hmore ⟨hc,hfree.1.resolve_left hc⟩
        exact h.kept u idx hu (hfree.2 hempty u hu) hempty
    case alloc idx => exact h.alloc hp c
    case unlockIndex idx =>
      simp only [Shared.act,hp]
      exact h.unlockIndex hp
    case failed idx =>
      simp only [Shared.act,hp]
      refine h.emptied (by rw [Shared.held,hp]; rfl) (by rw [hp]; rfl) ⟨?_⟩ rfl ?_ ?_ (.inr ⟨?_,?_⟩)
      · intro u hu
        rw [Shared.goto_other _ _ hu]
        exact Function.update_of_ne hu ..
      · intro i hi
        change ((s.mark .primary idx .empty).lane .primary).rxbufstat i=_
        rw [s.mark_lane,Lane.mark_other _ hi]
      · rw [Shared.goto_self]
        simp only
        split_ifs <;> rfl
      · rw [Shared.held_goto]
        split_ifs <;> rfl
      · rw [Shared.goto_self,Shared.setUnsent]
        simp only [Function.update_self]
    case empty idx =>
      simp only [Shared.act,hp]
      refine h.emptied (by rw [Shared.held,hp]; rfl) (by rw [hp]; rfl) ⟨?_⟩ rfl ?_ ?_ (.inl ?_)
      · intro u hu
        exact Shared.goto_other _ _ hu
      · intro i hi
        change ((s.mark .primary idx .empty).lane .primary).rxbufstat i=_
        rw [s.mark_lane,Lane.mark_other _ hi]
      · rw [Shared.goto_self]
        simp only
        split_ifs <;> rfl
      · rw [Shared.held_goto]
        split_ifs <;> rfl
    all_goals cases hplain

end Steps

section Runs

variable {s : Shared}

theorem Guarded.congr {s' : Shared} (h : Guarded s) (hmutex : s'.getindexMutex=s.getindexMutex)
    (hthreads : s'.threads=s.threads)
    (hstat : (s'.lane .primary).rxbufstat=(s.lane .primary).rxbufstat) : Guarded s' := by
  have hheld : ∀ u,s'.held u=s.held u := by
    intro u
    rw [Shared.held,hthreads,Shared.held]
  refine ⟨?_,?_,?_,?_⟩
  · intro u
    rw [hmutex,hthreads]
    exact h.owner u
  · intro u i hi
    rw [hthreads,hstat]
    rw [hheld] at hi
    exact h.kept u i hi
  · intro u v i hu hv
    rw [hheld] at hu hv
    exact h.single u v i hu hv
  · intro u v i hu
    rw [hthreads] at hu
    rw [hheld]
    exact h.chosen u v i hu

theorem Guarded.step (h : Guarded s) (e : PortEvent) (hfree : IndexFree s e) :
    Guarded (s.step e) := by
  cases e with
  | run t c => exact h.act c hfree
  | lose k => exact h.congr rfl rfl rfl
  | arrive side k body =>
    simp only [Shared.step]
    cases hk : s.net[k]? with
    | none => exact h
    | some f =>
      refine h.congr rfl rfl ?_
      cases side with
      | primary =>
        simp only
        rw [Shared.setLane_lane]
      | secondary =>
        simp only
        rw [Shared.setLane_other _ (by decide)]

theorem Shared.Start.guarded (h : s.Start) : Guarded s := by
  have hheld : ∀ u,s.held u=none := by
    intro u
    rw [Shared.held,h.threads u]
    rfl
  refine ⟨?_,?_,?_,?_⟩
  · intro u
    rw [h.threads u,h.getindexMutex]
    exact iff_of_false (by decide) (by intro hc; cases hc)
  · intro u i hi
    rw [hheld] at hi
    cases hi
  · intro u v i hu
    rw [hheld] at hu
    cases hu
  · intro u v i hu
    rw [h.threads u] at hu
    cases hu

/-- An index is never given to two threads, as long as the search ends with an empty index that is not
that of a frame which did not go out. -/
theorem indices_exclusive (h : s.Start) {es : List PortEvent}
    (hfree : Along Shared.step IndexFree s es) : (runFrom Shared.step s es).Exclusive := by
  have hguarded : Guarded (runFrom Shared.step s es) :=
    invariant_runFrom (C := IndexFree) (fun _ e hs hc => Guarded.step hs e hc) h.guarded hfree
  exact hguarded.single

/-- A port with one socket, before the first request. -/
def freshPort : Shared where
  lane := fun _ =>
    { rxbufstat := fun _ => .empty
      rxbuf := fun _ _ => 0
      rxsa := fun _ => 0
      tempbuf := fun _ => 0
      socket := []
      origin := fun _ => none }
  redundant := false
  txbuf := fun _ => packetBuffer [255,255,255,255,255,255,1,1,1,1,1,1,0x88,0xA4]
  txbuflength := fun _ => 0
  txbuf2 := packetBuffer [255,255,255,255,255,255,1,1,1,1,1,1,0x88,0xA4]
  txbuflength2 := 0
  lastidx := 0
  getindexMutex := none
  txMutex := none
  rxMutex := none
  net := []
  requests := 0
  threads := fun _ => ⟨.idle,0,false⟩

theorem freshPort_start : freshPort.Start :=
  ⟨fun _ => rfl,fun _ _ => rfl,fun _ => rfl,rfl,rfl,rfl,rfl,by decide⟩

/-- A broadcast read of two bytes that is sent and waited for. -/
def plainChoice : Choice := ⟨true,false,false,7,0,0,[0,0]⟩

/-- Thread `t` takes `n` steps. -/
def turns (t n : Nat) (c : Choice) : List PortEvent := List.replicate n (.run t c)

/-- Sixteen threads have an index, and another thread asks for one. -/
def seventeenRequests : List PortEvent :=
  (List.range 16).flatMap (fun t => turns t 6 plainChoice)++turns 16 22 plainChoice

/-- The frame of a thread does not go out; sixteen other threads ask for an index. -/
def requestsAfterFailure : List PortEvent :=
  turns 0 11 { plainChoice with sent := false }++
    (List.range 16).flatMap (fun t => turns (t+1) 6 plainChoice)

/-- With no index left, or with a frame that did not go out, two threads have index 1. -/
theorem index_taken_twice :
    ¬(runFrom Shared.step freshPort seventeenRequests).Exclusive ∧
      ¬(runFrom Shared.step freshPort requestsAfterFailure).Exclusive := by
  constructor
  · intro h
    have hheld : (runFrom Shared.step freshPort seventeenRequests).held 0=some 1 ∧
        (runFrom Shared.step freshPort seventeenRequests).held 16=some 1 := by decide +kernel
    exact absurd (h 0 16 1 hheld.1 hheld.2) (by decide)
  · intro h
    have hheld : (runFrom Shared.step freshPort requestsAfterFailure).held 0=some 1 ∧
        (runFrom Shared.step freshPort requestsAfterFailure).held 16=some 1 := by decide +kernel
    exact absurd (h 0 16 1 hheld.1 hheld.2) (by decide)

theorem turns_other (s : Shared) (t n : Nat) (c : Choice) {u : Nat} (hu : u≠t) :
    (runFrom Shared.step s (turns t n c)).threads u=s.threads u := by
  induction n generalizing s with
  | zero => rfl
  | succ n ih => exact (ih (s.act t c)).trans ((act_elsewhere s t c).threads u hu)

/-- Two threads that ask for an index one after the other. -/
theorem two_indices_exclusive :
    (runFrom Shared.step freshPort (turns 0 6 plainChoice++turns 1 6 plainChoice)).Exclusive := by
  apply indices_exclusive freshPort_start
  have hfirst : ∀ u,((runFrom Shared.step freshPort (turns 0 2 plainChoice)).threads u).unsent=
      false := by
    intro u
    by_cases hu : u=0
    · rw [hu]
      rfl
    · rw [turns_other _ _ _ _ hu]
      rfl
  have hsecond : ∀ u,((runFrom Shared.step (runFrom Shared.step freshPort
      (turns 0 6 plainChoice)) (turns 1 2 plainChoice)).threads u).unsent=false := by
    intro u
    by_cases hu : u=1
    · rw [hu]
      rfl
    · rw [turns_other _ _ _ _ hu]
      by_cases hu0 : u=0
      · rw [hu0]
        rfl
      · rw [turns_other _ _ _ _ hu0]
        rfl
  exact ⟨trivial,trivial,⟨.inl rfl,fun _ u _ => hfirst u⟩,trivial,trivial,trivial,trivial,trivial,
    ⟨.inl rfl,fun _ u _ => hsecond u⟩,trivial,trivial,trivial,trivial⟩

end Runs

end EtherCATMaster.Nicdrv
