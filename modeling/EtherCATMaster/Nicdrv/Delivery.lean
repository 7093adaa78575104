import EtherCATMaster.Nicdrv.Waiters
import Mathlib.Algebra.Order.BigOperators.Group.Finset

namespace EtherCATMaster.Nicdrv

open EtherCATMaster.Framework
open EtherCATMaster.Mapping (ecMaxBuf ecNoFrame ecBufsize ethHeadersize writeBytes readBytes)

/-- Frames with distinct indices have been sent and none of them has arrived. For some of them threads
wait, each for a frame of its own. -/
structure InFlight (txbuflength : Nat → Nat) (frames : List Frame) (n : Nat) (s : Receiving) :
    Prop where
  good : ∀ f ∈ frames,f.Good txbuflength
  distinct : (frames.map Frame.index).Nodup
  net : s.net=frames
  socket : s.lane.socket=[]
  arrived : s.arrived=[]
  mutex : s.mutex=none
  sent : ∀ f ∈ frames,s.lane.rxbufstat f.index=.tx
  threads : ∀ t,s.threads t=.idle ∨ ∃ f ∈ frames,s.threads t=.waiting f.index .check
  single : ∀ t u i,(s.threads t).index=some i → (s.threads u).index=some i → t=u
  bound : ∀ t,n ≤ t → s.threads t=.idle

/-- The frame of an index is in its buffer. -/
def Receiving.handed (s : Receiving) (i : Nat) : Nat :=
  if s.lane.rxbufstat i=.rcvd ∨ s.lane.rxbufstat i=.complete then 1 else 0

/-- The frame of an index has come in, and is what slaves have made of the frame that was sent. -/
def Receiving.Returned (txbuflength : Nat → Nat) (s : Receiving) (f : Frame) (wkc : Int) : Prop :=
  ∃ body,f.altered body ∈ s.arrived ∧ wkc=bufferWkc (payload (f.altered body).bytes) ∧
    readBytes (s.lane.rxbuf f.index) 0 (txbuflength f.index-ethHeadersize)=
      (f.altered body).bytes.drop ethHeadersize

/-- A schedule in which every thread goes on, no frame is lost and no timer expires. -/
structure Fair (txbuflength : Nat → Nat) (n : Nat) (s : Receiving) (es : Nat → Event) : Prop where
  turns : ∀ t,t < n → ∀ k,∃ m,k ≤ m ∧ es m=.run t false
  arrive : ∃ k,(trace (Receiving.step txbuflength) s es k).net=[]
  patient : ∀ k t,es k≠.run t true

section Start

variable {txbuflength : Nat → Nat} {frames : List Frame} {n : Nat} {s : Receiving}

theorem tally_nodup {fs : List Frame} (h : (fs.map Frame.index).Nodup) {f : Frame}
    (hf : f ∈ fs) : tally fs f.index=1 := by
  have hcount := List.count_eq_one_of_mem h (List.mem_map_of_mem hf)
  rw [List.count_eq_countP,List.countP_map] at hcount
  rw [← hcount,tally]
  apply List.countP_congr
  intro g _
  rw [decide_eq_true_eq,Function.comp_apply,beq_iff_eq]

theorem InFlight.hand (h : InFlight txbuflength frames n s) : s.hand=[] := by
  rw [Receiving.hand,h.mutex]

theorem InFlight.flying (h : InFlight txbuflength frames n s) :
    Flying txbuflength frames n s := by
  refine ⟨h.good,?_,h.single,?_,h.bound,?_,?_,?_,?_,?_⟩
  · intro t
    rw [h.mutex]
    refine iff_of_false ?_ (by intro hc; cases hc)
    rcases h.threads t with hidle|⟨f,-,hwait⟩
    · rw [hidle]
      decide
    · rw [hwait,Waiter.locked,Stage.locked]
      decide
  · intro t i hi
    rcases h.threads t with hidle|⟨f,hf,hwait⟩
    · rw [hidle] at hi
      cases hi
    · rw [hwait] at hi
      cases hi
      exact ⟨f,hf,rfl⟩
  · intro f hf
    rw [h.net] at hf
    exact hf
  · intro f hf
    rw [h.arrived] at hf
    cases hf
  · intro f hf
    rw [h.socket,h.hand] at hf
    cases hf
  · intro f hf
    refine .inl ⟨h.sent f hf,?_⟩
    rw [Receiving.underway,h.net,h.socket,h.hand,tally_nil,tally_nodup h.distinct hf]
  · intro t
    rcases h.threads t with hidle|⟨f,hf,hwait⟩
    · rw [hidle]
      trivial
    · rw [hwait]
      change s.lane.rxbufstat f.index≠.complete
      rw [h.sent f hf]
      decide

theorem Receiving.Knows.more {s' : Receiving} (hstat : s'.lane.rxbufstat=s.lane.rxbufstat)
    (hbuf : s'.lane.rxbuf=s.lane.rxbuf) (htemp : s'.lane.tempbuf=s.lane.tempbuf)
    (harrived : ∀ g ∈ s.arrived,g ∈ s'.arrived) {w : Waiter} (h : s.Knows w) : s'.Knows w := by
  have hholds : ∀ i g,s.Holds i g → s'.Holds i g := by
    intro i g hg
    exact ⟨harrived g hg.arrived,hg.index,by rw [hbuf]; exact hg.contents⟩
  have hdel : ∀ i wkc,s.Delivered i wkc → s'.Delivered i wkc := by
    rintro i wkc ⟨g,hg,hwkc⟩
    exact ⟨g,hholds i g hg,hwkc⟩
  cases w with
  | idle => trivial
  | done i wkc =>
    intro hback
    rw [hstat]
    exact ⟨(h hback).1,hdel _ _ (h hback).2⟩
  | waiting i stage =>
    cases stage <;> simp only [Receiving.Knows,Receiving.Fact,hstat,htemp] at h ⊢
    case mark locked wkc => exact ⟨h.1,hdel _ _ h.2⟩
    case got g => exact ⟨h.1,harrived g h.2.1,h.2.2⟩
    case copyOwn g => exact ⟨harrived g h.1,h.2⟩
    case completeOwn g wkc => exact ⟨hholds _ g h.1,h.2⟩
    case sourceOwn wkc => exact ⟨h.1,hdel _ _ h.2⟩
    case copyOther g j => exact ⟨h.1,harrived g h.2.1,h.2.2⟩
    case receivedOther g j => exact ⟨h.1,h.2.1,hholds _ g h.2.2⟩
    case unlock wkc => exact h.imp (fun hd => ⟨hd.1,hdel _ _ hd.2⟩) id
    all_goals exact h

theorem Flying.arrive (h : Flying txbuflength frames n s) (k : Nat) (body : List UInt8) :
    Flying txbuflength frames n (s.step txbuflength (.arrive k body)) := by
  cases hk : s.net[k]? with
  | none =>
    simp only [Receiving.step,hk]
    exact h
  | some f =>
    have hf : f ∈ frames := h.net f (List.mem_of_getElem? hk)
    have hindex := f.altered_index body (h.good f hf).own.long
    simp only [Receiving.step,hk]
    have hunder : ∀ i,tally (s.net.eraseIdx k) i+tally (s.lane.socket++[f.altered body]) i+
        tally s.hand i=s.underway i := by
      intro i
      have herase := tally_eraseIdx hk i
      rw [Receiving.underway,herase,tally_append,tally_cons,tally_nil,hindex]
      omega
    refine ⟨h.good,h.owner,h.single,h.known,h.bound,?_,?_,?_,?_,?_⟩
    · intro g hg
      exact h.net g (List.mem_of_mem_eraseIdx hg)
    · intro g hg
      rcases List.mem_append.mp hg with hin|hin
      · exact h.arrived g hin
      · exact ⟨f,hf,body,List.mem_singleton.mp hin⟩
    · intro g hg
      rcases List.mem_append.mp hg with hin|hin
      · rcases List.mem_append.mp hin with hin'|hin'
        · exact List.mem_append_left _ (h.read g (List.mem_append_left _ hin'))
        · exact List.mem_append_right _ hin'
      · exact List.mem_append_left _ (h.read g (List.mem_append_right _ hin))
    · intro g hg
      rcases h.place g hg with ⟨htx,hone⟩|⟨hback,hnone,q,hq⟩
      · exact .inl ⟨htx,(hunder _).trans hone⟩
      · refine .inr ⟨hback,(hunder _).trans hnone,q,?_⟩
        exact ⟨List.mem_append_left _ hq.arrived,hq.index,hq.contents⟩
    · intro t
      refine Receiving.Knows.more ?_ ?_ ?_ ?_ (h.knows t)
      · rfl
      · rfl
      · rfl
      · exact fun g hg => List.mem_append_left _ hg

theorem Flying.step (h : Flying txbuflength frames n s) (e : Event) :
    Flying txbuflength frames n (s.step txbuflength e) := by
  cases e with
  | arrive k body => exact h.arrive k body
  | run t expired =>
    cases ht : s.threads t with
    | waiting i stage => exact h.run ht expired
    | idle =>
      simp only [Receiving.step,ht]
      exact h
    | done i wkc =>
      simp only [Receiving.step,ht]
      exact h

theorem Flying.along (h : Flying txbuflength frames n s) (es : List Event) :
    Flying txbuflength frames n (runFrom (Receiving.step txbuflength) s es) :=
  invariant_runFrom (C := fun _ _ => True) (fun _ e hs _ => hs.step e) h along_true

end Start

section Histories

variable {txbuflength : Nat → Nat} {frames : List Frame} {n : Nat} {s : Receiving}

theorem step_index (s : Receiving) (e : Event) (t : Nat) :
    ((s.step txbuflength e).threads t).index=(s.threads t).index := by
  cases e with
  | arrive k body =>
    cases hk : s.net[k]? with
    | none => simp only [Receiving.step,hk]
    | some f => simp only [Receiving.step,hk]
  | run u expired =>
    cases hu : s.threads u with
    | idle => simp only [Receiving.step,hu]
    | done i wkc => simp only [Receiving.step,hu]
    | waiting i stage =>
      rw [s.step_run expired hu]
      by_cases ht : t=u
      · rw [ht,s.turn_self,Waiter.behind_index,hu]
        rfl
      · rw [s.turn_other _ _ _ ht]

theorem runFrom_index (s : Receiving) (es : List Event) (t : Nat) :
    ((runFrom (Receiving.step txbuflength) s es).threads t).index=(s.threads t).index := by
  induction es generalizing s with
  | nil => rfl
  | cons e es ih => exact (ih (s.step txbuflength e)).trans (step_index s e t)

theorem Flying.step_tally (h : Flying txbuflength frames n s) (e : Event) (i : Nat) :
    tally (s.step txbuflength e).net i+tally (s.step txbuflength e).arrived i=
      tally s.net i+tally s.arrived i := by
  cases e with
  | arrive k body =>
    cases hk : s.net[k]? with
    | none => simp only [Receiving.step,hk]
    | some f =>
      have hf := h.net f (List.mem_of_getElem? hk)
      have hindex := f.altered_index body (h.good f hf).own.long
      simp only [Receiving.step,hk,tally_append,tally_cons,tally_nil,hindex]
      have herase := tally_eraseIdx hk i
      omega
  | run t expired =>
    cases ht : s.threads t with
    | waiting j stage =>
      rw [s.step_run expired ht]
      rfl
    | idle => simp only [Receiving.step,ht]
    | done j wkc => simp only [Receiving.step,ht]

theorem Flying.runFrom_tally (h : Flying txbuflength frames n s) (es : List Event) (i : Nat) :
    tally (runFrom (Receiving.step txbuflength) s es).net i+
      tally (runFrom (Receiving.step txbuflength) s es).arrived i=
      tally s.net i+tally s.arrived i := by
  induction es generalizing s with
  | nil => rfl
  | cons e es ih => exact (ih (h.step e)).trans (h.step_tally e i)

theorem Flying.returned (h : Flying txbuflength frames n s) {t i : Nat} {wkc : Int}
    (ht : s.threads t=.done i wkc) (hback : ecNoFrame < wkc) :
    ∃ f ∈ frames,f.index=i ∧ s.Returned txbuflength f wkc := by
  have hknows := h.knows t
  rw [ht] at hknows
  obtain ⟨-,f,hf,hwkc⟩ := hknows hback
  obtain ⟨g,hg,body,rfl⟩ := h.arrived f hf.arrived
  have hindex := g.altered_index body (h.good g hg).own.long
  have hi : g.index=i := hindex.symm.trans hf.index
  refine ⟨g,hg,hi,body,hf.arrived,hwkc,?_⟩
  have hdata := hf.contents.data ((h.good g hg).altered body)
  rw [hindex,← hi] at hdata
  exact hdata

theorem Flying.placed (h : Flying txbuflength frames n s) {f : Frame} (hf : f ∈ frames) :
    s.underway f.index+s.handed f.index=1 := by
  rw [Receiving.handed]
  rcases h.place f hf with ⟨htx,hone⟩|⟨hback,hnone,-⟩
  · rw [hone,htx,if_neg (by decide)]
  · rw [hnone,if_pos hback]

end Histories

section Progress

variable {txbuflength : Nat → Nat} {frames : List Frame} {n t i : Nat} {s : Receiving}

/-- How far a thread is from the end of a call, or from the next frame in the socket. -/
def Stage.rank : Stage → Nat
  | .got _ => 15
  | .copyOther _ _ => 14
  | .receivedOther _ _ => 13
  | .sourceOther _ => 12
  | .unlock wkc => if ecNoFrame < wkc then 1 else 11
  | .check => 10
  | .lock => 9
  | .recheck => 8
  | .recv => 7
  | .pick _ => 6
  | .mark _ _ => 5
  | .copyOwn _ => 4
  | .completeOwn _ _ => 3
  | .sourceOwn _ => 2
  | .returned _ => 0

def Waiter.rank (sockets : Nat) : Waiter → Nat
  | .waiting _ stage => 16*sockets+stage.rank
  | _ => 0

def Receiving.rank (n : Nat) (s : Receiving) : Nat :=
  (Finset.range n).sum fun t => (s.threads t).rank s.lane.socket.length

/-- A thread that waits for `rx_mutex`. -/
def Receiving.Blocked (s : Receiving) (t : Nat) : Prop :=
  ∃ i,s.threads t=.waiting i .lock ∧ s.mutex≠none

theorem Waiter.rank_le {v w : Nat} (h : v ≤ w) (x : Waiter) : x.rank v ≤ x.rank w := by
  cases x with
  | idle => exact le_refl _
  | done i wkc => exact le_refl _
  | waiting i stage =>
    rw [Waiter.rank,Waiter.rank]
    omega

theorem Waiter.rank_behind (i sockets : Nat) {wkc : Int} {m : Nat}
    (h : 16*sockets+(Stage.unlock wkc).rank ≤ m) (expired : Bool) :
    (Waiter.behind i expired (.returned wkc)).rank sockets < m := by
  rw [Stage.rank] at h
  rw [Waiter.behind]
  split_ifs with hend
  · change 0 < m
    split_ifs at h <;> omega
  · rw [not_or] at hend
    rw [if_neg hend.1] at h
    rw [Waiter.rank,Stage.rank]
    omega

theorem Receiving.Delivered.back {wkc : Int} (h : s.Delivered i wkc) : ecNoFrame < wkc := by
  obtain ⟨f,-,rfl⟩ := h
  exact leWord_back _ _

/-- When all frames have arrived, every step of a thread brings it nearer to its end. -/
theorem Flying.run_rank {stage : Stage} (h : Flying txbuflength frames n s)
    (hnet : s.net=[]) (ht : s.threads t=.waiting i stage) (hfree : ¬s.Blocked t) (expired : Bool) :
    (inframeStep txbuflength t i s.lane s.mutex stage).1.socket.length ≤ s.lane.socket.length ∧
      (Waiter.behind i expired (inframeStep txbuflength t i s.lane s.mutex stage).2.2).rank
        (inframeStep txbuflength t i s.lane s.mutex stage).1.socket.length <
        (Waiter.waiting i stage).rank s.lane.socket.length := by
  have hfact := h.fact ht
  cases stage with
  | check =>
    refine ⟨le_refl _,?_⟩
    simp only [inframeStep]
    split_ifs <;> simp only [Waiter.behind,Waiter.rank,Stage.rank] <;> omega
  | pick locked =>
    refine ⟨le_refl _,?_⟩
    simp only [inframeStep,Waiter.behind,Waiter.rank,Stage.rank]
    omega
  | mark locked wkc =>
    have hback := hfact.2.back
    refine ⟨le_refl _,?_⟩
    cases locked with
    | true =>
      simp only [inframeStep,if_true,Waiter.behind,Waiter.rank,Stage.rank,if_pos hback,
        Lane.mark_socket]
      omega
    | false =>
      apply Waiter.rank_behind
      have hsocket : (inframeStep txbuflength t i s.lane s.mutex (.mark false wkc)).1.socket=
        s.lane.socket := rfl
      rw [Waiter.rank,Stage.rank,if_pos hback,Stage.rank,hsocket]
      omega
  | lock =>
    have hnone : s.mutex=none := by
      by_contra hc
      exact hfree ⟨i,ht,hc⟩
    rw [inframeStep,if_pos hnone]
    refine ⟨le_refl _,?_⟩
    simp only [Waiter.behind,Waiter.rank,Stage.rank]
    omega
  | recheck =>
    refine ⟨le_refl _,?_⟩
    simp only [inframeStep]
    split_ifs <;> simp only [Waiter.behind,Waiter.rank,Stage.rank] <;> omega
  | recv =>
    cases hsocket : s.lane.socket with
    | nil =>
      -- the frame of this thread would be lost
      have htx : s.lane.rxbufstat i=.tx := hfact
      have howner := (h.owner t).mp (by rw [ht]; rfl)
      have hhand : s.hand=[] := by
        rw [Receiving.hand,howner]
        simp only [ht]
        rfl
      rcases h.own_place ht with ⟨-,hone⟩|⟨hback,-⟩
      · rw [Receiving.underway,hnet,hsocket,hhand] at hone
        cases hone
      · rw [htx] at hback
        rcases hback with hc|hc <;> cases hc
    | cons f rest =>
      simp only [inframeStep,hsocket,List.length_cons]
      refine ⟨by omega,?_⟩
      split_ifs
      · simp only [Waiter.behind,Waiter.rank,Stage.rank,if_neg (lt_irrefl ecNoFrame)]
        omega
      · simp only [Waiter.behind,Waiter.rank,Stage.rank]
        omega
  | got f =>
    obtain ⟨-,hf,hread⟩ := hfact
    obtain ⟨hgood,-⟩ := h.arrived_good hf
    refine ⟨le_refl _,?_⟩
    have hother : ¬ecNoFrame < ecOtherFrame := by decide
    simp only [inframeStep]
    split_ifs <;> simp only [Waiter.behind,Waiter.rank,Stage.rank,if_neg hother] <;> omega
  | copyOwn f =>
    refine ⟨le_refl _,?_⟩
    simp only [inframeStep,Waiter.behind,Waiter.rank,Stage.rank,Lane.put_socket]
    omega
  | completeOwn f wkc =>
    refine ⟨le_refl _,?_⟩
    simp only [inframeStep,Waiter.behind,Waiter.rank,Stage.rank,Lane.mark_socket]
    omega
  | sourceOwn wkc =>
    refine ⟨le_refl _,?_⟩
    simp only [inframeStep,Waiter.behind,Waiter.rank,Stage.rank,if_pos hfact.2.back,Lane.source]
    omega
  | copyOther f j =>
    refine ⟨le_refl _,?_⟩
    simp only [inframeStep,Waiter.behind,Waiter.rank,Stage.rank,Lane.put_socket]
    omega
  | receivedOther f j =>
    refine ⟨le_refl _,?_⟩
    simp only [inframeStep,Waiter.behind,Waiter.rank,Stage.rank,Lane.mark_socket]
    omega
  | sourceOther j =>
    have hother : ¬ecNoFrame < ecOtherFrame := by decide
    refine ⟨le_refl _,?_⟩
    simp only [inframeStep,Waiter.behind,Waiter.rank,Stage.rank,if_neg hother,Lane.source]
    omega
  | unlock wkc => exact ⟨le_refl _,Waiter.rank_behind i _ (le_refl _) expired⟩
  | returned wkc => exact hfact.elim

theorem Flying.run_falls {stage : Stage} (h : Flying txbuflength frames n s) (hnet : s.net=[])
    (ht : s.threads t=.waiting i stage) (hfree : ¬s.Blocked t) (expired : Bool) :
    (s.step txbuflength (.run t expired)).rank n < s.rank n := by
  obtain ⟨hsocket,hless⟩ := h.run_rank hnet ht hfree expired
  rw [s.step_run expired ht]
  apply Finset.sum_lt_sum
  · intro u _
    by_cases hu : u=t
    · rw [hu,s.turn_self,ht]
      exact hless.le
    · rw [s.turn_other _ _ _ hu]
      exact Waiter.rank_le hsocket _
  · refine ⟨t,Finset.mem_range.mpr ?_,?_⟩
    · by_contra hout
      rw [h.bound t (Nat.le_of_not_lt hout)] at ht
      cases ht
    · rw [s.turn_self,ht]
      exact hless

theorem Flying.step_falls (h : Flying txbuflength frames n s) (hnet : s.net=[]) (e : Event) :
    s.step txbuflength e=s ∨ (s.step txbuflength e).rank n < s.rank n := by
  cases e with
  | arrive k body =>
    left
    rw [Receiving.step,hnet]
    rfl
  | run t expired =>
    cases ht : s.threads t with
    | idle => exact .inl (by simp only [Receiving.step,ht])
    | done i wkc => exact .inl (by simp only [Receiving.step,ht])
    | waiting i stage =>
      by_cases hfree : s.Blocked t
      · left
        obtain ⟨j,hj,hmutex⟩ := hfree
        rw [s.step_run expired hj,inframeStep,if_neg hmutex]
        change s.turn t s.lane s.mutex (.waiting j .lock)=s
        rw [Receiving.turn,← hj,Function.update_eq_self]
      · exact .inr (h.run_falls hnet ht hfree expired)

theorem Flying.free_thread {stage : Stage} (h : Flying txbuflength frames n s)
    (ht : s.threads t=.waiting i stage) :
    ∃ u j stage',s.threads u=.waiting j stage' ∧ ¬s.Blocked u := by
  by_cases hblocked : s.Blocked t
  · obtain ⟨j,-,hmutex⟩ := hblocked
    obtain ⟨u,hu⟩ := Option.ne_none_iff_exists'.mp hmutex
    have hlock := (h.owner u).mpr hu
    cases hw : s.threads u with
    | idle => rw [hw] at hlock; cases hlock
    | done k wkc => rw [hw] at hlock; cases hlock
    | waiting k stage' =>
      refine ⟨u,k,stage',hw,?_⟩
      rintro ⟨k',hk',-⟩
      rw [hk'] at hlock
      cases hlock
  · exact ⟨t,i,stage,ht,hblocked⟩

def Receiving.Timely (s : Receiving) : Prop :=
  ∀ t i wkc,s.threads t=.done i wkc → ecNoFrame < wkc

theorem Receiving.Timely.step (h : s.Timely) {e : Event} (he : ∀ t,e≠.run t true) :
    (s.step txbuflength e).Timely := by
  intro u j wkc hu
  cases e with
  | arrive k body =>
    cases hk : s.net[k]? with
    | none =>
      simp only [Receiving.step,hk] at hu
      exact h u j wkc hu
    | some f =>
      simp only [Receiving.step,hk] at hu
      exact h u j wkc hu
  | run t expired =>
    cases expired with
    | true => exact absurd rfl (he t)
    | false =>
      cases ht : s.threads t with
      | idle =>
        simp only [Receiving.step,ht] at hu
        exact h u j wkc hu
      | done i wkc' =>
        simp only [Receiving.step,ht] at hu
        exact h u j wkc hu
      | waiting i stage =>
        rw [s.step_run false ht] at hu
        by_cases hut : u=t
        · rw [hut,s.turn_self] at hu
          generalize (inframeStep txbuflength t i s.lane s.mutex stage).2.2=next at hu
          cases next with
          | returned rval =>
            by_cases hend : ecNoFrame < rval ∨ false=true
            · rw [Waiter.behind,if_pos hend] at hu
              cases hu
              exact hend.resolve_right (by decide)
            · rw [Waiter.behind,if_neg hend] at hu
              cases hu
          | _ => cases hu
        · rw [s.turn_other _ _ _ hut] at hu
          exact h u j wkc hu

theorem step_net (s : Receiving) (e : Event) (hnet : s.net=[]) :
    (s.step txbuflength e).net=[] := by
  cases e with
  | arrive k body =>
    rw [Receiving.step,hnet]
    exact hnet
  | run t expired =>
    cases ht : s.threads t with
    | waiting i stage =>
      rw [s.step_run expired ht]
      exact hnet
    | idle => simp only [Receiving.step,ht,hnet]
    | done i wkc => simp only [Receiving.step,ht,hnet]

/-- Every thread comes to its end when no frame is lost and all threads go on. -/
theorem Flying.ends (h : Flying txbuflength frames n s) (htimely : s.Timely)
    (ht : (s.threads t).index=some i) {es : Nat → Event} (hfair : Fair txbuflength n s es) :
    ∃ k wkc,(trace (Receiving.step txbuflength) s es k).threads t=.done i wkc ∧
      ecNoFrame < wkc := by
  obtain ⟨N,hN⟩ := hfair.arrive
  have hall : ∀ k,Flying txbuflength frames n (trace (Receiving.step txbuflength) s es k) ∧
      (trace (Receiving.step txbuflength) s es k).Timely ∧
      ((trace (Receiving.step txbuflength) s es k).threads t).index=some i := by
    intro k
    induction k with
    | zero => exact ⟨h,htimely,ht⟩
    | succ k ih =>
      exact ⟨ih.1.step _,ih.2.1.step (hfair.patient k),(step_index _ _ t).trans ih.2.2⟩
  have hnet : ∀ k,N ≤ k → (trace (Receiving.step txbuflength) s es k).net=[] := by
    intro k hk
    induction k, hk using Nat.le_induction with
    | base => exact hN
    | succ k _ ih => exact step_net _ _ ih
  obtain ⟨k,-,wkc,hdone⟩ := eventually_of_fair
    (I := fun s => Flying txbuflength frames n s ∧ s.net=[] ∧ (s.threads t).index=some i)
    (D := fun s => ∃ wkc,s.threads t=.done i wkc) (Receiving.rank n)
    (fun k hk => ⟨(hall k).1,hnet k hk,(hall k).2.2⟩)
    (fun k hk => (hall k).1.step_falls (hnet k hk) (es k))
    (by
      rintro s' ⟨hs,hempty,hindex⟩ hnot
      cases hw : s'.threads t with
      | idle => rw [hw] at hindex; cases hindex
      | done j wkc =>
        rw [hw] at hindex
        cases hindex
        exact absurd ⟨wkc,hw⟩ hnot
      | waiting j stage =>
        obtain ⟨u,j',stage',hu,hfree⟩ := hs.free_thread hw
        refine ⟨.run u false,hs.run_falls hempty hu hfree false,hfair.turns u ?_⟩
        by_contra hout
        rw [hs.bound u (Nat.le_of_not_lt hout)] at hu
        cases hu)
  exact ⟨k,wkc,hdone,(hall k).2.1 t i wkc hdone⟩

end Progress

section Delivery

variable {txbuflength : Nat → Nat} {frames : List Frame} {n : Nat} {s : Receiving}

theorem InFlight.waiting (h : InFlight txbuflength frames n s) {t i : Nat}
    (ht : (s.threads t).index=some i) : s.threads t=.waiting i .check := by
  rcases h.threads t with hidle|⟨f,-,hwait⟩
  · rw [hidle] at ht
    cases ht
  · rw [hwait] at ht ⊢
    cases ht
    rfl

/-- In whatever order frames arrive and threads take turns, a wait returns the frame of its index, and
every frame stays in one place: on the line, in the socket, in the hand of a thread or in the buffer of
its index. When all have arrived and no timer expires, every wait comes to its end. -/
theorem frames_delivered (h : InFlight txbuflength frames n s) :
    (∀ es t i wkc,(runFrom (Receiving.step txbuflength) s es).threads t=.done i wkc →
      ecNoFrame < wkc → s.threads t=.waiting i .check ∧ ∃ f ∈ frames,f.index=i ∧
        (runFrom (Receiving.step txbuflength) s es).Returned txbuflength f wkc) ∧
    (∀ es,∀ f ∈ frames,
      (runFrom (Receiving.step txbuflength) s es).underway f.index+
        (runFrom (Receiving.step txbuflength) s es).handed f.index=1 ∧
      tally (runFrom (Receiving.step txbuflength) s es).net f.index+
        tally (runFrom (Receiving.step txbuflength) s es).arrived f.index=1) ∧
    ∀ es,Fair txbuflength n s es → ∀ t i,s.threads t=.waiting i .check →
      ∃ k wkc,(trace (Receiving.step txbuflength) s es k).threads t=.done i wkc ∧
        ecNoFrame < wkc := by
  have hflying := h.flying
  refine ⟨?_,?_,?_⟩
  · intro es t i wkc ht hback
    refine ⟨h.waiting ?_,(hflying.along es).returned ht hback⟩
    have hindex : ((runFrom (Receiving.step txbuflength) s es).threads t).index=
        (s.threads t).index := runFrom_index s es t
    rw [← hindex,ht]
    rfl
  · intro es f hf
    refine ⟨(hflying.along es).placed hf,?_⟩
    rw [hflying.runFrom_tally,h.net,h.arrived,tally_nodup h.distinct hf,tally_nil]
  · intro es hfair t i ht
    apply hflying.ends _ (by rw [ht]; rfl) hfair
    intro u j wkc hu
    rcases h.threads u with hidle|⟨f,-,hwait⟩
    · rw [hidle] at hu
      cases hu
    · rw [hwait] at hu
      cases hu

/-- A frame LWR with one byte of data. -/
def byteFrame (request : Nat) (idx : UInt8) : Frame :=
  ⟨request,[255,255,255,255,255,255,1,1,1,1,1,1,0x88,0xA4,13,16,11,idx,0,0,1,0,1,0,0,0,7,0,0]⟩

/-- What comes back in it behind its index. -/
def byteReply (wkc : UInt8) : List UInt8 := [0,0,1,0,1,0,0,0,7,wkc,0]

/-- Two frames are under way, and two threads wait for them. -/
def twoWaiting : Receiving where
  lane :=
    { rxbufstat := fun i => if i=3 ∨ i=5 then .tx else .empty
      rxbuf := fun _ _ => 0
      rxsa := fun _ => 0
      tempbuf := fun _ => 0
      socket := []
      origin := fun _ => none }
  mutex := none
  net := [byteFrame 0 3,byteFrame 1 5]
  arrived := []
  threads := fun t => if t=0 then .waiting 3 .check else if t=1 then .waiting 5 .check else .idle

theorem twoWaiting_inFlight :
    InFlight (fun _ => 29) [byteFrame 0 3,byteFrame 1 5] 2 twoWaiting := by
  have hthreads : ∀ t,twoWaiting.threads t=
    if t=0 then .waiting 3 .check else if t=1 then .waiting 5 .check else .idle := fun _ => rfl
  refine ⟨?_,by decide,rfl,rfl,rfl,rfl,by decide,?_,?_,?_⟩
  · intro f hf
    rcases List.mem_pair.mp hf with rfl|rfl
    · exact ⟨⟨by decide,rfl,by decide,by decide⟩,by decide,rfl,by decide⟩
    · exact ⟨⟨by decide,rfl,by decide,by decide⟩,by decide,rfl,by decide⟩
  · intro t
    rw [hthreads]
    split_ifs
    · exact .inr ⟨byteFrame 0 3,by decide,rfl⟩
    · exact .inr ⟨byteFrame 1 5,by decide,rfl⟩
    · exact .inl rfl
  · intro t u i ht hu
    rw [hthreads] at ht hu
    split_ifs at ht hu
    all_goals first | omega | cases ht
    all_goals cases hu
  · intro t ht
    rw [hthreads,if_neg (by omega),if_neg (by omega)]

/-- The frames change places; then the threads take turns. -/
def crossing (k : Nat) : Event :=
  if k=0 then .arrive 1 (byteReply 4) else if k=1 then .arrive 0 (byteReply 2) else .run (k%2) false

theorem crossing_fair : Fair (fun _ => 29) 2 twoWaiting crossing := by
  refine ⟨?_,⟨2,rfl⟩,?_⟩
  · intro t ht k
    refine ⟨2*k+2+t,by omega,?_⟩
    rw [crossing,if_neg (by omega),if_neg (by omega)]
    congr 1
    omega
  · intro k t
    rw [crossing]
    split_ifs
    · intro hc
      cases hc
    · intro hc
      cases hc
    · intro hc
      cases hc

theorem two_frames_delivered :
    (∃ f ∈ [byteFrame 0 3,byteFrame 1 5],f.index=5 ∧
      (runFrom (Receiving.step fun _ => 29) twoWaiting ([.arrive 1 (byteReply 4)]++
        List.replicate 9 (.run 0 false)++List.replicate 3 (.run 1 false))).Returned
          (fun _ => 29) f 4) ∧
    (∃ k wkc,(trace (Receiving.step fun _ => 29) twoWaiting crossing k).threads 0=.done 3 wkc ∧
      ecNoFrame < wkc) := by
  obtain ⟨hreturned,-,hends⟩ := frames_delivered twoWaiting_inFlight
  refine ⟨(hreturned _ 1 5 4 ?_ (by decide)).2,hends crossing crossing_fair 0 3 rfl⟩
  decide +kernel

end Delivery

end EtherCATMaster.Nicdrv
