import EtherCATMaster.Nicdrv.Exclusive

namespace EtherCATMaster.Nicdrv

open EtherCATMaster.Framework
open EtherCATMaster.Mapping (ecMaxBuf ecNoFrame ecBufsize ethHeadersize ecHeadersize ecWkcsize
  writeBytes readBytes setupDatagram readBytes_length)

def Phase.hand : Phase → List Frame
  | .inframe _ _ _ _ _ stage => stage.hand
  | _ => []

/-- The thread has `rx_mutex`. -/
def Phase.locked : Phase → Bool
  | .inframe _ _ _ _ _ stage => stage.locked
  | _ => false

def Phase.built : Phase → Bool
  | .allocRed _ => false
  | .last _ => false
  | .unlockIndex _ => false
  | .taken _ => false
  | _ => true

def Shared.hand (s : Shared) (t : Nat) : List Frame := (s.threads t).phase.hand

def Shared.Inside (s : Shared) (f : Frame) : Prop :=
  (∃ side,f ∈ (s.lane side).socket) ∨ ∃ t,f ∈ s.hand t

/-- An index is given to one request at a time, when no frame that was sent with it is in a socket or
in the hand of a thread; and a frame does not arrive while another request has its index. -/
def InTime (s : Shared) : PortEvent → Prop
  | .run t _ =>
      match (s.threads t).phase with
      | .alloc idx => (∀ u,s.held u≠some idx) ∧ ∀ f,s.Inside f → f.index≠idx
      | _ => True
  | .arrive _ k _ =>
      ∀ f,s.net[k]?=some f → ∀ t,s.held t=some f.index → f.request=(s.threads t).request
  | .lose _ => True

def Shared.Own (s : Shared) (t : Nat) (side : Side) (idx : Nat) : Prop :=
  (s.lane side).origin idx=some (s.threads t).request

/-- What a requester is handed has been sent for its request. -/
def Shared.Fresh (s : Shared) : Prop :=
  ∀ t idx wkc,(s.threads t).phase=.done idx wkc → ecNoFrame < wkc → s.Own t .primary idx

/-- What a thread knows inside of `ecx_inframe`, for the request that its index is for. -/
def Lane.Fact (l : Lane) (request idx : Nat) : Stage → Prop
  | .pick _ => l.origin idx=some request
  | .mark _ _ => l.origin idx=some request
  | .got f => (l.tempbuf indexOffset).toNat=f.index
  | .copyOwn f => f.index=idx
  | .completeOwn _ _ => l.origin idx=some request
  | .sourceOwn _ => l.origin idx=some request
  | .copyOther f j => f.index=j
  | .receivedOther f j => f.index=j ∧ l.origin j=some f.request
  | .unlock rval => ecNoFrame < rval → l.origin idx=some request
  | .returned rval => ecNoFrame < rval → l.origin idx=some request
  | _ => True

/-- The results for the two sockets. Without a secondary socket there is always a result for it. -/
structure Shared.Results (s : Shared) (t idx : Nat) (wkc wkc2 : Int) : Prop where
  primary : ecNoFrame < wkc → s.Own t .primary idx
  secondary : s.redundant=true → ecNoFrame < wkc2 → s.Own t .secondary idx
  single : s.redundant=false → ecNoFrame < wkc2

/-- What a thread knows where it is. -/
def Shared.Fact (s : Shared) (t : Nat) : Phase → Prop
  | .lockTx _ => s.redundant=true
  | .dummy _ => s.redundant=true
  | .txRed _ => s.redundant=true
  | .sendRed _ => s.redundant=true
  | .failedRed _ => s.redundant=true
  | .unlockTx _ => s.redundant=true
  | .inframe side idx wkc wkc2 again stage =>
      ((side=.secondary ∨ again=true) → s.redundant=true) ∧ (again=true → side=.secondary) ∧
        s.Results t idx wkc wkc2 ∧
          (s.lane side).Fact (s.threads t).request idx stage
  | .reroute idx wkc wkc2 => s.redundant=true ∧ s.Results t idx wkc wkc2
  | .copyTx idx wkc => s.redundant=true ∧ (ecNoFrame < wkc → s.Own t .primary idx)
  | .txAgain idx wkc => s.redundant=true ∧ (ecNoFrame < wkc → s.Own t .primary idx)
  | .sendAgain idx wkc => s.redundant=true ∧ (ecNoFrame < wkc → s.Own t .primary idx)
  | .failedAgain idx wkc => s.redundant=true ∧ (ecNoFrame < wkc → s.Own t .primary idx)
  | .copyBack idx _ => s.Own t .secondary idx
  | .done idx wkc => ecNoFrame < wkc → s.Own t .primary idx
  | _ => True

/-- The buffer of an index on a socket is that of the thread: it has marked it in `ecx_getindex`. -/
def Shared.Settled (s : Shared) (t : Nat) (side : Side) : Prop :=
  side=.primary ∨ s.redundant=true ∧ ∀ idx,(s.threads t).phase≠.allocRed idx

/-- Where the frames of the requests are at any time. -/
structure Attributed (s : Shared) : Prop where
  owner : ∀ t,(s.threads t).phase.locked=true ↔ s.rxMutex=some t
  single : s.Exclusive
  built : ∀ t idx,s.held t=some idx → (s.threads t).phase.built=true →
    indexOffset < s.txbuflength idx
  dummy : s.redundant=true → indexOffset < s.txbuflength2
  long : ∀ f,f ∈ s.net ∨ s.Inside f → indexOffset < f.bytes.length
  inside : ∀ f,s.Inside f → ∀ t,s.held t=some f.index → f.request=(s.threads t).request
  received : ∀ t side idx,s.held t=some idx → s.Settled t side →
    (s.lane side).rxbufstat idx=.rcvd → s.Own t side idx
  facts : ∀ t,s.Fact t (s.threads t).phase

/-- What a step of thread `t` does to the frames. -/
structure Works (t : Nat) (s s' : Shared) : Prop where
  elsewhere : Elsewhere t s s'
  request : (s'.threads t).request=(s.threads t).request
  held : s'.held t=s.held t ∨ s'.held t=none
  redundant : s'.redundant=s.redundant
  length : ∀ idx,s'.txbuflength idx=s.txbuflength idx ∨ indexOffset < s'.txbuflength idx
  length2 : s'.txbuflength2=s.txbuflength2
  built : ∀ idx,s'.held t=some idx → (s'.threads t).phase.built=true →
    (s.threads t).phase.built=true ∨ indexOffset < s'.txbuflength idx
  net : ∀ f ∈ s'.net,f ∈ s.net ∨ indexOffset < f.bytes.length
  socket : ∀ side,∀ f ∈ (s'.lane side).socket,f ∈ (s.lane side).socket
  hand : ∀ f ∈ s'.hand t,s.Inside f
  mutex : s'.rxMutex=s.rxMutex ∧ (s'.threads t).phase.locked=(s.threads t).phase.locked ∨
    s.rxMutex=none ∧ s'.rxMutex=some t ∧ (s'.threads t).phase.locked=true ∨
    s.rxMutex=some t ∧ s'.rxMutex=none ∧ (s'.threads t).phase.locked=false
  origin : ∀ side j,(s'.lane side).origin j=(s.lane side).origin j ∨
    (s.rxMutex=some t ∧ ∃ f ∈ s.hand t,f.index=j ∧ (s'.lane side).origin j=some f.request) ∨
    s.held t=some j ∧ (s'.lane side).origin j=some (s.threads t).request
  stat : ∀ side j,(s'.lane side).rxbufstat j=.rcvd → (s.lane side).rxbufstat j=.rcvd ∨
    ∃ f ∈ s.hand t,f.index=j ∧ (s'.lane side).origin j=some f.request
  tempbuf : ∀ side,(s'.lane side).tempbuf=(s.lane side).tempbuf ∨ s.rxMutex=some t
  settled : ∀ side idx,s'.held t=some idx → s'.Settled t side → s.Settled t side ∨
    (s'.lane side).rxbufstat idx≠.rcvd

section Works

variable {s s' : Shared} {t : Nat}

theorem Works.inside (h : Works t s s') {f : Frame} (hf : s'.Inside f) : s.Inside f := by
  rcases hf with ⟨side,hin⟩|⟨u,hin⟩
  · exact .inl ⟨side,h.socket side f hin⟩
  · by_cases hu : u=t
    · rw [hu] at hin
      exact h.hand f hin
    · rw [Shared.hand,h.elsewhere.threads u hu] at hin
      exact .inr ⟨u,hin⟩

theorem Works.held_of (h : Works t s s') {u i : Nat} (hu : s'.held u=some i) :
    s.held u=some i := by
  by_cases hut : u=t
  · rw [hut] at hu ⊢
    rcases h.held with hsame|hnone
    · rw [← hsame]
      exact hu
    · rw [hnone] at hu
      cases hu
  · rw [h.elsewhere.held hut] at hu
    exact hu

theorem Works.request_of (h : Works t s s') (u : Nat) :
    (s'.threads u).request=(s.threads u).request := by
  by_cases hu : u=t
  · rw [hu,h.request]
  · rw [h.elsewhere.threads u hu]

theorem Works.own (h : Works t s s') (ha : Attributed s) {u idx : Nat} {side : Side}
    (hheld : s.held u=some idx) (hown : s.Own u side idx) : s'.Own u side idx := by
  rw [Shared.Own,h.request_of u]
  rcases h.origin side idx with hsame|⟨-,f,hf,hindex,hput⟩|⟨htheld,hput⟩
  · rw [hsame]
    exact hown
  · rw [hput,ha.inside f (.inr ⟨t,hf⟩) u (by rw [hindex]; exact hheld)]
  · rw [hput,ha.single u t idx hheld htheld]

theorem Shared.Results.of_own {u idx : Nat} {wkc wkc2 : Int} (h : s.Results u idx wkc wkc2)
    (hred : s'.redundant=s.redundant) (hown : ∀ side,s.Own u side idx → s'.Own u side idx) :
    s'.Results u idx wkc wkc2 := by
  refine ⟨fun hback => hown _ (h.primary hback),?_,?_⟩
  · rw [hred]
    exact fun hr hback => hown _ (h.secondary hr hback)
  · rw [hred]
    exact h.single

/-- What another thread knows stays true. -/
theorem Works.fact (h : Works t s s') (ha : Attributed s) {u : Nat} (hu : u≠t) :
    s'.Fact u (s'.threads u).phase := by
  have hfact := ha.facts u
  rw [h.elsewhere.threads u hu]
  have hown : ∀ {side idx},s.held u=some idx → s.Own u side idx → s'.Own u side idx :=
    fun hheld => h.own ha hheld
  cases hp : (s.threads u).phase <;> rw [hp] at hfact <;>
    simp only [Shared.Fact,h.redundant] at hfact ⊢
  case inframe side idx wkc wkc2 again stage =>
    have hheld : s.held u=some idx := by rw [Shared.held,hp]; rfl
    obtain ⟨hred,hagain,hres,hstage⟩ := hfact
    refine ⟨hred,hagain,?_,?_⟩
    · exact hres.of_own h.redundant (fun _ => hown hheld)
    · have hlock : stage.locked=true → s.rxMutex≠some t := by
        intro hl hc
        have hmutex := (ha.owner u).mp (by rw [hp]; exact hl)
        rw [hc] at hmutex
        exact hu (Option.some.inj hmutex).symm
      have hkeep : (s.lane side).origin idx=some (s.threads u).request →
          (s'.lane side).origin idx=some (s'.threads u).request := hown hheld
      cases stage <;> simp only [Lane.Fact] at hstage ⊢
      case pick locked => exact hkeep hstage
      case mark locked wkc => exact hkeep hstage
      case got f =>
        rw [(h.tempbuf side).resolve_right (hlock rfl)]
        exact hstage
      case copyOwn f => exact hstage
      case completeOwn f v => exact hkeep hstage
      case sourceOwn v => exact hkeep hstage
      case copyOther f j => exact hstage
      case receivedOther f j =>
        obtain ⟨hindex,horigin⟩ := hstage
        refine ⟨hindex,?_⟩
        rcases h.origin side j with hsame|⟨hc,-⟩|⟨htheld,hput⟩
        · rw [hsame]
          exact horigin
        · exact absurd hc (hlock rfl)
        · have hin : s.Inside f := by
            refine .inr ⟨u,?_⟩
            rw [Shared.hand,hp]
            exact List.mem_singleton_self f
          rw [hput,ha.inside f hin t (by rw [hindex]; exact htheld)]
      case unlock rval => exact fun hback => hkeep (hstage hback)
      case returned rval => exact fun hback => hkeep (hstage hback)
  case reroute idx wkc wkc2 =>
    exact ⟨hfact.1,hfact.2.of_own h.redundant (fun _ => hown (by rw [Shared.held,hp]; rfl))⟩
  case copyTx idx wkc =>
    exact ⟨hfact.1,fun hback => hown (by rw [Shared.held,hp]; rfl) (hfact.2 hback)⟩
  case txAgain idx wkc =>
    exact ⟨hfact.1,fun hback => hown (by rw [Shared.held,hp]; rfl) (hfact.2 hback)⟩
  case sendAgain idx wkc =>
    exact ⟨hfact.1,fun hback => hown (by rw [Shared.held,hp]; rfl) (hfact.2 hback)⟩
  case failedAgain idx wkc =>
    exact ⟨hfact.1,fun hback => hown (by rw [Shared.held,hp]; rfl) (hfact.2 hback)⟩
  case copyBack idx wkc => exact hown (by rw [Shared.held,hp]; rfl) hfact
  case done idx wkc => exact fun hback => hown (by rw [Shared.held,hp]; rfl) (hfact hback)
  all_goals exact hfact

/-- A step keeps the frames where they belong, if the thread knows what it has to behind it. -/
theorem Attributed.works (ha : Attributed s) (h : Works t s s')
    (hfact : s'.Fact t (s'.threads t).phase) : Attributed s' := by
  refine ⟨?_,?_,?_,?_,?_,?_,?_,?_⟩
  · intro u
    rcases h.mutex with ⟨hmutex,hlock⟩|⟨hfree,hmutex,hlock⟩|⟨hown,hmutex,hlock⟩
    · rw [hmutex,← ha.owner u]
      by_cases hu : u=t
      · rw [hu,hlock]
      · rw [h.elsewhere.threads u hu]
    · rw [hmutex]
      by_cases hu : u=t
      · rw [hu]
        exact iff_of_true hlock rfl
      · rw [h.elsewhere.threads u hu,ha.owner u,hfree]
        exact iff_of_false (by intro hc; cases hc) (fun hc => hu (Option.some.inj hc).symm)
    · rw [hmutex]
      by_cases hu : u=t
      · rw [hu,hlock]
        exact iff_of_false (by decide) (by intro hc; cases hc)
      · rw [h.elsewhere.threads u hu,ha.owner u,hown]
        exact iff_of_false (fun hc => hu (Option.some.inj hc).symm) (by intro hc; cases hc)
  · intro u v i hu hv
    exact ha.single u v i (h.held_of hu) (h.held_of hv)
  · intro u i hi hbuilt
    rcases h.length i with hsame|hlong
    · rw [hsame]
      by_cases hu : u=t
      · rw [hu] at hi hbuilt
        rcases h.built i hi hbuilt with hbefore|hlong
        · exact ha.built t i (h.held_of hi) hbefore
        · rw [← hsame]
          exact hlong
      · rw [h.elsewhere.threads u hu] at hbuilt
        exact ha.built u i (h.held_of hi) hbuilt
    · exact hlong
  · rw [h.redundant,h.length2]
    exact ha.dummy
  · rintro f (hnet|hin)
    · rcases h.net f hnet with hbefore|hlong
      · exact ha.long f (.inl hbefore)
      · exact hlong
    · exact ha.long f (.inr (h.inside hin))
  · intro f hf u hu
    rw [h.request_of u]
    exact ha.inside f (h.inside hf) u (h.held_of hu)
  · intro u side i hi hsettled hstat
    have hheld := h.held_of hi
    rcases h.stat side i hstat with hbefore|⟨f,hf,hindex,hput⟩
    · apply h.own ha hheld
      apply ha.received u side i hheld _ hbefore
      by_cases hu : u=t
      · rw [hu] at hi hsettled ⊢
        exact (h.settled side i hi hsettled).resolve_right (fun hc => hc hstat)
      · rw [Shared.Settled,h.redundant,h.elsewhere.threads u hu] at hsettled
        exact hsettled
    · rw [Shared.Own,hput,h.request_of u,
        ha.inside f (.inr ⟨t,hf⟩) u (by rw [hindex]; exact hheld)]
  · intro u
    by_cases hu : u=t
    · rw [hu]
      exact hfact
    · exact h.fact ha hu

end Works

section Inframe

variable {t idx request : Nat} {l : Lane} {mutex : Option Nat} {stage : Stage}

theorem recv_index {f : Frame} (b : Buffer) (hlong : indexOffset < f.bytes.length) :
    (writeBytes b 0 (f.bytes.take ecBufsize) indexOffset).toNat=f.index := by
  have htake : indexOffset < (f.bytes.take ecBufsize).length := by
    rw [List.length_take,ecBufsize]
    rw [indexOffset] at hlong ⊢
    omega
  rw [writeBytes_zero _ _ htake,Frame.index,packetBuffer,packetBuffer,List.getD_eq_getElem?_getD,
    List.getD_eq_getElem?_getD,List.getElem?_take_of_lt (by rw [indexOffset,ecBufsize]; omega)]

/-- A step of `ecx_inframe` keeps what the thread knows. -/
theorem inframeStep_fact (txbuflength : Nat → Nat) (t : Nat) (mutex : Option Nat)
    (hfact : l.Fact request idx stage)
    (hrcvd : l.rxbufstat idx=.rcvd → l.origin idx=some request)
    (hlong : ∀ f ∈ l.socket,indexOffset < f.bytes.length)
    (hhand : ∀ f ∈ stage.hand,f.index=idx → f.request=request) :
    (inframeStep txbuflength t idx l mutex stage).1.Fact request idx
      (inframeStep txbuflength t idx l mutex stage).2.2 := by
  have hnone : ¬ecNoFrame < ecNoFrame := lt_irrefl _
  have hother : ¬ecNoFrame < ecOtherFrame := by decide
  cases stage with
  | check =>
    simp only [inframeStep]
    split_ifs with hstat
    · exact hrcvd hstat.2
    · trivial
  | pick locked => exact hfact
  | mark locked wkc =>
    simp only [inframeStep]
    split_ifs
    · exact fun _ => hfact
    · exact fun _ => hfact
  | lock =>
    simp only [inframeStep]
    split_ifs <;> trivial
  | recheck =>
    simp only [inframeStep]
    split_ifs with hstat
    · exact hrcvd hstat.2
    · trivial
  | recv =>
    simp only [inframeStep]
    cases hsocket : l.socket with
    | nil => exact fun hback => absurd hback hnone
    | cons f rest =>
      simp only
      split_ifs
      · exact fun hback => absurd hback hnone
      · exact recv_index _ (hlong f (by rw [hsocket]; exact List.mem_cons_self))
  | got f =>
    have hindex : (l.tempbuf indexOffset).toNat=f.index := hfact
    simp only [inframeStep]
    split_ifs with htype hown hwaited
    · exact hindex.symm.trans hown
    · exact hindex.symm
    · exact fun hback => absurd hback hother
    · exact fun hback => absurd hback hother
  | copyOwn f =>
    change Function.update l.origin idx (some f.request) idx=some request
    rw [Function.update_self,hhand f (List.mem_singleton_self f) hfact]
  | completeOwn f wkc => exact hfact
  | sourceOwn wkc => exact fun _ => hfact
  | copyOther f j =>
    refine ⟨hfact,?_⟩
    change Function.update l.origin j (some f.request) j=some f.request
    rw [Function.update_self]
  | receivedOther f j => trivial
  | sourceOther j => exact fun hback => absurd hback hother
  | unlock rval => exact hfact
  | returned rval => exact hfact

/-- What a step of `ecx_inframe` does to the frames. -/
structure Steps (t : Nat) (mutex mutex' : Option Nat) (l l' : Lane) (stage stage' : Stage) :
    Prop where
  socket : ∀ f ∈ l'.socket,f ∈ l.socket
  hand : ∀ f ∈ stage'.hand,f ∈ stage.hand ∨ f ∈ l.socket
  mutex : mutex'=mutex ∧ stage'.locked=stage.locked ∨
    mutex=none ∧ mutex'=some t ∧ stage'.locked=true ∨
    stage.locked=true ∧ mutex'=none ∧ stage'.locked=false
  origin : ∀ j,l'.origin j=l.origin j ∨
    stage.locked=true ∧ ∃ f ∈ stage.hand,f.index=j ∧ l'.origin j=some f.request
  stat : ∀ j,l'.rxbufstat j=.rcvd → l.rxbufstat j=.rcvd ∨
    ∃ f ∈ stage.hand,f.index=j ∧ l'.origin j=some f.request
  tempbuf : l'.tempbuf=l.tempbuf ∨ stage.locked=true

/-- A step that only looks, or takes or gives back `rx_mutex`. -/
theorem Steps.look {mutex' : Option Nat} {stage' : Stage} (hhand : stage'.hand=stage.hand)
    (hmutex : mutex'=mutex ∧ stage'.locked=stage.locked ∨
      mutex=none ∧ mutex'=some t ∧ stage'.locked=true ∨
      stage.locked=true ∧ mutex'=none ∧ stage'.locked=false) :
    Steps t mutex mutex' l l stage stage' := by
  refine ⟨fun _ => id,?_,hmutex,fun _ => .inl rfl,fun _ => .inl,.inl rfl⟩
  intro f hf
  rw [hhand] at hf
  exact .inl hf

theorem Lane.mark_rcvd {bufstat : BufStat} {j k : Nat} (hne : bufstat≠.rcvd)
    (h : (l.mark k bufstat).rxbufstat j=.rcvd) : l.rxbufstat j=.rcvd := by
  by_cases hj : j=k
  · rw [hj,l.mark_self] at h
    exact absurd h hne
  · rw [l.mark_other hj] at h
    exact h

theorem inframeStep_steps (txbuflength : Nat → Nat) (t : Nat) (mutex : Option Nat)
    (hfact : l.Fact request idx stage) :
    Steps t mutex (inframeStep txbuflength t idx l mutex stage).2.1 l
      (inframeStep txbuflength t idx l mutex stage).1 stage
      (inframeStep txbuflength t idx l mutex stage).2.2 := by
  cases stage with
  | check =>
    simp only [inframeStep]
    split_ifs <;> exact .look rfl (.inl ⟨rfl,rfl⟩)
  | pick locked => exact .look rfl (.inl ⟨rfl,rfl⟩)
  | mark locked wkc =>
    refine ⟨fun _ => id,?_,.inl ⟨rfl,?_⟩,fun _ => .inl rfl,?_,.inl rfl⟩
    · intro f hf
      cases locked <;> cases hf
    · cases locked <;> rfl
    · intro j hj
      exact .inl (Lane.mark_rcvd (by decide) hj)
  | lock =>
    simp only [inframeStep]
    split_ifs with hfree
    · exact .look rfl (.inr (.inl ⟨hfree,rfl,rfl⟩))
    · exact .look rfl (.inl ⟨rfl,rfl⟩)
  | recheck =>
    simp only [inframeStep]
    split_ifs <;> exact .look rfl (.inl ⟨rfl,rfl⟩)
  | recv =>
    simp only [inframeStep]
    cases hsocket : l.socket with
    | nil => exact .look rfl (.inl ⟨rfl,rfl⟩)
    | cons f rest =>
      refine ⟨?_,?_,.inl ⟨rfl,?_⟩,fun _ => .inl rfl,fun _ => .inl,.inr rfl⟩
      · intro g hg
        rw [hsocket]
        exact List.mem_cons_of_mem f hg
      · intro g hg
        simp only at hg
        split_ifs at hg
        · cases hg
        · rw [List.mem_singleton.mp hg,hsocket]
          exact .inr List.mem_cons_self
      · simp only
        split_ifs <;> rfl
  | got f =>
    simp only [inframeStep]
    have hnone : Steps t mutex mutex l l (.got f) (.unlock ecOtherFrame) := by
      refine ⟨fun _ => id,?_,.inl ⟨rfl,rfl⟩,fun _ => .inl rfl,fun _ => .inl,.inl rfl⟩
      intro g hg
      cases hg
    split_ifs
    · exact .look rfl (.inl ⟨rfl,rfl⟩)
    · exact .look rfl (.inl ⟨rfl,rfl⟩)
    · exact hnone
    · exact hnone
  | copyOwn f =>
    refine ⟨fun _ => id,fun _ => .inl,.inl ⟨rfl,rfl⟩,?_,fun _ => .inl,.inl rfl⟩
    intro j
    by_cases hj : j=idx
    · right
      refine ⟨rfl,f,List.mem_singleton_self f,?_,?_⟩
      · rw [hj]
        exact hfact
      · rw [hj]
        exact Function.update_self ..
    · exact .inl (Function.update_of_ne hj ..)
  | completeOwn f wkc =>
    refine ⟨fun _ => id,?_,.inl ⟨rfl,rfl⟩,fun _ => .inl rfl,?_,.inl rfl⟩
    · intro g hg
      cases hg
    · intro j hj
      exact .inl (Lane.mark_rcvd (by decide) hj)
  | sourceOwn wkc =>
    refine ⟨fun _ => id,?_,.inl ⟨rfl,rfl⟩,fun _ => .inl rfl,fun _ => .inl,.inl rfl⟩
    intro g hg
    cases hg
  | copyOther f j =>
    refine ⟨fun _ => id,fun _ => .inl,.inl ⟨rfl,rfl⟩,?_,fun _ => .inl,.inl rfl⟩
    intro k
    by_cases hk : k=j
    · right
      refine ⟨rfl,f,List.mem_singleton_self f,?_,?_⟩
      · rw [hk]
        exact hfact
      · rw [hk]
        exact Function.update_self ..
    · exact .inl (Function.update_of_ne hk ..)
  | receivedOther f j =>
    refine ⟨fun _ => id,?_,.inl ⟨rfl,rfl⟩,fun _ => .inl rfl,?_,.inl rfl⟩
    · intro g hg
      cases hg
    · intro k hk
      by_cases hkj : k=j
      · right
        refine ⟨f,List.mem_singleton_self f,?_,?_⟩
        · rw [hkj]
          exact hfact.1
        · rw [hkj]
          exact hfact.2
      · left
        change (l.mark j .rcvd).rxbufstat k=.rcvd at hk
        rw [l.mark_other hkj] at hk
        exact hk
  | sourceOther j =>
    refine ⟨fun _ => id,?_,.inl ⟨rfl,rfl⟩,fun _ => .inl rfl,fun _ => .inl,.inl rfl⟩
    intro g hg
    cases hg
  | unlock rval => exact .look rfl (.inr (.inr ⟨rfl,rfl,rfl⟩))
  | returned rval => exact .look rfl (.inl ⟨rfl,rfl⟩)

end Inframe

section Threads

variable {s : Shared} {t : Nat}

theorem behindStep_hand (redundant : Bool) (side : Side) (idx : Nat) (wkc wkc2 : Int)
    (again expired : Bool) (stage : Stage) :
    (behindStep redundant side idx wkc wkc2 again expired stage).hand=stage.hand ∧
      (behindStep redundant side idx wkc wkc2 again expired stage).locked=stage.locked := by
  apply behindStep_elim
    (P := fun stage phase => phase.hand=stage.hand ∧ phase.locked=stage.locked)
  all_goals
    intros
    exact ⟨rfl,rfl⟩

theorem Shared.Results.nextRound {idx : Nat} {wkc wkc2 : Int} (h : s.Results t idx wkc wkc2)
    (expired : Bool) : s.Fact t (nextRound s.redundant idx wkc wkc2 expired) := by
  rw [Nicdrv.nextRound]
  split_ifs with hmore hwkc hred
  · exact ⟨by simp,by simp,h,trivial⟩
  · refine ⟨fun _ => ?_,fun _ => rfl,h,trivial⟩
    by_contra hc
    have hback := h.single (Bool.eq_false_of_not_eq_true hc)
    rcases hmore.1 with hlow|hlow
    · exact hwkc hlow
    · exact absurd hback (Int.not_lt.mpr hlow)
  · exact ⟨hred,h⟩
  · exact h.primary

theorem route_outside (s : Shared) (idx : Nat) (wkc wkc2 : Int) :
    (s.route idx wkc wkc2).hand=[] ∧ (s.route idx wkc wkc2).locked=false := by
  simp only [Shared.route]
  split_ifs <;> exact ⟨rfl,rfl⟩

/-- A thread that comes out of `ecx_inframe` knows whose frame it is. -/
theorem behindInframe_fact {side : Side} {idx : Nat} {wkc wkc2 rval : Int} {again : Bool}
    (expired : Bool) (hred : side=.secondary ∨ again=true → s.redundant=true)
    (hagain : again=true → side=.secondary) (hres : s.Results t idx wkc wkc2)
    (hown : ecNoFrame < rval → s.Own t side idx) :
    s.Fact t (behindInframe s.redundant side idx wkc wkc2 again expired rval) := by
  cases again with
  | true =>
    obtain rfl := hagain rfl
    simp only [behindInframe,if_true]
    split_ifs with hmore hback
    · refine ⟨hred,hagain,⟨hres.primary,fun _ => hown,?_⟩,trivial⟩
      intro hc
      rw [hred (.inl rfl)] at hc
      cases hc
    · exact hown hback
    · exact hres.primary
  | false =>
    cases side with
    | primary =>
      simp only [behindInframe,Bool.false_eq_true,if_false]
      have hnext : s.Results t idx rval wkc2 := ⟨hown,hres.secondary,hres.single⟩
      split_ifs with hsec
      · exact ⟨fun _ => hsec.1,fun _ => rfl,hnext,trivial⟩
      · exact hnext.nextRound expired
    | secondary =>
      simp only [behindInframe,Bool.false_eq_true,if_false]
      have hnext : s.Results t idx wkc rval := by
        refine ⟨hres.primary,fun _ => hown,?_⟩
        intro hc
        rw [hred (.inl rfl)] at hc
        cases hc
      exact hnext.nextRound expired

theorem Shared.Results.route {idx : Nat} {wkc wkc2 : Int} (h : s.Results t idx wkc wkc2)
    (hred : s.redundant=true) : s.Fact t (s.route idx wkc wkc2) := by
  have hback : (if wkc2>ecNoFrame then (s.lane .secondary).rxsa idx else 0)=rxPrim →
      ecNoFrame < wkc2 := by
    intro hprim
    by_contra hc
    rw [if_neg hc] at hprim
    cases hprim
  simp only [Shared.route]
  generalize (if wkc>ecNoFrame then (s.lane .primary).rxsa idx else 0)=primrx
  generalize (if wkc2>ecNoFrame then (s.lane .secondary).rxsa idx else 0)=secrx at hback ⊢
  split_ifs with hnormal
  · exact h.secondary hred (hback hnormal.2)
  · exact ⟨hred,h.primary⟩
  · exact ⟨hred,h.primary⟩
  · exact h.primary

theorem Shared.Own.congr {s' : Shared} {u idx : Nat} {side : Side} (h : s.Own u side idx)
    (horigin : ∀ side,(s'.lane side).origin=(s.lane side).origin)
    (hrequest : (s'.threads u).request=(s.threads u).request) : s'.Own u side idx := by
  rw [Shared.Own,horigin,hrequest]
  exact h

theorem Shared.Fact.congr {s' : Shared} {u : Nat} {p : Phase} (h : s.Fact u p)
    (hred : s'.redundant=s.redundant)
    (horigin : ∀ side,(s'.lane side).origin=(s.lane side).origin)
    (htemp : ∀ side,(s'.lane side).tempbuf=(s.lane side).tempbuf)
    (hrequest : (s'.threads u).request=(s.threads u).request) : s'.Fact u p := by
  have hown : ∀ {side idx},s.Own u side idx → s'.Own u side idx :=
    fun ho => ho.congr horigin hrequest
  cases p <;> simp only [Shared.Fact,hred] at h ⊢
  case inframe side idx wkc wkc2 again stage =>
    refine ⟨h.1,h.2.1,h.2.2.1.of_own hred (fun _ => hown),?_⟩
    have hstage := h.2.2.2
    cases stage <;> simp only [Lane.Fact,horigin,htemp,hrequest] at hstage ⊢ <;> exact hstage
  case reroute idx wkc wkc2 => exact ⟨h.1,h.2.of_own hred (fun _ => hown)⟩
  case copyTx idx wkc => exact ⟨h.1,fun hback => hown (h.2 hback)⟩
  case txAgain idx wkc => exact ⟨h.1,fun hback => hown (h.2 hback)⟩
  case sendAgain idx wkc => exact ⟨h.1,fun hback => hown (h.2 hback)⟩
  case failedAgain idx wkc => exact ⟨h.1,fun hback => hown (h.2 hback)⟩
  case copyBack idx wkc => exact hown h
  case done idx wkc => exact fun hback => hown (h hback)
  all_goals exact h

/-- A stack behind a step that only marks buffers. -/
structure Lane.Marked (l l' : Lane) : Prop where
  socket : l'.socket=l.socket
  origin : l'.origin=l.origin
  tempbuf : l'.tempbuf=l.tempbuf
  stat : ∀ j,l'.rxbufstat j=.rcvd → l.rxbufstat j=.rcvd

theorem Lane.Marked.refl (l : Lane) : l.Marked l := ⟨rfl,rfl,rfl,fun _ => id⟩

theorem Shared.mark_marked (s : Shared) (side : Side) (idx : Nat) {bufstat : BufStat}
    (hne : bufstat≠.rcvd) (side' : Side) :
    (s.lane side').Marked ((s.mark side idx bufstat).lane side') := by
  by_cases hside : side'=side
  · rw [hside,s.mark_lane]
    exact ⟨rfl,rfl,rfl,fun _ => Lane.mark_rcvd hne⟩
  · rw [s.mark_lane_other hside]
    exact .refl _

/-- A step outside of `ecx_inframe`. -/
theorem Works.outside {s' : Shared} {q : Phase} (hp : (s.threads t).phase=q)
    (helse : Elsewhere t s s') (hrequest : (s'.threads t).request=(s.threads t).request)
    (hheld : (s'.threads t).phase.held=q.held ∨ (s'.threads t).phase.held=none)
    (hhand : (s'.threads t).phase.hand=[])
    (hlock : (s'.threads t).phase.locked=q.locked) (hmutex : s'.rxMutex=s.rxMutex)
    (hred : s'.redundant=s.redundant)
    (hlength : ∀ i,s'.txbuflength i=s.txbuflength i ∨ indexOffset < s'.txbuflength i)
    (hlength2 : s'.txbuflength2=s.txbuflength2)
    (hbuilt : q.built=true ∨ (s'.threads t).phase.built=false ∨
      ∀ i,(s'.threads t).phase.held=some i → indexOffset < s'.txbuflength i)
    (hnet : ∀ f ∈ s'.net,f ∈ s.net ∨ indexOffset < f.bytes.length)
    (hlanes : ∀ side,(s.lane side).Marked (s'.lane side))
    (hsettled : (∀ i,q≠.allocRed i) ∨ ∀ i,(s'.threads t).phase.held=some i →
      (s'.lane .secondary).rxbufstat i≠.rcvd) : Works t s s' := by
  refine ⟨helse,hrequest,?_,hred,hlength,hlength2,?_,hnet,?_,?_,?_,?_,?_,?_,?_⟩
  · rw [Shared.held,Shared.held,hp]
    exact hheld
  · intro i hi hb
    rw [hp]
    rcases hbuilt with hq|hno|hlong
    · exact .inl hq
    · rw [hno] at hb
      cases hb
    · exact .inr (hlong i hi)
  · intro side f hf
    rw [(hlanes side).socket] at hf
    exact hf
  · intro f hf
    rw [Shared.hand,hhand] at hf
    cases hf
  · rw [hp]
    exact .inl ⟨hmutex,hlock⟩
  · intro side j
    rw [(hlanes side).origin]
    exact .inl rfl
  · intro side j hj
    exact .inl ((hlanes side).stat j hj)
  · intro side
    exact .inl (hlanes side).tempbuf
  · intro side i hi hset
    rcases hset with hprim|⟨hr,-⟩
    · exact .inl (.inl hprim)
    · rcases hsettled with hnot|hstat
      · left
        right
        rw [hred] at hr
        rw [hp]
        exact ⟨hr,hnot⟩
      · cases side with
        | primary => exact .inl (.inl rfl)
        | secondary => exact .inr (hstat i hi)

theorem Works.goto {s₁ : Shared} {p q : Phase} (hp : (s.threads t).phase=q)
    (helse : Elsewhere t s s₁) (hrequest : (s₁.threads t).request=(s.threads t).request)
    (hport : s₁.rxMutex=s.rxMutex ∧ s₁.redundant=s.redundant ∧ s₁.txbuflength2=s.txbuflength2)
    (hlength : ∀ i,s₁.txbuflength i=s.txbuflength i ∨ indexOffset < s₁.txbuflength i)
    (hheld : p.held=q.held ∨ p.held=none) (hhand : p.hand=[] ∧ p.locked=q.locked)
    (hbuilt : q.built=true ∨ p.built=false ∨
      ∀ i,p.held=some i → indexOffset < s₁.txbuflength i)
    (hnet : ∀ f ∈ s₁.net,f ∈ s.net ∨ indexOffset < f.bytes.length)
    (hlanes : ∀ side,(s.lane side).Marked (s₁.lane side))
    (hsettled : (∀ i,q≠.allocRed i) ∨ ∀ i,p.held=some i →
      (s₁.lane .secondary).rxbufstat i≠.rcvd) : Works t s (s₁.goto t p) := by
  have hself : (s₁.goto t p).threads t={ s₁.threads t with phase := p } := s₁.goto_self t p
  obtain ⟨hmutex,hred,hlength2⟩ := hport
  refine Works.outside hp (helse.goto p) ?_ ?_ ?_ ?_ hmutex hred hlength hlength2 ?_ hnet hlanes ?_
  · rw [hself]
    exact hrequest
  · rw [hself]
    exact hheld
  · rw [hself]
    exact hhand.1
  · rw [hself]
    exact hhand.2
  · rw [hself]
    exact hbuilt
  · rw [hself]
    exact hsettled

theorem Attributed.goto {s₁ : Shared} {p : Phase} (ha : Attributed s)
    (hw : Works t s (s₁.goto t p)) (hfact : (s₁.goto t p).Fact t p) :
    Attributed (s₁.goto t p) := by
  refine ha.works hw ?_
  rw [s₁.goto_self]
  exact hfact

theorem Attributed.plain {s₁ : Shared} {p q : Phase} (ha : Attributed s)
    (hp : (s.threads t).phase=q) (hthreads : s₁.threads=s.threads)
    (hport : s₁.rxMutex=s.rxMutex ∧ s₁.redundant=s.redundant ∧ s₁.txbuflength=s.txbuflength ∧
      s₁.txbuflength2=s.txbuflength2)
    (hheld : p.held=q.held ∨ p.held=none) (hhand : p.hand=[] ∧ p.locked=q.locked)
    (hbuilt : q.built=true ∨ p.built=false)
    (hnet : ∀ f ∈ s₁.net,f ∈ s.net ∨ indexOffset < f.bytes.length)
    (hlanes : ∀ side,(s.lane side).Marked (s₁.lane side)) (hsettled : ∀ i,q≠.allocRed i)
    (hfact : s.Fact t p) : Attributed (s₁.goto t p) := by
  obtain ⟨hmutex,hred,hlength,hlength2⟩ := hport
  apply ha.goto
  · refine Works.goto hp ⟨fun u _ => ?_⟩ ?_ ⟨hmutex,hred,hlength2⟩ (fun i => .inl ?_) hheld hhand
      (hbuilt.imp id .inl) hnet hlanes (.inl hsettled)
    · rw [hthreads]
    · rw [hthreads]
    · rw [hlength]
  · refine hfact.congr hred (fun side => (hlanes side).origin) (fun side => (hlanes side).tempbuf) ?_
    rw [s₁.goto_self,hthreads]

theorem transmit_net (t : Nat) {b : Buffer} {n : Nat} (hlong : indexOffset < n) :
    ∀ f ∈ (s.transmit t (readBytes b 0 n)).net,f ∈ s.net ∨ indexOffset < f.bytes.length := by
  intro f hf
  rcases List.mem_append.mp hf with hin|hin
  · exact .inl hin
  · right
    rw [List.mem_singleton.mp hin,readBytes_length]
    exact hlong

/-- What a step of `ecx_inframe` does on its lane, it does to the frames. -/
theorem Steps.works {side : Side} {idx : Nat} {wkc wkc2 : Int} {again : Bool}
    {stage stage' : Stage} {l : Lane} {mutex : Option Nat} {p : Phase}
    (hp : (s.threads t).phase=.inframe side idx wkc wkc2 again stage)
    (hsteps : Steps t s.rxMutex mutex (s.lane side) l stage stage')
    (hlocked : stage.locked=true → s.rxMutex=some t)
    (hheld : p.held=some idx) (hhand : p.hand=stage'.hand) (hlock : p.locked=stage'.locked) :
    Works t s (({ s with rxMutex := mutex }.setLane side l).goto t p) := by
  have hown : s.hand t=stage.hand := by rw [Shared.hand,hp]; rfl
  have helse : Elsewhere t s ({ s with rxMutex := mutex }.setLane side l) := ⟨fun _ _ => rfl⟩
  have hself : (({ s with rxMutex := mutex }.setLane side l).goto t p).threads t=
      { s.threads t with phase := p } := by
    rw [Shared.goto_self]
    rfl
  have hlane : (({ s with rxMutex := mutex }.setLane side l).goto t p).lane side=l :=
    Shared.setLane_lane _ side l
  have hlane' : ∀ side',side'≠side →
      (({ s with rxMutex := mutex }.setLane side l).goto t p).lane side'=s.lane side' :=
    fun _ hne => Shared.setLane_other _ hne l
  refine ⟨helse.goto p,by rw [hself],.inl ?_,rfl,fun _ => .inl rfl,rfl,?_,fun _ => .inl,
    ?_,?_,?_,?_,?_,?_,?_⟩
  · rw [Shared.held,hself,Shared.held,hp]
    exact hheld
  · intro _ _ _
    exact .inl (by rw [hp]; rfl)
  · intro side' f hf
    by_cases hside : side'=side
    · rw [hside,hlane] at hf
      rw [hside]
      exact hsteps.socket f hf
    · rw [hlane' side' hside] at hf
      exact hf
  · intro f hf
    rw [Shared.hand,hself,hhand] at hf
    rcases hsteps.hand f hf with hin|hin
    · exact .inr ⟨t,by rw [hown]; exact hin⟩
    · exact .inl ⟨side,hin⟩
  · rw [hself,hp]
    rcases hsteps.mutex with ⟨hm,hl⟩|⟨hfree,hm,hl⟩|⟨hl,hm,hl'⟩
    · exact .inl ⟨hm,hlock.trans hl⟩
    · exact .inr (.inl ⟨hfree,hm,hlock.trans hl⟩)
    · exact .inr (.inr ⟨hlocked hl,hm,hlock.trans hl'⟩)
  · intro side' j
    by_cases hside : side'=side
    · rw [hside,hlane,hown]
      exact (hsteps.origin j).imp id (fun hput => .inl ⟨hlocked hput.1,hput.2⟩)
    · rw [hlane' side' hside]
      exact .inl rfl
  · intro side' j hj
    by_cases hside : side'=side
    · rw [hside,hlane] at hj ⊢
      rw [hown]
      exact hsteps.stat j hj
    · rw [hlane' side' hside] at hj
      exact .inl hj
  · intro side'
    by_cases hside : side'=side
    · rw [hside,hlane]
      exact hsteps.tempbuf.imp id hlocked
    · rw [hlane' side' hside]
      exact .inl rfl
  · intro side' i _ hset
    refine .inl (hset.imp id fun hred => ⟨hred.1,?_⟩)
    rw [hp]
    intro k hk
    cases hk

/-- The step in which a thread makes a call of `ecx_inframe` go on. -/
theorem Attributed.inframe {side : Side} {idx : Nat} {wkc wkc2 : Int} {again : Bool}
    {stage : Stage} (ha : Attributed s)
    (hp : (s.threads t).phase=.inframe side idx wkc wkc2 again stage) (c : Choice) :
    Attributed (s.act t c) := by
  have hheld : s.held t=some idx := by rw [Shared.held,hp]; rfl
  have hhand : s.hand t=stage.hand := by rw [Shared.hand,hp]; rfl
  have hfacts := ha.facts t
  rw [hp] at hfacts
  obtain ⟨hred,hagain,hres,hstage⟩ := hfacts
  have hlocked : stage.locked=true → s.rxMutex=some t := by
    intro hl
    exact (ha.owner t).mp (by rw [hp]; exact hl)
  have hsettled : s.Settled t side := by
    cases side with
    | primary => exact .inl rfl
    | secondary =>
      refine .inr ⟨hred (.inl rfl),?_⟩
      rw [hp]
      intro i hi
      cases hi
  have hsteps := inframeStep_steps s.txbuflength t s.rxMutex hstage
  have hnext := inframeStep_fact s.txbuflength t s.rxMutex hstage
    (ha.received t side idx hheld hsettled) (fun f hf => ha.long f (.inr (.inl ⟨side,hf⟩)))
    (fun f hf hi => ha.inside f (.inr ⟨t,by rw [hhand]; exact hf⟩) t (by rw [hi]; exact hheld))
  simp only [Shared.act,hp]
  generalize inframeStep s.txbuflength t idx (s.lane side) s.rxMutex stage=r at *
  obtain ⟨hwheld,-⟩ := behindStep_waits s.redundant side idx wkc wkc2 again c.expired r.2.2
  obtain ⟨hwhand,hwlocked⟩ := behindStep_hand s.redundant side idx wkc wkc2 again c.expired r.2.2
  generalize hphase : behindStep s.redundant side idx wkc wkc2 again c.expired r.2.2=p at *
  have hworks := hsteps.works hp hlocked hwheld hwhand hwlocked
  have hself := ({ s with rxMutex := r.2.1 }.setLane side r.1).goto_self (t := t) (p := p)
  have hlane : (({ s with rxMutex := r.2.1 }.setLane side r.1).goto t p).lane side=r.1 :=
    Shared.setLane_lane _ side r.1
  generalize ({ s with rxMutex := r.2.1 }.setLane side r.1).goto t p=s' at *
  refine ha.works hworks ?_
  have hres' := hres.of_own hworks.redundant (fun _ => hworks.own ha hheld)
  have hrequest := hworks.request
  rw [← hworks.redundant] at hred hphase
  rw [hself,← hphase]
  cases hstage' : r.2.2 with
  | returned rval =>
    rw [hstage'] at hnext
    refine behindInframe_fact c.expired hred hagain hres' ?_
    intro hback
    rw [Shared.Own,hlane,hrequest]
    exact hnext hback
  | _ =>
    rw [hstage'] at hnext
    refine ⟨hred,hagain,hres',?_⟩
    rw [hlane,hrequest]
    exact hnext

/-- The secondary buffer of the own request is copied to the primary one. -/
theorem Attributed.copyBack {idx : Nat} {wkc : Int} (ha : Attributed s)
    (hp : (s.threads t).phase=.copyBack idx wkc) :
    Attributed ((s.copySecondary idx).goto t (.done idx wkc)) := by
  have hheld : s.held t=some idx := by rw [Shared.held,hp]; rfl
  have hown := ha.facts t
  rw [hp] at hown
  have hprim : ((s.copySecondary idx).lane .primary).origin=
      Function.update (s.lane .primary).origin idx ((s.lane .secondary).origin idx) := by
    simp only [Shared.copySecondary,Shared.setLane_lane]
  have hlanes : ∀ side,((s.copySecondary idx).lane side).socket=(s.lane side).socket ∧
      ((s.copySecondary idx).lane side).tempbuf=(s.lane side).tempbuf ∧
      ((s.copySecondary idx).lane side).rxbufstat=(s.lane side).rxbufstat := by
    intro side
    cases side with
    | primary =>
      simp only [Shared.copySecondary,Shared.setLane_lane]
      exact ⟨trivial,trivial,trivial⟩
    | secondary =>
      have hne : Side.secondary≠Side.primary := by decide
      have hsec : (s.copySecondary idx).lane .secondary=s.lane .secondary := s.setLane_other hne _
      rw [hsec]
      exact ⟨rfl,rfl,rfl⟩
  have hself : ((s.copySecondary idx).goto t (.done idx wkc)).threads t=
      { s.threads t with phase := .done idx wkc } := Shared.goto_self ..
  have hwriter : ((s.copySecondary idx).lane .primary).origin idx=
      some (s.threads t).request := by
    rw [hprim,Function.update_self]
    exact hown
  have helse : Elsewhere t s (s.copySecondary idx) := ⟨fun _ _ => rfl⟩
  apply ha.goto
  · refine ⟨helse.goto _,by rw [hself],.inl ?_,rfl,fun _ => .inl rfl,rfl,?_,
      fun _ => .inl,?_,?_,.inl ⟨rfl,?_⟩,?_,?_,?_,?_⟩
    · rw [Shared.held_goto,hheld]
      rfl
    · intro _ _ _
      exact .inl (by rw [hp]; rfl)
    · intro side f hf
      exact (hlanes side).1 ▸ hf
    · intro f hf
      rw [Shared.hand,hself] at hf
      cases hf
    · rw [hself,hp]
      rfl
    · intro side j
      cases side with
      | primary =>
        by_cases hj : j=idx
        · right
          right
          rw [hj]
          exact ⟨hheld,hwriter⟩
        · left
          change ((s.copySecondary idx).lane .primary).origin j=_
          rw [hprim,Function.update_of_ne hj]
      | secondary =>
        left
        change ((s.copySecondary idx).lane .secondary).origin j=_
        rw [Shared.copySecondary,Shared.setLane_other _ (by decide)]
    · intro side j hj
      left
      change ((s.copySecondary idx).lane side).rxbufstat j=.rcvd at hj
      rw [(hlanes side).2.2] at hj
      exact hj
    · intro side
      exact .inl (hlanes side).2.1
    · intro side i _ hset
      left
      rcases hset with hprim'|⟨hr,-⟩
      · exact .inl hprim'
      · refine .inr ⟨hr,?_⟩
        rw [hp]
        intro k hk
        cases hk
  · intro _
    rw [Shared.Own,hself]
    exact hwriter

/-- Thread `t` takes index `idx`. -/
structure Allocated (t idx : Nat) (s s' : Shared) : Prop where
  elsewhere : Elsewhere t s s'
  mutex : s'.rxMutex=s.rxMutex
  redundant : s'.redundant=s.redundant
  length : s'.txbuflength=s.txbuflength ∧ s'.txbuflength2=s.txbuflength2
  net : s'.net=s.net
  held : s'.held t=some idx
  locked : (s'.threads t).phase.locked=false
  built : (s'.threads t).phase.built=false
  hand : s'.hand t=[]
  fact : s'.Fact t (s'.threads t).phase
  lanes : ∀ side,(s.lane side).Marked (s'.lane side)
  stat : (s'.lane .primary).rxbufstat idx=.alloc
  settled : s.redundant=true → (s'.threads t).phase=.allocRed idx

theorem act_allocated {idx : Nat} (hp : (s.threads t).phase=.alloc idx) (c : Choice) :
    Allocated t idx s (s.act t c) := by
  have hact : s.act t c={ s.mark .primary idx .alloc with
      requests := s.requests+1
      threads := Function.update s.threads t
        ⟨if s.redundant=true then .allocRed idx else .last idx,s.requests,false⟩ } := by
    simp only [Shared.act,hp]
    rfl
  have hself : (s.act t c).threads t=
      ⟨if s.redundant=true then .allocRed idx else .last idx,s.requests,false⟩ := by
    rw [hact]
    exact Function.update_self ..
  have hlane : (s.act t c).lane .primary=(s.lane .primary).mark idx .alloc ∧
      (s.act t c).lane .secondary=s.lane .secondary := by
    rw [hact]
    have hne : Side.secondary≠Side.primary := by decide
    exact ⟨s.mark_lane .primary idx .alloc,s.mark_lane_other hne idx .alloc⟩
  have hphase : (s.act t c).held t=some idx ∧ ((s.act t c).threads t).phase.locked=false ∧
      ((s.act t c).threads t).phase.built=false ∧ (s.act t c).hand t=[] ∧
      (s.act t c).Fact t ((s.act t c).threads t).phase := by
    rw [Shared.held,Shared.hand,hself]
    split_ifs <;> exact ⟨rfl,rfl,rfl,rfl,trivial⟩
  obtain ⟨hheld,hlocked,hbuilt,hhand,hfact⟩ := hphase
  refine ⟨act_elsewhere s t c,by rw [hact]; rfl,by rw [hact]; rfl,by rw [hact]; exact ⟨rfl,rfl⟩,
    by rw [hact]; rfl,hheld,hlocked,hbuilt,hhand,hfact,?_,?_,?_⟩
  · intro side
    cases side with
    | primary =>
      rw [hlane.1]
      exact ⟨rfl,rfl,rfl,fun _ => Lane.mark_rcvd (by decide)⟩
    | secondary =>
      rw [hlane.2]
      exact .refl _
  · rw [hlane.1,Lane.mark_self]
  · intro hred
    rw [hself,if_pos hred]

section Allocated

variable {s' : Shared} {idx : Nat}

theorem Allocated.inside (h : Allocated t idx s s') {f : Frame} (hf : s'.Inside f) :
    s.Inside f := by
  rcases hf with ⟨side,hin⟩|⟨u,hin⟩
  · rw [(h.lanes side).socket] at hin
    exact .inl ⟨side,hin⟩
  · by_cases hu : u=t
    · rw [hu,h.hand] at hin
      cases hin
    · rw [Shared.hand,h.elsewhere.threads u hu] at hin
      exact .inr ⟨u,hin⟩

theorem Allocated.held_cases (h : Allocated t idx s s') {u i : Nat} (hi : s'.held u=some i) :
    u=t ∧ i=idx ∨ u≠t ∧ s.held u=some i := by
  by_cases hu : u=t
  · rw [hu,h.held] at hi
    exact .inl ⟨hu,(Option.some.inj hi).symm⟩
  · rw [h.elsewhere.held hu] at hi
    exact .inr ⟨hu,hi⟩

theorem Allocated.single (h : Allocated t idx s s') (ha : Attributed s)
    (hfree : ∀ u,s.held u≠some idx) : s'.Exclusive := by
  intro u v i hu hv
  rcases h.held_cases hu with ⟨rfl,rfl⟩|⟨-,hu'⟩
  · rcases h.held_cases hv with ⟨rfl,-⟩|⟨-,hv'⟩
    · rfl
    · exact absurd hv' (hfree v)
  · rcases h.held_cases hv with ⟨rfl,rfl⟩|⟨-,hv'⟩
    · exact absurd hu' (hfree u)
    · exact ha.single u v i hu' hv'

theorem Allocated.received (h : Allocated t idx s s') (ha : Attributed s) {u i : Nat} {side : Side}
    (hi : s'.held u=some i) (hset : s'.Settled u side) (hstat : (s'.lane side).rxbufstat i=.rcvd) :
    s'.Own u side i := by
  rcases h.held_cases hi with ⟨rfl,rfl⟩|⟨hut,hu'⟩
  · cases side with
    | primary =>
      rw [h.stat] at hstat
      cases hstat
    | secondary =>
      rcases hset with hc|⟨hr,hnot⟩
      · cases hc
      · rw [h.redundant] at hr
        exact absurd (h.settled hr) (hnot i)
  · have hset' : s.Settled u side := by
      rw [Shared.Settled,h.redundant,h.elsewhere.threads u hut] at hset
      exact hset
    have hown := ha.received u side i hu' hset' ((h.lanes side).stat i hstat)
    exact hown.congr (fun side => (h.lanes side).origin) (by rw [h.elsewhere.threads u hut])

end Allocated

/-- An index is taken, of which no frame is about. -/
theorem Attributed.alloc {idx : Nat} (ha : Attributed s) (hp : (s.threads t).phase=.alloc idx)
    (c : Choice) (hfree : ∀ u,s.held u≠some idx) (hnone : ∀ f,s.Inside f → f.index≠idx) :
    Attributed (s.act t c) := by
  have h := act_allocated hp c
  refine ⟨?_,h.single ha hfree,?_,?_,?_,?_,fun u side i => h.received ha,?_⟩
  · intro u
    rw [h.mutex,← ha.owner u]
    by_cases hu : u=t
    · rw [hu,h.locked,hp]
      rfl
    · rw [h.elsewhere.threads u hu]
  · intro u i hi hb
    rw [h.length.1]
    rcases h.held_cases hi with ⟨rfl,-⟩|⟨hut,hu'⟩
    · rw [h.built] at hb
      cases hb
    · rw [h.elsewhere.threads u hut] at hb
      exact ha.built u i hu' hb
  · rw [h.redundant,h.length.2]
    exact ha.dummy
  · rintro f (hin|hin)
    · rw [h.net] at hin
      exact ha.long f (.inl hin)
    · exact ha.long f (.inr (h.inside hin))
  · intro f hf u hu
    rcases h.held_cases hu with ⟨-,hindex⟩|⟨hut,hu'⟩
    · exact absurd hindex (hnone f (h.inside hf))
    · rw [h.elsewhere.threads u hut]
      exact ha.inside f (h.inside hf) u hu'
  · intro u
    by_cases hu : u=t
    · rw [hu]
      exact h.fact
    · have hknown := ha.facts u
      rw [h.elsewhere.threads u hu]
      exact hknown.congr h.redundant (fun side => (h.lanes side).origin)
        (fun side => (h.lanes side).tempbuf) (by rw [h.elsewhere.threads u hu])

theorem Shared.marked_self (s : Shared) (side : Side) : (s.lane side).Marked (s.lane side) :=
  .refl _

theorem waiting_fact (hred : s.redundant=false) (idx : Nat) :
    s.Fact t (.inframe .primary idx ecNoFrame 0 false .check) := by
  refine ⟨?_,nofun,⟨fun hc => absurd hc (lt_irrefl _),?_,fun _ => by decide⟩,trivial⟩
  · rintro (hc|hc) <;> cases hc
  · intro hc
    rw [hred] at hc
    cases hc

theorem waitingRed_fact (hred : s.redundant=true) (idx : Nat) :
    s.Fact t (.inframe .primary idx ecNoFrame ecNoFrame false .check) := by
  refine ⟨fun _ => hred,nofun,⟨fun hc => absurd hc (lt_irrefl _),
    fun _ hc => absurd hc (lt_irrefl _),?_⟩,trivial⟩
  intro hc
  rw [hred] at hc
  cases hc

theorem waitingAgain_fact (hred : s.redundant=true) {idx : Nat} {wkc : Int}
    (hown : ecNoFrame < wkc → s.Own t .primary idx) :
    s.Fact t (.inframe .secondary idx wkc ecNoFrame true .check) := by
  refine ⟨fun _ => hred,fun _ => rfl,⟨hown,fun _ hc => absurd hc (lt_irrefl _),?_⟩,trivial⟩
  intro hc
  rw [hred] at hc
  cases hc

theorem sent_fact (idx : Nat) : s.Fact t (if s.redundant=true then .lockTx idx
    else .inframe .primary idx ecNoFrame 0 false .check) := by
  split_ifs with hred
  · exact hred
  · exact waiting_fact (Bool.eq_false_of_not_eq_true hred) idx

theorem sent_phase (redundant : Bool) (idx : Nat) :
    let p := if redundant=true then Phase.lockTx idx
      else .inframe .primary idx ecNoFrame 0 false .check
    p.held=some idx ∧ p.hand=[] ∧ p.locked=false := by
  split_ifs <;> exact ⟨rfl,rfl,rfl⟩

theorem Attributed.allocRed {idx : Nat} (ha : Attributed s)
    (hp : (s.threads t).phase=.allocRed idx) (c : Choice) : Attributed (s.act t c) := by
  have hnet : ∀ f ∈ s.net,f ∈ s.net ∨ indexOffset < f.bytes.length := fun _ => .inl
  simp only [Shared.act,hp]
  refine ha.goto (.goto hp ⟨fun _ _ => rfl⟩ rfl ⟨rfl,rfl,rfl⟩ (fun _ => .inl rfl) (.inl rfl)
    ⟨rfl,rfl⟩ (.inr (.inl rfl)) hnet (s.mark_marked _ _ (by decide)) (.inr ?_)) trivial
  intro i hi
  cases hi
  rw [s.mark_lane,Lane.mark_self]
  decide

theorem Attributed.taken {idx : Nat} (ha : Attributed s)
    (hp : (s.threads t).phase=.taken idx) (c : Choice) : Attributed (s.act t c) := by
  have hnet : ∀ f ∈ s.net,f ∈ s.net ∨ indexOffset < f.bytes.length := fun _ => .inl
  have hlanes := s.marked_self
  simp only [Shared.act,hp]
  have hlong : indexOffset < setupDatagram c.data.length :=
    Nat.lt_of_lt_of_le (by decide : indexOffset < ethHeadersize+ecHeadersize+ecWkcsize)
      (Nat.le_add_right _ _)
  refine ha.goto (.goto hp ⟨fun _ _ => rfl⟩ rfl ⟨rfl,rfl,rfl⟩ ?_ (.inl rfl) ⟨rfl,rfl⟩
    (.inr (.inr ?_)) hnet hlanes (.inl (by simp))) trivial
  · intro i
    by_cases hi : i=idx
    · right
      rw [hi]
      simp only [Function.update_self]
      exact hlong
    · exact .inl (Function.update_of_ne hi ..)
  · intro i hi
    cases hi
    simp only [Function.update_self]
    exact hlong

theorem Attributed.tx {idx : Nat} (ha : Attributed s)
    (hp : (s.threads t).phase=.tx idx) (c : Choice) : Attributed (s.act t c) := by
  have hnet : ∀ f ∈ s.net,f ∈ s.net ∨ indexOffset < f.bytes.length := fun _ => .inl
  simp only [Shared.act,hp]
  refine ha.goto (.goto hp ⟨fun u hu => ?_⟩ ?_ ⟨rfl,rfl,rfl⟩ (fun _ => .inl rfl) (.inl rfl)
    ⟨rfl,rfl⟩ (.inl rfl) hnet (s.mark_marked _ _ (by decide)) (.inl (by simp))) trivial
  · exact Function.update_of_ne hu ..
  · rw [Shared.setUnsent]
    simp only [Function.update_self]
    rfl

theorem Attributed.send {idx : Nat} (ha : Attributed s)
    (hp : (s.threads t).phase=.send idx) (c : Choice) : Attributed (s.act t c) := by
  have hnet : ∀ f ∈ s.net,f ∈ s.net ∨ indexOffset < f.bytes.length := fun _ => .inl
  have hport : s.rxMutex=s.rxMutex ∧ s.redundant=s.redundant ∧ s.txbuflength=s.txbuflength ∧
      s.txbuflength2=s.txbuflength2 := ⟨rfl,rfl,rfl,rfl⟩
  have hlanes := s.marked_self
  have hbuilt : ∀ idx,s.held t=some idx → (s.threads t).phase.built=true →
      indexOffset < s.txbuflength idx := ha.built t
  rw [Shared.held,hp] at hbuilt
  obtain ⟨hheld,hhand,hlock⟩ := sent_phase s.redundant idx
  simp only [Shared.act,hp]
  have hfact := sent_fact (s := s) (t := t) idx
  split_ifs with hsent hred
  · rw [if_pos hred] at hfact
    exact ha.plain hp rfl hport (.inl rfl) ⟨rfl,rfl⟩ (.inl rfl)
      (transmit_net t (hbuilt idx rfl rfl)) hlanes (by simp) hfact
  · rw [if_neg hred] at hfact
    exact ha.plain hp rfl hport (.inl rfl) ⟨rfl,rfl⟩ (.inl rfl)
      (transmit_net t (hbuilt idx rfl rfl)) hlanes (by simp) hfact
  · exact ha.plain hp rfl hport (.inl rfl) ⟨rfl,rfl⟩ (.inl rfl) hnet hlanes (by simp) trivial

theorem Attributed.failed {idx : Nat} (ha : Attributed s)
    (hp : (s.threads t).phase=.failed idx) (c : Choice) : Attributed (s.act t c) := by
  have hnet : ∀ f ∈ s.net,f ∈ s.net ∨ indexOffset < f.bytes.length := fun _ => .inl
  obtain ⟨hheld,hhand,hlock⟩ := sent_phase s.redundant idx
  simp only [Shared.act,hp]
  have hmarked := s.mark_marked .primary idx (by decide : BufStat.empty≠.rcvd)
  refine ha.goto (.goto hp ⟨fun u hu => ?_⟩ ?_ ⟨rfl,rfl,rfl⟩ (fun _ => .inl rfl) (.inl hheld)
    ⟨hhand,hlock⟩ (.inl rfl) hnet hmarked (.inl (by simp))) ?_
  · exact Function.update_of_ne hu ..
  · rw [Shared.setUnsent]
    simp only [Function.update_self]
    rfl
  · refine (sent_fact idx).congr rfl (fun side => (hmarked side).origin)
      (fun side => (hmarked side).tempbuf) ?_
    rw [Shared.goto_self,Shared.setUnsent]
    simp only [Function.update_self]
    rfl

/-- Every step of a thread keeps the frames where they belong. -/
theorem Attributed.act (ha : Attributed s) (c : Choice) (htime : InTime s (.run t c)) :
    Attributed (s.act t c) := by
  have hfacts := ha.facts t
  have hport : s.rxMutex=s.rxMutex ∧ s.redundant=s.redundant ∧ s.txbuflength=s.txbuflength ∧
      s.txbuflength2=s.txbuflength2 := ⟨rfl,rfl,rfl,rfl⟩
  have hnet : ∀ f ∈ s.net,f ∈ s.net ∨ indexOffset < f.bytes.length := fun _ => .inl
  have hlanes := s.marked_self
  have hbuilt : ∀ idx,s.held t=some idx → (s.threads t).phase.built=true →
      indexOffset < s.txbuflength idx := ha.built t
  cases hp : (s.threads t).phase <;> rw [Shared.held,hp] at hbuilt <;> rw [hp] at hfacts <;>
    simp only [Shared.Fact] at hfacts
  case alloc idx =>
    simp only [InTime,hp] at htime
    exact ha.alloc hp c htime.1 htime.2
  case inframe side idx wkc wkc2 again stage => exact ha.inframe hp c
  case allocRed idx => exact ha.allocRed hp c
  case taken idx => exact ha.taken hp c
  case tx idx => exact ha.tx hp c
  case send idx => exact ha.send hp c
  case failed idx => exact ha.failed hp c
  case copyBack idx wkc =>
    simp only [Shared.act,hp]
    exact ha.copyBack hp
  case idle =>
    simp only [Shared.act,hp]
    exact ha.plain hp rfl hport (.inl rfl) ⟨rfl,rfl⟩ (.inl rfl) hnet hlanes (by simp) trivial
  case lockIndex =>
    simp only [Shared.act,hp]
    split_ifs
    · exact ha.plain hp rfl hport (.inl rfl) ⟨rfl,rfl⟩ (.inl rfl) hnet hlanes (by simp) trivial
    · exact ha
  case search idx cnt =>
    simp only [Shared.act,hp]
    split_ifs
    · exact ha.plain hp rfl hport (.inl rfl) ⟨rfl,rfl⟩ (.inl rfl) hnet hlanes (by simp) trivial
    · exact ha.plain hp rfl hport (.inl rfl) ⟨rfl,rfl⟩ (.inl rfl) hnet hlanes (by simp) trivial
  case last idx =>
    simp only [Shared.act,hp]
    exact ha.plain hp rfl hport (.inl rfl) ⟨rfl,rfl⟩ (.inr rfl) hnet hlanes (by simp) trivial
  case unlockIndex idx =>
    simp only [Shared.act,hp]
    exact ha.plain hp rfl hport (.inl rfl) ⟨rfl,rfl⟩ (.inr rfl) hnet hlanes (by simp) trivial
  case source idx =>
    simp only [Shared.act,hp]
    exact ha.plain hp rfl hport (.inl rfl) ⟨rfl,rfl⟩ (.inl rfl) hnet hlanes (by simp) trivial
  case lockTx idx =>
    simp only [Shared.act,hp]
    split_ifs
    · exact ha.plain hp rfl hport (.inl rfl) ⟨rfl,rfl⟩ (.inl rfl) hnet hlanes (by simp) hfacts
    · exact ha
  case dummy idx =>
    simp only [Shared.act,hp]
    exact ha.plain hp rfl hport (.inl rfl) ⟨rfl,rfl⟩ (.inl rfl) hnet hlanes (by simp) hfacts
  case txRed idx =>
    simp only [Shared.act,hp]
    exact ha.plain hp rfl hport (.inl rfl) ⟨rfl,rfl⟩ (.inl rfl) hnet
      (s.mark_marked _ _ (by decide)) (by simp) hfacts
  case sendRed idx =>
    simp only [Shared.act,hp]
    split_ifs
    · exact ha.plain hp rfl hport (.inl rfl) ⟨rfl,rfl⟩ (.inl rfl) (transmit_net t (ha.dummy hfacts))
        hlanes (by simp) hfacts
    · exact ha.plain hp rfl hport (.inl rfl) ⟨rfl,rfl⟩ (.inl rfl) hnet hlanes (by simp) hfacts
  case failedRed idx =>
    simp only [Shared.act,hp]
    exact ha.plain hp rfl hport (.inl rfl) ⟨rfl,rfl⟩ (.inl rfl) hnet
      (s.mark_marked _ _ (by decide)) (by simp) hfacts
  case unlockTx idx =>
    simp only [Shared.act,hp]
    exact ha.plain hp rfl hport (.inl rfl) ⟨rfl,rfl⟩ (.inl rfl) hnet hlanes (by simp)
      (waitingRed_fact hfacts idx)
  case reroute idx wkc wkc2 =>
    obtain ⟨hheld,-⟩ := route_waits s idx wkc wkc2
    simp only [Shared.act,hp]
    exact ha.plain hp rfl hport (.inl hheld) (route_outside s idx wkc wkc2) (.inl rfl) hnet hlanes
      (by simp) (hfacts.2.route hfacts.1)
  case copyTx idx wkc =>
    simp only [Shared.act,hp]
    exact ha.plain hp rfl hport (.inl rfl) ⟨rfl,rfl⟩ (.inl rfl) hnet hlanes (by simp) hfacts
  case txAgain idx wkc =>
    simp only [Shared.act,hp]
    exact ha.plain hp rfl hport (.inl rfl) ⟨rfl,rfl⟩ (.inl rfl) hnet
      (s.mark_marked _ _ (by decide)) (by simp) hfacts
  case sendAgain idx wkc =>
    simp only [Shared.act,hp]
    split_ifs
    · exact ha.plain hp rfl hport (.inl rfl) ⟨rfl,rfl⟩ (.inl rfl)
        (transmit_net t (hbuilt idx rfl rfl)) hlanes (by simp) (waitingAgain_fact hfacts.1 hfacts.2)
    · exact ha.plain hp rfl hport (.inl rfl) ⟨rfl,rfl⟩ (.inl rfl) hnet hlanes (by simp) hfacts
  case failedAgain idx wkc =>
    simp only [Shared.act,hp]
    exact ha.plain hp rfl hport (.inl rfl) ⟨rfl,rfl⟩ (.inl rfl) hnet
      (s.mark_marked _ _ (by decide)) (by simp) (waitingAgain_fact hfacts.1 hfacts.2)
  case done idx wkc =>
    simp only [Shared.act,hp]
    split_ifs
    · exact ha.plain hp rfl hport (.inl rfl) ⟨rfl,rfl⟩ (.inl rfl) hnet hlanes (by simp) trivial
    · exact ha.plain hp rfl hport (.inl rfl) ⟨rfl,rfl⟩ (.inl rfl) hnet hlanes (by simp) trivial
  case empty idx =>
    simp only [Shared.act,hp]
    have hmarked := s.mark_marked .primary idx (by decide : BufStat.empty≠.rcvd)
    split_ifs
    · exact ha.plain hp rfl hport (.inr rfl) ⟨rfl,rfl⟩ (.inl rfl) hnet hmarked (by simp) trivial
    · exact ha.plain hp rfl hport (.inr rfl) ⟨rfl,rfl⟩ (.inl rfl) hnet hmarked (by simp) trivial
  case emptyRed idx =>
    simp only [Shared.act,hp]
    exact ha.plain hp rfl hport (.inr rfl) ⟨rfl,rfl⟩ (.inl rfl) hnet
      (s.mark_marked _ _ (by decide)) (by simp) trivial

end Threads

section Runs

variable {s : Shared}

/-- A frame arrives whose index is not that of another request. -/
theorem Attributed.arrive (ha : Attributed s) (side : Side) (k : Nat) (body : List UInt8)
    (htime : InTime s (.arrive side k body)) : Attributed (s.step (.arrive side k body)) := by
  simp only [Shared.step]
  cases hk : s.net[k]? with
  | none => exact ha
  | some f =>
    have hlong := ha.long f (.inl (List.mem_of_getElem? hk))
    have hindex := f.altered_index body hlong
    have hlane : ∀ {s' : Shared},s'={ s with net := s.net.eraseIdx k }.setLane side { s.lane side with
        socket := (s.lane side).socket++[f.altered body] } → ∀ side',
        (s'.lane side').origin=(s.lane side').origin ∧
        (s'.lane side').tempbuf=(s.lane side').tempbuf ∧
        (s'.lane side').rxbufstat=(s.lane side').rxbufstat ∧
        ∀ g ∈ (s'.lane side').socket,g ∈ (s.lane side').socket ∨ g=f.altered body := by
      rintro s' rfl side'
      by_cases hside : side'=side
      · rw [hside,Shared.setLane_lane]
        refine ⟨rfl,rfl,rfl,?_⟩
        intro g hg
        exact (List.mem_append.mp hg).imp id List.mem_singleton.mp
      · rw [Shared.setLane_other _ hside]
        exact ⟨rfl,rfl,rfl,fun _ => .inl⟩
    have hlanes := hlane rfl
    have hinside : ∀ g,({ s with net := s.net.eraseIdx k }.setLane side { s.lane side with
        socket := (s.lane side).socket++[f.altered body] }).Inside g →
        s.Inside g ∨ g=f.altered body := by
      rintro g (⟨side',hin⟩|⟨u,hin⟩)
      · exact ((hlanes side').2.2.2 g hin).imp (fun hs => .inl ⟨side',hs⟩) id
      · exact .inl (.inr ⟨u,hin⟩)
    refine ⟨ha.owner,ha.single,ha.built,ha.dummy,?_,?_,?_,?_⟩
    · rintro g (hin|hin)
      · exact ha.long g (.inl (List.mem_of_mem_eraseIdx hin))
      · rcases hinside g hin with hbefore|rfl
        · exact ha.long g (.inr hbefore)
        · rw [(f.altered_keeps body hlong).length]
          exact hlong
    · intro g hg u hu
      rcases hinside g hg with hbefore|rfl
      · exact ha.inside g hbefore u hu
      · rw [hindex] at hu
        exact htime f hk u hu
    · intro u side' i hi hset hstat
      rw [(hlanes side').2.2.1] at hstat
      exact (ha.received u side' i hi hset hstat).congr (fun side' => (hlanes side').1) rfl
    · intro u
      exact (ha.facts u).congr rfl (fun side' => (hlanes side').1) (fun side' => (hlanes side').2.1)
        rfl

theorem Attributed.lose (ha : Attributed s) (k : Nat) : Attributed (s.step (.lose k)) := by
  refine ⟨ha.owner,ha.single,ha.built,ha.dummy,?_,ha.inside,ha.received,?_⟩
  · rintro g (hin|hin)
    · exact ha.long g (.inl (List.mem_of_mem_eraseIdx hin))
    · exact ha.long g (.inr hin)
  · intro u
    exact (ha.facts u).congr rfl (fun _ => rfl) (fun _ => rfl) rfl

theorem Attributed.step (ha : Attributed s) (e : PortEvent) (htime : InTime s e) :
    Attributed (s.step e) := by
  cases e with
  | run t c => exact ha.act c htime
  | arrive side k body => exact ha.arrive side k body htime
  | lose k => exact ha.lose k

theorem Shared.Start.attributed (h : s.Start) : Attributed s := by
  have hheld : ∀ u,s.held u=none := by
    intro u
    rw [Shared.held,h.threads u]
    rfl
  have hinside : ∀ f,¬s.Inside f := by
    rintro f (⟨side,hin⟩|⟨u,hin⟩)
    · rw [h.socket side] at hin
      cases hin
    · rw [Shared.hand,h.threads u] at hin
      cases hin
  refine ⟨?_,?_,?_,h.dummy,?_,?_,?_,?_⟩
  · intro u
    rw [h.threads u,h.rxMutex]
    exact iff_of_false (by decide) (by intro hc; cases hc)
  · intro u v i hu
    rw [hheld] at hu
    cases hu
  · intro u i hu
    rw [hheld] at hu
    cases hu
  · rintro f (hin|hin)
    · rw [h.net] at hin
      cases hin
    · exact absurd hin (hinside f)
  · exact fun f hf => absurd hf (hinside f)
  · intro u side i hu
    rw [hheld] at hu
    cases hu
  · intro u
    rw [h.threads u]
    trivial

/-- Whatever is handed to a requester is the return of a frame that was sent for its request, as long as
no frame comes in late. -/
theorem replies_fresh (h : s.Start) {es : List PortEvent}
    (htime : Along Shared.step InTime s es) : (runFrom Shared.step s es).Fresh := by
  have ha : Attributed (runFrom Shared.step s es) :=
    invariant_runFrom (C := InTime) (fun _ e hs hc => Attributed.step hs e hc) h.attributed htime
  intro t idx wkc hp
  have hfact := ha.facts t
  rw [hp] at hfact
  exact hfact

/-- What comes back of a frame with `plainChoice`, behind its index. -/
def readReply : List UInt8 := [0,0,0,0,2,0,0,0,17,42,1,0]

/-- A frame of index 1 has not come back when its request ends. Fifteen threads take the other indices,
and a second request has index 1 when the frame comes in. -/
def lateReply : List PortEvent :=
  turns 0 17 { plainChoice with expired := true }++
    (List.range 15).flatMap (fun t => turns (t+1) 6 plainChoice)++
    turns 16 10 plainChoice++[.arrive .primary 0 readReply]++turns 16 9 plainChoice

/-- The second request is handed the frame of the first. -/
theorem late_reply_handed_over :
    ¬(runFrom Shared.step freshPort lateReply).Fresh := by
  intro h
  have hdone : ((runFrom Shared.step freshPort lateReply).threads 16).phase=.done 1 1 ∧
      ((runFrom Shared.step freshPort lateReply).threads 16).request=16 ∧
      ((runFrom Shared.step freshPort lateReply).lane .primary).origin 1=some 0 := by
    decide +kernel
  have hown := h 16 1 1 hdone.1 (by decide)
  rw [Shared.Own,hdone.2.1,hdone.2.2] at hown
  exact absurd hown (by decide)

/-- A frame that comes back to the request that has sent it. -/
theorem reply_fresh : (runFrom Shared.step freshPort (turns 0 10 plainChoice++
    [.arrive .primary 0 readReply]++turns 0 9 plainChoice)).Fresh := by
  apply replies_fresh freshPort_start
  have hidle : ∀ n u,u≠0 →
      (runFrom Shared.step freshPort (turns 0 n plainChoice)).threads u=⟨.idle,0,false⟩ :=
    fun n u hu => turns_other _ _ _ _ hu
  have hfirst : (∀ u,(runFrom Shared.step freshPort (turns 0 3 plainChoice)).held u≠some 1) ∧
      ∀ f,(runFrom Shared.step freshPort (turns 0 3 plainChoice)).Inside f → f.index≠1 := by
    constructor
    · intro u
      by_cases hu : u=0
      · rw [hu]
        decide
      · rw [Shared.held,hidle 3 u hu]
        decide
    · rintro f (⟨side,hin⟩|⟨u,hin⟩)
      · cases side <;> cases hin
      · by_cases hu : u=0
        · rw [hu] at hin
          cases hin
        · rw [Shared.hand,hidle 3 u hu] at hin
          cases hin
  have harrive : InTime (runFrom Shared.step freshPort (turns 0 10 plainChoice))
      (.arrive .primary 0 readReply) := by
    intro f hf t ht
    by_cases hu : t=0
    · rw [hu]
      cases hf
      rfl
    · rw [Shared.held,hidle 10 t hu] at ht
      cases ht
  exact ⟨trivial,trivial,trivial,hfirst,trivial,trivial,trivial,trivial,trivial,trivial,harrive,
    trivial,trivial,trivial,trivial,trivial,trivial,trivial,trivial,trivial,trivial⟩

end Runs

end EtherCATMaster.Nicdrv
