import EtherCATMaster.Sii.EepromRetry

namespace EtherCATMaster.Sii
open EtherCATMaster.Framework

variable {σ : Type}

/-- A register access and its answer. -/
inductive Access where
  | write (ado : UInt16) (data : List UInt8) (wkc : Int)
  | read (ado : UInt16) (length : Nat) (wkc : Int) (data : List UInt8)
deriving DecidableEq

/-- The same slave and line, with the accesses so far. -/
def EepromPort.recording (port : EepromPort σ) : EepromPort (σ × List Access) where
  fprd configadr ado length s :=
    let r := port.fprd configadr ado length s.1
    (r.1,(r.2,s.2++[.read ado length r.1.1 r.1.2]))
  fpwr configadr ado data s :=
    let r := port.fpwr configadr ado data s.1
    (r.1,(r.2,s.2++[.write ado data r.1]))
  timerIsExpired s := ((port.timerIsExpired s.1).1,((port.timerIsExpired s.1).2,s.2))

def EepromDatagrams.recording (d : EepromDatagrams σ) : EepromDatagrams (σ × List Access) :=
  ⟨d.ap.recording.fprd,d.ap.recording.fpwr,d.fp.recording.fprd,d.fp.recording.fpwr,
    d.fp.recording.timerIsExpired⟩

def Reached (log : List Access) (ado : UInt16) (data : List UInt8) : Prop :=
  ∃ wkc,.write ado data wkc ∈ log ∧ 0<wkc

def Access.Confirms : Access → Prop
  | .write _ _ _ => False
  | .read ado _ wkc data => ado=ectRegEepstat ∧ 0<wkc ∧
      get16 data 0 &&& ecEstatBusy=0 ∧ get16 data 0 &&& ecEstatNack=0

/-- The data and the command have reached the slave, and afterwards the status has been read as
neither busy nor NACK. -/
def Confirmed (eeproma data : UInt16) (log : List Access) : Prop :=
  ∃ before e after,log=before++e::after ∧ e.Confirms ∧
    Reached before ectRegEepdat (le16 data) ∧ Reached before ectRegEepctl (writeCommand eeproma)

def Access.Fails (ado : UInt16) (data : List UInt8) : Access → Prop
  | .write ado' data' wkc => ado'=ado ∧ data'=data ∧ wkc ≤ 0
  | .read .. => False

instance (ado : UInt16) (data : List UInt8) : DecidablePred (Access.Fails ado data)
  | .write .. => inferInstanceAs (Decidable (_ ∧ _ ∧ _))
  | .read .. => inferInstanceAs (Decidable False)

/-- All tries of a write have failed in a row, and the last one with such a work counter. -/
def GivenUp (log : List Access) (ado : UInt16) (data : List UInt8) (lost : Int → Prop) : Prop :=
  ∃ before tries wkc after,log=before++(tries++.write ado data wkc::after) ∧
    (∀ e ∈ tries,e.Fails ado data) ∧ tries.length=ecDefaultRetries ∧ lost wkc

def Access.Unanswered : Access → Prop
  | .write .. => False
  | .read _ _ wkc _ => wkc ≤ 0

/-- The line answers in time: no data write loses all its tries, no command does so that no frame
comes back from the last one, and the status read at the end is answered. -/
structure Heard (eeproma data : UInt16) (log : List Access) : Prop where
  word : ¬GivenUp log ectRegEepdat (le16 data) (· ≤ 0)
  command : ¬GivenUp log ectRegEepctl (writeCommand eeproma) (· < 0)
  status : ∀ e ∈ log.getLast?,¬e.Unanswered

/-- A status read behind the command has brought a NACK. -/
def Refused (eeproma : UInt16) (log : List Access) : Prop :=
  ∃ front sent wkc status back,log=front++.read ectRegEepstat 2 wkc status::back ∧
    .write ectRegEepctl (writeCommand eeproma) sent ∈ front ∧ 0<wkc ∧
    get16 status 0 &&& ecEstatNack≠0

section Tries

variable {ado ado' : UInt16} {data data' : List UInt8} {wkc : Int} {seg log : List Access}

theorem reached_append (xs ys : List Access) (ado : UInt16) (data : List UInt8) :
    Reached (xs++ys) ado data ↔ Reached xs ado data ∨ Reached ys ado data := by
  constructor
  · rintro ⟨wkc,hmem,hw⟩
    rcases List.mem_append.mp hmem with h|h
    · exact .inl ⟨wkc,h,hw⟩
    · exact .inr ⟨wkc,h,hw⟩
  · rintro (⟨wkc,hmem,hw⟩|⟨wkc,hmem,hw⟩)
    · exact ⟨wkc,List.mem_append_left _ hmem,hw⟩
    · exact ⟨wkc,List.mem_append_right _ hmem,hw⟩

theorem Reached.after {ys : List Access} (h : Reached ys ado data) (xs : List Access) :
    Reached (xs++ys) ado data := (reached_append _ _ _ _).mpr (.inr h)

theorem Reached.before {xs : List Access} (h : Reached xs ado data) (ys : List Access) :
    Reached (xs++ys) ado data := (reached_append _ _ _ _).mpr (.inl h)

def Apart (ado : UInt16) (data : List UInt8) (seg : List Access) : Prop :=
  ∀ wkc,.write ado data wkc ∉ seg

theorem apart_append {xs ys : List Access} :
    Apart ado data (xs++ys) ↔ Apart ado data xs ∧ Apart ado data ys := by
  simp only [Apart,List.mem_append,not_or,forall_and]

theorem Apart.not_reached (h : Apart ado data seg) : ¬Reached seg ado data :=
  fun ⟨wkc,hmem,_⟩ => h wkc hmem

def failures (ado : UInt16) (data : List UInt8) (log : List Access) : Nat :=
  log.countP fun e => decide (e.Fails ado data)

theorem failures_append (xs ys : List Access) :
    failures ado data (xs++ys)=failures ado data xs+failures ado data ys := List.countP_append

theorem failures_of_all (h : ∀ e ∈ seg,e.Fails ado data) : failures ado data seg=seg.length :=
  List.countP_eq_length.mpr fun e he => decide_eq_true (h e he)

theorem Apart.failures (h : Apart ado data seg) : failures ado data seg=0 := by
  refine List.countP_eq_zero.mpr fun e he hfails => ?_
  cases e with
  | read => cases of_decide_eq_true hfails
  | write ado' data' wkc =>
    obtain ⟨rfl,rfl,-⟩ : ado'=ado ∧ data'=data ∧ wkc ≤ 0 := of_decide_eq_true hfails
    exact h wkc he

theorem GivenUp.failures {lost : Int → Prop} (h : GivenUp log ado data lost)
    (hlost : ∀ wkc,lost wkc → wkc ≤ 0) : ecDefaultRetries<failures ado data log := by
  obtain ⟨before,tries,wkc,after,rfl,hfails,hlength,hw⟩ := h
  have hlast : (Access.write ado data wkc).Fails ado data := ⟨rfl,rfl,hlost wkc hw⟩
  have hone : failures ado data (.write ado data wkc::after)=failures ado data after+1 :=
    List.countP_cons_of_pos (decide_eq_true hlast)
  rw [failures_append,failures_append,failures_of_all hfails,hlength,hone]
  omega

/-- The tries of a write: all before the last one fail, and it is the last of all if it fails. -/
def Tried (ado : UInt16) (data : List UInt8) (cnt : Nat) (wkc : Int) (seg : List Access) : Prop :=
  ∃ tries,seg=tries++[.write ado data wkc] ∧ (∀ e ∈ tries,e.Fails ado data) ∧
    tries.length ≤ cnt ∧ (wkc ≤ 0 → tries.length=cnt)

theorem Tried.write {cnt : Nat} (h : Tried ado data cnt wkc seg) : ∀ e ∈ seg,
    ∃ w,e=.write ado data w ∧ (0<w → 0<wkc) := by
  obtain ⟨tries,rfl,hfails,-⟩ := h
  intro e he
  rcases List.mem_append.mp he with he|he
  · cases e with
    | read => cases hfails _ he
    | write ado' data' w =>
      obtain ⟨rfl,rfl,hw⟩ := hfails _ he
      exact ⟨w,rfl,fun hpos => by omega⟩
  · exact ⟨wkc,List.mem_singleton.mp he,id⟩

theorem Tried.apart {cnt : Nat} (h : Tried ado data cnt wkc seg) (hne : ado'≠ado) :
    Apart ado' data' seg := by
  intro w hmem
  obtain ⟨w',heq,-⟩ := h.write _ hmem
  cases heq
  exact hne rfl

theorem Tried.reached_iff {cnt : Nat} (h : Tried ado data cnt wkc seg) :
    Reached seg ado data ↔ 0<wkc := by
  constructor
  · rintro ⟨w,hmem,hw⟩
    obtain ⟨w',heq,hlast⟩ := h.write _ hmem
    cases heq
    exact hlast hw
  · obtain ⟨tries,rfl,-⟩ := h
    exact fun hw => ⟨wkc,List.mem_append_right _ (List.mem_singleton_self _),hw⟩

theorem Tried.givenUp (h : Tried ado data ecDefaultRetries wkc seg) (hw : wkc ≤ 0)
    {lost : Int → Prop} (hlost : lost wkc) (before after : List Access) :
    GivenUp (before++(seg++after)) ado data lost := by
  obtain ⟨tries,rfl,hfails,-,hall⟩ := h
  exact ⟨before,tries,wkc,after,by simp,hfails,hall hw,hlost⟩

theorem Tried.failures {cnt : Nat} (h : Tried ado data cnt wkc seg) (hw : 0<wkc) :
    failures ado data seg ≤ cnt := by
  obtain ⟨tries,rfl,hfails,hle,-⟩ := h
  have hlast : ¬(Access.write ado data wkc).Fails ado data := by
    rintro ⟨-,-,hw'⟩
    omega
  have hnone : failures ado data [.write ado data wkc]=0 :=
    List.countP_cons_of_neg (decide_eq_false hlast ▸ Bool.false_ne_true)
  rw [failures_append,failures_of_all hfails,hnone]
  exact hle

end Tries

section Logs

variable {port : EepromPort σ} {configadr : UInt16}

theorem writeRetry_log (ado : UInt16) (data : List UInt8) (cnt : Nat) :
    ∀ (s : σ) (log : List Access) (wkc : Int) (u : σ × List Access),
      port.recording.writeRetry configadr ado data cnt (s,log)=.ok (wkc,u) →
      ∃ seg,u.2=log++seg ∧ Tried ado data cnt wkc seg := by
  induction cnt with
  | zero =>
    intro s log wkc u h
    cases h
    exact ⟨[_],rfl,[],rfl,by simp,Nat.le_refl 0,fun _ => rfl⟩
  | succ cnt ih =>
    intro s log wkc u h
    obtain ⟨w,⟨s1,log1⟩,hwrite,h⟩ := bind_ok.mp h
    obtain rfl : w=(port.fpwr configadr ado data s).1 := by cases hwrite; rfl
    obtain rfl : log1=log++[.write ado data (port.fpwr configadr ado data s).1] := by
      cases hwrite
      rfl
    by_cases hw : (port.fpwr configadr ado data s).1 ≤ 0
    · rw [if_pos hw] at h
      obtain ⟨seg,hlog,tries,rfl,hfails,hle,hall⟩ := ih _ _ _ _ h
      have hfirst : (Access.write ado data (port.fpwr configadr ado data s).1).Fails ado data :=
        ⟨rfl,rfl,hw⟩
      refine ⟨_,hlog.trans (List.append_assoc _ _ _),_::tries,rfl,
        List.forall_mem_cons.mpr ⟨hfirst,hfails⟩,Nat.succ_le_succ hle,?_⟩
      exact fun hlost => congrArg Nat.succ (hall hlost)
    · rw [if_neg hw] at h
      cases pure_ok.mp h
      exact ⟨[_],rfl,[],rfl,by simp,Nat.zero_le _,fun hlost => absurd hlost hw⟩

theorem statusOutcome_accepted (estat : UInt16) : statusOutcome estat=.accepted ↔
    estat &&& ecEstatBusy=0 ∧ estat &&& ecEstatNack=0 := by
  rw [statusOutcome]
  by_cases hbusy : estat &&& ecEstatBusy=0
  · rw [if_neg (not_not_intro hbusy)]
    by_cases hnack : estat &&& ecEstatNack=0
    · rw [if_neg (not_not_intro hnack)]
      exact iff_of_true rfl ⟨hbusy,hnack⟩
    · rw [if_pos hnack]
      exact iff_of_false (by decide) (fun h => hnack h.2)
  · rw [if_pos hbusy]
    exact iff_of_false (by decide) (fun h => hbusy h.1)

theorem read_confirms_iff (wkc : Int) (data : List UInt8) :
    (Access.read ectRegEepstat 2 wkc data).Confirms ↔ 0<wkc ∧
      statusOutcome (get16 (if wkc>0 then data else List.replicate 2 0) 0)=.accepted := by
  by_cases hw : wkc>0
  · rw [if_pos hw,statusOutcome_accepted]
    exact ⟨fun h => h.2,fun h => ⟨rfl,h⟩⟩
  · exact iff_of_false (fun h => hw h.2.1) (fun h => hw h.1)

def NoneConfirms (seg : List Access) : Prop :=
  ∀ e ∈ seg,∃ wkc data,e=.read ectRegEepstat 2 wkc data ∧ ¬e.Confirms

/-- The status reads of a wait: none confirms but the last one, which brings the status word, or 0
if it is not answered. -/
def Polled (poll : Int × UInt16) (seg : List Access) : Prop :=
  ∃ front bytes,seg=front++[.read ectRegEepstat 2 poll.1 bytes] ∧ NoneConfirms front ∧
    poll.2=get16 (if poll.1>0 then bytes else List.replicate 2 0) 0

theorem Polled.apart {poll : Int × UInt16} {seg : List Access} (h : Polled poll seg)
    (ado : UInt16) (data : List UInt8) : Apart ado data seg := by
  obtain ⟨front,bytes,rfl,hnone,-⟩ := h
  intro w hmem
  rcases List.mem_append.mp hmem with hmem|hmem
  · obtain ⟨wkc,data',heq,-⟩ := hnone _ hmem
    cases heq
  · cases List.mem_singleton.mp hmem

theorem lastPoll_log (fuel : Nat) :
    ∀ (s : σ) (log : List Access) (poll : Int × UInt16) (u : σ × List Access),
      lastPoll port.recording configadr fuel (s,log)=.ok (poll,u) →
      ∃ seg,u.2=log++seg ∧ Polled poll seg := by
  induction fuel with
  | zero => exact fun s log poll u h => absurd h throw_ok
  | succ fuel ih =>
    intro s log poll u h
    obtain ⟨a,v,hread,h⟩ := bind_ok.mp h
    obtain ⟨w,bytes,t,hfprd⟩ : ∃ w bytes t,port.fprd configadr ectRegEepstat 2 s=((w,bytes),t) :=
      ⟨_,_,_,rfl⟩
    obtain ⟨rfl,rfl⟩ : a=(w,if w>0 then bytes else List.replicate 2 0) ∧
        v=(t,log++[.read ectRegEepstat 2 w bytes]) := by
      have hrun : port.recording.read configadr ectRegEepstat 2 (s,log)=
          .ok ((w,if w>0 then bytes else List.replicate 2 0),
            (t,log++[.read ectRegEepstat 2 w bytes])) := by
        simp only [EepromPort.read,EepromPort.recording,hfprd]
      cases hrun.symm.trans hread
      exact ⟨rfl,rfl⟩
    dsimp only at h
    have hone : Polled (w,get16 (if w>0 then bytes else List.replicate 2 0) 0)
        [.read ectRegEepstat 2 w bytes] :=
      ⟨[],bytes,rfl,fun _ he => absurd he List.not_mem_nil,rfl⟩
    by_cases hagain : w ≤ 0 ∨
        get16 (if w>0 then bytes else List.replicate 2 0) 0 &&& ecEstatBusy≠0
    · rw [if_pos hagain] at h
      obtain ⟨expired,v,htimer,h⟩ := bind_ok.mp h
      obtain ⟨t',rfl⟩ : ∃ t',v=(t',log++[.read ectRegEepstat 2 w bytes]) := by
        cases htimer
        exact ⟨_,rfl⟩
      by_cases hexpired : expired=true
      · rw [if_pos hexpired] at h
        cases pure_ok.mp h
        exact ⟨_,rfl,hone⟩
      · rw [if_neg hexpired] at h
        obtain ⟨seg,hlog,front,bytes',rfl,hnone,hlast⟩ := ih _ _ _ _ h
        have hfirst : ¬(Access.read ectRegEepstat 2 w bytes).Confirms := by
          rw [read_confirms_iff]
          rintro ⟨hw,haccepted⟩
          rcases hagain with h0|hbusy
          · omega
          · exact hbusy ((statusOutcome_accepted _).mp haccepted).1
        refine ⟨_,hlog.trans (List.append_assoc _ _ _),_::front,bytes',rfl,?_,hlast⟩
        exact List.forall_mem_cons.mpr ⟨⟨w,bytes,rfl,hfirst⟩,hnone⟩
    · rw [if_neg hagain] at h
      cases pure_ok.mp h
      exact ⟨_,rfl,hone⟩

end Logs

section Attempts

variable {port : EepromPort σ} {configadr : UInt16} {fuel : Nat} {eeproma data : UInt16}
  {b : Int × CommandAnswer} {start seg log : List Access}

/-- The accesses of an attempt: the tries of the data, those of the command, and then the status
reads. -/
def AttemptLog (eeproma data : UInt16) (a : Int × CommandAnswer) (seg : List Access) : Prop :=
  ∃ words commands polls,seg=words++(commands++polls) ∧
    Tried ectRegEepdat (le16 data) ecDefaultRetries a.1 words ∧
    Tried ectRegEepctl (writeCommand eeproma) ecDefaultRetries a.2.wkc commands ∧
    ∀ poll ∈ a.2.poll,a.2.wkc≠0 ∧ Polled poll polls

theorem sendWrite_log {s : σ} {a : Int × CommandAnswer} {u : σ × List Access}
    (h : sendWrite port.recording fuel configadr eeproma data (s,log)=.ok (a,u)) :
    ∃ seg,u.2=log++seg ∧ AttemptLog eeproma data a seg := by
  obtain ⟨w,⟨s1,log1⟩,hdata,h⟩ := bind_ok.mp h
  obtain ⟨c,v,hcommand,h⟩ := bind_ok.mp h
  cases pure_ok.mp h
  obtain ⟨wkc,⟨s2,log2⟩,hsend,h⟩ := bind_ok.mp hcommand
  obtain ⟨words,rfl,hwords⟩ := writeRetry_log _ _ _ _ _ _ _ hdata
  obtain ⟨commands,rfl,hcommands⟩ := writeRetry_log _ _ _ _ _ _ _ hsend
  by_cases hwkc : wkc≠0
  · rw [if_pos hwkc] at h
    obtain ⟨poll,⟨s3,log3⟩,hpoll,h⟩ := bind_ok.mp h
    cases pure_ok.mp h
    obtain ⟨polls,rfl,hpolls⟩ := lastPoll_log _ _ _ _ _ hpoll
    refine ⟨words++(commands++polls),by simp,words,commands,polls,rfl,hwords,hcommands,?_⟩
    intro poll' hpoll'
    cases hpoll'
    exact ⟨hwkc,hpolls⟩
  · rw [if_neg hwkc] at h
    cases pure_ok.mp h
    refine ⟨words++(commands++[]),by simp,words,commands,[],rfl,hwords,hcommands,?_⟩
    exact fun poll hpoll => absurd hpoll (by simp)

theorem Refused.between (h : Refused eeproma seg) (xs ys : List Access) :
    Refused eeproma (xs++(seg++ys)) := by
  obtain ⟨front,sent,wkc,status,back,rfl,hsent,hw,hnack⟩ := h
  exact ⟨xs++front,sent,wkc,status,back++ys,by simp,List.mem_append_right _ hsent,hw,hnack⟩

theorem AttemptLog.refused (h : AttemptLog eeproma data b seg) (hb : b.2.outcome=.refused) :
    Refused eeproma seg := by
  obtain ⟨words,commands,polls,rfl,-,⟨tries,rfl,-⟩,hpoll⟩ := h
  obtain ⟨w,wkc,poll⟩ := b
  cases poll with
  | none => cases hb
  | some poll =>
    obtain ⟨-,front,bytes,rfl,-,hestat⟩ := hpoll poll rfl
    have hnack : poll.2 &&& ecEstatNack≠0 := by
      intro hzero
      have hrefused : statusOutcome poll.2=.refused := hb
      rw [statusOutcome,if_neg (not_not_intro hzero)] at hrefused
      split_ifs at hrefused
    have hw : 0<poll.1 := by
      by_contra hn
      rw [hestat,if_neg hn] at hnack
      exact hnack rfl
    rw [if_pos hw] at hestat
    rw [hestat] at hnack
    refine ⟨words++(tries++[.write ectRegEepctl (writeCommand eeproma) wkc]++front),wkc,poll.1,
      bytes,[],by simp,by simp,hw,hnack⟩

/-- The accesses of the loop are those of the last attempt, behind attempts of which the first one
was refused. -/
theorem attempts_log {rounds : Nat} : ∀ {nackcnt : Nat} {s : σ} {log : List Access}
    {u : σ × List Access},
    retry (sendWrite port.recording fuel configadr eeproma data) (fun a => a.2.outcome) rounds
      nackcnt (s,log)=.ok (b,u) →
    ∃ front seg,u.2=log++(front++seg) ∧ AttemptLog eeproma data b seg ∧
      (nackcnt=0 → front=[] ∨ Refused eeproma front) := by
  induction rounds with
  | zero => exact fun h => absurd h throw_ok
  | succ rounds ih =>
    intro nackcnt s log u h
    obtain ⟨a,⟨t,log'⟩,ha,h⟩ := bind_ok.mp h
    obtain ⟨seg1,rfl,hlog1⟩ := sendWrite_log ha
    by_cases hon : a.2.outcome.nackcnt nackcnt>0 ∧ a.2.outcome.nackcnt nackcnt<3
    · rw [if_pos hon] at h
      obtain ⟨front,seg,hu,hlog,-⟩ := ih h
      refine ⟨seg1++front,seg,by rw [hu]; simp,hlog,?_⟩
      rintro rfl
      have hrefused : a.2.outcome=.refused := by
        cases ho : a.2.outcome with
        | refused => rfl
        | accepted | lost =>
          rw [ho] at hon
          exact absurd hon.1 (lt_irrefl 0)
      exact .inr ((hlog1.refused hrefused).between [] front)
    · rw [if_neg hon] at h
      cases pure_ok.mp h
      exact ⟨[],seg1,rfl,hlog1,fun _ => .inl rfl⟩

theorem accepted_poll (h : b.2.outcome=.accepted) :
    ∃ poll ∈ b.2.poll,statusOutcome poll.2=.accepted := by
  obtain ⟨w,wkc,poll⟩ := b
  cases poll with
  | none => cases h
  | some poll => exact ⟨poll,rfl,h⟩

theorem AttemptLog.confirmed (h : AttemptLog eeproma data b seg) (hb : b.2.outcome=.accepted)
    (hheard : Heard eeproma data (start++seg)) : Confirmed eeproma data (start++seg) := by
  obtain ⟨words,commands,polls,rfl,hwords,hcommands,hpoll⟩ := h
  obtain ⟨poll,hsome,haccepted⟩ := accepted_poll hb
  obtain ⟨hne,front,bytes,rfl,-,hestat⟩ := hpoll poll hsome
  have hword : 0<b.1 := by
    by_contra hlost
    rw [not_lt] at hlost
    exact hheard.word (hwords.givenUp hlost hlost start _)
  have hcommand : 0<b.2.wkc := by
    by_contra hlost
    have hnegative : b.2.wkc<0 := lt_of_le_of_ne (not_lt.mp hlost) hne
    have hgiven : GivenUp
        ((start++words)++(commands++(front++[.read ectRegEepstat 2 poll.1 bytes])))
        ectRegEepctl (writeCommand eeproma) (· < 0) :=
      hcommands.givenUp (not_lt.mp hlost) hnegative _ _
    rw [List.append_assoc] at hgiven
    exact hheard.command hgiven
  have hanswered : 0<poll.1 := by
    by_contra hlost
    exact hheard.status (.read ectRegEepstat 2 poll.1 bytes) (by simp) (not_lt.mp hlost)
  rw [hestat] at haccepted
  refine ⟨start++(words++(commands++front)),_,[],by simp,
    (read_confirms_iff _ bytes).mpr ⟨hanswered,haccepted⟩,?_,?_⟩
  · exact ((hwords.reached_iff.mpr hword).before _).after _
  · exact (((hcommands.reached_iff.mpr hcommand).before _).after _).after _

theorem not_confirms_of_write {ado : UInt16} {data : List UInt8} {cnt : Nat} {wkc : Int}
    (h : Tried ado data cnt wkc seg) : ∀ e ∈ seg,¬e.Confirms := by
  intro e he
  obtain ⟨w,rfl,-⟩ := h.write e he
  exact id

theorem AttemptLog.heard (h : AttemptLog eeproma data b seg) (hb : b.2.outcome=.accepted)
    (hword : Apart ectRegEepdat (le16 data) start)
    (hcommand : Apart ectRegEepctl (writeCommand eeproma) start)
    (hconfirmed : Confirmed eeproma data (start++seg)) : Heard eeproma data (start++seg) := by
  obtain ⟨words,commands,polls,rfl,hwords,hcommands,hpoll⟩ := h
  obtain ⟨poll,hsome,haccepted⟩ := accepted_poll hb
  obtain ⟨-,hpolls⟩ := hpoll poll hsome
  have hwords' : Apart ectRegEepctl (writeCommand eeproma) words := hwords.apart (by decide)
  have hcommands' : Apart ectRegEepdat (le16 data) commands := hcommands.apart (by decide)
  have hpolls' := hpolls.apart
  obtain ⟨before,e,after,heq,he,hd,hc⟩ := hconfirmed
  have hwordReached : 0<b.1 := by
    have hr := hd.before (e::after)
    rw [← heq,reached_append,reached_append,reached_append,hwords.reached_iff] at hr
    simpa [hword.not_reached,hcommands'.not_reached,(hpolls' _ _).not_reached] using hr
  have hcommandReached : 0<b.2.wkc := by
    have hr := hc.before (e::after)
    rw [← heq,reached_append,reached_append,reached_append,hcommands.reached_iff] at hr
    simpa [hcommand.not_reached,hwords'.not_reached,(hpolls' _ _).not_reached] using hr
  have hanswered : 0<poll.1 := by
    -- the read that confirms is not in front of the attempt, where no data is written
    have hmem : e ∈ words++(commands++polls) := by
      rcases List.append_eq_append_iff.mp heq with ⟨rest,-,hseg⟩|⟨rest,hstart,-⟩
      · rw [hseg]
        exact List.mem_append_right _ List.mem_cons_self
      · rw [hstart] at hword
        exact absurd hd (apart_append.mp hword).1.not_reached
    obtain ⟨front,bytes,rfl,hnone,-⟩ := hpolls
    rcases List.mem_append.mp hmem with hmem|hmem
    · exact absurd he (not_confirms_of_write hwords e hmem)
    rcases List.mem_append.mp hmem with hmem|hmem
    · exact absurd he (not_confirms_of_write hcommands e hmem)
    rcases List.mem_append.mp hmem with hmem|hmem
    · obtain ⟨_,_,-,hc⟩ := hnone e hmem
      exact absurd he hc
    · rw [List.mem_singleton.mp hmem] at he
      exact ((read_confirms_iff _ _).mp he).1
  constructor
  · intro hgiven
    have hmany := hgiven.failures fun _ h => h
    have hfew := hwords.failures hwordReached
    rw [failures_append,failures_append,failures_append,hword.failures,hcommands'.failures,
      (hpolls' _ _).failures] at hmany
    omega
  · intro hgiven
    have hmany := hgiven.failures fun _ h => Int.le_of_lt h
    have hfew := hcommands.failures hcommandReached
    rw [failures_append,failures_append,failures_append,hcommand.failures,hwords'.failures,
      (hpolls' _ _).failures] at hmany
    omega
  · obtain ⟨front,bytes,rfl,-⟩ := hpolls
    intro e' he'
    have hlast : Access.read ectRegEepstat 2 poll.1 bytes=e' := by simpa using he'
    rw [← hlast]
    exact not_le.mpr hanswered

theorem entersLoop_apart {s s1 : σ}
    (h : EntersLoop port.recording fuel configadr (s,[]) (s1,log)) :
    Apart ectRegEepdat (le16 data) log ∧ Apart ectRegEepctl (writeCommand eeproma) log := by
  obtain ⟨wkc,estat,⟨t,log'⟩,hpoll,-,heq⟩ := h
  obtain ⟨seg,hlog,hpolls⟩ := lastPoll_log _ _ _ _ _ hpoll
  obtain rfl : log'=seg := hlog
  have hreads := hpolls.apart
  by_cases hbits : estat &&& ecEstatEmask≠0
  · rw [if_pos hbits] at heq
    cases heq
    refine ⟨apart_append.mpr ⟨hreads _ _,?_⟩,apart_append.mpr ⟨hreads _ _,?_⟩⟩
    · intro w hmem
      cases List.mem_singleton.mp hmem
    · intro w hmem
      have hdata := (Access.write.inj (List.mem_singleton.mp hmem)).2.1
      have hlength := congrArg List.length hdata
      simp [writeCommand] at hlength
  · rw [if_neg hbits] at heq
    cases heq
    exact ⟨hreads _ _,hreads _ _⟩

theorem writeeepromWithin_confirmed {s t : σ} {rounds : Nat}
    (h : writeeepromWithin port.recording fuel rounds configadr eeproma data (s,[])=
      .ok (1,(t,log))) :
    (Heard eeproma data log → Confirmed eeproma data log) ∧
      (Confirmed eeproma data log → Heard eeproma data log ∨ Refused eeproma log) := by
  rcases eepromReady_cases h with ⟨⟨s1,start⟩,henters,hloop⟩|hfailed
  · rw [writeeepromLoop_eq] at hloop
    obtain ⟨b,u,hretry,hvalue⟩ := bind_ok.mp hloop
    obtain ⟨front,seg,hu,hlog,hfront⟩ := attempts_log hretry
    have hb : b.2.outcome=.accepted := by
      by_contra hne
      rw [if_neg hne] at hvalue
      cases pure_ok.mp hvalue
    rw [if_pos hb] at hvalue
    cases pure_ok.mp hvalue
    obtain rfl : log=start++(front++seg) := hu
    constructor
    · intro hheard
      rw [← List.append_assoc] at hheard ⊢
      exact hlog.confirmed hb hheard
    · intro hconfirmed
      rcases hfront rfl with rfl|hrefused
      · obtain ⟨hword,hcommand⟩ := entersLoop_apart henters
        exact .inl (hlog.heard hb hword hcommand hconfirmed)
      · exact .inr (hrefused.between start seg)
  · cases hfailed

end Attempts

/-- A write that returns 1 is confirmed if the line was heard. If the slave refused nothing, it is
confirmed only then. -/
theorem eeprom_write_confirmed (d : EepromDatagrams σ) (fuel : Nat) (adr eeproma data : UInt16)
    (s : σ) :
    (∀ rounds t log,writeeepromAP d.recording fuel rounds adr eeproma data (s,[])=
      .ok (1,(t,log)) → (Heard eeproma data log → Confirmed eeproma data log) ∧
        (Confirmed eeproma data log → Heard eeproma data log ∨ Refused eeproma log)) ∧
    (∀ rounds t log,writeeepromFP d.recording fuel rounds adr eeproma data (s,[])=
      .ok (1,(t,log)) → (Heard eeproma data log → Confirmed eeproma data log) ∧
        (Confirmed eeproma data log → Heard eeproma data log ∨ Refused eeproma log)) :=
  ⟨fun _ _ _ => writeeepromWithin_confirmed,fun _ _ _ => writeeepromWithin_confirmed⟩

def answeringLine : EepromDatagrams Unit where
  aprd _ _ _ s := ((1,[0,0]),s)
  apwr _ _ _ s := (1,s)
  fprd _ _ _ s := ((1,[0,0]),s)
  fpwr _ _ _ s := (1,s)
  timerIsExpired s := (true,s)

def answeredAccesses : List Access :=
  [.read ectRegEepstat 2 1 [0,0],.write ectRegEepdat (le16 0) 1,
    .write ectRegEepctl (writeCommand 0) 1,.read ectRegEepstat 2 1 [0,0]]

theorem answeredAccesses_heard : Heard 0 0 answeredAccesses where
  word h := absurd (h.failures fun _ h => h) (by decide +kernel)
  command h := absurd (h.failures fun _ h => Int.le_of_lt h) (by decide +kernel)
  status := by simp [answeredAccesses,Access.Unanswered]

theorem answered_write_confirmed : Confirmed 0 0 answeredAccesses :=
  ((eeprom_write_confirmed answeringLine 1 0 0 0 ()).1 1 () answeredAccesses
    (by decide +kernel)).1 answeredAccesses_heard

/-- A line from which no frame comes back. -/
def deadLine : EepromDatagrams Unit where
  aprd _ _ _ s := ((-1,[]),s)
  apwr _ _ _ s := (-1,s)
  fprd _ _ _ s := ((-1,[]),s)
  fpwr _ _ _ s := (-1,s)
  timerIsExpired s := (true,s)

def deadAccesses : List Access :=
  .read ectRegEepstat 2 (-1) []::(List.replicate 4 (.write ectRegEepdat (le16 0) (-1))++
    (List.replicate 4 (.write ectRegEepctl (writeCommand 0) (-1))++
      [.read ectRegEepstat 2 (-1) []]))

theorem deadAccesses_unconfirmed : ¬Confirmed 0 0 deadAccesses := by
  rintro ⟨before,e,after,heq,-,hdata,-⟩
  have hreached : Reached deadAccesses ectRegEepdat (le16 0) := by
    rw [heq]
    exact hdata.before (e::after)
  obtain ⟨wkc,hmem,hw⟩ := hreached
  have hneg : wkc=-1 ∨ ectRegEepdat=ectRegEepctl ∧ le16 0=writeCommand 0 ∧ wkc=-1 := by
    simpa [deadAccesses] using hmem
  omega

/-- Both functions return 1 although nothing has reached the slave. -/
theorem deadLine_written :
    ¬(∀ rounds t log,writeeepromAP deadLine.recording 1 rounds 0 0 0 ((),[])=
      .ok (1,(t,log)) → Confirmed 0 0 log) ∧
    ¬(∀ rounds t log,writeeepromFP deadLine.recording 1 rounds 0 0 0 ((),[])=
      .ok (1,(t,log)) → Confirmed 0 0 log) :=
  ⟨fun h => deadAccesses_unconfirmed (h 1 () deadAccesses (by decide +kernel)),
    fun h => deadAccesses_unconfirmed (h 1 () deadAccesses (by decide +kernel))⟩

end EtherCATMaster.Sii
