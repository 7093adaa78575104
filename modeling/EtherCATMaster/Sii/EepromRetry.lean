import EtherCATMaster.Sii.Eeprom

namespace EtherCATMaster.Sii
open EtherCATMaster.Framework

variable {σ α : Type}

/-- The datagrams to a slave by its place in the ring and by its configured address. -/
structure EepromDatagrams (σ : Type) where
  aprd : UInt16 → UInt16 → Nat → σ → (Int × List UInt8) × σ
  apwr : UInt16 → UInt16 → List UInt8 → σ → Int × σ
  fprd : UInt16 → UInt16 → Nat → σ → (Int × List UInt8) × σ
  fpwr : UInt16 → UInt16 → List UInt8 → σ → Int × σ
  timerIsExpired : σ → Bool × σ

/-- The AP functions are the FP functions over the other datagrams. -/
def EepromDatagrams.ap (d : EepromDatagrams σ) : EepromPort σ := ⟨d.aprd,d.apwr,d.timerIsExpired⟩

def EepromDatagrams.fp (d : EepromDatagrams σ) : EepromPort σ := ⟨d.fprd,d.fpwr,d.timerIsExpired⟩

def ecEcmdWrite : UInt16 := 0x0201

/-- `ec_eepromt` as it is sent to write the word at `eeproma`. -/
def writeCommand (eeproma : UInt16) : List UInt8 := le16 ecEcmdWrite++(le16 eeproma++le16 0)

/-- One round of `ecx_writeeepromFP`: the number of refusals so far, and `rval`. -/
def writeeepromRound (port : EepromPort σ) (fuel : Nat) (configadr eeproma data : UInt16)
    (nackcnt : Nat) : Program SiiHalt σ (Nat × Int) := do
  let _ ← port.writeRetry configadr ectRegEepdat (le16 data) ecDefaultRetries
  let wkc ← port.writeRetry configadr ectRegEepctl (writeCommand eeproma) ecDefaultRetries
  if wkc≠0 then
    let (ready,estat) ← eepromWaitnotbusyFP port configadr fuel
    if ready then
      if estat &&& ecEstatNack≠0 then pure (nackcnt+1,0) else pure (0,1)
    else pure (nackcnt,0)
  else pure (nackcnt,0)

/-- `rval` is set in a round that ends the loop. -/
def writeeepromLoop (port : EepromPort σ) (fuel : Nat) (configadr eeproma data : UInt16) :
    Nat → Nat → Program SiiHalt σ Int
  | 0,_ => throw .unfinished
  | rounds+1,nackcnt => do
    let (nackcnt',rval) ← writeeepromRound port fuel configadr eeproma data nackcnt
    if nackcnt'>0 ∧ nackcnt'<3 then
      writeeepromLoop port fuel configadr eeproma data rounds nackcnt'
    else pure rval

/-- What the functions do before their loop, which they come to if the interface is ready. -/
def eepromReady (port : EepromPort σ) (fuel : Nat) (configadr : UInt16)
    (loop : Program SiiHalt σ α) (failed : α) : Program SiiHalt σ α := do
  let (ready,estat) ← eepromWaitnotbusyFP port configadr fuel
  if ready then
    if estat &&& ecEstatEmask≠0 then
      -- clear error bits
      let _ ← port.write configadr ectRegEepctl (le16 ecEcmdNop)
      loop
    else loop
  else pure failed

/-- `ecx_readeepromFP`, given up after a number of rounds. -/
def readeepromWithin (port : EepromPort σ) (fuel rounds : Nat) (configadr eeproma : UInt16) :
    Program SiiHalt σ UInt64 :=
  eepromReady port fuel configadr (readeepromLoop port fuel configadr eeproma rounds 0) 0

/-- `ecx_writeeepromFP`, given up after a number of rounds. -/
def writeeepromWithin (port : EepromPort σ) (fuel rounds : Nat)
    (configadr eeproma data : UInt16) : Program SiiHalt σ Int :=
  eepromReady port fuel configadr (writeeepromLoop port fuel configadr eeproma data rounds 0) 0

/-- `ecx_readeepromAP` -/
def readeepromAP (d : EepromDatagrams σ) (fuel rounds : Nat) (aiadr eeproma : UInt16) :
    Program SiiHalt σ UInt64 := readeepromWithin d.ap fuel rounds aiadr eeproma

/-- `ecx_writeeepromAP` -/
def writeeepromAP (d : EepromDatagrams σ) (fuel rounds : Nat) (aiadr eeproma data : UInt16) :
    Program SiiHalt σ Int := writeeepromWithin d.ap fuel rounds aiadr eeproma data

/-- `ecx_writeeepromFP` -/
def writeeepromFP (d : EepromDatagrams σ) (fuel rounds : Nat) (configadr eeproma data : UInt16) :
    Program SiiHalt σ Int := writeeepromWithin d.fp fuel rounds configadr eeproma data

/-- What came of one attempt at a command: the slave took it, it refused it, or it could not be
reached or stayed busy. -/
inductive Outcome where
  | accepted
  | refused
  | lost
deriving DecidableEq,Repr

def Outcome.nackcnt : Outcome → Nat → Nat
  | accepted,_ => 0
  | refused,n => n+1
  | lost,n => n

/-- The answers to one attempt: the work counter of the command, and the status read last, with its
work counter, unless no slave took the command. -/
structure CommandAnswer where
  wkc : Int
  poll : Option (Int × UInt16)

def statusOutcome (estat : UInt16) : Outcome :=
  if estat &&& ecEstatBusy≠0 then .lost
  else if estat &&& ecEstatNack≠0 then .refused
  else .accepted

def CommandAnswer.outcome (a : CommandAnswer) : Outcome :=
  (a.poll.map fun poll => statusOutcome poll.2).getD .lost

/-- The status read that ends a wait. -/
def lastPoll (port : EepromPort σ) (configadr : UInt16) :
    Nat → Program SiiHalt σ (Int × UInt16)
  | 0 => throw .unfinished
  | fuel+1 => do
    let (wkc,data) ← port.read configadr ectRegEepstat 2
    let estat := get16 data 0
    if wkc ≤ 0 ∨ estat &&& ecEstatBusy≠0 then
      let expired ← (fun s => .ok (port.timerIsExpired s) : Program SiiHalt σ Bool)
      if expired then pure (wkc,estat) else lastPoll port configadr fuel
    else pure (wkc,estat)

/-- One attempt at a command. -/
def sendCommand (port : EepromPort σ) (fuel : Nat) (configadr : UInt16) (command : List UInt8) :
    Program SiiHalt σ CommandAnswer := do
  let wkc ← port.writeRetry configadr ectRegEepctl command ecDefaultRetries
  if wkc≠0 then
    let poll ← lastPoll port configadr fuel
    pure ⟨wkc,some poll⟩
  else pure ⟨wkc,none⟩

/-- One attempt at writing a word: the work counter of the data, and what the command brought. -/
def sendWrite (port : EepromPort σ) (fuel : Nat) (configadr eeproma data : UInt16) :
    Program SiiHalt σ (Int × CommandAnswer) := do
  let wkc ← port.writeRetry configadr ectRegEepdat (le16 data) ecDefaultRetries
  let a ← sendCommand port fuel configadr (writeCommand eeproma)
  pure (wkc,a)

/-- Attempts that are made again while the slave refuses, up to three times. -/
def retry (attempt : Program SiiHalt σ α) (outcome : α → Outcome) :
    Nat → Nat → Program SiiHalt σ α
  | 0,_ => throw .unfinished
  | rounds+1,nackcnt => do
    let a ← attempt
    if (outcome a).nackcnt nackcnt>0 ∧ (outcome a).nackcnt nackcnt<3 then
      retry attempt outcome rounds ((outcome a).nackcnt nackcnt)
    else pure a

/-- The data that an accepted command has brought. -/
def fetchData (port : EepromPort σ) (configadr : UInt16) (a : CommandAnswer) :
    Program SiiHalt σ UInt64 :=
  if a.outcome=.accepted then
    if (a.poll.map Prod.snd).getD 0 &&& ecEstatR64≠0 then do
      let (_,edat64) ← port.readRetry configadr ectRegEepdat 8 ecDefaultRetries
      pure (UInt64.ofNat (leValue edat64))
    else do
      let (_,edat32) ← port.readRetry configadr ectRegEepdat 4 ecDefaultRetries
      pure (UInt64.ofNat (leValue edat32))
  else pure 0

section Rounds

variable (port : EepromPort σ) (fuel : Nat) (configadr : UInt16)

theorem eepromWaitnotbusyFP_eq : eepromWaitnotbusyFP port configadr fuel=
    lastPoll port configadr fuel >>= fun poll =>
      pure (decide (poll.2 &&& ecEstatBusy=0),poll.2) := by
  induction fuel with
  | zero => rfl
  | succ fuel ih =>
    rw [eepromWaitnotbusyFP,lastPoll,bind_assoc]
    congr 1
    funext a
    obtain ⟨wkc,data⟩ := a
    dsimp only
    by_cases hbusy : wkc ≤ 0 ∨ get16 data 0 &&& ecEstatBusy≠0
    · rw [if_pos hbusy,if_pos hbusy,bind_assoc]
      congr 1
      funext expired
      cases expired with
      | true => rfl
      | false => exact ih
    · rw [if_neg hbusy,if_neg hbusy]
      rfl

theorem CommandAnswer.outcome_some (wkc : Int) (poll : Int × UInt16) :
    (⟨wkc,some poll⟩ : CommandAnswer).outcome=statusOutcome poll.2 := rfl

theorem fetchData_refused {a : CommandAnswer} (h : a.outcome≠.accepted) :
    fetchData port configadr a=pure 0 := if_neg h

/-- A round is an attempt at the command, and the reading of what it has brought. -/
theorem readeepromRound_eq (eeproma : UInt16) (nackcnt : Nat) :
    readeepromRound port fuel configadr eeproma nackcnt=
      sendCommand port fuel configadr (readCommand eeproma) >>= fun a =>
        fetchData port configadr a >>= fun edat => pure (a.outcome.nackcnt nackcnt,edat) := by
  rw [readeepromRound,sendCommand,bind_assoc]
  congr 1
  funext wkc
  by_cases hwkc : wkc≠0
  · rw [if_pos hwkc,if_pos hwkc,eepromWaitnotbusyFP_eq,bind_assoc,bind_assoc]
    congr 1
    funext poll
    rw [pure_bind,pure_bind]
    dsimp only
    by_cases hbusy : poll.2 &&& ecEstatBusy≠0
    · have hlost : (⟨wkc,some poll⟩ : CommandAnswer).outcome=.lost := if_pos hbusy
      rw [fetchData_refused _ _ (by rw [hlost]; decide),hlost,if_neg (by simpa using hbusy)]
      rfl
    · have hready : (decide (poll.2 &&& ecEstatBusy=0))=true := by simpa using hbusy
      rw [if_pos hready]
      by_cases hnack : poll.2 &&& ecEstatNack≠0
      · have hrefused : (⟨wkc,some poll⟩ : CommandAnswer).outcome=.refused := by
          rw [CommandAnswer.outcome_some,statusOutcome,if_neg hbusy,if_pos hnack]
        rw [fetchData_refused _ _ (by rw [hrefused]; decide),hrefused,if_pos hnack]
        rfl
      · have haccepted : (⟨wkc,some poll⟩ : CommandAnswer).outcome=.accepted := by
          rw [CommandAnswer.outcome_some,statusOutcome,if_neg hbusy,if_neg hnack]
        rw [if_neg hnack,fetchData,if_pos haccepted,haccepted]
        change _=(if poll.2 &&& ecEstatR64≠0 then _ else _ : Program SiiHalt σ UInt64) >>= _
        by_cases hr64 : poll.2 &&& ecEstatR64≠0
        · rw [if_pos hr64,if_pos hr64,bind_assoc]
          rfl
        · rw [if_neg hr64,if_neg hr64,bind_assoc]
          rfl
  · rw [if_neg hwkc,if_neg hwkc]
    rfl

theorem writeeepromRound_eq (eeproma data : UInt16) (nackcnt : Nat) :
    writeeepromRound port fuel configadr eeproma data nackcnt=
      sendWrite port fuel configadr eeproma data >>= fun a =>
        pure (a.2.outcome.nackcnt nackcnt,if a.2.outcome=.accepted then 1 else 0) := by
  rw [writeeepromRound,sendWrite,bind_assoc]
  congr 1
  funext w
  rw [sendCommand,bind_assoc,bind_assoc]
  congr 1
  funext wkc
  by_cases hwkc : wkc≠0
  · rw [if_pos hwkc,if_pos hwkc,eepromWaitnotbusyFP_eq,bind_assoc,bind_assoc]
    congr 1
    funext poll
    rw [pure_bind,pure_bind,pure_bind,CommandAnswer.outcome_some,statusOutcome]
    dsimp only
    by_cases hbusy : poll.2 &&& ecEstatBusy≠0
    · rw [if_pos hbusy,if_neg (by simpa using hbusy)]
      rfl
    · have hready : (decide (poll.2 &&& ecEstatBusy=0))=true := by simpa using hbusy
      rw [if_pos hready,if_neg hbusy]
      by_cases hnack : poll.2 &&& ecEstatNack≠0
      · rw [if_pos hnack,if_pos hnack]
        rfl
      · rw [if_neg hnack,if_neg hnack]
        rfl
  · rw [if_neg hwkc,if_neg hwkc]
    rfl

theorem accepted_ends (nackcnt : Nat) :
    ¬(Outcome.accepted.nackcnt nackcnt>0 ∧ Outcome.accepted.nackcnt nackcnt<3) :=
  fun h => absurd h.1 (lt_irrefl 0)

theorem readeepromLoop_eq (eeproma : UInt16) (rounds : Nat) : ∀ nackcnt,
    readeepromLoop port fuel configadr eeproma rounds nackcnt=
      retry (sendCommand port fuel configadr (readCommand eeproma)) CommandAnswer.outcome
        rounds nackcnt >>= fetchData port configadr := by
  induction rounds with
  | zero => exact fun _ => rfl
  | succ rounds ih =>
    intro nackcnt
    rw [readeepromLoop,retry,readeepromRound_eq,bind_assoc,bind_assoc]
    congr 1
    funext a
    rw [bind_assoc]
    by_cases hon : a.outcome.nackcnt nackcnt>0 ∧ a.outcome.nackcnt nackcnt<3
    · have hrefused : a.outcome≠.accepted := by
        intro h
        rw [h] at hon
        exact accepted_ends nackcnt hon
      rw [if_pos hon,fetchData_refused _ _ hrefused,pure_bind,pure_bind]
      dsimp only
      rw [if_pos hon,ih]
    · rw [if_neg hon,pure_bind]
      conv_rhs => rw [← bind_pure (fetchData port configadr a)]
      congr 1
      funext edat
      rw [pure_bind]
      dsimp only
      rw [if_neg hon]

theorem writeeepromLoop_eq (eeproma data : UInt16) (rounds : Nat) : ∀ nackcnt,
    writeeepromLoop port fuel configadr eeproma data rounds nackcnt=
      retry (sendWrite port fuel configadr eeproma data) (fun a => a.2.outcome)
        rounds nackcnt >>= fun a => pure (if a.2.outcome=.accepted then 1 else 0) := by
  induction rounds with
  | zero => exact fun _ => rfl
  | succ rounds ih =>
    intro nackcnt
    rw [writeeepromLoop,retry,writeeepromRound_eq,bind_assoc,bind_assoc]
    congr 1
    funext a
    rw [pure_bind]
    dsimp only
    by_cases hon : a.2.outcome.nackcnt nackcnt>0 ∧ a.2.outcome.nackcnt nackcnt<3
    · rw [if_pos hon,if_pos hon,ih]
    · rw [if_neg hon,if_neg hon,pure_bind]

end Rounds

/-- Whatever the status reads bring, the timer of a wait has run out after this many of them. -/
def TimerRunsOut (port : EepromPort σ) (configadr : UInt16) : Nat → σ → Prop
  | 0,_ => False
  | n+1,s =>
    (port.timerIsExpired (port.fprd configadr ectRegEepstat 2 s).2).1=true ∨
      TimerRunsOut port configadr n (port.timerIsExpired (port.fprd configadr ectRegEepstat 2 s).2).2

/-- The program returns from this state. -/
def Returns (x : Program SiiHalt σ α) (s : σ) : Prop := ∃ r,x s=.ok r

theorem Returns.bind {β : Type} {x : Program SiiHalt σ α} {f : α → Program SiiHalt σ β}
    (hx : ∀ s,Returns x s) (hf : ∀ a s,Returns (f a) s) (s : σ) : Returns (x >>= f) s := by
  obtain ⟨⟨a,t⟩,ha⟩ := hx s
  obtain ⟨r,hr⟩ := hf a t
  exact ⟨r,(run_bind ha).trans hr⟩

theorem Returns.pure (a : α) (s : σ) : Returns (Pure.pure a : Program SiiHalt σ α) s :=
  ⟨(a,s),rfl⟩

section Returning

variable {port : EepromPort σ} {fuel : Nat} {configadr : UInt16}

theorem lastPoll_returns : ∀ {fuel : Nat} {s : σ},TimerRunsOut port configadr fuel s →
    Returns (lastPoll port configadr fuel) s := by
  intro fuel
  induction fuel with
  | zero => exact fun h => h.elim
  | succ fuel ih =>
    intro s h
    obtain ⟨wkc,data,t,hread⟩ : ∃ wkc data t,port.read configadr ectRegEepstat 2 s=
        .ok ((wkc,data),t) ∧ t=(port.fprd configadr ectRegEepstat 2 s).2 := ⟨_,_,_,rfl,rfl⟩
    obtain ⟨hread,ht⟩ := hread
    by_cases hagain : wkc ≤ 0 ∨ get16 data 0 &&& ecEstatBusy≠0
    · by_cases hexpired : (port.timerIsExpired t).1=true
      · refine ⟨((wkc,get16 data 0),(port.timerIsExpired t).2),?_⟩
        rw [lastPoll,run_bind hread]
        dsimp only
        rw [if_pos hagain,run_bind (a := (port.timerIsExpired t).1) (t := (port.timerIsExpired t).2)
          rfl,if_pos hexpired]
        rfl
      · rw [TimerRunsOut,← ht] at h
        obtain ⟨r,hr⟩ := ih (h.resolve_left hexpired)
        refine ⟨r,?_⟩
        rw [lastPoll,run_bind hread]
        dsimp only
        rw [if_pos hagain,run_bind (a := (port.timerIsExpired t).1) (t := (port.timerIsExpired t).2)
          rfl,if_neg hexpired]
        exact hr
    · refine ⟨((wkc,get16 data 0),t),?_⟩
      rw [lastPoll,run_bind hread]
      dsimp only
      rw [if_neg hagain]
      rfl

theorem EepromPort.readRetry_returns (port : EepromPort σ) (configadr ado : UInt16)
    (length cnt : Nat) : ∀ s,Returns (port.readRetry configadr ado length cnt) s := by
  induction cnt with
  | zero => exact fun s => ⟨_,rfl⟩
  | succ cnt ih =>
    refine Returns.bind (fun s => ⟨_,rfl⟩) (fun a s => ?_)
    dsimp only
    by_cases hwkc : a.1 ≤ 0
    · rw [if_pos hwkc]
      exact ih s
    · rw [if_neg hwkc]
      exact Returns.pure a s

theorem fetchData_returns (a : CommandAnswer) (s : σ) : Returns (fetchData port configadr a) s := by
  by_cases haccepted : a.outcome=.accepted
  · rw [fetchData,if_pos haccepted]
    by_cases hr64 : (a.poll.map Prod.snd).getD 0 &&& ecEstatR64≠0
    · rw [if_pos hr64]
      exact Returns.bind (port.readRetry_returns _ _ _ _) (fun _ => Returns.pure _) s
    · rw [if_neg hr64]
      exact Returns.bind (port.readRetry_returns _ _ _ _) (fun _ => Returns.pure _) s
  · rw [fetchData_refused _ _ haccepted]
    exact Returns.pure 0 s

variable (htimer : ∀ s,TimerRunsOut port configadr fuel s)
include htimer

theorem sendCommand_returns (command : List UInt8) (s : σ) :
    Returns (sendCommand port fuel configadr command) s := by
  refine Returns.bind (fun s => ?_) (fun wkc s => ?_) s
  · obtain ⟨wkc,t,h⟩ := port.writeRetry_returns configadr ectRegEepctl command ecDefaultRetries s
    exact ⟨(wkc,t),h⟩
  · by_cases hwkc : wkc≠0
    · rw [if_pos hwkc]
      exact Returns.bind (fun s => lastPoll_returns (htimer s)) (fun _ => Returns.pure _) s
    · rw [if_neg hwkc]
      exact Returns.pure _ s

theorem sendWrite_returns (eeproma data : UInt16) (s : σ) :
    Returns (sendWrite port fuel configadr eeproma data) s := by
  refine Returns.bind (fun s => ?_) (fun wkc s => ?_) s
  · obtain ⟨wkc,t,h⟩ :=
      port.writeRetry_returns configadr ectRegEepdat (le16 data) ecDefaultRetries s
    exact ⟨(wkc,t),h⟩
  · exact Returns.bind (sendCommand_returns htimer _) (fun _ => Returns.pure _) s

end Returning

/-- A slave that goes out of reach after it has refused: the first attempt is refused, neither of
the next two is accepted, and one of these is lost. -/
def RefusedThenLost (attempt : Program SiiHalt σ α) (outcome : α → Outcome) (s : σ) : Prop :=
  ∃ a s1 b s2 c s3,attempt s=.ok (a,s1) ∧ attempt s1=.ok (b,s2) ∧ attempt s2=.ok (c,s3) ∧
    outcome a=.refused ∧ outcome b≠.accepted ∧ outcome c≠.accepted ∧
    (outcome b=.lost ∨ outcome c=.lost)

section Retrying

variable {attempt : Program SiiHalt σ α} {outcome : α → Outcome}

theorem retry_on {nackcnt rounds : Nat} {s t : σ} {a : α} (h : attempt s=.ok (a,t))
    (hon : (outcome a).nackcnt nackcnt>0 ∧ (outcome a).nackcnt nackcnt<3) :
    retry attempt outcome (rounds+1) nackcnt s=
      retry attempt outcome rounds ((outcome a).nackcnt nackcnt) t := by
  rw [retry,run_bind h,if_pos hon]

theorem retry_ends {nackcnt rounds : Nat} {s t : σ} {a : α} (h : attempt s=.ok (a,t))
    (hend : ¬((outcome a).nackcnt nackcnt>0 ∧ (outcome a).nackcnt nackcnt<3)) :
    retry attempt outcome (rounds+1) nackcnt s=.ok (a,t) := by
  rw [retry,run_bind h,if_neg hend]
  rfl

theorem two_more_iff (o o' : Outcome) :
    (o.nackcnt 1>0 ∧ o.nackcnt 1<3) ∧ (o'.nackcnt (o.nackcnt 1)>0 ∧ o'.nackcnt (o.nackcnt 1)<3) ↔
      o≠.accepted ∧ o'≠.accepted ∧ (o=.lost ∨ o'=.lost) := by
  cases o <;> cases o' <;> decide

/-- With one refusal behind it, the loop comes to its end within two attempts if one of them is
accepted or both are refused. -/
theorem retry_two_iff (hreturns : ∀ s,Returns attempt s) (s : σ) :
    Returns (retry attempt outcome 2 1) s ↔ ¬∃ b s2 c s3,attempt s=.ok (b,s2) ∧
      attempt s2=.ok (c,s3) ∧ outcome b≠.accepted ∧ outcome c≠.accepted ∧
      (outcome b=.lost ∨ outcome c=.lost) := by
  obtain ⟨⟨b,s2⟩,hb⟩ := hreturns s
  obtain ⟨⟨c,s3⟩,hc⟩ := hreturns s2
  have hchain : (∃ b s2 c s3,attempt s=.ok (b,s2) ∧ attempt s2=.ok (c,s3) ∧
      outcome b≠.accepted ∧ outcome c≠.accepted ∧ (outcome b=.lost ∨ outcome c=.lost)) ↔
      outcome b≠.accepted ∧ outcome c≠.accepted ∧ (outcome b=.lost ∨ outcome c=.lost) := by
    constructor
    · rintro ⟨b',s2',c',s3',hb',hc',h⟩
      cases hb.symm.trans hb'
      cases hc.symm.trans hc'
      exact h
    · exact fun h => ⟨b,s2,c,s3,hb,hc,h⟩
  rw [hchain,← two_more_iff]
  by_cases hon : (outcome b).nackcnt 1>0 ∧ (outcome b).nackcnt 1<3
  · rw [Returns,retry_on hb hon]
    by_cases hon' : (outcome c).nackcnt ((outcome b).nackcnt 1)>0 ∧
        (outcome c).nackcnt ((outcome b).nackcnt 1)<3
    · rw [retry_on hc hon']
      exact iff_of_false (fun ⟨r,hr⟩ => throw_ok hr) (not_not_intro ⟨hon,hon'⟩)
    · rw [retry_ends hc hon']
      exact iff_of_true ⟨_,rfl⟩ (fun h => hon' h.2)
  · rw [Returns,retry_ends hb hon]
    exact iff_of_true ⟨_,rfl⟩ (fun h => hon h.1)

/-- The loop comes to its end within three attempts, unless the slave goes out of reach after it has
refused. -/
theorem retry_three_iff (hreturns : ∀ s,Returns attempt s) (s : σ) :
    Returns (retry attempt outcome 3 0) s ↔ ¬RefusedThenLost attempt outcome s := by
  obtain ⟨⟨a,s1⟩,ha⟩ := hreturns s
  cases ho : outcome a with
  | refused =>
    have hon : (outcome a).nackcnt 0>0 ∧ (outcome a).nackcnt 0<3 := by
      rw [ho]
      decide
    rw [Returns,retry_on ha hon,ho]
    refine (retry_two_iff hreturns s1).trans (not_congr ⟨?_,?_⟩)
    · rintro ⟨b,s2,c,s3,hb,hc,h⟩
      exact ⟨a,s1,b,s2,c,s3,ha,hb,hc,ho,h⟩
    · rintro ⟨a',s1',b,s2,c,s3,ha',hb,hc,-,h⟩
      cases ha.symm.trans ha'
      exact ⟨b,s2,c,s3,hb,hc,h⟩
  | accepted | lost =>
    have hend : ¬((outcome a).nackcnt 0>0 ∧ (outcome a).nackcnt 0<3) := by
      rw [ho]
      decide
    rw [Returns,retry_ends ha hend]
    refine iff_of_true ⟨_,rfl⟩ ?_
    rintro ⟨a',s1',b,s2,c,s3,ha',-,-,ho',-⟩
    cases ha.symm.trans ha'
    rw [ho] at ho'
    cases ho'

end Retrying

/-- The state in which a function comes to its loop: the interface is ready, and its error bits have
been cleared. -/
def EntersLoop (port : EepromPort σ) (fuel : Nat) (configadr : UInt16) (s s1 : σ) : Prop :=
  ∃ wkc estat t,lastPoll port configadr fuel s=.ok ((wkc,estat),t) ∧ estat &&& ecEstatBusy=0 ∧
    s1=if estat &&& ecEstatEmask≠0 then (port.fpwr configadr ectRegEepctl (le16 ecEcmdNop) t).2
      else t

section Functions

variable {port : EepromPort σ} {fuel : Nat} {configadr : UInt16}

theorem eepromReady_loop {loop : Program SiiHalt σ α} {failed : α} {s s1 : σ}
    (h : EntersLoop port fuel configadr s s1) :
    eepromReady port fuel configadr loop failed s=loop s1 := by
  obtain ⟨wkc,estat,t,hpoll,hready,rfl⟩ := h
  rw [eepromReady,eepromWaitnotbusyFP_eq,bind_assoc,run_bind hpoll,pure_bind]
  dsimp only
  rw [if_pos (by simpa using hready)]
  by_cases hbits : estat &&& ecEstatEmask≠0
  · rw [if_pos hbits,if_pos hbits]
    rfl
  · rw [if_neg hbits,if_neg hbits]

theorem eepromReady_cases {loop : Program SiiHalt σ α} {failed a : α} {s t : σ}
    (h : eepromReady port fuel configadr loop failed s=.ok (a,t)) :
    (∃ s1,EntersLoop port fuel configadr s s1 ∧ loop s1=.ok (a,t)) ∨ a=failed := by
  have hrun := h
  rw [eepromReady,eepromWaitnotbusyFP_eq,bind_assoc] at h
  obtain ⟨⟨wkc,estat⟩,u,hpoll,h⟩ := bind_ok.mp h
  by_cases hready : estat &&& ecEstatBusy=0
  · have henters : EntersLoop port fuel configadr s _ := ⟨wkc,estat,u,hpoll,hready,rfl⟩
    rw [eepromReady_loop henters] at hrun
    exact .inl ⟨_,henters,hrun⟩
  · rw [pure_bind] at h
    dsimp only at h
    rw [if_neg (by simpa using hready)] at h
    cases pure_ok.mp h
    exact .inr rfl

theorem eepromReady_fails {loop : Program SiiHalt σ α} {failed : α} {s : σ}
    (htimer : TimerRunsOut port configadr fuel s)
    (h : ¬∃ s1,EntersLoop port fuel configadr s s1) :
    ∃ t,eepromReady port fuel configadr loop failed s=.ok (failed,t) := by
  obtain ⟨⟨⟨wkc,estat⟩,t⟩,hpoll⟩ := lastPoll_returns htimer
  have hbusy : ¬estat &&& ecEstatBusy=0 := fun hready =>
    h ⟨_,wkc,estat,t,hpoll,hready,rfl⟩
  refine ⟨t,?_⟩
  rw [eepromReady,eepromWaitnotbusyFP_eq,bind_assoc,run_bind hpoll,pure_bind]
  dsimp only
  rw [if_neg (by simpa using hbusy)]
  rfl

theorem EntersLoop.unique {s s1 s2 : σ} (h1 : EntersLoop port fuel configadr s s1)
    (h2 : EntersLoop port fuel configadr s s2) : s1=s2 := by
  obtain ⟨wkc,estat,t,hpoll,-,rfl⟩ := h1
  obtain ⟨wkc',estat',t',hpoll',-,rfl⟩ := h2
  cases hpoll.symm.trans hpoll'
  rfl

theorem eepromReady_returns_iff {loop : Program SiiHalt σ α} {failed : α} {s : σ}
    (htimer : TimerRunsOut port configadr fuel s) :
    Returns (eepromReady port fuel configadr loop failed) s ↔
      ∀ s1,EntersLoop port fuel configadr s s1 → Returns loop s1 := by
  by_cases h : ∃ s1,EntersLoop port fuel configadr s s1
  · obtain ⟨s1,h1⟩ := h
    rw [Returns,eepromReady_loop h1]
    exact ⟨fun hr s2 h2 => h1.unique h2 ▸ hr,fun hr => hr s1 h1⟩
  · obtain ⟨t,hfails⟩ : ∃ t,eepromReady port fuel configadr loop failed s=.ok (failed,t) :=
      eepromReady_fails htimer h
    exact iff_of_true ⟨_,hfails⟩ (fun s1 h1 => absurd ⟨s1,h1⟩ h)

/-- A loop that has not ended after three attempts: its slave goes out of reach after it has
refused. -/
def GoesOutOfReach (port : EepromPort σ) (fuel : Nat) (configadr : UInt16)
    (attempt : Program SiiHalt σ α) (outcome : α → Outcome) (s : σ) : Prop :=
  ∃ s1,EntersLoop port fuel configadr s s1 ∧ RefusedThenLost attempt outcome s1

theorem returns_of_retry {β : Type} {x : Program SiiHalt σ α} {f : α → Program SiiHalt σ β}
    (hf : ∀ a s,Returns (f a) s) (s : σ) : Returns (x >>= f) s ↔ Returns x s := by
  constructor
  · rintro ⟨r,hr⟩
    obtain ⟨a,t,ha,-⟩ := bind_ok.mp hr
    exact ⟨(a,t),ha⟩
  · rintro ⟨⟨a,t⟩,ha⟩
    obtain ⟨r,hr⟩ := hf a t
    exact ⟨r,(run_bind ha).trans hr⟩

/-- A function whose loop is this retry loop returns within three attempts, unless the slave goes
out of reach. -/
theorem eepromReady_three_iff {β : Type} {attempt : Program SiiHalt σ α} {outcome : α → Outcome}
    {loop : Program SiiHalt σ β} {f : α → Program SiiHalt σ β} {failed : β} {s : σ}
    (htimer : TimerRunsOut port configadr fuel s) (hreturns : ∀ s,Returns attempt s)
    (hf : ∀ a s,Returns (f a) s) (hloop : loop=retry attempt outcome 3 0 >>= f) :
    Returns (eepromReady port fuel configadr loop failed) s ↔
      ¬GoesOutOfReach port fuel configadr attempt outcome s := by
  rw [eepromReady_returns_iff htimer,hloop]
  constructor
  · rintro h ⟨s1,henters,hlost⟩
    exact (retry_three_iff hreturns s1).mp ((returns_of_retry hf s1).mp (h s1 henters)) hlost
  · intro h s1 henters
    refine (returns_of_retry hf s1).mpr ((retry_three_iff hreturns s1).mpr ?_)
    exact fun hlost => h ⟨s1,henters,hlost⟩

variable {s : σ} (htimer : ∀ s,TimerRunsOut port configadr fuel s)
include htimer

theorem readeepromWithin_three_iff (eeproma : UInt16) :
    Returns (readeepromWithin port fuel 3 configadr eeproma) s ↔
      ¬GoesOutOfReach port fuel configadr
        (sendCommand port fuel configadr (readCommand eeproma)) CommandAnswer.outcome s :=
  eepromReady_three_iff (htimer s) (sendCommand_returns htimer _) fetchData_returns
    (readeepromLoop_eq port fuel configadr eeproma 3 0)

theorem writeeepromWithin_three_iff (eeproma data : UInt16) :
    Returns (writeeepromWithin port fuel 3 configadr eeproma data) s ↔
      ¬GoesOutOfReach port fuel configadr
        (sendWrite port fuel configadr eeproma data) (fun a => a.2.outcome) s :=
  eepromReady_three_iff (htimer s) (sendWrite_returns htimer _ _) (fun _ => Returns.pure _)
    (writeeepromLoop_eq port fuel configadr eeproma data 3 0)

end Functions

/-- The functions return within three attempts, unless the slave goes out of reach after it has
refused the first one. -/
theorem eeprom_attempts_iff (d : EepromDatagrams σ) (fuel : Nat) (adr eeproma data : UInt16)
    (hap : ∀ s,TimerRunsOut d.ap adr fuel s) (hfp : ∀ s,TimerRunsOut d.fp adr fuel s) (s : σ) :
    (Returns (readeepromAP d fuel 3 adr eeproma) s ↔ ¬GoesOutOfReach d.ap fuel adr
      (sendCommand d.ap fuel adr (readCommand eeproma)) CommandAnswer.outcome s) ∧
    (Returns (readeepromWithin d.fp fuel 3 adr eeproma) s ↔ ¬GoesOutOfReach d.fp fuel adr
      (sendCommand d.fp fuel adr (readCommand eeproma)) CommandAnswer.outcome s) ∧
    (Returns (writeeepromAP d fuel 3 adr eeproma data) s ↔ ¬GoesOutOfReach d.ap fuel adr
      (sendWrite d.ap fuel adr eeproma data) (fun a => a.2.outcome) s) ∧
    (Returns (writeeepromFP d fuel 3 adr eeproma data) s ↔ ¬GoesOutOfReach d.fp fuel adr
      (sendWrite d.fp fuel adr eeproma data) (fun a => a.2.outcome) s) :=
  ⟨readeepromWithin_three_iff hap eeproma,readeepromWithin_three_iff hfp eeproma,
    writeeepromWithin_three_iff hap eeproma data,writeeepromWithin_three_iff hfp eeproma data⟩

/-- A slave that refuses the first command, and then is no longer in the ring. The environment
counts the commands. -/
def refusesOnce : EepromDatagrams Nat where
  aprd _ _ _ s := ((1,le16 (if s=0 then 0 else ecEstatNack)),s)
  apwr _ ado _ s := (if s=0 then 1 else 0,if ado=ectRegEepctl then s+1 else s)
  fprd _ _ _ s := ((1,le16 (if s=0 then 0 else ecEstatNack)),s)
  fpwr _ ado _ s := (if s=0 then 1 else 0,if ado=ectRegEepctl then s+1 else s)
  timerIsExpired s := (true,s)

theorem refusesOnce_attempts :
    (∀ s,TimerRunsOut refusesOnce.ap 0 1 s) ∧ (∀ s,TimerRunsOut refusesOnce.fp 0 1 s) ∧
    (Returns (readeepromAP refusesOnce 1 3 0 0) 0 ↔ ¬GoesOutOfReach refusesOnce.ap 1 0
      (sendCommand refusesOnce.ap 1 0 (readCommand 0)) CommandAnswer.outcome 0) :=
  ⟨fun _ => .inl rfl,fun _ => .inl rfl,
    (eeprom_attempts_iff refusesOnce 1 0 0 0 (fun _ => .inl rfl) (fun _ => .inl rfl) 0).1⟩

theorem retry_lost {attempt : Program SiiHalt σ α} {outcome : α → Outcome} {gone : σ → Prop}
    (h : ∀ s,gone s → ∃ a t,attempt s=.ok (a,t) ∧ outcome a=.lost ∧ gone t) (rounds : Nat) :
    ∀ s,gone s → ¬Returns (retry attempt outcome rounds 1) s := by
  induction rounds with
  | zero => exact fun s _ ⟨r,hr⟩ => throw_ok hr
  | succ rounds ih =>
    intro s hs
    obtain ⟨a,t,ha,ho,ht⟩ := h s hs
    have hon : (outcome a).nackcnt 1>0 ∧ (outcome a).nackcnt 1<3 := by
      rw [ho]
      decide
    rw [Returns,retry_on ha hon,ho]
    exact ih t ht

theorem never_returns {β : Type} {port : EepromPort σ} {fuel : Nat} {configadr : UInt16}
    {attempt : Program SiiHalt σ α} {outcome : α → Outcome} (gone : σ → Prop)
    {loop : Program SiiHalt σ β} {f : α → Program SiiHalt σ β} {failed : β} {rounds : Nat} {s t : σ}
    {a : α} (henters : EntersLoop port fuel configadr s s)
    (hloop : loop=retry attempt outcome rounds 0 >>= f) (ha : attempt s=.ok (a,t))
    (ho : outcome a=.refused) (ht : gone t)
    (h : ∀ s,gone s → ∃ a t,attempt s=.ok (a,t) ∧ outcome a=.lost ∧ gone t) :
    ¬Returns (eepromReady port fuel configadr loop failed) s := by
  rw [Returns,eepromReady_loop henters,hloop]
  rintro ⟨r,hr⟩
  obtain ⟨b,u,hb,-⟩ := bind_ok.mp hr
  cases rounds with
  | zero => exact throw_ok hb
  | succ rounds =>
    have hon : (outcome a).nackcnt 0>0 ∧ (outcome a).nackcnt 0<3 := by
      rw [ho]
      decide
    rw [retry_on ha hon,ho] at hb
    exact retry_lost h rounds t ht ⟨_,hb⟩

theorem refusesOnce_lost (command : List UInt8) (s : Nat) (hs : 0<s) :
    (∃ t,sendCommand refusesOnce.ap 1 0 command s=.ok (⟨0,none⟩,t) ∧ 0<t) ∧
    (∃ t,sendCommand refusesOnce.fp 1 0 command s=.ok (⟨0,none⟩,t) ∧ 0<t) := by
  obtain ⟨s,rfl⟩ : ∃ n,s=n+1 := ⟨s-1,by omega⟩
  exact ⟨⟨s+5,rfl,by omega⟩,⟨s+5,rfl,by omega⟩⟩

theorem refusesOnce_write_lost (s : Nat) (hs : 0<s) :
    (∃ t,sendWrite refusesOnce.ap 1 0 0 0 s=.ok ((0,⟨0,none⟩),t) ∧ 0<t) ∧
    (∃ t,sendWrite refusesOnce.fp 1 0 0 0 s=.ok ((0,⟨0,none⟩),t) ∧ 0<t) := by
  obtain ⟨s,rfl⟩ : ∃ n,s=n+1 := ⟨s-1,by omega⟩
  exact ⟨⟨s+5,rfl,by omega⟩,⟨s+5,rfl,by omega⟩⟩

/-- However many attempts they make, the functions do not return. -/
theorem refusesOnce_never_returns :
    (∀ s,TimerRunsOut refusesOnce.ap 0 1 s) ∧ (∀ s,TimerRunsOut refusesOnce.fp 0 1 s) ∧
    ¬(∃ rounds,Returns (readeepromAP refusesOnce 1 rounds 0 0) 0) ∧
    ¬(∃ rounds,Returns (readeepromWithin refusesOnce.fp 1 rounds 0 0) 0) ∧
    ¬(∃ rounds,Returns (writeeepromAP refusesOnce 1 rounds 0 0 0) 0) ∧
    ¬(∃ rounds,Returns (writeeepromFP refusesOnce 1 rounds 0 0 0) 0) := by
  have hap : EntersLoop refusesOnce.ap 1 0 0 0 := ⟨1,0,0,rfl,rfl,rfl⟩
  have hfp : EntersLoop refusesOnce.fp 1 0 0 0 := ⟨1,0,0,rfl,rfl,rfl⟩
  refine ⟨fun _ => .inl rfl,fun _ => .inl rfl,?_,?_,?_,?_⟩
  · rintro ⟨rounds,hr⟩
    refine never_returns (fun s => 0<s) hap (readeepromLoop_eq _ _ _ _ rounds 0)
      (a := ⟨1,some (1,ecEstatNack)⟩) (t := 1) rfl rfl (by decide) (fun s hs => ?_) hr
    obtain ⟨t,hlost,ht⟩ := (refusesOnce_lost (readCommand 0) s hs).1
    exact ⟨_,t,hlost,rfl,ht⟩
  · rintro ⟨rounds,hr⟩
    refine never_returns (fun s => 0<s) hfp (readeepromLoop_eq _ _ _ _ rounds 0)
      (a := ⟨1,some (1,ecEstatNack)⟩) (t := 1) rfl rfl (by decide) (fun s hs => ?_) hr
    obtain ⟨t,hlost,ht⟩ := (refusesOnce_lost (readCommand 0) s hs).2
    exact ⟨_,t,hlost,rfl,ht⟩
  · rintro ⟨rounds,hr⟩
    refine never_returns (fun s => 0<s) hap (writeeepromLoop_eq _ _ _ _ _ rounds 0)
      (a := (1,⟨1,some (1,ecEstatNack)⟩)) (t := 1) rfl rfl (by decide) (fun s hs => ?_) hr
    obtain ⟨t,hlost,ht⟩ := (refusesOnce_write_lost s hs).1
    exact ⟨_,t,hlost,rfl,ht⟩
  · rintro ⟨rounds,hr⟩
    refine never_returns (fun s => 0<s) hfp (writeeepromLoop_eq _ _ _ _ _ rounds 0)
      (a := (1,⟨1,some (1,ecEstatNack)⟩)) (t := 1) rfl rfl (by decide) (fun s hs => ?_) hr
    obtain ⟨t,hlost,ht⟩ := (refusesOnce_write_lost s hs).2
    exact ⟨_,t,hlost,rfl,ht⟩

end EtherCATMaster.Sii
