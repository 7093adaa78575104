import EtherCATMaster.Backend.CycleSpec

namespace EtherCATMaster.Backend

open EtherCATMaster.Motion EtherCATMaster.Framework
open scoped EtherCATMaster.Math

variable {R : Type} [Field R]

theorem Request.apply_generation (r : Request) (command : BackendCommand R) :
    (r.apply command).generation=
      if r.advances then command.generation+1 else command.generation := by
  cases r <;> rfl

def replacesCommand (s : Sys R) (e : Event) : Bool := (requestOf s e).any Request.advances

/-- Counts of accepted requests: since the last cycle, and in the whole run. -/
structure Tally where
  started : Bool
  pending : Nat
  accepted : Nat
  deriving DecidableEq, Repr

def Tally.zero : Tally := ⟨false,0,0⟩

def Tally.observe (t : Tally) (s : Sys R) : Event → Tally
  | .cycle _ => ⟨true,0,t.accepted⟩
  | e => if replacesCommand s e then ⟨t.started,t.pending+1,t.accepted+1⟩ else t

/-- The generation has run ahead of the one the thread has seen by the requests pending. The
thread starts with the largest number as seen, one behind the first generation. -/
structure Synced (s : Sys R) (t : Tally) : Prop where
  generation : s.rt.command.generation=
    s.th.commandGenerationSeen+UInt32.ofNat (t.pending+if t.started then 0 else 1)
  boot : t.started=false → s.th.control=(rtThreadInit 0).control

/-- The cycle works on a command that the thread has not seen. -/
def Fresh (s : Sys R) (t : Tally) (inp : CycleInput) : Prop :=
  t.started=false ∨ t.pending≠0 ∨ SafetyStopFires s.rt inp.loopTimeNs

instance (s : Sys R) (t : Tally) (inp : CycleInput) : Decidable (Fresh s t inp) :=
  inferInstanceAs (Decidable (_ ∨ _))

section

omit [Field R]

theorem not_fresh {s : Sys R} {t : Tally} {inp : CycleInput} (h : ¬Fresh s t inp) :
    t.started=true ∧ t.pending=0 ∧ ¬SafetyStopFires s.rt inp.loopTimeNs := by
  unfold Fresh at h
  push Not at h
  exact ⟨by simpa using h.1,h.2.1,h.2.2⟩

end

theorem synced_init (options : BackendOptions) (start : ClockNs) :
    Synced (sysInit options start : Sys R) Tally.zero :=
  ⟨show (0 : UInt32)=0xffffffff+UInt32.ofNat 1 by decide,fun _ => rfl⟩

theorem observed_generation (s : Sys R) (inp : CycleInput) :
    (observed s inp).commandGenerationSeen=(commandInForce s inp).generation := by
  have h := congrArg Control.generationSeen (observed_control s inp)
  change (observed s inp).commandGenerationSeen=_ at h
  rw [h]
  split_ifs with hg
  · rfl
  · exact (not_not.mp hg).symm

theorem commandInForce_generation (s : Sys R) (t : Tally) (inp : CycleInput) (hs : Synced s t) :
    (commandInForce s inp).generation=
      s.th.commandGenerationSeen+UInt32.ofNat ((t.pending+if t.started then 0 else 1)+
        if SafetyStopFires s.rt inp.loopTimeNs then 1 else 0) := by
  by_cases hf : SafetyStopFires s.rt inp.loopTimeNs
  · rw [(commandInForce_of_fires s inp hf).1,if_pos hf,UInt32.ofNat_add,← UInt32.add_assoc,
      ← hs.generation]
    rfl
  · rw [(commandInForce_of_not_fires s inp hf).1,if_neg hf,Nat.add_zero]
    exact hs.generation

variable [LinearOrder R]

theorem add_ofNat_eq_self (seen : UInt32) (n : Nat) (hn : n<2^32) :
    seen+UInt32.ofNat n=seen ↔ n=0 := by
  constructor
  · intro h
    have hv := congrArg UInt32.toNat h
    simp only [UInt32.toNat_add,UInt32.toNat_ofNat'] at hv
    have hs := seen.toNat_lt
    omega
  · intro h
    subst h
    simp

section

omit [LinearOrder R]

/-- As long as fewer than 2^32-1 requests come between two cycles, the generation test detects
every new command. The one collision left, a safe stop in the first cycle after 2^32-2 requests,
finds the thread as the restart would leave it. -/
theorem observed_of_synced (s : Sys R) (t : Tally) (inp : CycleInput) (hs : Synced s t)
    (hb : t.pending<2^32-1) :
    (observed s inp).control=
      if Fresh s t inp then s.th.control.restart (commandInForce s inp) else s.th.control := by
  have hg := commandInForce_generation s t inp hs
  rw [observed_control]
  by_cases hfresh : Fresh s t inp
  · rw [if_pos hfresh]
    split_ifs with hne
    · rfl
    -- The generations agree although the command is new: only the collision remains.
    have heq := hg.symm.trans (not_not.mp hne)
    by_cases hf : SafetyStopFires s.rt inp.loopTimeNs
    · rw [if_pos hf] at heq
      cases hst : t.started with
      | true =>
        rw [hst] at heq
        have := (add_ofNat_eq_self _ _ (by simp; omega)).mp heq
        omega
      | false =>
        rw [hs.boot hst,(commandInForce_of_fires s inp hf).1]
        have hseen : s.th.commandGenerationSeen=(rtThreadInit 0 : RtThread R).commandGenerationSeen :=
          congrArg Control.generationSeen (hs.boot hst)
        have hcmd : s.rt.command.halted.generation=s.th.commandGenerationSeen := by
          rw [← (commandInForce_of_fires s inp hf).1]
          exact not_not.mp hne
        unfold Control.restart
        rw [hcmd,hseen]
        rfl
    · rw [if_neg hf] at heq
      have hz := (add_ofNat_eq_self _ _ (by split_ifs <;> omega)).mp heq
      rcases hfresh with h|h|h
      · rw [h] at hz
        simp at hz
      · omega
      · exact absurd h hf
  · rw [if_neg hfresh]
    obtain ⟨h1,h2,h3⟩ := not_fresh hfresh
    rw [h1,h2,if_neg h3] at hg
    rw [if_neg (not_not.mpr (hg.trans (by simp)))]

theorem observed_done_of_synced (s : Sys R) (t : Tally) (inp : CycleInput) (hs : Synced s t)
    (hb : t.pending<2^32-1) :
    (observed s inp).sequenceDone=
      if Fresh s t inp then decide ((commandInForce s inp).sequence=.none)
      else s.th.sequenceDone := by
  have h := congrArg Control.sequenceDone (observed_of_synced s t inp hs hb)
  change (observed s inp).sequenceDone=_ at h
  rw [h]
  split_ifs <;> rfl

theorem observed_failed_of_synced (s : Sys R) (t : Tally) (inp : CycleInput) (hs : Synced s t)
    (hb : t.pending<2^32-1) :
    (observed s inp).sequenceFailed=(!decide (Fresh s t inp) && s.th.sequenceFailed) := by
  have h := congrArg Control.sequenceFailed (observed_of_synced s t inp hs hb)
  change (observed s inp).sequenceFailed=_ at h
  rw [h]
  by_cases hf : Fresh s t inp
  · rw [if_pos hf,decide_eq_true hf]
    rfl
  · rw [if_neg hf,decide_eq_false hf]
    rfl

end

variable [FloorRing R] [HasSqrt R]

theorem step_cycle_seen (s : Sys R) (inp : CycleInput) :
    (step s (.cycle inp)).th.commandGenerationSeen=
      (step s (.cycle inp)).rt.command.generation := by
  rw [(step_cycle_latch s inp).2.2.1,(step_cycle_runtime s inp).1,observed_generation]

/-- The invariant rule for the two threads with an observer: the client thread keeps the
invariant, and a cycle keeps it and obeys the law. -/
theorem along_of_threads {G : Type} {observe : G → Sys R → Event → G}
    {C P : Sys R × G → Event → Prop} {I : Sys R × G → Prop}
    (hclient : ∀ p e,(∀ inp,e≠.cycle inp) → I p → C p e → I (watched step observe p e))
    (hcycle : ∀ p inp,I p → C p (.cycle inp) →
      I (watched step observe p (.cycle inp)) ∧ P p (.cycle inp))
    (hreceive : ∀ p now message,P p (.receive now message)) (hdispatch : ∀ p,P p .dispatch)
    {p : Sys R × G} {es : List Event} (hp : I p) (hc : Along (watched step observe) C p es) :
    Along (watched step observe) P p es := by
  refine along_of_invariant ?_ ?_ hp hc
  · intro p e hi hcond
    cases e with
    | receive now message => exact hclient p _ (fun _ h => by cases h) hi hcond
    | dispatch => exact hclient p _ (fun _ h => by cases h) hi hcond
    | cycle inp => exact (hcycle p inp hi hcond).1
  · intro p e hi hcond
    cases e with
    | receive now message => exact hreceive p now message
    | dispatch => exact hdispatch p
    | cycle inp => exact (hcycle p inp hi hcond).2

/-- Steps of the client thread leave the RT thread alone and change the command by the request
they hand over. -/
theorem step_client (s : Sys R) (e : Event) (h : ∀ inp,e≠.cycle inp) :
    (step s e).th=s.th ∧
    (step s e).rt.command=(requestOf s e).elim s.rt.command (fun r => r.apply s.rt.command) := by
  cases e with
  | receive now message =>
    cases hp : s.client <;> simp only [step,hp] <;> exact ⟨trivial,rfl⟩
  | dispatch =>
    cases hp : s.client with
    | waiting =>
      simp only [step,hp,requestOf]
      exact ⟨trivial,rfl⟩
    | received message =>
      simp only [step,hp,requestOf]
      exact ⟨trivial,handleMessage_command s.rt message⟩
  | cycle inp => exact absurd rfl (h inp)

theorem step_client_generation (s : Sys R) (e : Event) (h : ∀ inp,e≠.cycle inp) :
    (step s e).rt.command.generation=
      if replacesCommand s e then s.rt.command.generation+1 else s.rt.command.generation := by
  rw [(step_client s e h).2]
  unfold replacesCommand
  cases requestOf s e with
  | none => rfl
  | some r => exact r.apply_generation s.rt.command

section

omit [Field R] [LinearOrder R] [FloorRing R] [HasSqrt R]

theorem tally_client (s : Sys R) (t : Tally) (e : Event) (h : ∀ inp,e≠.cycle inp) :
    t.observe s e=
      if replacesCommand s e then ⟨t.started,t.pending+1,t.accepted+1⟩ else t := by
  cases e with
  | receive now message => rfl
  | dispatch => rfl
  | cycle inp => exact absurd rfl (h inp)

theorem replacesCommand_some (s : Sys R) (e : Event) (r : Request) (h : requestOf s e=some r) :
    replacesCommand s e=r.advances := by
  unfold replacesCommand
  rw [h]
  rfl

theorem replacesCommand_none (s : Sys R) (e : Event) (h : requestOf s e=none) :
    replacesCommand s e=false := by
  unfold replacesCommand
  rw [h]
  rfl

end

theorem step_client_kept (s : Sys R) (e : Event) (h : ∀ inp,e≠.cycle inp)
    (hk : replacesCommand s e=false) :
    (step s e).rt.command={ s.rt.command with
      resetGeneration := (step s e).rt.command.resetGeneration } := by
  have hcmd := (step_client s e h).2
  rw [hcmd]
  unfold replacesCommand at hk
  cases hr : requestOf s e with
  | none => rfl
  | some r =>
    rw [hr] at hk
    cases r with
    | keep => rfl
    | resetStatistics => rfl
    | _ => cases hk

theorem synced_client (s : Sys R) (t : Tally) (e : Event) (h : ∀ inp,e≠.cycle inp)
    (hs : Synced s t) : Synced (step s e) (t.observe s e) := by
  have hth := (step_client s e h).1
  have hg := step_client_generation s e h
  rw [tally_client s t e h]
  cases hr : replacesCommand s e with
  | false =>
    rw [hr] at hg
    refine ⟨?_,fun hst => by rw [hth]; exact hs.boot hst⟩
    rw [hg,hth]
    exact hs.generation
  | true =>
    rw [hr] at hg
    refine ⟨?_,fun hst => by rw [hth]; exact hs.boot hst⟩
    rw [hg,hth]
    simp only [if_true]
    rw [hs.generation,Nat.add_right_comm,UInt32.ofNat_add _ 1,← UInt32.add_assoc]
    rfl

theorem synced_step (s : Sys R) (t : Tally) (e : Event) (hs : Synced s t) :
    Synced (step s e) (t.observe s e) := by
  cases e with
  | receive now message => exact synced_client s t _ (fun _ h => by cases h) hs
  | dispatch => exact synced_client s t _ (fun _ h => by cases h) hs
  | cycle inp =>
    refine ⟨?_,fun h => by simp [Tally.observe] at h⟩
    rw [step_cycle_seen s inp]
    simp [Tally.observe]

section

omit [Field R] [LinearOrder R] [FloorRing R] [HasSqrt R]

theorem tally_accepted_mono (s : Sys R) (t : Tally) (e : Event) :
    t.accepted ≤ (t.observe s e).accepted := by
  cases e with
  | cycle inp => exact Nat.le_refl _
  | receive now message => exact Nat.le_refl _
  | dispatch =>
    simp only [Tally.observe]
    split_ifs
    · exact Nat.le_succ _
    · exact Nat.le_refl _

theorem tally_pending_le (s : Sys R) (t : Tally) (e : Event) (h : t.pending ≤ t.accepted) :
    (t.observe s e).pending ≤ (t.observe s e).accepted := by
  cases e with
  | cycle inp => exact Nat.zero_le _
  | receive now message => exact h
  | dispatch =>
    simp only [Tally.observe]
    split_ifs
    · exact Nat.succ_le_succ h
    · exact h

end

/-- Whatever else an observer with a tally sees: the requests of the whole run bound those
between any two of its cycles. -/
theorem along_pending {G : Type} {observe : G → Sys R → Event → G} {tally : G → Tally}
    (htally : ∀ g s e,tally (observe g s e)=(tally g).observe s e) {p : Sys R × G}
    {es : List Event} {bound : Nat} (hp : (tally p.2).pending ≤ (tally p.2).accepted)
    (h : (tally (runFrom (watched step observe) p es).2).accepted<bound) :
    Along (watched step observe) (fun p _ => (tally p.2).pending<bound) p es := by
  have hmono : ∀ (q : Sys R × G) (e : Event),
      (tally q.2).accepted ≤ (tally (watched step observe q e).2).accepted := by
    intro q e
    change _ ≤ (tally (observe q.2 q.1 e)).accepted
    rw [htally]
    exact tally_accepted_mono q.1 (tally q.2) e
  refine along_of_invariant (I := fun q : Sys R × G => (tally q.2).pending ≤ (tally q.2).accepted)
    ?_ ?_ hp (along_of_final hmono h)
  · intro q e hq _
    change (tally (observe q.2 q.1 e)).pending ≤ (tally (observe q.2 q.1 e)).accepted
    rw [htally]
    exact tally_pending_le q.1 (tally q.2) e hq
  · exact fun q _ hq hb => Nat.lt_of_le_of_lt hq hb

end EtherCATMaster.Backend
