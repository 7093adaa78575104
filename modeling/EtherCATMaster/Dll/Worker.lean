import EtherCATMaster.Dll.Transfers
import EtherCATMaster.Framework.Run
import Mathlib.Logic.Function.Basic

namespace EtherCATMaster.Dll

open Framework

/-- Where a thread is in `worker_proc`. It is `closing` up to the statement that clears `opened`,
`leaving` up to the one that clears `worker_running`, and `cleared` until it returns. -/
inductive Phase where
  | created
  | setup
  | looping
  | closing
  | leaving
  | cleared
  | finished
  deriving DecidableEq

/-- Where the caller is in `ECAT_Open` and `ECAT_Close`. -/
inductive Client where
  | idle
  | checked
  | unhandled
  | armed
  | creating
  | signalled
  | waiting (worker : Nat)
  | expired
  | released
  deriving DecidableEq

/-- The flags of the DLL, its handle, and the threads that have been created. -/
structure Workers where
  running : Bool
  stop : Bool
  opened : Bool
  handle : Option Nat
  created : Nat
  phase : Nat → Phase
  client : Client
  returned : List Int

/-- A call, the next step of the call under way, or the next step of a thread. `ok` is the outcome
of what the step waits for. -/
inductive Turn where
  | openCall (adapter : Bool)
  | closeCall
  | client (ok : Bool)
  | worker (i : Nat) (ok : Bool)
  deriving DecidableEq

namespace Workers

def start : Workers := ⟨false,false,false,none,0,fun _ => .finished,.idle,[]⟩

def answer (w : Workers) (code : Int) : Workers :=
  { w with client := .idle, returned := w.returned ++ [code] }

/-- `ECAT_Open` up to its check of `worker_running`. -/
def openCall (w : Workers) (adapter : Bool) : Workers :=
  if ¬adapter then w.answer ecatInvalidArgument
  else if w.running then w.answer ecatBusy
  else { w with client := .checked }

/-- The steps of a call, one for each access to what the threads share. -/
def clientStep (w : Workers) (ok : Bool) : Workers :=
  match w.client with
  | .idle => w
  | .checked => { w with handle := none, client := .unhandled }
  | .unhandled => { w with stop := false, client := .armed }
  | .armed => { w with opened := true, client := .creating }
  | .creating =>
      if ok then
        { w with
          handle := some w.created
          created := w.created+1
          phase := Function.update w.phase w.created .created }.answer ecatOk
      else { w with opened := false }.answer ecatError
  | .signalled =>
      match w.handle with
      | none => w.answer ecatOk
      | some i => { w with client := .waiting i }
  | .waiting i =>
      if w.phase i=.finished then { w with handle := none }.answer ecatOk
      else if ok then w
      else { w with handle := none, client := .expired }
  | .expired => { w with running := false, client := .released }
  | .released => { w with opened := false }.answer ecatTimeout

/-- The steps of a thread. A setup can fail. -/
def workerStep (w : Workers) (i : Nat) (ok : Bool) : Workers :=
  let goto (p : Phase) := Function.update w.phase i p
  match w.phase i with
  | .created => { w with running := true, phase := goto .setup }
  | .setup => { w with phase := goto (if ok then .looping else .closing) }
  | .looping => { w with phase := goto (if w.stop then .closing else .looping) }
  | .closing => { w with opened := false, phase := goto .leaving }
  | .leaving => { w with running := false, phase := goto .cleared }
  | .cleared => { w with phase := goto .finished }
  | .finished => w

def step (w : Workers) : Turn → Workers
  | .openCall adapter => if w.client=.idle then w.openCall adapter else w
  | .closeCall => if w.client=.idle then { w with stop := true, client := .signalled } else w
  | .client ok => w.clientStep ok
  | .worker i ok => if i<w.created then w.workerStep i ok else w

def Unfinished (w : Workers) (i : Nat) : Prop := i<w.created ∧ w.phase i≠.finished

instance (w : Workers) (i : Nat) : Decidable (w.Unfinished i) := inferInstanceAs (Decidable (_ ∧ _))

def AtMostOne (w : Workers) : Prop := ∀ i j,w.Unfinished i → w.Unfinished j → i=j

/-- `worker_running` tells that the thread is there: it has set the flag and not cleared it, and
no call has cleared it after a wait that timed out. -/
def Shown (w : Workers) (i : Nat) : Prop :=
  w.phase i≠.created ∧ w.phase i≠.cleared ∧ w.running

instance (w : Workers) (i : Nat) : Decidable (w.Shown i) := inferInstanceAs (Decidable (_ ∧ _))

/-- `ECAT_Open` is only called when each thread that has not returned is shown. -/
def Watched (w : Workers) : Turn → Prop
  | .openCall _ => w.client=.idle → ∀ i,i<w.created → w.Unfinished i → w.Shown i
  | _ => True

instance (w : Workers) (t : Turn) : Decidable (w.Watched t) := by
  cases t
  · exact inferInstanceAs (Decidable (_ → _))
  · exact isTrue trivial
  · exact isTrue trivial
  · exact isTrue trivial

/-- A call of `ECAT_Open` that has passed its check. -/
def Opening (w : Workers) : Prop :=
  w.client=.checked ∨ w.client=.unhandled ∨ w.client=.armed ∨ w.client=.creating

/-- At most one thread, and none while one is being opened. -/
structure Guarded (w : Workers) : Prop where
  one : w.AtMostOne
  opening : w.Opening → ∀ i,¬w.Unfinished i

variable {w w' : Workers}

theorem Guarded.shrink (h : w.Guarded) (hless : ∀ i,w'.Unfinished i → w.Unfinished i)
    (hopening : w'.Opening → w.Opening) : w'.Guarded := by
  constructor
  · intro i j hi hj
    exact h.one i j (hless i hi) (hless j hj)
  · intro ho i hi
    exact h.opening (hopening ho) i (hless i hi)

theorem not_opening_of {w : Workers} (h : w.client=.idle) : ¬w.Opening := by
  intro ho
  rw [Opening,h] at ho
  revert ho
  decide

theorem workerStep_created (i : Nat) (ok : Bool) : (w.workerStep i ok).created=w.created := by
  unfold workerStep
  cases w.phase i <;> rfl

theorem workerStep_client (i : Nat) (ok : Bool) : (w.workerStep i ok).client=w.client := by
  unfold workerStep
  cases w.phase i <;> rfl

theorem workerStep_unfinished {i j : Nat} {ok : Bool} (h : (w.workerStep i ok).Unfinished j) :
    w.Unfinished j := by
  obtain ⟨hlt,hphase⟩ := h
  rw [workerStep_created] at hlt
  refine ⟨hlt,?_⟩
  intro hfinished
  apply hphase
  by_cases hji : j=i
  · subst hji
    rw [workerStep,hfinished]
    exact hfinished
  · unfold workerStep
    cases w.phase i with
    | finished => exact hfinished
    | _ => exact (Function.update_of_ne hji _ _).trans hfinished

theorem Guarded.workerStep (h : w.Guarded) (i : Nat) (ok : Bool) :
    (w.workerStep i ok).Guarded := by
  apply h.shrink (fun _ hj => workerStep_unfinished hj)
  intro ho
  rw [Opening,workerStep_client] at ho
  exact ho

theorem Guarded.create (h : w.Guarded) (hcreating : w.client=.creating) :
    (w.clientStep true).Guarded := by
  have hnone := h.opening (.inr (.inr (.inr hcreating)))
  have hstep : w.clientStep true=
      { w with
        handle := some w.created
        created := w.created+1
        phase := Function.update w.phase w.created .created }.answer ecatOk := by
    rw [clientStep,hcreating]
    rfl
  rw [hstep]
  have hnew : ∀ i,({ w with
      handle := some w.created
      created := w.created+1
      phase := Function.update w.phase w.created .created }.answer ecatOk).Unfinished i →
      i=w.created := by
    intro i hi
    obtain ⟨hlt,hphase⟩ := hi
    by_contra hne
    change i<w.created+1 at hlt
    apply hnone i
    refine ⟨by omega,?_⟩
    intro hfinished
    exact hphase ((Function.update_of_ne hne _ _).trans hfinished)
  constructor
  · intro i j hi hj
    rw [hnew i hi,hnew j hj]
  · intro ho
    exact absurd ho (not_opening_of rfl)

theorem Guarded.keep (h : w.Guarded) (hcreated : w'.created=w.created) (hphase : w'.phase=w.phase)
    (hopening : w'.Opening → w.Opening) : w'.Guarded := by
  apply h.shrink _ hopening
  intro i hi
  rw [Unfinished,hcreated,hphase] at hi
  exact hi

theorem Guarded.clientStep (h : w.Guarded) (ok : Bool) : (w.clientStep ok).Guarded := by
  by_cases hcreate : w.client=.creating ∧ ok
  · obtain ⟨hcreating,rfl⟩ := hcreate
    exact h.create hcreating
  have hkept : (w.clientStep ok).created=w.created ∧ (w.clientStep ok).phase=w.phase ∧
      ((w.clientStep ok).Opening → w.Opening) := by
    unfold Workers.clientStep
    cases hclient : w.client with
    | idle => exact ⟨rfl,rfl,id⟩
    | checked => exact ⟨rfl,rfl,fun _ => .inl hclient⟩
    | unhandled => exact ⟨rfl,rfl,fun _ => .inr (.inl hclient)⟩
    | armed => exact ⟨rfl,rfl,fun _ => .inr (.inr (.inl hclient))⟩
    | creating =>
      have hok : ok=false := by
        by_contra hok
        exact hcreate ⟨hclient,Bool.eq_true_of_not_eq_false hok⟩
      subst hok
      exact ⟨rfl,rfl,fun _ => .inr (.inr (.inr hclient))⟩
    | signalled =>
      cases w.handle with
      | none => exact ⟨rfl,rfl,fun ho => absurd ho (not_opening_of rfl)⟩
      | some i => exact ⟨rfl,rfl,fun ho => by rw [Opening] at ho; revert ho; nofun⟩
    | waiting i =>
      by_cases hfinished : w.phase i=.finished
      · simp only [if_pos hfinished]
        exact ⟨rfl,rfl,fun ho => absurd ho (not_opening_of rfl)⟩
      · simp only [if_neg hfinished]
        cases ok with
        | true => exact ⟨rfl,rfl,id⟩
        | false => exact ⟨rfl,rfl,fun ho => by rw [Opening] at ho; revert ho; nofun⟩
    | expired => exact ⟨rfl,rfl,fun ho => by rw [Opening] at ho; revert ho; nofun⟩
    | released => exact ⟨rfl,rfl,fun ho => absurd ho (not_opening_of rfl)⟩
  exact h.keep hkept.1 hkept.2.1 hkept.2.2

theorem Guarded.openCall (h : w.Guarded) (adapter : Bool)
    (hshown : ∀ i,i<w.created → w.Unfinished i → w.Shown i) : (w.openCall adapter).Guarded := by
  unfold Workers.openCall
  by_cases hadapter : ¬adapter
  · rw [if_pos hadapter]
    exact h.keep rfl rfl (fun ho => absurd ho (not_opening_of rfl))
  rw [if_neg hadapter]
  by_cases hrunning : w.running
  · rw [if_pos hrunning]
    exact h.keep rfl rfl (fun ho => absurd ho (not_opening_of rfl))
  · rw [if_neg hrunning]
    constructor
    · exact h.one
    · intro _ i hi
      exact hrunning (hshown i hi.1 hi).2.2

theorem Guarded.step (h : w.Guarded) {t : Turn} (hwatched : w.Watched t) :
    (w.step t).Guarded := by
  cases t with
  | openCall adapter =>
    by_cases hidle : w.client=.idle
    · rw [Workers.step,if_pos hidle]
      exact h.openCall adapter (hwatched hidle)
    · rw [Workers.step,if_neg hidle]
      exact h
  | closeCall =>
    by_cases hidle : w.client=.idle
    · rw [Workers.step,if_pos hidle]
      exact h.keep rfl rfl (fun ho => by rw [Opening] at ho; revert ho; nofun)
    · rw [Workers.step,if_neg hidle]
      exact h
  | client ok => exact h.clientStep ok
  | worker i ok =>
    by_cases hi : i<w.created
    · rw [Workers.step,if_pos hi]
      exact h.workerStep i ok
    · rw [Workers.step,if_neg hi]
      exact h

theorem start_guarded : start.Guarded :=
  ⟨fun _ _ hi => absurd hi.1 (Nat.not_lt_zero _),fun _ _ hi => absurd hi.1 (Nat.not_lt_zero _)⟩

/-- There is at most one thread in every state of a run in which `ECAT_Open` is only called when
`worker_running` tells of each thread that has not returned. -/
theorem at_most_one_worker (turns : List Turn) (h : Along step Watched start turns) :
    (runFrom step start turns).AtMostOne :=
  (invariant_runFrom (C := Watched) (I := Guarded) (fun _ _ hw ht => hw.step ht)
    start_guarded h).one

/-- A call of `ECAT_Open` up to the created thread. -/
def opens : List Turn := .openCall true :: List.replicate 4 (.client true)

theorem opened_closed_opened :
    (runFrom step start (opens ++ List.replicate 3 (.worker 0 true) ++ [.closeCall,.client true] ++
      List.replicate 4 (.worker 0 true) ++ [.client true] ++ opens)).AtMostOne :=
  at_most_one_worker _ (by decide +kernel)

/-- A second call before the thread of the first one has run creates a second thread. -/
theorem two_workers_opened : ¬∀ turns : List Turn,(runFrom step start turns).AtMostOne := by
  intro hall
  have hone := hall (opens ++ opens) 0 1
  revert hone
  decide +kernel

end Workers

end EtherCATMaster.Dll
