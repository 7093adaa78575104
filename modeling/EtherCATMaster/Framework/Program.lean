import Mathlib.Logic.Basic
import Mathlib.Tactic.SplitIfs

namespace EtherCATMaster.Framework

/-- A program over a state. It returns a value, or halts on the way. -/
abbrev Program (H S : Type) := StateT S (Except H)

variable {H S O α β : Type}

theorem bind_ok {x : Program H S α} {f : α → Program H S β} {s : S} {r : β × S} :
    (x >>= f) s=.ok r ↔ ∃ a t,x s=.ok (a,t) ∧ f a t=.ok r := by
  change (x s >>= fun p => f p.1 p.2)=.ok r ↔ _
  cases hx : x s with
  | error e =>
    constructor
    · intro h
      cases h
    · intro h
      obtain ⟨a,t,hx',-⟩ := h
      cases hx'
  | ok p =>
    constructor
    · intro h
      exact ⟨p.1,p.2,rfl,h⟩
    · intro h
      obtain ⟨a,t,hx',hf⟩ := h
      cases hx'
      exact hf

theorem run_bind {x : Program H S α} {f : α → Program H S β} {s t : S} {a : α}
    (h : x s=.ok (a,t)) : (x >>= f) s=f a t := by
  change (x s >>= fun p => f p.1 p.2)=_
  rw [h]
  rfl

theorem run_bind_error {x : Program H S α} {f : α → Program H S β} {s : S} {e : H}
    (h : x s=.error e) : (x >>= f) s=.error e := by
  change (x s >>= fun p => f p.1 p.2)=_
  rw [h]
  rfl

theorem run_bind_congr {x y : Program H S α} {f : α → Program H S β} {s t : S}
    (h : x s=y t) : (x >>= f) s=(y >>= f) t := by
  change (x s >>= fun p => f p.1 p.2)=(y t >>= fun p => f p.1 p.2)
  rw [h]

theorem pure_ok {a : α} {s : S} {r : α × S} :
    (pure a : Program H S α) s=.ok r ↔ r=(a,s) := by
  constructor
  · intro h
    cases h
    rfl
  · intro h
    rw [h]
    rfl

theorem throw_ok {e : H} {s : S} {r : α × S} :
    ¬(throw e : Program H S α) s=.ok r := by
  intro h
  cases h

theorem returned_of_map {x : Program H S α} {s : S} {f : α × S → β} {b : β}
    (h : (x s).toOption.map f=some b) : ∃ a t,x s=.ok (a,t) ∧ f (a,t)=b := by
  cases hx : x s with
  | error e =>
    rw [hx] at h
    cases h
  | ok r =>
    rw [hx] at h
    exact ⟨r.1,r.2,rfl,Option.some.inj h⟩

/-- What a program does with the things it owns: from `own` at its start to `own'` at its
return. `T` is the account that is kept of it. -/
def Accounts (T : O → S → O → S → Prop) (own : O) (x : Program H S α) (own' : α → O) : Prop :=
  ∀ s a s',x s=.ok (a,s') → T own s (own' a) s'

/-- An account that composes. -/
structure Ledger (T : O → S → O → S → Prop) : Prop where
  refl : ∀ o s,T o s o s
  trans : ∀ o s o' s' o'' s'',T o s o' s' → T o' s' o'' s'' → T o s o'' s''

variable {T : O → S → O → S → Prop} {own : O}

theorem Ledger.pure (h : Ledger T) (a : α) {own' : α → O} (heq : own' a=own) :
    Accounts (H := H) T own (Pure.pure a) own' := by
  intro s b s' hb
  cases pure_ok.mp hb
  rw [heq]
  exact h.refl own s

theorem Ledger.throw (e : H) {own' : α → O} :
    Accounts T own (MonadExcept.throw e : Program H S α) own' := by
  intro s a s' ha
  exact absurd ha throw_ok

theorem Ledger.bind_of (h : Ledger T) {x : Program H S α} {f : α → Program H S β} {mid : α → O}
    {own' : β → O} (hx : Accounts T own x mid)
    (hf : ∀ a,(∃ s s',x s=.ok (a,s')) → Accounts T (mid a) (f a) own') :
    Accounts T own (x >>= f) own' := by
  intro s b s'' hb
  obtain ⟨a,s',ha,hb⟩ := bind_ok.mp hb
  exact h.trans _ _ _ _ _ _ (hx s a s' ha) (hf a ⟨s,s',ha⟩ s' b s'' hb)

theorem Ledger.bind (h : Ledger T) {x : Program H S α} {f : α → Program H S β} {mid : α → O}
    {own' : β → O} (hx : Accounts T own x mid) (hf : ∀ a,Accounts T (mid a) (f a) own') :
    Accounts T own (x >>= f) own' :=
  h.bind_of hx (fun a _ => hf a)

theorem Accounts.ite {c : Prop} [Decidable c] {x y : Program H S α} {own' : α → O}
    (hx : c → Accounts T own x own') (hy : ¬c → Accounts T own y own') :
    Accounts T own (if c then x else y) own' := by
  split_ifs with hc
  · exact hx hc
  · exact hy hc

end EtherCATMaster.Framework
