import EtherCATMaster.Framework.Program

namespace EtherCATMaster.Framework

variable {S H α β : Type}

/-- A call takes states with `P` to states with `Q`. -/
def Leads (P : S → Prop) (s : S) (Q : S → Prop) (s' : S) : Prop := P s → Q s'

theorem leads_ledger : Ledger (Leads (S := S)) where
  refl _ _ := id
  trans _ _ _ _ _ _ h h' := h' ∘ h

/-- A call keeps `J`. -/
abbrev Keeps (J : S → Prop) (x : Program H S α) : Prop := Accounts Leads J x fun _ => J

variable {J P Q : S → Prop} {x : Program H S α} {f : α → Program H S β}

theorem keeps_pure (a : α) : Keeps J (pure a : Program H S α) := leads_ledger.pure a rfl

theorem keeps_throw (e : H) : Keeps J (throw e : Program H S α) := by
  intro s a s' h
  exact absurd h throw_ok

theorem Keeps.bind (hx : Keeps J x) (hf : ∀ a,Keeps J (f a)) : Keeps J (x >>= f) :=
  leads_ledger.bind hx hf

theorem leads_bind {R : β → S → Prop} (hx : Accounts Leads P x fun _ => Q)
    (hf : ∀ a,Accounts Leads Q (f a) R) : Accounts Leads P (x >>= f) R :=
  leads_ledger.bind hx hf

/-- From every state with `J` the program returns this value, and keeps `J`. -/
def Yields (J : S → Prop) (x : Program H S α) (a : α) : Prop :=
  ∀ s,J s → ∃ s',x s=.ok (a,s') ∧ J s'

theorem Yields.pure (a : α) : Yields J (Pure.pure a : Program H S α) a :=
  fun s hs => ⟨s,rfl,hs⟩

theorem Yields.bind {a : α} {b : β} (hx : Yields J x a) (hf : Yields J (f a) b) :
    Yields J (x >>= f) b := by
  intro s hs
  obtain ⟨t,hrun,ht⟩ := hx s hs
  obtain ⟨u,hrest,hu⟩ := hf t ht
  exact ⟨u,(run_bind hrun).trans hrest,hu⟩

/-- From every state with `J` the program returns some value, and keeps `J`. -/
def Returns (J : S → Prop) (x : Program H S α) : Prop :=
  ∀ s,J s → ∃ a s',x s=.ok (a,s') ∧ J s'

theorem Returns.bind {b : β} (hx : Returns J x) (hf : ∀ a,Yields J (f a) b) :
    Yields J (x >>= f) b := by
  intro s hs
  obtain ⟨a,t,hrun,ht⟩ := hx s hs
  obtain ⟨u,hrest,hu⟩ := hf a t ht
  exact ⟨u,(run_bind hrun).trans hrest,hu⟩

/-- A loop over the slots from 1 to `n`, with what it has gathered so far. -/
def forSlots (visit : Nat → α → Program H S α) : Nat → α → Program H S α
  | 0,a => pure a
  | n+1,a => do
    let a ← forSlots visit n a
    visit (n+1) a

theorem forSlots_run {I : Nat → α → S → Prop} (visit : Nat → α → Program H S α) (n : Nat)
    (hvisit : ∀ i a s,i<n → I i a s → ∃ a' s',visit (i+1) a s=.ok (a',s') ∧ I (i+1) a' s')
    {a : α} {s : S} (h : I 0 a s) : ∃ a' s',forSlots visit n a s=.ok (a',s') ∧ I n a' s' := by
  have hloop : ∀ m,m ≤ n → ∃ a' s',forSlots visit m a s=.ok (a',s') ∧ I m a' s' := by
    intro m
    induction m with
    | zero => exact fun _ => ⟨a,s,rfl,h⟩
    | succ m ih =>
      intro hm
      obtain ⟨a1,s1,hrun,h1⟩ := ih (by omega)
      obtain ⟨a2,s2,hstep,h2⟩ := hvisit m a1 s1 (by omega) h1
      exact ⟨a2,s2,(run_bind hrun).trans hstep,h2⟩
  exact hloop n (Nat.le_refl n)

end EtherCATMaster.Framework
