import EtherCATMaster.Framework.Triples

namespace EtherCATMaster.Framework

/-- A computation that asks for entries of a table. -/
inductive Query (Q A α : Type) where
  | answer (a : α)
  | ask (q : Q) (k : A → Query Q A α)

variable {Q A H S α β : Type}

namespace Query

def bind : Query Q A α → (α → Query Q A β) → Query Q A β
  | answer a,f => f a
  | ask q k,f => ask q fun r => (k r).bind f

instance : Monad (Query Q A) where
  pure := answer
  bind := bind

/-- The entry itself. -/
def entry (q : Q) : Query Q A A := ask q answer

def eval (table : Q → A) : Query Q A α → α
  | answer a => a
  | ask q k => (k (table q)).eval table

/-- The questions are put to a program, one after the other. -/
def run (call : Q → Program H S A) : Query Q A α → Program H S α
  | answer a => pure a
  | ask q k => do
    let r ← call q
    (k r).run call

variable (table : Q → A)

@[simp] theorem eval_pure (a : α) : (pure a : Query Q A α).eval table=a := rfl

@[simp] theorem eval_entry (q : Q) : (entry q).eval table=table q := rfl

@[simp] theorem eval_bind (x : Query Q A α) (f : α → Query Q A β) :
    (x >>= f).eval table=(f (x.eval table)).eval table := by
  induction x with
  | answer a => rfl
  | ask q k ih => exact ih (table q)

@[simp] theorem eval_ite (c : Prop) [Decidable c] (x y : Query Q A α) :
    (if c then x else y).eval table=if c then x.eval table else y.eval table := by
  split_ifs <;> rfl

def Asks (P : Q → Prop) : Query Q A α → Prop
  | answer _ => True
  | ask q k => P q ∧ ∀ r,(k r).Asks P

section Asks

variable {P : Q → Prop}

@[simp] theorem asks_entry (q : Q) : (entry q : Query Q A A).Asks P ↔ P q :=
  ⟨fun h => h.1,fun h => ⟨h,fun _ => trivial⟩⟩

theorem Asks.bind {x : Query Q A α} {f : α → Query Q A β} (hx : x.Asks P)
    (hf : ∀ a,(f a).Asks P) : (x >>= f).Asks P := by
  induction x with
  | answer a => exact hf a
  | ask q k ih => exact ⟨hx.1,fun r => ih r (hx.2 r)⟩

theorem Asks.eval_congr {table table' : Q → A} (h : ∀ q,P q → table q=table' q)
    {x : Query Q A α} (hx : x.Asks P) : x.eval table=x.eval table' := by
  induction x with
  | answer a => rfl
  | ask q k ih =>
    rw [eval,eval,h q hx.1]
    exact ih _ (hx.2 _)

end Asks

theorem run_yields {J : S → Prop} {call : Q → Program H S A} {table : Q → A}
    (hcall : ∀ q,Yields J (call q) (table q)) (x : Query Q A α) :
    Yields J (x.run call) (x.eval table) := by
  induction x with
  | answer a => exact Yields.pure a
  | ask q k ih => exact (hcall q).bind (ih (table q))

end Query

end EtherCATMaster.Framework
