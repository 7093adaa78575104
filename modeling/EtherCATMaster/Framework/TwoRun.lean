import EtherCATMaster.Framework.Run

namespace EtherCATMaster.Framework

variable {S E : Type*}

/-- An event of two runs compared: shared by both, or added to the second one only. -/
inductive Paired (E : Type*) where
  | both (e : E)
  | added (e : E)
  deriving DecidableEq, Repr

/-- The run without the added events. -/
def Paired.plain : List (Paired E) → List E
  | [] => []
  | .both e::es => e::Paired.plain es
  | .added _::es => Paired.plain es

/-- The run with the added events. -/
def Paired.full : List (Paired E) → List E
  | [] => []
  | .both e::es => e::Paired.full es
  | .added e::es => e::Paired.full es

def pairedStep (step : S → E → S) (p : S × S) : Paired E → S × S
  | .both e => (step p.1 e,step p.2 e)
  | .added e => (p.1,step p.2 e)

/-- What an observer notes along a run. -/
def observations {O : Type*} (step : S → E → S) (note : S → E → List O) : S → List E → List O
  | _,[] => []
  | s,e::es => note s e++observations step note (step s e) es

/-- The rule for two runs: a relation that every step keeps, under which shared events are noted
alike and added events not at all, makes the two runs look the same. -/
theorem observations_eq_of_relation {O : Type*} {step : S → E → S} {note : S → E → List O}
    {C : S × S → Paired E → Prop} {I : S × S → Prop}
    (hboth : ∀ p e,I p → C p (.both e) →
      I (pairedStep step p (.both e)) ∧ note p.1 e=note p.2 e)
    (hadded : ∀ p e,I p → C p (.added e) →
      I (pairedStep step p (.added e)) ∧ note p.2 e=[])
    {p : S × S} {es : List (Paired E)} (hp : I p) (hc : Along (pairedStep step) C p es) :
    observations step note p.1 (Paired.plain es)=observations step note p.2 (Paired.full es) := by
  induction es generalizing p with
  | nil => rfl
  | cons e es ih =>
    cases e with
    | both e =>
      obtain ⟨hi,hn⟩ := hboth p e hp hc.1
      simp only [Paired.plain,Paired.full,observations]
      rw [hn]
      exact congrArg (note p.2 e++·) (ih hi hc.2)
    | added e =>
      obtain ⟨hi,hn⟩ := hadded p e hp hc.1
      simp only [Paired.plain,Paired.full,observations]
      rw [hn,List.nil_append]
      exact ih hi hc.2

end EtherCATMaster.Framework
