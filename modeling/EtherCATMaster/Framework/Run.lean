import Mathlib.Logic.Basic
import Mathlib.Data.List.Basic

namespace EtherCATMaster.Framework

variable {S E G : Type*}

/-- State after a finite run, oldest event first. -/
def runFrom (step : S → E → S) (s : S) (es : List E) : S := es.foldl step s

/-- Every step of the run satisfies `P` in the state it is taken from. -/
def Along (step : S → E → S) (P : S → E → Prop) : S → List E → Prop
  | _,[] => True
  | s,e::es => P s e ∧ Along step P (step s e) es

instance Along.decidable (step : S → E → S) (P : S → E → Prop) [∀ s e,Decidable (P s e)] :
    ∀ (s : S) (es : List E),Decidable (Along step P s es)
  | _,[] => isTrue trivial
  | s,e::es =>
      haveI := Along.decidable step P (step s e) es
      inferInstanceAs (Decidable (P s e ∧ Along step P (step s e) es))

/-- Some step of the run satisfies `P` in the state it is taken from. -/
def Occurs (step : S → E → S) (P : S → E → Prop) : S → List E → Prop
  | _,[] => False
  | s,e::es => P s e ∨ Occurs step P (step s e) es

instance Occurs.decidable (step : S → E → S) (P : S → E → Prop) [∀ s e,Decidable (P s e)] :
    ∀ (s : S) (es : List E),Decidable (Occurs step P s es)
  | _,[] => isFalse id
  | s,e::es =>
      haveI := Occurs.decidable step P (step s e) es
      inferInstanceAs (Decidable (P s e ∨ Occurs step P (step s e) es))

/-- The run has a step that satisfies `Q`, and the first such step satisfies `P`. -/
def AtFirst (step : S → E → S) (Q P : S → E → Prop) : S → List E → Prop
  | _,[] => False
  | s,e::es => (Q s e ∧ P s e) ∨ (¬Q s e ∧ AtFirst step Q P (step s e) es)

instance AtFirst.decidable (step : S → E → S) (Q P : S → E → Prop) [∀ s e,Decidable (Q s e)]
    [∀ s e,Decidable (P s e)] : ∀ (s : S) (es : List E),Decidable (AtFirst step Q P s es)
  | _,[] => isFalse id
  | s,e::es =>
      haveI := AtFirst.decidable step Q P (step s e) es
      inferInstanceAs (Decidable ((Q s e ∧ P s e) ∨ (¬Q s e ∧ AtFirst step Q P (step s e) es)))

/-- A system together with an observer that reads each step before it is taken. -/
def watched (step : S → E → S) (observe : G → S → E → G) (p : S × G) (e : E) : S × G :=
  (step p.1 e,observe p.2 p.1 e)

theorem not_occurs_of_invariant {step : S → E → S} {C P : S → E → Prop} {I : S → Prop}
    (hkeep : ∀ s e,I s → C s e → I (step s e)) (hnot : ∀ s e,I s → C s e → ¬P s e)
    {s : S} {es : List E} (hs : I s) (hc : Along step C s es) : ¬Occurs step P s es := by
  induction es generalizing s with
  | nil => exact id
  | cons e es ih =>
    rintro (h|h)
    · exact hnot s e hs hc.1 h
    · exact ih (hkeep s e hs hc.1) hc.2 h

/-- The rule for a verdict that falls at the first step of a kind: before it `I` is kept and
`P` does not happen; at it `P` or `R` is decided, and without `R` there is no `P` later. -/
theorem occurs_iff_atFirst {step : S → E → S} {C Q P R : S → E → Prop} {I : S → Prop}
    (hkeep : ∀ s e,I s → C s e → ¬Q s e → I (step s e) ∧ ¬P s e)
    (hfirst : ∀ s e,I s → C s e → Q s e → (P s e ↔ R s e))
    (hlater : ∀ s e es,I s → C s e → Q s e → ¬R s e → Along step C (step s e) es →
      ¬Occurs step P (step s e) es)
    {s : S} {es : List E} (hs : I s) (hc : Along step C s es) :
    Occurs step P s es ↔ AtFirst step Q R s es := by
  induction es generalizing s with
  | nil => exact Iff.rfl
  | cons e es ih =>
    by_cases hq : Q s e
    · have hp := hfirst s e hs hc.1 hq
      constructor
      · rintro (h|h)
        · exact .inl ⟨hq,hp.mp h⟩
        · by_cases hr : R s e
          · exact .inl ⟨hq,hr⟩
          · exact absurd h (hlater s e es hs hc.1 hq hr hc.2)
      · rintro (h|h)
        · exact .inl (hp.mpr h.2)
        · exact absurd hq h.1
    · obtain ⟨hi,hn⟩ := hkeep s e hs hc.1 hq
      constructor
      · rintro (h|h)
        · exact absurd h hn
        · exact .inr ⟨hq,(ih hi hc.2).mp h⟩
      · rintro (h|h)
        · exact absurd h.1 hq
        · exact .inr ((ih hi hc.2).mpr h.2)

theorem along_of_final {step : S → E → S} {f : S → Nat} {bound : Nat}
    (hmono : ∀ s e,f s ≤ f (step s e)) {s : S} {es : List E}
    (h : f (runFrom step s es)<bound) : Along step (fun s _ => f s<bound) s es := by
  have hrise : ∀ (s : S) (es : List E),f s ≤ f (runFrom step s es) := by
    intro s es
    induction es generalizing s with
    | nil => exact Nat.le_refl _
    | cons e es ih => exact Nat.le_trans (hmono s e) (ih (step s e))
  induction es generalizing s with
  | nil => trivial
  | cons e es ih => exact ⟨Nat.lt_of_le_of_lt (hrise s (e::es)) h,ih h⟩

theorem along_true {step : S → E → S} {s : S} {es : List E} :
    Along step (fun _ _ => True) s es := by
  induction es generalizing s with
  | nil => trivial
  | cons e es ih => exact ⟨trivial,ih⟩

/-- The invariant rule under a condition on the steps: if the condition `C` keeps the
invariant and the invariant gives the law, every run whose steps all meet `C` obeys the law. -/
theorem along_of_invariant {step : S → E → S} {C P : S → E → Prop} {I : S → Prop}
    (hkeep : ∀ s e,I s → C s e → I (step s e)) (hlaw : ∀ s e,I s → C s e → P s e)
    {s : S} {es : List E} (hs : I s) (hc : Along step C s es) : Along step P s es := by
  induction es generalizing s with
  | nil => trivial
  | cons e es ih => exact ⟨hlaw s e hs hc.1,ih (hkeep s e hs hc.1) hc.2⟩

theorem along_iff_of_invariant {step : S → E → S} {C P Q : S → E → Prop} {I : S → Prop}
    (hkeep : ∀ s e,I s → C s e → I (step s e)) (hsame : ∀ s e,I s → C s e → (P s e ↔ Q s e))
    {s : S} {es : List E} (hs : I s) (hc : Along step C s es) :
    Along step P s es ↔ Along step Q s es := by
  induction es generalizing s with
  | nil => exact Iff.rfl
  | cons e es ih => exact and_congr (hsame s e hs hc.1) (ih (hkeep s e hs hc.1) hc.2)

theorem along_iff_while {step : S → E → S} {C P Q : S → E → Prop} {I : S → Prop}
    (hkeep : ∀ s e,I s → C s e → Q s e → I (step s e))
    (hsame : ∀ s e,I s → C s e → (P s e ↔ Q s e))
    {s : S} {es : List E} (hs : I s) (hc : Along step C s es) :
    Along step P s es ↔ Along step Q s es := by
  induction es generalizing s with
  | nil => exact Iff.rfl
  | cons e es ih =>
    have he := hsame s e hs hc.1
    constructor
    · intro h
      have hq := he.mp h.1
      exact ⟨hq,(ih (hkeep s e hs hc.1 hq) hc.2).mp h.2⟩
    · intro h
      exact ⟨he.mpr h.1,(ih (hkeep s e hs hc.1 h.1) hc.2).mpr h.2⟩

theorem invariant_runFrom {step : S → E → S} {C : S → E → Prop} {I : S → Prop}
    (hkeep : ∀ s e,I s → C s e → I (step s e)) {s : S} {es : List E} (hs : I s)
    (hc : Along step C s es) : I (runFrom step s es) := by
  induction es generalizing s with
  | nil => exact hs
  | cons e es ih => exact ih (hkeep s e hs hc.1) hc.2

theorem eventually_of_rank {D : ℕ → Prop} {W : ℕ → ℕ → Prop}
    (hstep : ∀ n m,W n m → D (n+1) ∨ ∃ m',m' < m ∧ W (n+1) m') {n m : ℕ} (h : W n m) :
    ∃ N,D (N+1) := by
  induction m using Nat.strongRecOn generalizing n with
  | ind m ih =>
    rcases hstep n m h with hd|⟨m',hlt,hw⟩
    · exact ⟨n,hd⟩
    · exact ih m' hlt hw

theorem exists_of_until {P Q : ℕ → Prop} (hstep : ∀ n,P n → Q n ∨ P (n+1)) {N : ℕ}
    (hend : ∀ n,N ≤ n → ¬P n) {n : ℕ} (h : P n) : ∃ m,n ≤ m ∧ Q m := by
  by_contra hnever
  have hkeep : ∀ k,P (n+k) := by
    intro k
    induction k with
    | zero => exact h
    | succ k ih =>
      rcases hstep (n+k) ih with hq|hp
      · exact absurd ⟨n+k,Nat.le_add_right n k,hq⟩ hnever
      · exact hp
  exact hend (n+N) (Nat.le_add_left N n) (hkeep N)

/-- State after the first `n` events of an endless schedule. -/
def trace (step : S → E → S) (s : S) (es : ℕ → E) : ℕ → S
  | 0 => s
  | n+1 => step (trace step s es n) (es n)

/-- The rule for what must happen under a fair schedule: steps change nothing or make the rank fall,
and as long as it has not happened there is an event that makes the rank fall and comes up again and
again. -/
theorem eventually_of_fair {step : S → E → S} {I D : S → Prop} (rank : S → ℕ) {s : S}
    {es : ℕ → E} {N : ℕ} (hkeep : ∀ n,N ≤ n → I (trace step s es n))
    (hfall : ∀ n,N ≤ n → trace step s es (n+1)=trace step s es n ∨
      rank (trace step s es (n+1)) < rank (trace step s es n))
    (hturn : ∀ s,I s → ¬D s → ∃ e,rank (step s e) < rank s ∧ ∀ n,∃ m,n ≤ m ∧ es m=e) :
    ∃ n,N ≤ n ∧ D (trace step s es n) := by
  by_contra hnever
  have hlow : ∀ n k,N ≤ n → trace step s es (n+k)=trace step s es n ∨
      rank (trace step s es (n+k)) < rank (trace step s es n) := by
    intro n k hn
    induction k with
    | zero => exact .inl rfl
    | succ k ih =>
      rcases hfall (n+k) (by omega) with hsame|hless
      · rw [← Nat.add_assoc,hsame]
        exact ih
      · right
        rcases ih with hsame'|hless'
        · rw [← hsame']
          exact hless
        · exact Nat.lt_trans hless hless'
  have hnext : ∀ n,N ≤ n → ∃ m,N ≤ m ∧
      rank (trace step s es m) < rank (trace step s es n) := by
    intro n hn
    obtain ⟨e,hless,hagain⟩ := hturn _ (hkeep n hn) (fun hd => hnever ⟨n,hn,hd⟩)
    obtain ⟨m,hm,rfl⟩ := hagain n
    obtain ⟨k,rfl⟩ := Nat.exists_eq_add_of_le hm
    rcases hlow n k hn with hsame|hless'
    · refine ⟨n+k+1,by omega,?_⟩
      rw [trace,hsame]
      exact hless
    · exact ⟨n+k,by omega,hless'⟩
  have hnone : ∀ r n,N ≤ n → rank (trace step s es n)≠r := by
    intro r
    induction r using Nat.strongRecOn with
    | ind r ih =>
      intro n hn hr
      obtain ⟨m,hm,hless⟩ := hnext n hn
      exact ih _ (by rw [← hr]; exact hless) m hm rfl
  exact hnone _ N (Nat.le_refl N) rfl

end EtherCATMaster.Framework
