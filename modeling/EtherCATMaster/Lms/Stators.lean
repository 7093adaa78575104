import EtherCATMaster.Framework.FirstHit
import Mathlib.Algebra.Order.Ring.Rat
import Mathlib.Data.Set.Defs
import Mathlib.Order.WithBot

namespace EtherCATMaster.Lms

open EtherCATMaster.Framework

def lmsMaxStators : Nat := 128

/-- A double as it is compared: a number, finite or not, or no number. Both zeros are one. -/
inductive Double (R : Type) where
  | nan
  | number (x : WithBot (WithTop R))
  deriving DecidableEq

namespace Double

variable {R : Type} [LinearOrder R]

protected def lt : Double R → Double R → Prop
  | .number x,.number y => x < y
  | _,_ => False

protected def le : Double R → Double R → Prop
  | .number x,.number y => x ≤ y
  | _,_ => False

instance : LT (Double R) := ⟨Double.lt⟩
instance : LE (Double R) := ⟨Double.le⟩

instance : DecidableLT (Double R)
  | .number x,.number y => inferInstanceAs (Decidable (x < y))
  | .nan,_ => isFalse id
  | .number _,.nan => isFalse id

instance : DecidableLE (Double R)
  | .number x,.number y => inferInstanceAs (Decidable (x ≤ y))
  | .nan,_ => isFalse id
  | .number _,.nan => isFalse id

def finite (x : R) : Double R := .number ((x : WithTop R) : WithBot (WithTop R))

instance [Zero R] : Zero (Double R) := ⟨finite 0⟩

theorem le_lt_trans {a b c : Double R} (hab : a ≤ b) (hbc : b < c) : a < c := by
  cases a with
  | nan => exact hab.elim
  | number x =>
    cases b with
    | nan => exact hab.elim
    | number y =>
      cases c with
      | nan => exact hbc.elim
      | number z =>
        have hxy : x ≤ y := hab
        have hyz : y < z := hbc
        exact hxy.trans_lt hyz

end Double

structure LmsStator (R : Type) where
  slave : Int32
  name : String
  startMm : Double R
  endMm : Double R
  coilPitchMm : Double R
  countsPerMm : Double R
  controlwordOffset : Int32
  statuswordOffset : Int32
  modeOffset : Int32
  modeDisplayOffset : Int32
  targetPositionOffset : Int32
  actualPositionOffset : Int32
  deriving DecidableEq

/-- `count` is the length of the list. -/
structure LmsConfig (R : Type) where
  stators : List (LmsStator R)
  fits : stators.length ≤ lmsMaxStators

/-- What `validate_lms_config` prints when it rejects a configuration. -/
inductive LmsConfigError where
  | noStators
  | slaveIndex (number : Nat)
  | range (name : String)
  | coilPitch (name : String)
  | countsPerMm (name : String)
  | overlap (name other : String)
  deriving DecidableEq, Repr

def LmsConfigError.text : LmsConfigError → String
  | .noStators => "ERROR: LMS config has no stators"
  | .slaveIndex number => "ERROR: stator "++toString number++" has invalid EtherCAT slave index"
  | .range name => "ERROR: stator "++name++" end_mm must be greater than start_mm"
  | .coilPitch name => "ERROR: stator "++name++" coil_pitch_mm must be positive"
  | .countsPerMm name => "ERROR: stator "++name++" counts_per_mm must be positive"
  | .overlap name other => "ERROR: stator ranges overlap: "++name++" and "++other

variable {R : Type} [LinearOrder R]

def LmsStator.Overlaps (stator other : LmsStator R) : Prop :=
  stator.startMm < other.endMm ∧ other.startMm < stator.endMm

/-- The test of `find_stator_for_position`. -/
def LmsStator.Covers (stator : LmsStator R) (positionMm : Double R) : Prop :=
  stator.startMm ≤ positionMm ∧ positionMm < stator.endMm

instance (stator other : LmsStator R) : Decidable (stator.Overlaps other) :=
  inferInstanceAs (Decidable (_ ∧ _))

instance (stator : LmsStator R) (positionMm : Double R) : Decidable (stator.Covers positionMm) :=
  inferInstanceAs (Decidable (_ ∧ _))

section Validate

variable [Zero R]

/-- One round of the loop: a stator and the ones behind it. -/
def validateStator (i : Nat) (stator : LmsStator R) (others : List (LmsStator R)) :
    Except LmsConfigError Unit :=
  if stator.slave ≤ 0 then .error (.slaveIndex (i+1))
  else if stator.endMm ≤ stator.startMm then .error (.range stator.name)
  else if stator.coilPitchMm ≤ 0 then .error (.coilPitch stator.name)
  else if stator.countsPerMm ≤ 0 then .error (.countsPerMm stator.name)
  else match others.find? fun other => decide (stator.Overlaps other) with
    | some other => .error (.overlap stator.name other.name)
    | none => .ok ()

def validateLoop : Nat → List (LmsStator R) → Except LmsConfigError Unit
  | _,[] => .ok ()
  | i,stator::others =>
    match validateStator i stator others with
    | .error e => .error e
    | .ok () => validateLoop (i+1) others

/-- `validate_lms_config` -/
def validateLmsConfig (config : LmsConfig R) : Except LmsConfigError Unit :=
  if config.stators.length ≤ 0 then .error .noStators else validateLoop 0 config.stators

end Validate

/-- `find_stator_for_position` -/
def findStatorForPosition (config : Option (LmsConfig R)) (positionMm : Double R) :
    Option (LmsStator R) :=
  match config with
  | none => none
  | some config => config.stators.find? fun stator => decide (stator.Covers positionMm)

/-- The half-open range of a stator. -/
def LmsStator.extent (stator : LmsStator R) : Set (Double R) := {p | stator.Covers p}

instance (stator : LmsStator R) (positionMm : Double R) : Decidable (positionMm ∈ stator.extent) :=
  inferInstanceAs (Decidable (stator.Covers positionMm))

theorem LmsStator.Covers.overlaps {stator other : LmsStator R} {positionMm : Double R}
    (hs : stator.Covers positionMm) (ho : other.Covers positionMm) : stator.Overlaps other :=
  ⟨Double.le_lt_trans hs.1 ho.2,Double.le_lt_trans ho.1 hs.2⟩

theorem LmsStator.Overlaps.symm {stator other : LmsStator R} (h : stator.Overlaps other) :
    other.Overlaps stator := ⟨h.2,h.1⟩

section Validate

variable [Zero R]

/-- A stator that passes the tests it is put to on its own. -/
structure LmsStator.Sound (stator : LmsStator R) : Prop where
  slave : ¬stator.slave ≤ 0
  range : ¬stator.endMm ≤ stator.startMm
  coilPitch : ¬stator.coilPitchMm ≤ 0
  countsPerMm : ¬stator.countsPerMm ≤ 0

/-- A table of sound stators of which no two overlap. -/
structure StatorMap (stators : List (LmsStator R)) : Prop where
  sound : ∀ stator ∈ stators,stator.Sound
  apart : stators.Pairwise fun stator other => ¬stator.Overlaps other

/-- What an error says about the stators. -/
def LmsConfigError.Faults (stators : List (LmsStator R)) : LmsConfigError → Prop
  | .noStators => stators=[]
  | .slaveIndex number => ∃ i stator,stators[i]?=some stator ∧ number=i+1 ∧ stator.slave ≤ 0
  | .range name => ∃ stator ∈ stators,stator.name=name ∧ stator.endMm ≤ stator.startMm
  | .coilPitch name => ∃ stator ∈ stators,stator.name=name ∧ stator.coilPitchMm ≤ 0
  | .countsPerMm name => ∃ stator ∈ stators,stator.name=name ∧ stator.countsPerMm ≤ 0
  | .overlap name name' => ∃ stator other,[stator,other].Sublist stators ∧ stator.name=name ∧
      other.name=name' ∧ stator.Overlaps other

theorem validateStator_ok_iff (i : Nat) (stator : LmsStator R) (others : List (LmsStator R)) :
    validateStator i stator others=.ok () ↔
      stator.Sound ∧ ∀ other ∈ others,¬stator.Overlaps other := by
  unfold validateStator
  split_ifs with hslave hrange hpitch hcounts
  · exact ⟨fun h => (nomatch h),fun h => absurd hslave h.1.slave⟩
  · exact ⟨fun h => (nomatch h),fun h => absurd hrange h.1.range⟩
  · exact ⟨fun h => (nomatch h),fun h => absurd hpitch h.1.coilPitch⟩
  · exact ⟨fun h => (nomatch h),fun h => absurd hcounts h.1.countsPerMm⟩
  · cases hfind : others.find? fun other => decide (stator.Overlaps other) with
    | some other =>
      refine ⟨fun h => (nomatch h),fun h => ?_⟩
      have hoverlap := List.find?_some hfind
      exact absurd (of_decide_eq_true hoverlap) (h.2 other (List.mem_of_find?_eq_some hfind))
    | none =>
      refine ⟨fun _ => ⟨⟨hslave,hrange,hpitch,hcounts⟩,fun other ho => ?_⟩,fun _ => rfl⟩
      have hnone := List.find?_eq_none.mp hfind other ho
      exact fun h => hnone (decide_eq_true h)

theorem validateLoop_ok_iff (stators : List (LmsStator R)) (i : Nat) :
    validateLoop i stators=.ok () ↔ StatorMap stators := by
  induction stators generalizing i with
  | nil => exact ⟨fun _ => ⟨fun stator h => absurd h List.not_mem_nil,List.Pairwise.nil⟩,fun _ => rfl⟩
  | cons stator others ih =>
    have hone := validateStator_ok_iff i stator others
    unfold validateLoop
    cases hcase : validateStator i stator others with
    | error e =>
      refine ⟨fun h => (nomatch h),fun h => ?_⟩
      have hok := hone.mpr ⟨h.sound _ List.mem_cons_self,(List.pairwise_cons.mp h.apart).1⟩
      rw [hcase] at hok
      cases hok
    | ok u =>
      obtain ⟨hsound,hapart⟩ := hone.mp hcase
      constructor
      · intro h
        have hrest := (ih (i+1)).mp h
        exact ⟨List.forall_mem_cons.mpr ⟨hsound,hrest.sound⟩,.cons hapart hrest.apart⟩
      · intro h
        exact (ih (i+1)).mpr ⟨(List.forall_mem_cons.mp h.sound).2,(List.pairwise_cons.mp h.apart).2⟩

theorem validateLmsConfig_ok_iff (config : LmsConfig R) :
    validateLmsConfig config=.ok () ↔ config.stators≠[] ∧ StatorMap config.stators := by
  have hloop := validateLoop_ok_iff config.stators 0
  have hempty : config.stators.length ≤ 0 ↔ config.stators=[] := by
    rw [Nat.le_zero,List.length_eq_zero_iff]
  unfold validateLmsConfig
  split_ifs with h
  · exact ⟨fun h => (nomatch h),fun h' => absurd (hempty.mp h) h'.1⟩
  · exact hloop.trans ⟨fun h' => ⟨fun hnil => h (hempty.mpr hnil),h'⟩,fun h' => h'.2⟩

theorem validateStator_error {i : Nat} {front others : List (LmsStator R)} {stator : LmsStator R}
    {e : LmsConfigError} (hi : front.length=i) (h : validateStator i stator others=.error e) :
    e.Faults (front++stator::others) := by
  have hmem : stator ∈ front++stator::others :=
    List.mem_append_right _ List.mem_cons_self
  unfold validateStator at h
  split_ifs at h with hslave hrange hpitch hcounts
  · cases h
    refine ⟨i,stator,?_,rfl,hslave⟩
    rw [List.getElem?_append_right (by omega),hi,Nat.sub_self,List.getElem?_cons_zero]
  · cases h
    exact ⟨stator,hmem,rfl,hrange⟩
  · cases h
    exact ⟨stator,hmem,rfl,hpitch⟩
  · cases h
    exact ⟨stator,hmem,rfl,hcounts⟩
  · cases hfind : others.find? fun other => decide (stator.Overlaps other) with
    | none =>
      rw [hfind] at h
      cases h
    | some other =>
      rw [hfind] at h
      cases h
      have hother := List.mem_of_find?_eq_some hfind
      have hoverlap := List.find?_some hfind
      refine ⟨stator,other,?_,rfl,rfl,of_decide_eq_true hoverlap⟩
      exact ((List.singleton_sublist.mpr hother).cons_cons stator).trans
        (List.sublist_append_right _ _)

theorem validateLoop_error {stators : List (LmsStator R)} {i : Nat} {front : List (LmsStator R)}
    {e : LmsConfigError} (hi : front.length=i) (h : validateLoop i stators=.error e) :
    e.Faults (front++stators) := by
  induction stators generalizing i front with
  | nil => cases h
  | cons stator others ih =>
    unfold validateLoop at h
    cases hcase : validateStator i stator others with
    | error e' =>
      rw [hcase] at h
      cases h
      exact validateStator_error hi hcase
    | ok u =>
      rw [hcase] at h
      have hlength : (front++[stator]).length=i+1 := by rw [List.length_append,hi]; rfl
      have hrest := ih hlength h
      rw [List.append_assoc,List.singleton_append] at hrest
      exact hrest

theorem validateLmsConfig_error {config : LmsConfig R} {e : LmsConfigError}
    (h : validateLmsConfig config=.error e) : e.Faults config.stators := by
  unfold validateLmsConfig at h
  split_ifs at h with hempty
  · cases h
    exact List.length_eq_zero_iff.mp (Nat.le_zero.mp hempty)
  · exact validateLoop_error List.length_nil h

namespace StatorMap

variable {stators : List (LmsStator R)}

theorem perm {stators' : List (LmsStator R)} (h : StatorMap stators)
    (hperm : stators'.Perm stators) : StatorMap stators' :=
  ⟨fun stator hs => h.sound stator (hperm.subset hs),
    (hperm.pairwise_iff fun hn ho => hn ho.symm).mpr h.apart⟩

theorem oneHit (h : StatorMap stators) (positionMm : Double R) :
    OneHit (fun stator => decide (stator.Covers positionMm)) stators :=
  h.apart.imp fun hn hab =>
    hn ((of_decide_eq_true hab.1).overlaps (of_decide_eq_true hab.2))

end StatorMap

/-- The stator map: an accepted configuration gives every position the one stator whose range it is
in, in whatever order the stators are, and none where there is none. A configuration in which two
ranges share a position is rejected. -/
theorem stator_map :
    (∀ config : LmsConfig R,validateLmsConfig config=.ok () → ∀ positionMm,
      (∀ stator,findStatorForPosition (some config) positionMm=some stator ↔
        stator ∈ config.stators ∧ positionMm ∈ stator.extent) ∧
      (∀ (i j : Nat) (stator other : LmsStator R),config.stators[i]?=some stator →
        config.stators[j]?=some other → positionMm ∈ stator.extent →
        positionMm ∈ other.extent → i=j) ∧
      (findStatorForPosition (some config) positionMm=none ↔
        ∀ stator ∈ config.stators,positionMm ∉ stator.extent) ∧
      ∀ config' : LmsConfig R,config'.stators.Perm config.stators →
        validateLmsConfig config'=.ok () ∧
        findStatorForPosition (some config') positionMm=
          findStatorForPosition (some config) positionMm) ∧
    ∀ (config : LmsConfig R) (i j : Nat) (stator other : LmsStator R) (positionMm : Double R),
      config.stators[i]?=some stator → config.stators[j]?=some other → i≠j →
      positionMm ∈ stator.extent → positionMm ∈ other.extent →
      ∃ e,validateLmsConfig config=.error e := by
  have hunique : ∀ config : LmsConfig R,validateLmsConfig config=.ok () → ∀ positionMm,
      ∀ (i j : Nat) (stator other : LmsStator R),config.stators[i]?=some stator →
        config.stators[j]?=some other → positionMm ∈ stator.extent →
        positionMm ∈ other.extent → i=j := by
    intro config hok positionMm i j stator other hi hj hs ho
    have hmap := ((validateLmsConfig_ok_iff config).mp hok).2
    exact (hmap.oneHit positionMm).index_unique hi hj (decide_eq_true hs) (decide_eq_true ho)
  constructor
  · intro config hok positionMm
    obtain ⟨hne,hmap⟩ := (validateLmsConfig_ok_iff config).mp hok
    have hhit := hmap.oneHit positionMm
    refine ⟨fun stator => ?_,hunique config hok positionMm,?_,fun config' hperm => ⟨?_,?_⟩⟩
    · exact hhit.find_iff.trans (and_congr_right fun _ => decide_eq_true_iff)
    · exact List.find?_eq_none.trans
        (forall₂_congr fun _ _ => not_congr decide_eq_true_iff)
    · refine (validateLmsConfig_ok_iff config').mpr ⟨fun hnil => hne ?_,hmap.perm hperm⟩
      rw [hnil] at hperm
      exact hperm.nil_eq.symm
    · exact hhit.find_perm hperm.symm
  · intro config i j stator other positionMm hi hj hij hs ho
    cases hcase : validateLmsConfig config with
    | error e => exact ⟨e,rfl⟩
    | ok u => exact absurd (hunique config hcase positionMm i j stator other hi hj hs ho) hij

end Validate

/-- Two stators that meet at 500 mm. -/
def meetingStators : LmsConfig ℚ where
  stators :=
    [⟨2,"right",.finite 500,.finite 1000,.finite 30,.finite 100,-1,-1,-1,-1,-1,-1⟩,
      ⟨1,"left",.finite 0,.finite 500,.finite 30,.finite 100,-1,-1,-1,-1,-1,-1⟩]
  fits := by decide

/-- The boundary belongs to the right one. -/
theorem boundary_found :
    (findStatorForPosition (some meetingStators) (.finite 500)).map LmsStator.name=some "right" := by
  have hok : validateLmsConfig meetingStators=.ok () := by decide
  have hfound := ((stator_map.1 meetingStators hok (.finite 500)).1
    ⟨2,"right",.finite 500,.finite 1000,.finite 30,.finite 100,-1,-1,-1,-1,-1,-1⟩).mpr
    ⟨List.mem_cons_self,by decide⟩
  rw [hfound]
  rfl

end EtherCATMaster.Lms
