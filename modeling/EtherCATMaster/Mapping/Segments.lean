import EtherCATMaster.Mapping.MapGroup
import Mathlib.Algebra.BigOperators.Group.List.Basic
import Mathlib.Algebra.Ring.Nat
import Mathlib.Data.List.Induction
import Mathlib.Data.Nat.Basic

namespace EtherCATMaster.Mapping

def Segmenting.total (g : Segmenting) : Nat := g.iosegment.sum+g.segmentsize

/-- The segments are not empty and no longer than a datagram. While there are entries left the open
one holds to its limit. -/
structure Segmenting.Bounded (g : Segmenting) : Prop where
  closed : ∀ s ∈ g.iosegment,0 < s ∧ s ≤ ecMaxLrwData
  limit : 0 < g.segmentmaxsize ∧ g.segmentmaxsize ≤ ecMaxLrwData
  size : g.iosegment.length < ecMaxIoSegments → g.segmentsize ≤ g.segmentmaxsize

/-- Segments that have gone on from others: the closed ones stay, and the open one only grew before
it was closed. -/
def Segmenting.Follows (g g' : Segmenting) : Prop :=
  ∃ first rest,g'.iosegment++[g'.segmentsize]=g.iosegment++(first::rest) ∧ g.segmentsize ≤ first

variable {g g' : Segmenting}

theorem Segmenting.Follows.refl (g : Segmenting) : g.Follows g := ⟨_,[],rfl,Nat.le_refl _⟩

theorem Segmenting.Follows.trans {g'' : Segmenting} (h : g.Follows g') (h' : g'.Follows g'') :
    g.Follows g'' := by
  obtain ⟨first,rest,heq,hle⟩ := h
  obtain ⟨first',rest',heq',hle'⟩ := h'
  -- the open segment of `g'` is the last one, or the first one behind those of `g`
  cases rest using List.reverseRecOn with
  | nil =>
    obtain ⟨hclosed,hopen⟩ := List.append_inj' heq rfl
    cases hopen
    exact ⟨first',rest',by rw [heq',hclosed],hle.trans hle'⟩
  | append_singleton rest last =>
    rw [← List.cons_append,← List.append_assoc] at heq
    obtain ⟨hclosed,-⟩ := List.append_inj' heq rfl
    exact ⟨first,rest++(first'::rest'),by rw [heq',hclosed]; simp,hle⟩

theorem Segmenting.start_bounded : Segmenting.start.Bounded :=
  ⟨by simp [Segmenting.start],by decide,fun _ => by decide⟩

section Steps

theorem Segmenting.make_total (g : Segmenting) (diff : Nat) :
    (g.make diff).total=g.total+diff := by
  rw [Segmenting.make]
  split_ifs
  · simp [Segmenting.total]
  · simp [Segmenting.total]
    omega

theorem Segmenting.make_follows (g : Segmenting) (diff : Nat) : g.Follows (g.make diff) := by
  rw [Segmenting.make]
  split_ifs
  · exact ⟨g.segmentsize,[diff],by simp,Nat.le_refl _⟩
  · exact ⟨g.segmentsize+diff,[],rfl,by omega⟩

theorem Segmenting.full_total (h : g.segmentsize>g.segmentmaxsize) : g.full.total=g.total := by
  simp [Segmenting.total,Segmenting.full]
  omega

theorem Segmenting.spill_total (g : Segmenting) (n : Nat) : (g.spill n).2.total=g.total := by
  induction n generalizing g with
  | zero => rfl
  | succ n ih =>
    rw [Segmenting.spill]
    split_ifs with hfull
    · exact (ih g.full).trans (Segmenting.full_total hfull)
    · rfl

theorem Segmenting.extend_total (g : Segmenting) (diff : Nat) :
    (g.extend diff).2.total=g.total+diff := by
  simp only [Segmenting.extend]
  rw [Segmenting.spill_total,Segmenting.make_total]

theorem Segmenting.spillOverlap_eq (g : Segmenting) (soLength siLength : Int) (n : Nat) :
    (g.spillOverlap soLength siLength n).2.2=(g.spill n).2 := by
  induction n generalizing g soLength siLength with
  | zero => rfl
  | succ n ih =>
    rw [Segmenting.spillOverlap,Segmenting.spill]
    by_cases hfull : g.segmentsize>g.segmentmaxsize
    · rw [if_pos hfull,if_pos hfull]
      exact ih _ _ _
    · rw [if_neg hfull,if_neg hfull]

theorem Segmenting.extendOverlap_eq (g : Segmenting) (diff : Nat) (soLength siLength : Int) :
    (g.extendOverlap diff soLength siLength).2=(g.extend diff).2 := by
  simp only [Segmenting.extendOverlap,Segmenting.extend]
  split_ifs <;> exact Segmenting.spillOverlap_eq _ _ _ _

theorem Segmenting.spill_bounded {n : Nat} (hclosed : ∀ s ∈ g.iosegment,0 < s ∧ s ≤ ecMaxLrwData)
    (hlimit : 0 < g.segmentmaxsize ∧ g.segmentmaxsize ≤ ecMaxLrwData)
    (hn : n+g.iosegment.length=ecMaxIoSegments ∨ g.segmentsize ≤ g.segmentmaxsize) :
    (g.spill n).2.Bounded := by
  induction n generalizing g with
  | zero =>
    refine ⟨hclosed,hlimit,?_⟩
    intro hlt
    rcases hn with hn|hle
    · simp only [Segmenting.spill] at hlt
      omega
    · exact hle
  | succ n ih =>
    rw [Segmenting.spill]
    split_ifs with hfull
    · apply ih
      · intro s hs
        simp only [Segmenting.full,List.mem_append,List.mem_singleton] at hs
        rcases hs with hs|rfl
        · exact hclosed s hs
        · exact hlimit
      · exact (show 0 < ecMaxLrwData ∧ ecMaxLrwData ≤ ecMaxLrwData by decide)
      · left
        rcases hn with hn|hle
        · simp only [Segmenting.full,List.length_append,List.length_singleton]
          omega
        · omega
    · exact ⟨hclosed,hlimit,fun _ => Nat.not_lt.mp hfull⟩

theorem Segmenting.Bounded.extend (h : g.Bounded) (hcount : g.iosegment.length ≤ ecMaxIoSegments)
    (diff : Nat) : (g.extend diff).2.Bounded := by
  simp only [Segmenting.extend,Segmenting.make]
  split_ifs with hclose
  · apply Segmenting.spill_bounded
    · intro s hs
      simp only [List.mem_append,List.mem_singleton] at hs
      rcases hs with hs|rfl
      · exact h.closed s hs
      · exact ⟨by omega,(h.size hclose.2.2).trans h.limit.2⟩
    · exact (show 0 < ecMaxLrwData ∧ ecMaxLrwData ≤ ecMaxLrwData by decide)
    · left
      have := hclose.2.2
      simp only [List.length_append,List.length_singleton]
      omega
  · refine Segmenting.spill_bounded (show ∀ s ∈ g.iosegment,0 < s ∧ s ≤ ecMaxLrwData from h.closed)
      (show 0 < g.segmentmaxsize ∧ g.segmentmaxsize ≤ ecMaxLrwData from h.limit) (.inl ?_)
    simp only
    omega

theorem Segmenting.spill_iosegment (g : Segmenting) (n : Nat) :
    ∃ rest,(g.spill n).2.iosegment=g.iosegment++rest := by
  induction n generalizing g with
  | zero => exact ⟨[],(List.append_nil _).symm⟩
  | succ n ih =>
    rw [Segmenting.spill]
    split_ifs
    · obtain ⟨rest,hrest⟩ := ih g.full
      exact ⟨g.segmentmaxsize::rest,by rw [hrest,Segmenting.full]; simp⟩
    · exact ⟨[],(List.append_nil _).symm⟩

theorem Segmenting.spill_follows {n : Nat} (hclosed : g'.iosegment=g.iosegment)
    (hsize : g'.segmentsize ≤ g.segmentsize)
    (hlimit : 0 < n → g'.segmentsize ≤ g.segmentmaxsize) : g'.Follows (g.spill n).2 := by
  have hkept : g'.Follows g := ⟨g.segmentsize,[],by rw [hclosed],hsize⟩
  cases n with
  | zero => exact hkept
  | succ n =>
    rw [Segmenting.spill]
    split_ifs
    · obtain ⟨rest,hrest⟩ := g.full.spill_iosegment n
      refine ⟨g.segmentmaxsize,rest++[(g.full.spill n).2.segmentsize],?_,hlimit (by omega)⟩
      rw [hrest,Segmenting.full,hclosed]
      simp
    · exact hkept

theorem Segmenting.Bounded.follows (h : g.Bounded) (diff : Nat) : g.Follows (g.extend diff).2 := by
  simp only [Segmenting.extend,Segmenting.make]
  split_ifs with hclose
  · have hnext : Segmenting.Follows ⟨g.iosegment++[g.segmentsize],diff,ecMaxLrwData⟩
        ((⟨g.iosegment++[g.segmentsize],diff,ecMaxLrwData⟩ : Segmenting).spill
          (ecMaxIoSegments-(g.iosegment++[g.segmentsize]).length)).2 :=
      Segmenting.spill_follows rfl (Nat.le_refl _) (fun _ => hclose.2.1.trans h.limit.2)
    exact Segmenting.Follows.trans ⟨g.segmentsize,[diff],by simp,Nat.le_refl _⟩ hnext
  · refine Segmenting.spill_follows (show g.iosegment=g.iosegment from rfl)
      (show g.segmentsize ≤ g.segmentsize+diff from Nat.le_add_right _ _) ?_
    intro hn
    exact h.size (by simp only at hn; omega)

theorem Segmenting.Bounded.pad_eq (h : g.Bounded) : g.pad.2=(g.extend 1).2 := by
  have hlimit := h.limit
  by_cases hclose : g.segmentsize+1>g.segmentmaxsize ∧ g.iosegment.length < ecMaxIoSegments
  · have hmake : g.make 1=⟨g.iosegment++[g.segmentsize],1,ecMaxLrwData⟩ := by
      rw [Segmenting.make,if_pos ⟨hclose.1,hlimit.1,hclose.2⟩]
    rw [Segmenting.pad,if_pos hclose]
    simp only [Segmenting.extend,hmake]
    generalize ecMaxIoSegments-(g.iosegment++[g.segmentsize]).length=n
    cases n with
    | zero => rfl
    | succ n =>
      rw [Segmenting.spill,if_neg (by simp only; decide)]
  · have hmake : g.make 1={ g with segmentsize := g.segmentsize+1 } := by
      rw [Segmenting.make,if_neg (fun hc => hclose ⟨hc.1,hc.2.2⟩)]
    rw [Segmenting.pad,if_neg hclose]
    simp only [Segmenting.extend,hmake]
    generalize hn : ecMaxIoSegments-g.iosegment.length=n
    cases n with
    | zero => rfl
    | succ n =>
      have hfits : ¬g.segmentsize+1>g.segmentmaxsize := fun hc => hclose ⟨hc,by omega⟩
      rw [Segmenting.spill,if_neg hfits]

theorem Segmenting.extend_count (g : Segmenting) (diff : Nat)
    (hcount : g.iosegment.length ≤ ecMaxIoSegments) :
    (g.extend diff).2.iosegment.length ≤ ecMaxIoSegments := by
  have hspill : ∀ (n : Nat) (g : Segmenting),n+g.iosegment.length ≤ ecMaxIoSegments →
      (g.spill n).2.iosegment.length ≤ ecMaxIoSegments := by
    intro n
    induction n with
    | zero =>
      intro g hg
      simp only [Segmenting.spill]
      omega
    | succ n ih =>
      intro g hg
      rw [Segmenting.spill]
      split_ifs
      · apply ih
        simp only [Segmenting.full,List.length_append,List.length_singleton]
        omega
      · simp only
        omega
  simp only [Segmenting.extend]
  apply hspill
  rw [Segmenting.make]
  split_ifs with hclose
  · have := hclose.2.2
    simp only [List.length_append,List.length_singleton]
    omega
  · simp only
    omega

end Steps

def cut (g : Segmenting) (pieces : List Nat) : Segmenting :=
  pieces.foldl (fun g diff => (g.extend diff).2) g

/-- What the segments of a group have in common while they are made. -/
structure Segmenting.Sound (g : Segmenting) : Prop where
  bounded : g.Bounded
  count : g.iosegment.length ≤ ecMaxIoSegments

theorem cut_sound (h : g.Sound) (pieces : List Nat) :
    (cut g pieces).Sound ∧ g.Follows (cut g pieces) ∧
      (cut g pieces).total=g.total+pieces.sum := by
  induction pieces generalizing g with
  | nil => exact ⟨h,.refl g,rfl⟩
  | cons diff rest ih =>
    have hnext : (g.extend diff).2.Sound :=
      ⟨h.bounded.extend h.count diff,g.extend_count diff h.count⟩
    obtain ⟨hsound,hfollows,htotal⟩ := ih hnext
    refine ⟨hsound,(h.bounded.follows diff).trans hfollows,?_⟩
    change (cut (g.extend diff).2 rest).total=g.total+(diff::rest).sum
    rw [htotal,Segmenting.extend_total,List.sum_cons]
    omega

theorem cut_append (g : Segmenting) (xs ys : List Nat) : cut g (xs++ys)=cut (cut g xs) ys := by
  rw [cut,List.foldl_append]
  rfl

section Status

def statusCut (g : Segmenting) (diffs : List Nat) : Segmenting :=
  diffs.foldl Segmenting.status g

/-- There is an entry left for the status bytes, or room for them in the last segment. -/
def StatusFits (g : Segmenting) (count : Nat) : Prop :=
  g.iosegment.length+1<ecMaxIoSegments ∨
    g.segmentsize+count ≤ ecMaxLrwData-ecFirstDcDatagram ∨ count=0

instance StatusFits.decidable (g : Segmenting) (count : Nat) : Decidable (StatusFits g count) :=
  inferInstanceAs (Decidable (_ ∨ _))

/-- Segments that can be closed. -/
structure Segmenting.Open (g : Segmenting) : Prop where
  closed : ∀ s ∈ g.iosegment,0 < s ∧ s ≤ ecMaxLrwData
  size : g.segmentsize ≤ ecMaxLrwData
  count : g.iosegment.length < ecMaxIoSegments

theorem Segmenting.Sound.open (h : g.Sound) (hcount : g.iosegment.length < ecMaxIoSegments) :
    g.Open :=
  ⟨h.bounded.closed,(h.bounded.size hcount).trans h.bounded.limit.2,hcount⟩

theorem Segmenting.status_cases (h : g.Open) (diff : Nat) :
    (g.segmentsize+diff ≤ ecMaxLrwData-ecFirstDcDatagram ∧
      g.status diff={ g with segmentsize := g.segmentsize+diff }) ∨
    (g.segmentsize+diff>ecMaxLrwData-ecFirstDcDatagram ∧
      g.iosegment.length+1<ecMaxIoSegments ∧
      g.status diff={ g with iosegment := g.iosegment++[g.segmentsize], segmentsize := diff }) ∨
    (g.segmentsize+diff>ecMaxLrwData-ecFirstDcDatagram ∧
      g.iosegment.length+1=ecMaxIoSegments ∧ g.status diff=g) := by
  have hcount := h.count
  have hmax : ecMaxIoSegments=64 := rfl
  rw [Segmenting.status]
  by_cases hroom : g.segmentsize+diff>ecMaxLrwData-ecFirstDcDatagram
  · rw [if_pos hroom]
    by_cases hleft : g.iosegment.length < ecMaxIoSegments-1
    · rw [if_pos hleft]
      exact .inr (.inl ⟨hroom,by omega,rfl⟩)
    · rw [if_neg hleft]
      exact .inr (.inr ⟨hroom,by omega,rfl⟩)
  · rw [if_neg hroom]
    exact .inl ⟨Nat.not_lt.mp hroom,rfl⟩

theorem Segmenting.Open.status (h : g.Open) {diff : Nat} (hdiff : diff ≤ 1) :
    (g.status diff).Open ∧ g.Follows (g.status diff) := by
  have hlrw : ecMaxLrwData=1486 := rfl
  have hdc : ecFirstDcDatagram=20 := rfl
  rcases Segmenting.status_cases h diff with ⟨hroom,heq⟩|⟨hroom,hleft,heq⟩|⟨-,-,heq⟩
  · rw [heq]
    refine ⟨⟨h.closed,?_,h.count⟩,g.segmentsize+diff,[],rfl,Nat.le_add_right _ _⟩
    simp only
    omega
  · rw [heq]
    refine ⟨⟨?_,?_,?_⟩,g.segmentsize,[diff],by simp,Nat.le_refl _⟩
    · intro s hs
      simp only [List.mem_append,List.mem_singleton] at hs
      rcases hs with hs|rfl
      · exact h.closed s hs
      · exact ⟨by omega,h.size⟩
    · simp only
      omega
    · simp only [List.length_append,List.length_singleton]
      exact hleft
  · rw [heq]
    exact ⟨h,.refl g⟩

theorem statusCut_open {diffs : List Nat} (h : g.Open) (hdiffs : ∀ d ∈ diffs,d ≤ 1) :
    (statusCut g diffs).Open ∧ g.Follows (statusCut g diffs) := by
  induction diffs generalizing g with
  | nil => exact ⟨h,.refl g⟩
  | cons d rest ih =>
    obtain ⟨hopen,hfollows⟩ := h.status (hdiffs d List.mem_cons_self)
    obtain ⟨hopen',hfollows'⟩ := ih hopen (fun x hx => hdiffs x (List.mem_cons_of_mem d hx))
    exact ⟨hopen',hfollows.trans hfollows'⟩

theorem statusCut_total_le {diffs : List Nat} (h : g.Open) (hdiffs : ∀ d ∈ diffs,d ≤ 1) :
    g.total ≤ (statusCut g diffs).total ∧ (statusCut g diffs).total ≤ g.total+diffs.sum := by
  induction diffs generalizing g with
  | nil => exact ⟨Nat.le_refl _,Nat.le_refl _⟩
  | cons d rest ih =>
    obtain ⟨hopen,-⟩ := h.status (hdiffs d List.mem_cons_self)
    obtain ⟨hlow,hhigh⟩ := ih hopen (fun x hx => hdiffs x (List.mem_cons_of_mem d hx))
    have hstep : g.total ≤ (g.status d).total ∧ (g.status d).total ≤ g.total+d := by
      rcases Segmenting.status_cases h d with ⟨-,heq⟩|⟨-,-,heq⟩|⟨-,-,heq⟩
      · rw [heq]
        simp only [Segmenting.total]
        omega
      · rw [heq]
        simp only [Segmenting.total,List.sum_append,List.sum_singleton]
        omega
      · rw [heq]
        omega
    change g.total ≤ (statusCut (g.status d) rest).total ∧
      (statusCut (g.status d) rest).total ≤ g.total+(d::rest).sum
    rw [List.sum_cons]
    omega

theorem statusCut_total_iff {diffs : List Nat} (h : g.Open) (hdiffs : ∀ d ∈ diffs,d ≤ 1)
    (hsum : diffs.sum ≤ ecMaxLrwData-ecFirstDcDatagram) :
    (statusCut g diffs).total=g.total+diffs.sum ↔ StatusFits g diffs.sum := by
  induction diffs generalizing g with
  | nil => exact ⟨fun _ => .inr (.inr rfl),fun _ => rfl⟩
  | cons d rest ih =>
    have hd := hdiffs d List.mem_cons_self
    have hrest : ∀ x ∈ rest,x ≤ 1 := fun x hx => hdiffs x (List.mem_cons_of_mem d hx)
    obtain ⟨hopen,-⟩ := h.status hd
    rw [List.sum_cons] at hsum
    have hnext := ih hopen hrest (by omega)
    obtain ⟨-,hhigh⟩ := statusCut_total_le hopen hrest
    change (statusCut (g.status d) rest).total=_ ↔ _
    rw [List.sum_cons]
    rcases Segmenting.status_cases h d with ⟨hroom,heq⟩|⟨hroom,hleft,heq⟩|⟨hroom,hlast,heq⟩
    · rw [heq] at hnext ⊢
      simp only [Segmenting.total,StatusFits] at hnext ⊢
      rw [← Nat.add_assoc] at hnext
      rw [← Nat.add_assoc,hnext]
      omega
    · rw [heq] at hnext ⊢
      simp only [Segmenting.total,StatusFits,List.sum_append,List.sum_singleton,List.length_append,
        List.length_singleton] at hnext ⊢
      have hfits : g.iosegment.length+1+1<ecMaxIoSegments ∨
          d+rest.sum ≤ ecMaxLrwData-ecFirstDcDatagram ∨ rest.sum=0 := .inr (.inl hsum)
      have htotal := hnext.mpr hfits
      refine ⟨fun _ => .inl hleft,fun _ => ?_⟩
      rw [htotal]
      omega
    · -- there is no entry left: a byte is lost
      rw [heq] at hnext hhigh ⊢
      by_cases hzero : d=0
      · subst hzero
        rw [Nat.zero_add]
        exact hnext
      · simp only [StatusFits]
        constructor
        · intro htotal
          omega
        · intro hfits
          omega

end Status

end EtherCATMaster.Mapping
