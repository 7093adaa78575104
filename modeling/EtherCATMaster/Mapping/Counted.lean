import EtherCATMaster.Framework.Blocks
import EtherCATMaster.Mapping.Stage

namespace EtherCATMaster.Mapping

open Framework

section Cut

variable {g g' : Segmenting}

theorem Segmenting.Follows.length_le (h : g.Follows g') :
    g.iosegment.length ≤ g'.iosegment.length := by
  obtain ⟨first,rest,heq,-⟩ := h
  have hlen := congrArg List.length heq
  simp only [List.length_append,List.length_cons,List.length_nil] at hlen
  omega

theorem Segmenting.Follows.total_le (h : g.Follows g') : g.total ≤ g'.total := by
  obtain ⟨first,rest,heq,hle⟩ := h
  have hsum := congrArg List.sum heq
  simp only [List.sum_append,List.sum_cons,List.sum_nil] at hsum
  simp only [Segmenting.total]
  omega

theorem Segmenting.Follows.blockOf_eq (h : g.Follows g') {x : Nat} (hlow : g.iosegment.sum ≤ x)
    (hhigh : x<g.total) : blockOf g'.iosegment x=g.iosegment.length := by
  have htotal := h.total_le
  obtain ⟨first,rest,heq,hle⟩ := h
  obtain ⟨d,rfl⟩ := Nat.exists_eq_add_of_le hlow
  rw [Segmenting.total] at hhigh
  have hlast : g.iosegment.sum+d<g'.iosegment.sum+g'.segmentsize := by
    rw [Segmenting.total,Segmenting.total] at htotal
    omega
  rw [← blockOf_last hlast,heq,blockOf_append_right,blockOf,if_pos (by omega),Nat.add_zero]

theorem Segmenting.spill_count (g : Segmenting) (n : Nat) :
    (g.spill n).1+g.iosegment.length=(g.spill n).2.iosegment.length := by
  induction n generalizing g with
  | zero => exact Nat.zero_add _
  | succ n ih =>
    rw [Segmenting.spill]
    split_ifs
    · have h := ih g.full
      simp only [Segmenting.full,List.length_append,List.length_singleton] at h
      simp only [Segmenting.full]
      omega
    · exact Nat.zero_add _

theorem Segmenting.spill_some (h : 0 < g.segmentsize) (n : Nat) :
    0<(g.spill n).2.segmentsize := by
  induction n generalizing g with
  | zero => exact h
  | succ n ih =>
    rw [Segmenting.spill]
    split_ifs with hfull
    · apply ih
      simp only [Segmenting.full]
      omega
    · exact h

theorem Segmenting.Bounded.extend_zero (h : g.Bounded)
    (hcount : g.iosegment.length < ecMaxIoSegments) : g.extend 0=(0,g) := by
  have hsize := h.size hcount
  have hmake : g.make 0=g := by
    rw [Segmenting.make,if_neg (by omega)]
    rfl
  have hspill : ∀ n,g.spill n=(0,g) := by
    intro n
    cases n with
    | zero => rfl
    | succ n => rw [Segmenting.spill,if_neg (by omega)]
  simp only [Segmenting.extend,hmake,hspill,ne_eq,not_true_eq_false,and_false,if_false]

/-- The open segment is full, and the next data is too long for a datagram. It goes on behind the
open segment, but is counted in it, too. -/
def Segmenting.Full (g : Segmenting) (diff : Nat) : Prop :=
  g.segmentsize=g.segmentmaxsize ∧ g.segmentmaxsize<diff

instance Segmenting.Full.decidable (g : Segmenting) (diff : Nat) : Decidable (g.Full diff) :=
  inferInstanceAs (Decidable (_ ∧ _))

theorem Segmenting.Follows.last_block {diff : Nat} (h : (g.extend diff).2.Follows g')
    (hdiff : 0 < diff) (hsome : 0<(g.extend diff).2.segmentsize) :
    blockOf g'.iosegment (g.total+diff-1)=(g.extend diff).2.iosegment.length := by
  have htotal := g.extend_total diff
  have hend : (g.extend diff).2.iosegment.sum+(g.extend diff).2.segmentsize=g.total+diff := htotal
  refine h.blockOf_eq (by omega) ?_
  rw [htotal]
  omega

/-- A segment is begun for the data. -/
def Segmenting.Begins (g : Segmenting) (diff : Nat) : Prop :=
  g.segmentsize+diff>g.segmentmaxsize ∧ diff ≤ g.segmentmaxsize ∧
    g.iosegment.length < ecMaxIoSegments

theorem Segmenting.Begins.extend_eq {diff : Nat} (h : g.Begins diff) (hg : g.Sound)
    (hdiff : 0 < diff) :
    g.extend diff=(1,⟨g.iosegment++[g.segmentsize],diff,ecMaxLrwData⟩) := by
  have hmake : g.make diff=⟨g.iosegment++[g.segmentsize],diff,ecMaxLrwData⟩ := if_pos h
  have hlimit := hg.bounded.limit
  have hfits := h.2.1
  have hspill : ∀ n,Segmenting.spill ⟨g.iosegment++[g.segmentsize],diff,ecMaxLrwData⟩ n=
      (0,⟨g.iosegment++[g.segmentsize],diff,ecMaxLrwData⟩) := by
    intro n
    cases n with
    | zero => rfl
    | succ n => rw [Segmenting.spill,if_neg (by simp only; omega)]
  simp only [Segmenting.extend,hmake,hspill]
  rw [if_pos ⟨by omega,by omega⟩]

theorem Segmenting.extend_open {diff : Nat} (h : ¬g.Begins diff) (hdiff : 0 < diff) :
    0<(g.extend diff).2.segmentsize ∧
      (g.extend diff).1+g.iosegment.length=(g.extend diff).2.iosegment.length+1 := by
  have hmake : g.make diff={ g with segmentsize := g.segmentsize+diff } := if_neg h
  have hsome : 0<(g.make diff).segmentsize := by
    rw [hmake]
    simp only
    omega
  have hcounted := (g.make diff).spill_count (ecMaxIoSegments-(g.make diff).iosegment.length)
  have hspilled := Segmenting.spill_some hsome (ecMaxIoSegments-(g.make diff).iosegment.length)
  have hsame : (g.make diff).iosegment=g.iosegment := by rw [hmake]
  simp only [Segmenting.extend]
  rw [if_pos ⟨by omega,by omega⟩]
  rw [hsame] at hcounted hspilled ⊢
  exact ⟨hspilled,by omega⟩

theorem Segmenting.first_block_fits {diff : Nat} (h : ¬g.Begins diff) (hdiff : 0 < diff)
    (hfits : g.segmentsize+diff ≤ g.segmentmaxsize) (hfollows : (g.extend diff).2.Follows g') :
    blockOf g'.iosegment g.total=g.iosegment.length := by
  have hmake : g.make diff={ g with segmentsize := g.segmentsize+diff } := if_neg h
  have hsame : (g.make diff).iosegment=g.iosegment := by rw [hmake]
  have hrest : (g.make diff).Follows g' := by
    refine Segmenting.Follows.trans ?_ hfollows
    exact Segmenting.spill_follows rfl (Nat.le_refl _) (fun _ => by rw [hmake]; exact hfits)
  rw [← hsame]
  apply hrest.blockOf_eq
  · rw [hsame,Segmenting.total]
    exact Nat.le_add_right _ _
  · rw [g.make_total]
    omega

/-- The first bytes of data that is longer than a datagram fill the open segment, or are behind it
when there is no room. -/
theorem Segmenting.first_block_long {diff : Nat} (h : ¬g.Begins diff)
    (hsize : g.segmentsize ≤ g.segmentmaxsize) (hlong : diff>g.segmentmaxsize)
    (hcount : g.iosegment.length < ecMaxIoSegments) (hfollows : (g.extend diff).2.Follows g') :
    blockOf g'.iosegment g.total=g.iosegment.length+if g.Full diff then 1 else 0 := by
  have hmake : g.make diff={ g with segmentsize := g.segmentsize+diff } := if_neg h
  have hsame : (g.make diff).iosegment=g.iosegment := by rw [hmake]
  obtain ⟨n,hn⟩ : ∃ n,ecMaxIoSegments-g.iosegment.length=n+1 :=
    ⟨ecMaxIoSegments-g.iosegment.length-1,by omega⟩
  have hfull : (g.make diff).segmentsize>(g.make diff).segmentmaxsize := by
    rw [hmake]
    simp only
    omega
  have hstep : ((g.make diff).spill (n+1)).2=((g.make diff).full.spill n).2 := by
    rw [Segmenting.spill,if_pos hfull]
  have hfull_eq : (g.make diff).full=⟨g.iosegment++[g.segmentmaxsize],
      g.segmentsize+diff-g.segmentmaxsize,ecMaxLrwData⟩ := by
    rw [hmake]
    rfl
  have hrest : Segmenting.Follows ⟨g.iosegment++[g.segmentmaxsize],1,ecMaxLrwData⟩ g' := by
    simp only [Segmenting.extend] at hfollows
    rw [hsame,hn,hstep] at hfollows
    refine Segmenting.Follows.trans (Segmenting.spill_follows ?_ ?_ ?_) hfollows
    · rw [hfull_eq]
    · rw [hfull_eq]
      simp only
      omega
    · intro _
      rw [hfull_eq]
      exact (show 1 ≤ ecMaxLrwData by decide)
  by_cases hexact : g.segmentsize=g.segmentmaxsize
  · have hfirst := hrest.blockOf_eq (x := g.total)
    simp only [Segmenting.total,List.sum_append,List.sum_singleton,List.length_append,
      List.length_singleton] at hfirst
    rw [if_pos ⟨hexact,hlong⟩]
    exact hfirst (by omega) (by omega)
  · have hopen : Segmenting.Follows ⟨g.iosegment,g.segmentmaxsize,g.segmentmaxsize⟩
        ⟨g.iosegment++[g.segmentmaxsize],1,ecMaxLrwData⟩ :=
      ⟨g.segmentmaxsize,[1],by simp,Nat.le_refl _⟩
    rw [if_neg (fun h => hexact h.1)]
    refine (hopen.trans hrest).blockOf_eq ?_ ?_
    · exact Nat.le_add_right _ _
    · simp only [Segmenting.total]
      omega

/-- The datagrams that are counted for the bytes of a slave are those from its first byte to its
last one, except at a full segment. -/
theorem Segmenting.Sound.extend_counted (hg : g.Sound) {diff : Nat} (hdiff : 0 < diff)
    (hfollows : (g.extend diff).2.Follows g') (hcount : g'.iosegment.length < ecMaxIoSegments) :
    (g.extend diff).1+blockOf g'.iosegment g.total=
      blockOf g'.iosegment (g.total+diff-1)+1+if g.Full diff then 1 else 0 := by
  have hlen := ((hg.bounded.follows diff).trans hfollows).length_le
  have hsize := hg.bounded.size (by omega)
  by_cases hbegins : g.Begins diff
  · have heq := hbegins.extend_eq hg hdiff
    have hlast := hfollows.last_block hdiff
    rw [heq] at hfollows hlast ⊢
    simp only at hfollows hlast ⊢
    have hfirst : blockOf g'.iosegment g.total=(g.iosegment++[g.segmentsize]).length := by
      apply hfollows.blockOf_eq
      · simp only [List.sum_append,List.sum_singleton,Segmenting.total]
        exact Nat.le_refl _
      · simp only [Segmenting.total,List.sum_append,List.sum_singleton]
        omega
    have hfits := hbegins.2.1
    rw [hlast hdiff,hfirst,if_neg (fun h => by have := h.2; omega)]
    omega
  · obtain ⟨hsome,hcounted⟩ := Segmenting.extend_open hbegins hdiff
    rw [hfollows.last_block hdiff hsome]
    by_cases hfits : g.segmentsize+diff ≤ g.segmentmaxsize
    · rw [Segmenting.first_block_fits hbegins hdiff hfits hfollows,
        if_neg (fun h => by have := h.1; have := h.2; omega)]
      omega
    · have hlong : diff>g.segmentmaxsize := by
        by_contra hle
        exact hbegins ⟨by omega,by omega,by omega⟩
      rw [Segmenting.first_block_long hbegins hsize hlong (by omega) hfollows]
      omega

end Cut

section Hits

/-- An active FMMU has bytes in common with a datagram from `logAdr` on. -/
def Fmmu.Hits (f : Fmmu) (fmmuType logAdr length : Nat) : Prop :=
  f.fmmuActive≠0 ∧ f.fmmuType=fmmuType ∧
    max f.logStart logAdr < min (f.logStart+f.logLength) (logAdr+length)

instance Fmmu.Hits.decidable (f : Fmmu) (fmmuType logAdr length : Nat) :
    Decidable (f.Hits fmmuType logAdr length) :=
  inferInstanceAs (Decidable (_ ∧ _))

def Slave.Hits (s : Slave) (fmmuType logAdr length : Nat) : Prop :=
  ∃ i,i < ecMaxFmmu ∧ (s.fmmu i).Hits fmmuType logAdr length

instance Slave.Hits.decidable (s : Slave) (fmmuType logAdr length : Nat) :
    Decidable (s.Hits fmmuType logAdr length) :=
  inferInstanceAs (Decidable (∃ i,i < ecMaxFmmu ∧ (s.fmmu i).Hits fmmuType logAdr length))

def Slave.hits (s : Slave) (fmmuType : Nat) : List Nat → Nat → Nat
  | [],_ => 0
  | length::rest,logAdr =>
      (if s.Hits fmmuType logAdr length then 1 else 0)+s.hits fmmuType rest (logAdr+length)

theorem Slave.hits_fmmu {s s' : Slave} (h : s'.fmmu=s.fmmu) (fmmuType : Nat)
    (segments : List Nat) (logAdr : Nat) :
    s'.hits fmmuType segments logAdr=s.hits fmmuType segments logAdr := by
  induction segments generalizing logAdr with
  | nil => rfl
  | cons length rest ih =>
    have hfirst : s'.Hits fmmuType logAdr length ↔ s.Hits fmmuType logAdr length := by
      rw [Slave.Hits,Slave.Hits,h]
    rw [Slave.hits,Slave.hits,if_congr hfirst rfl rfl,ih]

/-- The slave has no FMMUs behind those of its table. -/
def Slave.Within (s : Slave) : Prop := ∀ i,ecMaxFmmu ≤ i → (s.fmmu i).fmmuActive=0

theorem Slave.Ready.within {s : Slave} (h : s.Ready) : s.Within :=
  fun i hi => h.idle i (h.room.trans hi)

theorem Slave.Within.hits_iff {s : Slave} (h : s.Within) (fmmuType logAdr length : Nat) :
    s.Hits fmmuType logAdr length ↔ ∃ x,x<length ∧ s.Maps fmmuType (logAdr+x) := by
  constructor
  · rintro ⟨i,-,hactive,htype,hcommon⟩
    obtain ⟨x,hx⟩ := Nat.exists_eq_add_of_le (Nat.le_max_right (s.fmmu i).logStart logAdr)
    exact ⟨x,by omega,i,hactive,htype,by omega,by omega⟩
  · rintro ⟨x,hx,i,hactive,htype,hlow,hhigh⟩
    refine ⟨i,?_,hactive,htype,by omega⟩
    by_contra hi
    exact hactive (h i (Nat.not_lt.mp hi))

theorem Slave.Within.hits_eq {s : Slave} (h : s.Within) (fmmuType : Nat) (segments : List Nat)
    (logAdr : Nat) {P : Nat → Prop} [DecidablePred P]
    (hP : ∀ x,P x ↔ s.Maps fmmuType (logAdr+x)) :
    s.hits fmmuType segments logAdr=touched P segments := by
  induction segments generalizing logAdr P with
  | nil => rfl
  | cons length rest ih =>
    have hfirst : s.Hits fmmuType logAdr length ↔ ∃ x,x<length ∧ P x :=
      (h.hits_iff fmmuType logAdr length).trans
        (exists_congr (fun x => and_congr_right (fun _ => (hP x).symm)))
    have hrest : ∀ x,P (length+x) ↔ s.Maps fmmuType (logAdr+length+x) := by
      intro x
      rw [hP,Nat.add_assoc]
    rw [Slave.hits,touched,if_congr hfirst rfl rfl,ih _ hrest]

theorem Slave.Within.hits_none {s : Slave} (h : s.Within) {fmmuType : Nat} (segments : List Nat)
    (logAdr : Nat) (hnone : ∀ a,¬s.Maps fmmuType a) : s.hits fmmuType segments logAdr=0 := by
  rw [h.hits_eq fmmuType segments logAdr (P := fun _ => False)
    (fun x => ⟨False.elim,fun hx => hnone _ hx⟩)]
  exact touched_none (fun _ _ => not_false)

theorem Slave.Within.hits_congr {s s' : Slave} (h : s.Within) (h' : s'.Within) {fmmuType : Nat}
    (segments : List Nat) (logAdr : Nat) (hsame : ∀ a,s'.Maps fmmuType a ↔ s.Maps fmmuType a) :
    s'.hits fmmuType segments logAdr=s.hits fmmuType segments logAdr := by
  classical
  rw [h'.hits_eq fmmuType segments logAdr (P := fun x => s.Maps fmmuType (logAdr+x))
      (fun x => (hsame _).symm),
    h.hits_eq fmmuType segments logAdr (P := fun x => s.Maps fmmuType (logAdr+x))
      (fun x => Iff.rfl)]

/-- What the slaves add to the working counters of the datagrams: one for a read, two for a write. -/
def Slave.counts (s : Slave) (logAdr length : Nat) : Nat :=
  (if s.Hits 1 logAdr length then 1 else 0)+if s.Hits 2 logAdr length then 2 else 0

/-- The working counter of a cycle of LRW datagrams without faults. -/
def workingCounter (slaves : List Slave) : List Nat → Nat → Nat
  | [],_ => 0
  | length::rest,logAdr =>
      (slaves.map (fun s => s.counts logAdr length)).sum+
        workingCounter slaves rest (logAdr+length)

def hitSum (slaves : List Slave) (fmmuType : Nat) (segments : List Nat) (logAdr : Nat) : Nat :=
  (slaves.map (fun s => s.hits fmmuType segments logAdr)).sum

theorem hitSum_cons (s : Slave) (rest : List Slave) (fmmuType : Nat) (segments : List Nat)
    (logAdr : Nat) : hitSum (s::rest) fmmuType segments logAdr=
      s.hits fmmuType segments logAdr+hitSum rest fmmuType segments logAdr := by
  rw [hitSum,List.map_cons,List.sum_cons]
  rfl

theorem workingCounter_cons (s : Slave) (rest : List Slave) (segments : List Nat)
    (logAdr : Nat) : workingCounter (s::rest) segments logAdr=
      s.hits 1 segments logAdr+2*s.hits 2 segments logAdr+workingCounter rest segments logAdr := by
  induction segments generalizing logAdr with
  | nil => rfl
  | cons length tail ih =>
    rw [workingCounter,workingCounter,ih,List.map_cons,List.sum_cons,Slave.hits,Slave.hits,
      Slave.counts]
    split_ifs <;> omega

theorem workingCounter_eq (slaves : List Slave) (segments : List Nat) (logAdr : Nat) :
    workingCounter slaves segments logAdr=
      hitSum slaves 1 segments logAdr+2*hitSum slaves 2 segments logAdr := by
  induction slaves with
  | nil =>
    induction segments generalizing logAdr with
    | nil => rfl
    | cons length tail ih => exact (Nat.zero_add _).trans (ih (logAdr+length))
  | cons s rest ih =>
    rw [workingCounter_cons,ih,hitSum_cons,hitSum_cons]
    omega

end Hits

section Direction

theorem extent_some {bits : Nat} (hbits : 0<bits) (bitPos : Nat) : 0 < (extent bits bitPos).2 := by
  rw [extent]
  split_ifs <;> simp only <;> omega

/-- Datagrams that are counted for one direction of a slave although none of its bytes is there: a
full segment, behind which data goes on that is too long for a datagram, and the segment that ends
with the open byte when the slave begins behind it, with whole bytes. -/
def countedTwice (closed : List Nat) (packed : Bool) (bits bitPos : Nat) (g : Segmenting) : Nat :=
  (if g.Full (pieceWidth packed bits bitPos).1 then 1 else 0)+
    if 7 < bits ∧ bitPos≠0 ∧ blockOf closed g.total≠blockOf closed (g.total+1) then 1 else 0

/-- Datagrams with bytes of a slave that are not counted for it: the one of the open byte, when its
bits stay inside, and when the byte has come to another segment than the bytes before. -/
def leftOut (closed : List Nat) (packed : Bool) (bits bitPos : Nat) (g : Segmenting) : Nat :=
  let w := pieceWidth packed bits bitPos
  if w.1=0 ∨ (w.2≠0 ∧ blockOf closed (g.total+w.1-1)≠blockOf closed (g.total+w.1)) then 1 else 0

/-- Something counted over one direction of a group: for each slave, by its bits, the bit and the
segments that it comes to, and for the last bits. -/
def directionTally (count : Nat → Nat → Segmenting → Nat) (last : Segmenting → Nat)
    (bits : Slave → UInt16) (packed : Bool) (group : Nat) : List Slave → Nat → Segmenting → Nat
  | [],bitPos,g => if bitPos≠0 then last g else 0
  | s::rest,bitPos,g =>
      if inGroup group s ∧ bits s≠0 then
        let w := pieceWidth packed (bits s).toNat bitPos
        count (bits s).toNat bitPos g+
          directionTally count last bits packed group rest w.2 (g.extend w.1).2
      else directionTally count last bits packed group rest bitPos g

/-- A segment that begins for the byte of the last bits is counted by itself. -/
def directionTwice (closed : List Nat) (bits : Slave → UInt16) (packed : Bool) (group : Nat) :
    List Slave → Nat → Segmenting → Nat :=
  directionTally (countedTwice closed packed)
    (fun g => if g.segmentsize=g.segmentmaxsize then 1 else 0) bits packed group

def directionLeftOut (closed : List Nat) (bits : Slave → UInt16) (packed : Bool) (group : Nat) :
    List Slave → Nat → Segmenting → Nat :=
  directionTally (leftOut closed packed) (fun _ => 0) bits packed group

variable {bits : Slave → UInt16} {fmmuType : Nat} {packed : Bool} {group : Nat}

theorem toNat_pos {n : UInt16} (h : n≠0) : 0<n.toNat := by
  have : n.toNat≠0 := fun hz => h (UInt16.toNat_inj.mp hz)
  omega

theorem openByte_le (bits : Slave → UInt16) (packed : Bool) (group : Nat) (slaves : List Slave)
    (bitPos : Nat) :
    openByte bitPos ≤ (padded (pieces bits packed group slaves bitPos)).sum := by
  induction slaves generalizing bitPos with
  | nil =>
    rw [padded_sum]
    exact Nat.le_add_left _ _
  | cons s rest ih =>
    rw [pieces]
    by_cases hin : inGroup group s ∧ bits s≠0
    · rw [if_pos hin,padded_sum]
      have hnext := ih (pieceWidth packed (bits s).toNat bitPos).2
      rw [padded_sum] at hnext
      obtain ⟨hfirst,hstop⟩ := extent_covers packed (bits s).toNat bitPos
      have hsome := extent_some (toNat_pos hin.2) bitPos
      have hone : openByte bitPos ≤ 1 := by
        rw [openByte]
        split_ifs <;> omega
      simp only [List.sum_cons]
      omega
    · rw [if_neg hin]
      exact ih bitPos

theorem padded_cons (n : Nat) (r : List Nat × Nat) : padded (n::r.1,r.2)=n::padded r := by
  rw [padded,padded]
  split_ifs <;> rfl

variable {g g' : Segmenting}

theorem width_stays {bits bitPos : Nat} (h : (pieceWidth packed bits bitPos).1=0) : bits ≤ 7 := by
  by_contra hlarge
  rw [pieceWidth,alignByte,width,if_neg hlarge] at h
  simp only [ne_eq,not_true_eq_false,and_false,if_false] at h
  omega

theorem Segmenting.pad_counted (hg : g.Sound) (hcount : g.iosegment.length < ecMaxIoSegments) :
    g.pad.1=if g.segmentsize=g.segmentmaxsize then 1 else 0 := by
  have hsize := hg.bounded.size hcount
  rw [Segmenting.pad]
  by_cases hfull : g.segmentsize=g.segmentmaxsize
  · rw [if_pos hfull,if_pos ⟨by omega,hcount⟩]
  · rw [if_neg hfull,if_neg (fun h => hfull (by omega))]

theorem extent_front (bits bitPos : Nat) :
    (extent bits bitPos).1=if 7 < bits ∧ bitPos≠0 then 1 else 0 := by
  rw [extent]
  by_cases hsmall : bits ≤ 7
  · rw [if_pos hsmall,if_neg (fun h => by omega)]
  · rw [if_neg hsmall]
    by_cases hopen : bitPos≠0
    · rw [if_pos hopen,if_pos ⟨by omega,hopen⟩]
    · rw [if_neg hopen,if_neg (fun h => hopen h.2)]

/-- What is counted for one slave. -/
theorem counted_slave (hg : g.Sound) {s s' : Slave} {start bitPos : Nat} (hbits : bits s≠0)
    (hext : s.Extended s' fmmuType (start+g.total+(extent (bits s).toNat bitPos).1)
      (extent (bits s).toNat bitPos).2)
    (hnone : ∀ a,¬s.Maps fmmuType a) (hopen : g'.Open)
    (hfollows : (g.extend (pieceWidth packed (bits s).toNat bitPos).1).2.Follows g')
    (hroom : g.total+(pieceWidth packed (bits s).toNat bitPos).1+
      openByte (pieceWidth packed (bits s).toNat bitPos).2 ≤ g'.total) :
    (g.extend (pieceWidth packed (bits s).toNat bitPos).1).1+
        leftOut g'.iosegment packed (bits s).toNat bitPos g=
      s'.hits fmmuType (g'.iosegment++[g'.segmentsize]) start+
        countedTwice g'.iosegment packed (bits s).toNat bitPos g := by
  obtain ⟨hfirst,hstop⟩ := extent_covers packed (bits s).toNat bitPos
  have hsome := extent_some (toNat_pos hbits) bitPos
  obtain ⟨n,hn⟩ := Nat.exists_eq_add_of_lt hsome
  rw [Nat.zero_add] at hn
  have htotal : g'.total=g'.iosegment.sum+g'.segmentsize := rfl
  have hstep := blockOf_step fun size hsize => (hopen.closed size hsize).1
  -- the FMMUs of the slave
  have hrange := touched_range (fun size hsize => (hopen.closed size hsize).1) g'.segmentsize
    (g.total+(extent (bits s).toNat bitPos).1) n (by omega)
  have hhits : s'.hits fmmuType (g'.iosegment++[g'.segmentsize]) start=
      touched (fun x => g.total+(extent (bits s).toNat bitPos).1 ≤ x ∧
        x<g.total+(extent (bits s).toNat bitPos).1+(n+1)) (g'.iosegment++[g'.segmentsize]) := by
    apply hext.ready.within.hits_eq
    intro x
    rw [hext.maps]
    constructor
    · intro hx
      exact .inr ⟨rfl,by omega,by omega⟩
    · rintro (hmaps|⟨-,hlow,hhigh⟩)
      · exact absurd hmaps (hnone _)
      · omega
  rw [hhits,leftOut,countedTwice]
  by_cases hstay : (pieceWidth packed (bits s).toNat bitPos).1=0
  · have hone : openByte (pieceWidth packed (bits s).toNat bitPos).2 ≤ 1 := by
      rw [openByte]
      split_ifs <;> omega
    have hlen := hfollows.length_le
    have hcount := hopen.count
    have hsmall := width_stays hstay
    rw [hstay] at hlen ⊢
    have hzero := hg.bounded.extend_zero
      (((hg.bounded.follows 0).length_le.trans hlen).trans_lt hcount)
    rw [hzero,if_pos (.inl rfl),if_neg (fun h => Nat.not_lt_zero _ h.2),
      if_neg (fun h => by have := h.1; omega)]
    have hn0 : n=0 := by omega
    subst hn0
    simp only [Nat.add_zero] at hrange ⊢
    omega
  · have hcounted := hg.extend_counted (Nat.pos_of_ne_zero hstay) hfollows hopen.count
    -- the first byte may lie behind the open one, the last one may be open
    have hfront : blockOf g'.iosegment (g.total+(extent (bits s).toNat bitPos).1)=
        blockOf g'.iosegment g.total+if 7<(bits s).toNat ∧ bitPos≠0 ∧
          blockOf g'.iosegment g.total≠blockOf g'.iosegment (g.total+1) then 1 else 0 := by
      rw [extent_front]
      by_cases hbehind : 7<(bits s).toNat ∧ bitPos≠0
      · rw [if_pos hbehind]
        refine (hstep g.total).trans (congrArg _ (if_congr ?_ rfl rfl))
        exact ⟨fun h => ⟨hbehind.1,hbehind.2,h⟩,fun h => h.2.2⟩
      · rw [if_neg hbehind,if_neg (fun h => hbehind ⟨h.1,h.2.1⟩)]
        rfl
    have hback : blockOf g'.iosegment (g.total+(extent (bits s).toNat bitPos).1+n)=
        blockOf g'.iosegment (g.total+(pieceWidth packed (bits s).toNat bitPos).1-1)+
          if (pieceWidth packed (bits s).toNat bitPos).2≠0 ∧
            blockOf g'.iosegment (g.total+(pieceWidth packed (bits s).toNat bitPos).1-1)≠
              blockOf g'.iosegment (g.total+(pieceWidth packed (bits s).toNat bitPos).1)
            then 1 else 0 := by
      have hlast := hstep (g.total+(pieceWidth packed (bits s).toNat bitPos).1-1)
      rw [Nat.sub_add_cancel (by omega)] at hlast
      by_cases hopened : (pieceWidth packed (bits s).toNat bitPos).2≠0
      · rw [openByte,if_pos hopened] at hstop
        rw [show g.total+(extent (bits s).toNat bitPos).1+n=
          g.total+(pieceWidth packed (bits s).toNat bitPos).1 by omega]
        simp only [hopened,true_and,ne_eq,not_false_eq_true]
        exact hlast
      · rw [openByte,if_neg hopened] at hstop
        rw [if_neg (fun h => hopened h.1),Nat.add_zero]
        congr 1
        omega
    rw [hfront,hback] at hrange
    simp only [hstay,false_or]
    omega

/-- What is counted for one direction of a group. -/
theorem Placed.counted_eq {base bitPos : Nat} {slaves slaves' : List Slave}
    (h : Placed bits fmmuType packed group base bitPos slaves slaves') (start : Nat)
    (hbase : base=start+g.total) (hg : g.Sound) (hopen : g'.Open)
    (hfollows : (cut g (padded (pieces bits packed group slaves bitPos))).Follows g')
    (hwithin : ∀ s ∈ slaves,s.Within) (hnone : ∀ s ∈ slaves,∀ a,¬s.Maps fmmuType a) :
    counted bits packed group slaves bitPos g+
        directionLeftOut g'.iosegment bits packed group slaves bitPos g=
      hitSum slaves' fmmuType (g'.iosegment++[g'.segmentsize]) start+
        directionTwice g'.iosegment bits packed group slaves bitPos g := by
  rw [directionLeftOut,directionTwice]
  induction h generalizing g with
  | nil base bitPos =>
    have hlen := ((cut_sound hg _).2.1.trans hfollows).length_le
    rw [counted,directionTally,directionTally,hitSum,
      Segmenting.pad_counted hg (hlen.trans_lt hopen.count)]
    simp
  | skip base bitPos s rest rest' hskip _ ih =>
    rw [pieces,if_neg hskip] at hfollows
    have hnext := ih hbase hg hfollows (fun x hx => hwithin x (List.mem_cons_of_mem s hx))
      (fun x hx => hnone x (List.mem_cons_of_mem s hx))
    rw [counted,if_neg hskip,directionTally,if_neg hskip,directionTally,if_neg hskip,hitSum_cons,
      (hwithin s List.mem_cons_self).hits_none _ _ (hnone s List.mem_cons_self),Nat.zero_add]
    exact hnext
  | place base bitPos s s' rest rest' hin hext _ ih =>
    rw [pieces,if_pos hin,padded_cons] at hfollows
    have hsound : (g.extend (pieceWidth packed (bits s).toNat bitPos).1).2.Sound :=
      ⟨hg.bounded.extend hg.count _,g.extend_count _ hg.count⟩
    have htotal := g.extend_total (pieceWidth packed (bits s).toNat bitPos).1
    have hrest := cut_sound hsound (padded (pieces bits packed group rest
      (pieceWidth packed (bits s).toNat bitPos).2))
    have hroom := openByte_le bits packed group rest
      (pieceWidth packed (bits s).toNat bitPos).2
    have hle := hfollows.total_le
    have hnext := ih (g := (g.extend (pieceWidth packed (bits s).toNat bitPos).1).2) (by omega)
      hsound hfollows (fun x hx => hwithin x (List.mem_cons_of_mem s hx))
      (fun x hx => hnone x (List.mem_cons_of_mem s hx))
    have hsum : (cut g ((pieceWidth packed (bits s).toNat bitPos).1::padded (pieces bits packed
        group rest (pieceWidth packed (bits s).toNat bitPos).2))).total=
        g.total+(pieceWidth packed (bits s).toNat bitPos).1+(padded (pieces bits packed group rest
          (pieceWidth packed (bits s).toNat bitPos).2)).sum := by
      rw [← htotal]
      exact hrest.2.2
    rw [hbase] at hext
    have hslave := counted_slave hg hin.2 hext (hnone s List.mem_cons_self) hopen
      (hrest.2.1.trans hfollows) (by omega)
    rw [counted,if_pos hin,directionTally,if_pos hin,directionTally,if_pos hin,hitSum_cons]
    simp only
    omega

end Direction

end EtherCATMaster.Mapping
