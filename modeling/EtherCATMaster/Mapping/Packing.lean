import EtherCATMaster.Mapping.Segments

namespace EtherCATMaster.Mapping

/-- What is left of the datagram that a position is in. Positions count all bytes of every datagram,
those in front of the process data in the first one too. -/
def datagramRoom (pos : Nat) : Nat := ((pos-1)/ecMaxLrwData+1)*ecMaxLrwData-pos

def datagramSize (pos : Nat) : Nat :=
  if pos ≤ ecMaxLrwData then ecMaxLrwData-ecFirstDcDatagram else ecMaxLrwData

/-- A piece goes behind the others. If it does not fit there, but in a datagram, it goes into the
next one. -/
def putPiece (pos piece : Nat) : Nat :=
  if datagramRoom pos < piece ∧ piece ≤ datagramSize pos then pos+datagramRoom pos+piece
  else pos+piece

/-- Where the last of some pieces ends. -/
def putPieces (pos : Nat) (pieces : List Nat) : Nat := pieces.foldl putPiece pos

theorem le_putPiece (pos piece : Nat) : pos ≤ putPiece pos piece := by
  rw [putPiece]
  split_ifs <;> omega

section Filling

variable {g : Segmenting}

/-- The open segment has got to a position. -/
structure Segmenting.At (g : Segmenting) (pos : Nat) : Prop where
  limit : g.segmentmaxsize=if g.iosegment=[] then ecMaxLrwData-ecFirstDcDatagram else ecMaxLrwData
  begun : g.iosegment≠[] → 0 < g.segmentsize
  pos : pos=g.iosegment.length*ecMaxLrwData+(if g.iosegment=[] then ecFirstDcDatagram else 0)+
    g.segmentsize

/-- The segments have got to a position, or the entries of `IOsegment` are used up. -/
def Segmenting.Filled (g : Segmenting) (pos : Nat) : Prop :=
  (g.iosegment.length < ecMaxIoSegments ∧ g.segmentsize ≤ g.segmentmaxsize ∧ g.At pos) ∨
    (g.iosegment.length=ecMaxIoSegments ∧ ecMaxIoSegments*ecMaxLrwData<pos)

theorem Segmenting.Filled.count_iff {pos : Nat} (h : g.Filled pos) :
    g.iosegment.length < ecMaxIoSegments ↔ pos ≤ ecMaxIoSegments*ecMaxLrwData := by
  have hlrw : ecMaxLrwData=1486 := rfl
  have hdc : ecFirstDcDatagram=20 := rfl
  have hmax : ecMaxIoSegments=64 := rfl
  rcases h with ⟨hcount,hsize,hat⟩|⟨hcount,hpos⟩
  · have hlimit := hat.limit
    have hpos := hat.pos
    rw [hlrw] at hlimit hpos
    rw [hmax,hlrw]
    split_ifs at hlimit hpos <;> omega
  · omega

theorem Segmenting.At.full {pos : Nat} (h : g.At pos) (hfull : g.segmentsize>g.segmentmaxsize) :
    g.full.At pos := by
  have hlimit := h.limit
  have hpos := h.pos
  have hsome : g.full.iosegment≠[] := List.append_ne_nil_of_right_ne_nil _ (List.cons_ne_nil _ _)
  refine ⟨?_,fun _ => Nat.sub_pos_of_lt hfull,?_⟩
  · rw [if_neg hsome]
    rfl
  · rw [if_neg hsome]
    simp only [Segmenting.full,List.length_append,List.length_singleton]
    rw [Nat.add_mul,Nat.one_mul]
    split_ifs at hlimit hpos with hfirst
    · have hdc : ecFirstDcDatagram ≤ ecMaxLrwData := by decide
      omega
    · omega

theorem Segmenting.At.spill {n pos : Nat} (h : g.At pos)
    (hn : n+g.iosegment.length=ecMaxIoSegments) : (g.spill n).2.Filled pos := by
  induction n generalizing g with
  | zero =>
    have hcount : g.iosegment.length=ecMaxIoSegments := by omega
    have hmax : ecMaxIoSegments=64 := rfl
    have hsome : g.iosegment≠[] := by
      intro hnil
      rw [hnil,List.length_nil] at hcount
      omega
    have hpos := h.pos
    have hbegun := h.begun hsome
    rw [if_neg hsome,hcount] at hpos
    exact .inr ⟨hcount,by omega⟩
  | succ n ih =>
    rw [Segmenting.spill]
    split_ifs with hfull
    · refine ih (h.full hfull) ?_
      simp only [Segmenting.full,List.length_append,List.length_singleton]
      omega
    · exact .inl ⟨by simp only; omega,Nat.not_lt.mp hfull,h⟩

/-- A piece is put into the segments as it is put into datagrams. -/
theorem Segmenting.Filled.extend {pos : Nat} (h : g.Filled pos) (piece : Nat) :
    (g.extend piece).2.Filled (putPiece pos piece) := by
  have hlrw : ecMaxLrwData=1486 := rfl
  have hdc : ecFirstDcDatagram=20 := rfl
  rcases h with ⟨hcount,hsize,hat⟩|⟨hcount,hpos⟩
  · have hlimit := hat.limit
    have hpos := hat.pos
    have hbegun := hat.begun
    -- the open segment is the datagram that the position is in
    have hroom : datagramRoom pos=g.segmentmaxsize-g.segmentsize ∧
        datagramSize pos=g.segmentmaxsize ∧
        pos+datagramRoom pos=(g.iosegment.length+1)*ecMaxLrwData := by
      rw [datagramRoom,datagramSize]
      rw [hlrw] at hlimit hpos ⊢
      by_cases hfirst : g.iosegment=[]
      · rw [if_pos hfirst] at hlimit hpos
        rw [hfirst,List.length_nil] at hpos ⊢
        rw [if_pos (by omega)]
        omega
      · have hlen := List.length_pos_of_ne_nil hfirst
        have hpositive := hbegun hfirst
        rw [if_neg hfirst] at hlimit hpos
        rw [if_neg (by omega)]
        omega
    simp only [Segmenting.extend,Segmenting.make,putPiece]
    rw [hroom.1,hroom.2.1]
    by_cases hclose : g.segmentsize+piece>g.segmentmaxsize ∧ piece ≤ g.segmentmaxsize ∧
        g.iosegment.length < ecMaxIoSegments
    · rw [if_pos hclose,if_pos (by omega)]
      apply Segmenting.At.spill
      · have hsome : g.iosegment++[g.segmentsize]≠[] :=
          List.append_ne_nil_of_right_ne_nil _ (List.cons_ne_nil _ _)
        refine ⟨by rw [if_neg hsome],fun _ => by simp only; omega,?_⟩
        rw [if_neg hsome]
        simp only [List.length_append,List.length_singleton]
        omega
      · simp only [List.length_append,List.length_singleton]
        omega
    · rw [if_neg hclose,if_neg (by omega)]
      apply Segmenting.At.spill
      · refine ⟨hlimit,fun hsome => ?_,?_⟩
        · have hpositive := hbegun hsome
          simp only
          omega
        · simp only
          omega
      · simp only
        omega
  · have hstay : (g.extend piece).2.iosegment.length=ecMaxIoSegments := by
      simp only [Segmenting.extend,Segmenting.make]
      rw [if_neg (by omega)]
      simp only [hcount,Nat.sub_self,Segmenting.spill]
    exact .inr ⟨hstay,hpos.trans_le (le_putPiece pos piece)⟩

theorem Segmenting.Filled.cut {pos : Nat} (h : g.Filled pos) (pieces : List Nat) :
    (Mapping.cut g pieces).Filled (putPieces pos pieces) := by
  induction pieces generalizing g pos with
  | nil => exact h
  | cons piece rest ih => exact ih (h.extend piece)

theorem Segmenting.start_filled : Segmenting.start.Filled ecFirstDcDatagram :=
  .inl ⟨by decide,by decide,⟨rfl,fun h => absurd rfl h,rfl⟩⟩

/-- The entries of `IOsegment` suffice for some pieces exactly if the datagrams do. -/
theorem cut_count_iff (pieces : List Nat) :
    (cut .start pieces).iosegment.length < ecMaxIoSegments ↔
      putPieces ecFirstDcDatagram pieces ≤ ecMaxIoSegments*ecMaxLrwData :=
  (Segmenting.start_filled.cut pieces).count_iff

end Filling

end EtherCATMaster.Mapping
