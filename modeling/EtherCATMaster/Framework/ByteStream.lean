import Mathlib.Data.List.Basic
import Mathlib.Tactic.Ring

namespace EtherCATMaster.Framework

/-- The lowest `n` bytes of a number, least significant first. -/
def leBytes : Nat → Nat → List UInt8
  | 0,_ => []
  | n+1,v => UInt8.ofNat v::leBytes n (v/256)

def leValue : List UInt8 → Nat
  | [] => 0
  | b::bs => b.toNat+256*leValue bs

@[simp] theorem leBytes_length (n v : Nat) : (leBytes n v).length=n := by
  induction n generalizing v with
  | zero => rfl
  | succ n ih => simp [leBytes,ih]

theorem leValue_leBytes (n v : Nat) (h : v<256^n) : leValue (leBytes n v)=v := by
  induction n generalizing v with
  | zero =>
    have hv : v=0 := by simpa using h
    simp [leBytes,leValue,hv]
  | succ n ih =>
    have hd : v/256<256^n := by
      rw [Nat.div_lt_iff_lt_mul (by decide)]
      rw [Nat.pow_succ] at h
      exact h
    simp only [leBytes,leValue,ih _ hd,UInt8.toNat_ofNat']
    omega

theorem leBytes_leValue (bs : List UInt8) : leBytes bs.length (leValue bs)=bs := by
  induction bs with
  | nil => rfl
  | cons b bs ih =>
    have hlt := b.toNat_lt
    have hlow : UInt8.ofNat (b.toNat+256*leValue bs)=b := by
      rw [← UInt8.toNat_inj,UInt8.toNat_ofNat']
      omega
    have hhigh : (b.toNat+256*leValue bs)/256=leValue bs := by omega
    rw [List.length_cons,leValue,leBytes,hlow,hhigh,ih]

theorem leValue_lt (bs : List UInt8) : leValue bs<256^bs.length := by
  induction bs with
  | nil => exact Nat.one_pos
  | cons b bs ih =>
    have hlt := b.toNat_lt
    rw [leValue,List.length_cons,Nat.pow_succ]
    omega

def le16 (x : UInt16) : List UInt8 := leBytes 2 x.toNat

def le32 (x : UInt32) : List UInt8 := leBytes 4 x.toNat

def get16 (bytes : List UInt8) (offset : Nat) : UInt16 :=
  UInt16.ofNat (leValue ((bytes.drop offset).take 2))

def get32 (bytes : List UInt8) (offset : Nat) : UInt32 :=
  UInt32.ofNat (leValue ((bytes.drop offset).take 4))

@[simp] theorem le16_length (x : UInt16) : (le16 x).length=2 := leBytes_length _ _

@[simp] theorem le32_length (x : UInt32) : (le32 x).length=4 := leBytes_length _ _

theorem get16_le16 (front : List UInt8) (x : UInt16) (rest : List UInt8) :
    get16 (front++(le16 x++rest)) front.length=x := by
  have ht : ((front++(le16 x++rest)).drop front.length).take 2=le16 x := by
    rw [List.drop_left]
    exact List.take_left' (le16_length x)
  rw [get16,ht,le16,leValue_leBytes _ _ (by have := x.toNat_lt; simpa using this)]
  exact UInt16.ofNat_toNat

theorem get32_le32 (front : List UInt8) (x : UInt32) (rest : List UInt8) :
    get32 (front++(le32 x++rest)) front.length=x := by
  have ht : ((front++(le32 x++rest)).drop front.length).take 4=le32 x := by
    rw [List.drop_left]
    exact List.take_left' (le32_length x)
  rw [get32,ht,le32,leValue_leBytes _ _ (by have := x.toNat_lt; simpa using this)]
  exact UInt32.ofNat_toNat

theorem le32_get32 {bs : List UInt8} (h : bs.length=4) : le32 (get32 bs 0)=bs := by
  have hlt := leValue_lt bs
  rw [h] at hlt
  have hall : (bs.drop 0).take 4=bs := List.take_of_length_le (Nat.le_of_eq h)
  have hnat : (UInt32.ofNat (leValue bs)).toNat=leValue bs := by
    rw [UInt32.toNat_ofNat']
    exact Nat.mod_eq_of_lt hlt
  rw [get32,hall,le32,hnat,← h]
  exact leBytes_leValue bs

theorem field_of_front {xs ys : List UInt8} (h : xs <+: ys) {offset n : Nat}
    (ho : offset+n ≤ xs.length) : (ys.drop offset).take n=(xs.drop offset).take n := by
  obtain ⟨rest,rfl⟩ := h
  rw [List.drop_append_of_le_length (by omega),List.take_append_of_le_length]
  rw [List.length_drop]
  omega

theorem get16_of_front {xs ys : List UInt8} (h : xs <+: ys) {offset : Nat}
    (ho : offset+2 ≤ xs.length) : get16 ys offset=get16 xs offset := by
  rw [get16,get16,field_of_front h ho]

theorem get32_of_front {xs ys : List UInt8} (h : xs <+: ys) {offset : Nat}
    (ho : offset+4 ≤ xs.length) : get32 ys offset=get32 xs offset := by
  rw [get32,get32,field_of_front h ho]

/-- The reading end of a stream: how much was read, and what is still to come. -/
structure Inlet (α : Type*) where
  pos : Nat
  items : List α
  deriving DecidableEq, Repr

variable {α : Type*}

/-- One read of at most `want` items. The environment hands over `piece pos want` of them, or as
many as there are. -/
def Inlet.read (piece : Nat → Nat → Nat) (s : Inlet α) (want : Nat) : List α × Inlet α :=
  let n := min (piece s.pos want) (min want s.items.length)
  (s.items.take n,⟨s.pos+n,s.items.drop n⟩)

/-- Reads until `size` items are gathered; a read that brings nothing ends it. -/
def gather (piece : Nat → Nat → Nat) (size : Nat) :
    Nat → List α → Inlet α → Option (List α) × Inlet α
  | 0,data,s => (if data.length < size then none else some data,s)
  | fuel+1,data,s =>
      if data.length < size then
        let got := s.read piece (size-data.length)
        if got.1=[] then (none,got.2) else gather piece size fuel (data++got.1) got.2
      else (some data,s)

def Hands (piece : Nat → Nat → Nat) (size : Nat) : Prop :=
  ∀ pos want,0<want → want ≤ size → 0<piece pos want

/-- However the stream is chopped, the loop gathers the items that come next. -/
theorem gather_eq {piece : Nat → Nat → Nat} {size : Nat} (hp : Hands piece size) :
    ∀ (fuel : Nat) (data : List α) (s : Inlet α),size-data.length ≤ fuel → data.length ≤ size →
      size ≤ data.length+s.items.length →
      gather piece size fuel data s=
        (some (data++s.items.take (size-data.length)),
          ⟨s.pos+(size-data.length),s.items.drop (size-data.length)⟩) := by
  intro fuel
  induction fuel with
  | zero =>
    intro data s hf hle _
    have hz : size-data.length=0 := by omega
    have hn : ¬data.length < size := by omega
    simp only [gather,if_neg hn,hz,List.take_zero,List.append_nil,Nat.add_zero,List.drop_zero]
  | succ fuel ih =>
    intro data s hf hle havail
    by_cases hlt : data.length < size
    · have hpiece := hp s.pos (size-data.length) (by omega) (by omega)
      let n := min (piece s.pos (size-data.length)) (min (size-data.length) s.items.length)
      have hn : 0<n ∧ n ≤ size-data.length ∧ n ≤ s.items.length := by
        simp only [n]
        omega
      have htake : (s.items.take n).length=n := by
        rw [List.length_take]
        omega
      have hne : s.items.take n≠[] := by
        intro h
        rw [h] at htake
        simp at htake
        omega
      have hstep : gather piece size (fuel+1) data s=
          gather piece size fuel (data++s.items.take n) ⟨s.pos+n,s.items.drop n⟩ := by
        rw [gather,if_pos hlt]
        exact if_neg hne
      have hlen : (data++s.items.take n).length=data.length+n := by
        rw [List.length_append,htake]
      rw [hstep,ih _ _ (by omega) (by omega) (by simp only [List.length_drop]; omega),hlen]
      have hsplit : size-data.length=n+(size-(data.length+n)) := by omega
      rw [hsplit,List.take_add,List.append_assoc,List.drop_drop,Nat.add_assoc]
    · have hz : size-data.length=0 := by omega
      simp only [gather,if_neg hlt,hz,List.take_zero,List.append_nil,Nat.add_zero,List.drop_zero]

/-- Writes `data` from item `sent` on, in pieces that the environment accepts. -/
def scatter (piece : Nat → Nat → Nat) (data : List α) : Nat → Nat → List α → Option (List α)
  | 0,sent,out => if sent<data.length then none else some out
  | fuel+1,sent,out =>
      if sent<data.length then
        let n := min (piece out.length (data.length-sent)) (data.length-sent)
        if n=0 then none else scatter piece data fuel (sent+n) (out++(data.drop sent).take n)
      else some out

theorem scatter_eq {piece : Nat → Nat → Nat} {data : List α} (hp : Hands piece data.length) :
    ∀ (fuel sent : Nat) (out : List α),data.length-sent ≤ fuel →
      scatter piece data fuel sent out=some (out++data.drop sent) := by
  intro fuel
  induction fuel with
  | zero =>
    intro sent out hf
    have hn : ¬sent<data.length := by omega
    have hd : data.drop sent=[] := List.drop_of_length_le (by omega)
    simp only [scatter,if_neg hn,hd,List.append_nil]
  | succ fuel ih =>
    intro sent out hf
    by_cases hlt : sent<data.length
    · have hpiece := hp out.length (data.length-sent) (by omega) (by omega)
      let n := min (piece out.length (data.length-sent)) (data.length-sent)
      have hn : 0<n ∧ n ≤ data.length-sent := by
        simp only [n]
        omega
      have hstep : scatter piece data (fuel+1) sent out=
          scatter piece data fuel (sent+n) (out++(data.drop sent).take n) := by
        rw [scatter,if_pos hlt]
        exact if_neg (by omega)
      rw [hstep,ih _ _ (by omega),List.append_assoc]
      congr 2
      rw [← List.drop_drop,List.take_append_drop]
    · have hd : data.drop sent=[] := List.drop_of_length_le (by omega)
      simp only [scatter,if_neg hlt,hd,List.append_nil]

end EtherCATMaster.Framework
