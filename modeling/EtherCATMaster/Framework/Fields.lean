import Mathlib

namespace EtherCATMaster.Framework

variable {α : Type*}

section Trim

def trim (blank : α → Bool) (text : List α) : List α := (text.dropWhile blank).rdropWhile blank

/-- A text that does not begin or end with a blank. -/
structure Trimmed (blank : α → Bool) (text : List α) : Prop where
  first : ∀ c rest,text=c::rest → blank c=false
  last : ∀ front c,text=front++[c] → blank c=false

variable {blank : α → Bool} {text : List α}

theorem trim_trimmed (blank : α → Bool) (text : List α) : Trimmed blank (trim blank text) := by
  constructor
  · intro c rest h
    obtain ⟨tail,htail⟩ := List.rdropWhile_prefix blank (l := text.dropWhile blank)
    rw [trim] at h
    rw [h] at htail
    have hne : text.dropWhile blank≠[] := by
      rw [← htail]
      simp
    have hfirst := List.head_dropWhile_not blank hne
    have hhead : (text.dropWhile blank).head hne=c := by
      simp only [← htail,List.cons_append,List.head_cons]
    rw [hhead] at hfirst
    exact hfirst
  · intro front c h
    have hne : List.rdropWhile blank (text.dropWhile blank)≠[] := by
      rw [trim] at h
      rw [h]
      simp
    have hlast := List.rdropWhile_last_not blank (text.dropWhile blank) hne
    have hc : (List.rdropWhile blank (text.dropWhile blank)).getLast hne=c := by
      rw [trim] at h
      simp only [h,List.getLast_append_singleton]
    rw [hc] at hlast
    simpa using hlast

theorem trim_eq (h : Trimmed blank text) : trim blank text=text := by
  have hfront : text.dropWhile blank=text := by
    cases text with
    | nil => rfl
    | cons c rest => rw [List.dropWhile_cons,h.first c rest rfl,if_neg (by decide)]
  have hback : text.rdropWhile blank=text := by
    rcases List.eq_nil_or_concat' text with hnil|⟨front,c,hc⟩
    · rw [hnil]
      rfl
    · rw [hc,List.rdropWhile_concat,h.last front c hc,if_neg (by decide)]
  rw [trim,hfront,hback]

theorem trim_length_le (blank : α → Bool) (text : List α) : (trim blank text).length ≤ text.length :=
  (List.rdropWhile_prefix blank _).length_le.trans (List.dropWhile_sublist blank).length_le

theorem mem_of_mem_trim {c : α} (h : c∈trim blank text) : c∈text :=
  (List.dropWhile_sublist blank).subset ((List.rdropWhile_prefix blank _).subset h)

end Trim

section Tokens

variable [BEq α] [LawfulBEq α]

def tokens (separator : α) (text : List α) : List (List α) :=
  (text.splitOn separator).filter (fun part => !part.isEmpty)

theorem tokens_intercalate (separator : α) {parts : List (List α)} (hne : parts≠[])
    (h : ∀ part ∈ parts,separator∉part) :
    tokens separator ([separator].intercalate parts)=parts.filter (fun part => !part.isEmpty) := by
  rw [tokens,List.splitOn_intercalate separator h hne]

end Tokens

section Joined

variable (separator : α)

theorem mem_of_mem_intercalate {c : α} {parts : List (List α)}
    (h : c∈[separator].intercalate parts) : c=separator ∨ ∃ part ∈ parts,c∈part := by
  induction parts with
  | nil => cases h
  | cons part parts ih =>
    by_cases hne : parts=[]
    · rw [hne,List.intercalate_singleton] at h
      exact .inr ⟨part,List.mem_cons_self,h⟩
    · rw [List.intercalate_cons_of_ne_nil hne,List.mem_append,List.mem_append,
        List.mem_singleton] at h
      rcases h with (hpart|hseparator)|hrest
      · exact .inr ⟨part,List.mem_cons_self,hpart⟩
      · exact .inl hseparator
      · rcases ih hrest with hseparator|⟨later,hlater,hc⟩
        · exact .inl hseparator
        · exact .inr ⟨later,List.mem_cons_of_mem _ hlater,hc⟩

theorem length_intercalate_le (parts : List (List α)) :
    ([separator].intercalate parts).length ≤ (parts.map List.length).sum+parts.length := by
  induction parts with
  | nil => exact Nat.le_refl 0
  | cons part parts ih =>
    rw [List.map_cons,List.sum_cons,List.length_cons]
    by_cases hne : parts=[]
    · rw [hne,List.intercalate_singleton]
      omega
    · rw [List.intercalate_cons_of_ne_nil hne,List.length_append,List.length_append,
        List.length_singleton]
      omega

theorem intercalate_concat (parts : List (List α)) (hne : parts≠[]) (last : List α) :
    [separator].intercalate (parts++[last])=[separator].intercalate parts++separator::last := by
  induction parts with
  | nil => exact absurd rfl hne
  | cons part parts ih =>
    by_cases hnil : parts=[]
    · rw [hnil,List.singleton_append,List.intercalate_cons_cons,List.intercalate_singleton,
        List.intercalate_singleton,List.append_assoc,List.singleton_append]
    · rw [List.cons_append,List.intercalate_cons_of_ne_nil (by simp),ih hnil,
        List.intercalate_cons_of_ne_nil hnil,List.append_assoc,List.append_assoc,List.append_assoc]

end Joined

section Packed

def packed (parts : List (List α)) : List (List α) :=
  parts.filter (fun part => !part.isEmpty)++
    List.replicate (parts.length-(parts.filter fun part => !part.isEmpty).length) []

/-- No part that is not empty comes behind an empty one. -/
def Packed (parts : List (List α)) : Prop := parts.Pairwise fun part later => part=[] → later=[]

theorem packed_packed (parts : List (List α)) : Packed (packed parts) := by
  rw [Packed,packed,List.pairwise_append]
  refine ⟨?_,?_,?_⟩
  · refine List.Pairwise.imp_of_mem ?_ (List.pairwise_of_forall (R := fun _ _ => True)
      fun _ _ => trivial)
    intro part later hpart _ _ hnil
    have hne := (List.mem_filter.mp hpart).2
    rw [hnil] at hne
    cases hne
  · exact List.pairwise_replicate.mpr (.inr fun _ => rfl)
  · intro _ _ later hlater _
    exact List.eq_of_mem_replicate hlater

theorem packed_eq {parts : List (List α)} (h : Packed parts) : packed parts=parts := by
  induction parts with
  | nil => rfl
  | cons part parts ih =>
    obtain ⟨hfirst,hrest⟩ := List.pairwise_cons.mp h
    cases part with
    | nil =>
      -- all the others are empty as well
      have hall : parts.filter (fun part => !part.isEmpty)=[] := by
        rw [List.filter_eq_nil_iff]
        intro later hlater
        rw [hfirst later hlater rfl]
        simp
      have hsame : parts=List.replicate parts.length [] :=
        List.eq_replicate_iff.mpr ⟨rfl,fun later hlater => hfirst later hlater rfl⟩
      rw [packed,List.filter_cons_of_neg (by simp),hall,List.nil_append,List.length_nil,
        Nat.sub_zero,List.length_cons,List.replicate_succ,← hsame]
    | cons c text =>
      have htail := ih hrest
      rw [packed] at htail
      rw [packed,List.filter_cons_of_pos (by rfl),List.length_cons,List.length_cons,
        Nat.succ_sub_succ,List.cons_append,htail]

theorem packed_of_drop {parts : List (List α)}
    (h : ∀ part ∈ parts.drop (parts.filter fun part => !part.isEmpty).length,part=[]) :
    packed parts=parts := by
  generalize hk : (parts.filter fun part => !part.isEmpty).length=k at h
  have hle : k ≤ parts.length := by
    rw [← hk]
    exact List.length_filter_le _ _
  have hdrop : (parts.drop k).filter (fun part => !part.isEmpty)=[] := by
    rw [List.filter_eq_nil_iff]
    intro part hpart
    rw [h part hpart]
    simp
  have hsplit := List.take_append_drop k parts
  have hfilter : parts.filter (fun part => !part.isEmpty)=
      (parts.take k).filter fun part => !part.isEmpty := by
    conv_lhs => rw [← hsplit,List.filter_append,hdrop,List.append_nil]
  have htake : (parts.take k).filter (fun part => !part.isEmpty)=parts.take k := by
    apply List.Sublist.eq_of_length List.filter_sublist
    rw [← hfilter,hk,List.length_take]
    omega
  have hrest : parts.drop k=List.replicate (parts.length-k) [] := by
    rw [List.eq_replicate_iff]
    exact ⟨List.length_drop,h⟩
  rw [packed,hk,hfilter,htake,← hrest,hsplit]

def cutFields (sizes : List ℕ) (parts : List (List α)) : List (List α) :=
  List.zipWith (fun size part => part.take (size-1)) sizes parts

theorem cutFields_eq {sizes : List ℕ} {parts : List (List α)}
    (h : List.Forall₂ (fun size part => part.length < size) sizes parts) :
    cutFields sizes parts=parts := by
  induction h with
  | nil => rfl
  | cons hfits _ ih =>
    rw [cutFields] at ih ⊢
    rw [List.zipWith_cons_cons,ih,List.take_of_length_le (by omega)]

/-- Fields that are cleaned, packed and cut come out as they were if and only if they were clean and
packed before. -/
theorem cutFields_packed_iff (clean : List α → List α) (hnil : clean []=[])
    (hle : ∀ part,(clean part).length ≤ part.length) {sizes : List ℕ} {parts : List (List α)}
    (h : List.Forall₂ (fun size part => part.length < size) sizes parts) :
    cutFields sizes (packed (parts.map clean))=parts ↔
      (∀ part ∈ parts,clean part=part) ∧ Packed parts := by
  constructor
  · intro hsame
    have hpacked : packed (parts.map clean)=parts.map clean := by
      apply packed_of_drop
      generalize hk : ((parts.map clean).filter fun part => !part.isEmpty).length=k
      intro part hpart
      rw [← List.map_drop] at hpart
      obtain ⟨before,hbefore,rfl⟩ := List.mem_map.mp hpart
      have hempty : before=[] := by
        have hrest : (packed (parts.map clean)).drop k=
            List.replicate ((parts.map clean).length-k) [] := by
          rw [packed,hk,List.drop_append_of_le_length hk.ge,List.drop_of_length_le hk.le,
            List.nil_append]
        rw [← hsame,cutFields,List.drop_zipWith,hrest,← List.map_uncurry_zip_eq_zipWith] at hbefore
        obtain ⟨⟨size,part⟩,hzip,rfl⟩ := List.mem_map.mp hbefore
        rw [Function.uncurry,List.eq_of_mem_replicate (List.of_mem_zip hzip).2,List.take_nil]
      rw [hempty,hnil]
    have hclean : parts.map clean=parts := by
      have hfits : List.Forall₂ (fun size part => part.length < size) sizes (parts.map clean) :=
        List.forall₂_map_right_iff.mpr (h.imp fun _ _ hless => (hle _).trans_lt hless)
      rw [hpacked,cutFields_eq hfits] at hsame
      exact hsame
    refine ⟨fun part hpart => ?_,?_⟩
    · exact List.map_inj_left.mp (hclean.trans (List.map_id parts).symm) part hpart
    · rw [← hclean,← hpacked]
      exact packed_packed _
  · rintro ⟨hclean,hpacked⟩
    have hmap : parts.map clean=parts :=
      (List.map_congr_left hclean).trans (List.map_id parts)
    rw [hmap,packed_eq hpacked,cutFields_eq h]

end Packed

section Lines

variable [DecidableEq α]

/-- The lines of a text, each with its end. A line that reaches the limit ends there. -/
def linesFrom (newline : α) (limit : ℕ) : List α → List α → List (List α)
  | line,[] => if line=[] then [] else [line]
  | line,c::rest =>
      if c=newline ∨ line.length+1=limit then (line++[c])::linesFrom newline limit [] rest
      else linesFrom newline limit (line++[c]) rest

theorem linesFrom_line (newline : α) (limit : ℕ) (line body rest : List α) (h : newline∉body)
    (hfits : line.length+body.length+1 ≤ limit) :
    linesFrom newline limit line (body++newline::rest)=
      (line++body++[newline])::linesFrom newline limit [] rest := by
  induction body generalizing line with
  | nil =>
    rw [List.nil_append,linesFrom,if_pos (.inl rfl),List.append_nil]
  | cons c body ih =>
    rw [List.mem_cons,not_or] at h
    rw [List.length_cons] at hfits
    have hgoes : ¬(c=newline ∨ line.length+1=limit) := by
      rintro (hc|hlimit)
      · exact h.1 hc.symm
      · omega
    rw [List.cons_append,linesFrom,if_neg hgoes,ih (line++[c]) h.2 (by simp; omega)]
    simp

theorem linesFrom_flatten (newline : α) (limit : ℕ) (bodies : List (List α))
    (h : ∀ body ∈ bodies,newline∉body ∧ body.length<limit) :
    linesFrom newline limit [] (bodies.map (fun body => body++[newline])).flatten=
      bodies.map (fun body => body++[newline]) := by
  induction bodies with
  | nil => rfl
  | cons body bodies ih =>
    obtain ⟨hbody,hrest⟩ := List.forall_mem_cons.mp h
    rw [List.map_cons,List.flatten_cons,List.append_assoc,List.singleton_append,
      linesFrom_line newline limit [] body _ hbody.1 (by simp; omega),ih hrest,List.nil_append]

end Lines

section Numerals

def digitsOf (base : ℕ) : ℕ → ℕ → List ℕ
  | 0,_ => []
  | width+1,n => digitsOf base width (n/base)++[n%base]

def valueOf (base : ℕ) (digits : List ℕ) : ℕ := digits.foldl (fun value d => value*base+d) 0

theorem valueOf_digitsOf (base width n : ℕ) (h : n < base^width) :
    valueOf base (digitsOf base width n)=n := by
  induction width generalizing n with
  | zero =>
    have hn : n=0 := by simpa using h
    rw [hn]
    rfl
  | succ width ih =>
    have hpos : 0<base := by
      by_contra hz
      have h0 : base=0 := by omega
      rw [h0,Nat.pow_succ,Nat.mul_zero] at h
      omega
    have hless : n/base < base^width := by
      rw [Nat.div_lt_iff_lt_mul hpos]
      rw [Nat.pow_succ] at h
      exact h
    have hvalue := ih (n/base) hless
    rw [valueOf] at hvalue
    rw [digitsOf,valueOf,List.foldl_append,hvalue,List.foldl_cons,List.foldl_nil,Nat.mul_comm]
    exact Nat.div_add_mod n base

theorem digitsOf_lt {base : ℕ} (hbase : 0 < base) (width n : ℕ) :
    ∀ d ∈ digitsOf base width n,d<base := by
  induction width generalizing n with
  | zero =>
    intro d hd
    cases hd
  | succ width ih =>
    intro d hd
    rcases List.mem_append.mp hd with hfront|hlast
    · exact ih _ d hfront
    · rw [List.mem_singleton.mp hlast]
      exact Nat.mod_lt n hbase

@[simp] theorem digitsOf_length (base width n : ℕ) : (digitsOf base width n).length=width := by
  induction width generalizing n with
  | zero => rfl
  | succ width ih => rw [digitsOf,List.length_append,ih,List.length_singleton]

end Numerals

end EtherCATMaster.Framework
