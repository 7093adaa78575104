import EtherCATMaster.Dll.Database
import EtherCATMaster.Framework.KeyedTable

namespace EtherCATMaster.Dll

open Framework

def DbEntry.ident (entry : DbEntry) : UInt32 × UInt32 × UInt32 :=
  (entry.vendorId,entry.productCode,entry.revision)

def deviceEntries (xml storedPath now : List UInt8) : List DbEntry :=
  match xmlElements xml (deviceTag xml) with
  | [] => (parseXmlDevice xml).toList.map (·.stored storedPath now)
  | sections =>
      ((sections.filterMap fun section_ => parseXmlDeviceFrom xml (some section_)).map
        (·.stored storedPath now)).take ecatMaxDbEntries

theorem same_iff {current entry : DbEntry} :
    current.same entry=true ↔ current.ident=entry.ident := by
  simp [DbEntry.same,DbEntry.ident,Prod.ext_iff,and_assoc]

theorem replaceSame_eq (entry : DbEntry) (entries : List DbEntry) :
    replaceSame entry entries=
      if entry.ident ∈ entries.map DbEntry.ident then some (put DbEntry.ident entries entry)
      else none := by
  induction entries with
  | nil => rfl
  | cons current rest ih =>
    rw [replaceSame,put,ih]
    by_cases hsame : current.ident=entry.ident
    · rw [if_pos (same_iff.mpr hsame),if_pos hsame,List.map_cons,hsame,if_pos List.mem_cons_self]
    · have hmem : entry.ident ∈ (current::rest).map DbEntry.ident ↔
          entry.ident ∈ rest.map DbEntry.ident := by
        rw [List.map_cons,List.mem_cons]
        exact or_iff_right (fun h => hsame h.symm)
      rw [if_neg (fun h => hsame (same_iff.mp h)),if_neg hsame]
      by_cases hrest : entry.ident ∈ rest.map DbEntry.ident
      · rw [if_pos hrest,if_pos (hmem.mpr hrest)]
        rfl
      · rw [if_neg hrest,if_neg (fun h => hrest (hmem.mp h))]
        rfl

theorem put_new {rows : List DbEntry} {entry : DbEntry}
    (h : entry.ident ∉ rows.map DbEntry.ident) : put DbEntry.ident rows entry=rows++[entry] := by
  induction rows with
  | nil => rfl
  | cons r rows ih =>
    rw [List.map_cons,List.mem_cons,not_or] at h
    rw [put,if_neg (fun heq => h.1 heq.symm),ih h.2,List.cons_append]

theorem dbUpsert_eq {entry : DbEntry} (hids : entry.vendorId≠0 ∧ entry.productCode≠0)
    (entries : List DbEntry) :
    dbUpsert entry entries=
      if entry.ident ∉ entries.map DbEntry.ident ∧ ecatMaxDbEntries ≤ entries.length then
        (ecatError,entries)
      else (ecatOk,put DbEntry.ident entries entry) := by
  rw [dbUpsert,if_neg (not_or.mpr hids),replaceSame_eq]
  by_cases hmem : entry.ident ∈ entries.map DbEntry.ident
  · have hroom : ¬(entry.ident ∉ entries.map DbEntry.ident ∧
        ecatMaxDbEntries ≤ entries.length) := fun h => h.1 hmem
    rw [if_pos hmem,if_neg hroom]
  · rw [if_neg hmem,put_new hmem]
    by_cases hfull : ecatMaxDbEntries ≤ entries.length
    · have hrefused : entry.ident ∉ entries.map DbEntry.ident ∧
          ecatMaxDbEntries ≤ entries.length := And.intro hmem hfull
      rw [if_pos hrefused]
      exact if_pos hfull
    · have hroom : ¬(entry.ident ∉ entries.map DbEntry.ident ∧
          ecatMaxDbEntries ≤ entries.length) := fun h => hfull h.2
      rw [if_neg hroom]
      exact if_neg hfull

variable {xml storedPath now : List UInt8}

theorem stored_ids {section_ : Option (List UInt8)} {entry : DbEntry}
    (h : parseXmlDeviceFrom xml section_=some entry) :
    (entry.stored storedPath now).vendorId≠0 ∧ (entry.stored storedPath now).productCode≠0 := by
  unfold parseXmlDeviceFrom at h
  dsimp only at h
  split_ifs at h with hzero
  rw [← Option.some.inj h]
  exact not_or.mp hzero

theorem upsertSections_eq (sections : List (List UInt8)) (imported : Nat)
    (entries : List DbEntry) :
    upsertSections xml storedPath now sections imported entries=
      let news := ((sections.filterMap fun section_ => parseXmlDeviceFrom xml (some section_)).map
        (·.stored storedPath now)).take (ecatMaxDbEntries-imported)
      let result := putUpTo DbEntry.ident ecatMaxDbEntries news entries
      (if result.1 ∧ imported+news.length>0 then ecatOk else ecatError,result.2) := by
  induction sections generalizing imported entries with
  | nil => simp [upsertSections,putUpTo]
  | cons section_ rest ih =>
    rw [upsertSections]
    by_cases hroom : imported<ecatMaxDbEntries
    · rw [if_pos hroom]
      cases hparse : parseXmlDeviceFrom xml (some section_) with
      | none =>
        simp only [List.filterMap_cons,hparse]
        exact ih imported entries
      | some entry =>
        obtain ⟨left,hleft⟩ : ∃ left,ecatMaxDbEntries-imported=left+1 :=
          ⟨ecatMaxDbEntries-imported-1,by omega⟩
        have hnext : ecatMaxDbEntries-(imported+1)=left := by omega
        simp only [List.filterMap_cons,hparse,List.map_cons,hleft,List.take_succ_cons]
        rw [dbUpsert_eq (stored_ids hparse),putUpTo]
        by_cases hfull : (entry.stored storedPath now).ident ∉ entries.map DbEntry.ident ∧
            ecatMaxDbEntries ≤ entries.length
        · rw [if_pos hfull,if_pos hfull]
          rfl
        · rw [if_neg hfull,if_neg hfull,if_neg (fun h => h rfl),ih,hnext,List.length_cons]
          simp only [Nat.add_right_comm imported 1,Nat.add_assoc]
    · have hnone : ecatMaxDbEntries-imported=0 := by omega
      simp [hroom,hnone,putUpTo]

theorem dbUpsertXmlEntries_eq (xml storedPath now : List UInt8) (entries : List DbEntry) :
    dbUpsertXmlEntries xml storedPath now entries=
      let news := deviceEntries xml storedPath now
      let result := putUpTo DbEntry.ident ecatMaxDbEntries news entries
      (if result.1 ∧ news.length>0 then ecatOk else ecatError,result.2) := by
  unfold dbUpsertXmlEntries deviceEntries
  cases xmlElements xml (deviceTag xml) with
  | nil =>
    dsimp only
    cases hparse : parseXmlDevice xml with
    | none => rfl
    | some entry =>
      rw [parseXmlDevice] at hparse
      rw [Option.toList_some,List.map_singleton,putUpTo,putUpTo]
      dsimp only
      rw [dbUpsert_eq (stored_ids hparse)]
      split_ifs <;> simp_all
  | cons section_ rest =>
    have hall := @upsertSections_eq xml storedPath now (section_::rest) 0 entries
    simp only [Nat.sub_zero,Nat.zero_add] at hall
    exact hall

theorem deviceEntries_ne_nil {first : DbEntry} (h : parseXmlDevice xml=some first) :
    deviceEntries xml storedPath now≠[] := by
  have helements := xmlElements_eq xml (deviceTag xml)
  unfold deviceEntries
  rw [parseXmlDevice] at h
  cases hsection : findXmlElement xml (deviceTag xml) with
  | none =>
    rw [hsection] at helements
    rw [helements]
    simp [parseXmlDevice,hsection,hsection ▸ h]
  | some section_ =>
    rw [hsection] at helements h
    rw [helements]
    simp [h,ecatMaxDbEntries]

end EtherCATMaster.Dll
