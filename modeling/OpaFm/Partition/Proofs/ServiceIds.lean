import OpaFm.Partition.VirtualFabric

/-!
# One pass over the service IDs

The selection goes once over the virtual fabrics and drops what it took for unmatched services at
the first explicit match.  It ends with those that the validation of each one accepts.
-/

namespace OpaFm.Partition

variable {f : PathFilter} {serviceId : Nat} {l : List (ServiceVF × Nat)} {found : Finset Nat}
  {vf : Nat}

def takesUnmatched (f : PathFilter) (v : ServiceVF) : Bool := v.selectUnmatchedSid && f.admits v

def takesMatched (f : PathFilter) (serviceId : Nat) (v : ServiceVF) : Bool :=
  smCheckServiceId v serviceId && f.admits v

theorem mem_foldl_selectVf {test : ServiceVF → Bool} :
    vf ∈ l.foldl (selectVf test) found ↔ vf ∈ found ∨ ∃ v, (v, vf) ∈ l ∧ test v = true := by
  induction l generalizing found with
  | nil => simp
  | cons x l ih =>
    rw [List.foldl_cons, ih, selectVf]
    simp only [List.mem_cons]
    by_cases htest : test x.1 = true
    · rw [if_pos htest, Finset.mem_insert]
      constructor
      · rintro ((rfl | hvf) | ⟨v, hv, hvt⟩)
        · exact .inr ⟨x.1, .inl rfl, htest⟩
        · exact .inl hvf
        · exact .inr ⟨v, .inr hv, hvt⟩
      · rintro (hvf | ⟨v, rfl | hv, hvt⟩)
        · exact .inl (.inr hvf)
        · exact .inl (.inl rfl)
        · exact .inr ⟨v, hv, hvt⟩
    · rw [if_neg htest]
      apply or_congr_right
      constructor
      · rintro ⟨v, hv, hvt⟩
        exact ⟨v, .inr hv, hvt⟩
      · rintro ⟨v, rfl | hv, hvt⟩
        · exact absurd hvt htest
        · exact ⟨v, hv, hvt⟩

theorem sidSearchStep_found (x : ServiceVF × Nat) :
    sidSearchStep f serviceId ⟨found, true⟩ x =
      ⟨selectVf (takesMatched f serviceId) found x, true⟩ := by
  unfold sidSearchStep takesMatched selectVf
  cases hsid : smCheckServiceId x.1 serviceId <;> cases hadmits : f.admits x.1 <;> simp [hsid, hadmits]

theorem sidSearchStep_first (x : ServiceVF × Nat) (hsid : smCheckServiceId x.1 serviceId = true) :
    sidSearchStep f serviceId ⟨found, false⟩ x = sidSearchStep f serviceId ⟨∅, true⟩ x := by
  unfold sidSearchStep
  simp [hsid]

theorem sidSearchStep_unmatched (x : ServiceVF × Nat)
    (hsid : smCheckServiceId x.1 serviceId = false) :
    sidSearchStep f serviceId ⟨found, false⟩ x = ⟨selectVf (takesUnmatched f) found x, false⟩ := by
  unfold sidSearchStep takesUnmatched selectVf
  cases hsel : x.1.selectUnmatchedSid <;> cases hadmits : f.admits x.1 <;>
    simp [hsid, hsel, hadmits]

theorem foldl_found :
    l.foldl (sidSearchStep f serviceId) ⟨found, true⟩ =
      ⟨l.foldl (selectVf (takesMatched f serviceId)) found, true⟩ := by
  induction l generalizing found with
  | nil => rfl
  | cons x l ih =>
    rw [List.foldl_cons, sidSearchStep_found, ih]
    rfl

theorem foldl_sidSearchStep :
    (l.foldl (sidSearchStep f serviceId) ⟨found, false⟩).vfs =
      if l.any (fun x => smCheckServiceId x.1 serviceId) then
        l.foldl (selectVf (takesMatched f serviceId)) ∅
      else l.foldl (selectVf (takesUnmatched f)) found := by
  induction l generalizing found with
  | nil => rfl
  | cons x l ih =>
    rw [List.foldl_cons, List.any_cons]
    cases hsid : smCheckServiceId x.1 serviceId with
    | true =>
      rw [sidSearchStep_first x hsid, sidSearchStep_found, foldl_found]
      rfl
    | false =>
      have hskip : selectVf (takesMatched f serviceId) ∅ x = ∅ := by
        unfold selectVf takesMatched
        rw [hsid]
        rfl
      rw [sidSearchStep_unmatched x hsid, ih, List.foldl_cons, List.foldl_cons, hskip,
        Bool.false_or]

theorem mem_zipIdx_vFabric {vfs : ServiceVFs} {v : ServiceVF} :
    (v, vf) ∈ vfs.vFabric.zipIdx ↔ vfs.vFabric[vf]? = some v := by
  rw [List.mem_zipIdx_iff_getElem?]

theorem mem_smGetValidatedVFs {vfs : ServiceVFs} :
    vf ∈ smGetValidatedVFs vfs f ∅ ↔ ∃ v, vfs.vFabric[vf]? = some v ∧ f.admits v = true := by
  unfold smGetValidatedVFs
  rw [mem_foldl_selectVf]
  simp only [mem_zipIdx_vFabric, Finset.notMem_empty, false_or]

/-- The selection of one pass takes exactly the virtual fabrics that pass the filters and the
validation of the service. -/
theorem mem_smGetValidatedServiceIDVFs (vfs : ServiceVFs) (f : PathFilter) (serviceId vf : Nat) :
    vf ∈ smGetValidatedServiceIDVFs vfs f serviceId ∅ ↔
      vf ∈ smGetValidatedVFs vfs f ∅ ∧ smVFValidateVfServiceId vfs vf serviceId = true := by
  have htake : vfs.vFabric.take maxVfabrics = vfs.vFabric := List.take_of_length_le vfs.length_le
  have hany : vfs.vFabric.zipIdx.any (fun x => smCheckServiceId x.1 serviceId) =
      vfs.vFabric.any (smCheckServiceId · serviceId) := by
    rw [← List.zipIdx_map_fst 0 vfs.vFabric, List.any_map]
    simp [Function.comp_def]
  unfold smGetValidatedServiceIDVFs smVFValidateVfServiceId
  rw [foldl_sidSearchStep, htake, hany, mem_smGetValidatedVFs]
  simp only [mem_foldl_selectVf, mem_zipIdx_vFabric, Finset.notMem_empty, false_or,
    apply_ite (vf ∈ ·)]
  cases hget : vfs.vFabric[vf]? with
  | none => simp
  | some v =>
    have hmem : v ∈ vfs.vFabric := List.mem_of_getElem? hget
    cases hsid : smCheckServiceId v serviceId with
    | true =>
      have hany : vfs.vFabric.any (smCheckServiceId · serviceId) = true :=
        List.any_eq_true.mpr ⟨v, hmem, hsid⟩
      rw [hany]
      simp [takesMatched, hsid]
    | false =>
      simp only [takesMatched, takesUnmatched, hsid]
      cases vfs.vFabric.any (smCheckServiceId · serviceId) <;>
        simp [hsid, and_comm]

end OpaFm.Partition
