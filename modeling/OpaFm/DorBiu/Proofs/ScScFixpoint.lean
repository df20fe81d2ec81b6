import OpaFm.DorBiu.Proofs.SiScScMap
import OpaFm.Dor.Proofs.DeadlockFree

/-!
# Programming the SC to SC maps again

The blocks of a switch are written and computed again.  A rule whose blocks have another map than
the one that it looks for never comes to an end.
-/

/-! ## Service levels with one SC -/

namespace OpaFm.Dor.ScTables

open OpaFm.Lib

variable {q : ScTables} {sl first second x : Fin 32} {routingSCs : Nat}

theorem pairSCs_fst_of_ne (js : List (Fin 32)) : ∀ firstSC sets maps,
    q.scToSL x ≠ some sl ∨ x ∉ js → firstSC ≠ some x →
      (q.pairSCs routingSCs sl js firstSC sets maps).1 x = maps.1 x := by
  induction js with
  | nil => exact fun _ _ _ _ _ => rfl
  | cons j js ih =>
    intro firstSC sets maps hx hfirst
    have hrest : q.scToSL x ≠ some sl ∨ x ∉ js := hx.imp_right fun h hj => h (.tail _ hj)
    unfold pairSCs
    by_cases hj : q.scToSL j = some sl
    case neg =>
      rw [if_pos hj]
      exact ih firstSC sets maps hrest hfirst
    have hne : x ≠ j := by
      rintro rfl
      exact hx.elim (fun h => h hj) fun h => h List.mem_cons_self
    rw [if_neg (not_not.mpr hj)]
    cases firstSC with
    | none =>
      exact ih (some j) sets maps hrest fun h => hne (Option.some.inj h).symm
    | some f =>
      have hf : x ≠ f := fun h => hfirst (congrArg some h.symm)
      have hsame : (Function.update (Function.update maps.1 j f) f f) x = maps.1 x := by
        rw [Function.update_of_ne hf, Function.update_of_ne hne]
      dsimp only
      split
      · exact hsame
      · exact (ih none _ _ hrest (Option.some_ne_none x).symm).trans hsame

theorem pairSCs_fst_second (js : List (Fin 32)) : ∀ maps, js.Nodup →
    js.find? (fun j => q.scToSL j = some sl) = some second →
      (q.pairSCs routingSCs sl js (some first) 0 maps).1 second = first := by
  induction js with
  | nil => intro _ _ h; cases h
  | cons j js ih =>
    intro maps hnodup hfound
    unfold pairSCs
    by_cases hj : q.scToSL j = some sl
    · rw [List.find?_cons_of_pos (by simpa using hj)] at hfound
      cases hfound
      have hpaired :
          (Function.update (Function.update maps.1 second first) first first) second = first := by
        by_cases heq : second = first
        · rw [heq, Function.update_self]
        · rw [Function.update_of_ne heq, Function.update_self]
      rw [if_neg (not_not.mpr hj)]
      dsimp only
      split
      · exact hpaired
      · exact (pairSCs_fst_of_ne js none _ _ (.inr (List.nodup_cons.mp hnodup).1)
          (Option.some_ne_none second).symm).trans hpaired
    · rw [List.find?_cons_of_neg (by simpa using hj)] at hfound
      rw [if_pos hj]
      exact ih maps (List.nodup_cons.mp hnodup).2 hfound

theorem RoutingSCs.scsc0_second (h : q.RoutingSCs sl first second) (hscs : 1 < routingSCs) :
    q.scsc0 routingSCs second = first := by
  unfold scsc0 routingMaps
  rw [if_pos hscs]
  apply (@foldl_establishes (ScscMap × ScscMap) _ Unit _ (fun _ => True)
    (fun maps _ => maps.1 second = first) (fun i _ => i = sl) _ ?_ _ trivial).2 ()
  · exact .inr ⟨sl, List.mem_finRange sl, rfl⟩
  · intro i _ maps _
    refine ⟨trivial, fun _ hmaps => ?_⟩
    have hnodup : (scsAfter (q.slToSC i)).Nodup := (List.nodup_finRange 32).filter _
    by_cases hi : i = sl
    · subst hi
      rw [if_pos h.inUse]
      rw [h.first_eq] at hnodup ⊢
      exact pairSCs_fst_second _ _ hnodup h.second_eq
    · have hmaps := hmaps.resolve_right hi
      split
      next hin =>
        have hother : q.scToSL second ≠ some i := by
          rw [h.scToSL_second]
          exact fun heq => hi (Option.some.inj heq).symm
        have hne : q.slToSC i ≠ second := by
          rintro rfl
          exact hother (q.scToSL_slToSC i hin)
        dsimp only
        rw [pairSCs_fst_of_ne _ _ _ _ (.inl hother) fun heq => hne (Option.some.inj heq)]
        exact (Function.update_of_ne hne.symm _ _).trans hmaps
      next => exact hmaps

def OneSC (q : ScTables) : Prop :=
  ∀ sl, q.linkSLsInuse sl = true → ∀ j ∈ scsAfter (q.slToSC sl), q.scToSL j ≠ some sl

theorem oneSC_of_scscNoChg (hscs : 1 < routingSCs) (h : q.scscNoChg = q.scsc0 routingSCs) :
    q.OneSC := by
  intro sl hin j hj hsl
  cases hfound : (scsAfter (q.slToSC sl)).find? fun j => q.scToSL j = some sl with
  | none => exact absurd (decide_eq_true hsl) (List.find?_eq_none.mp hfound j hj)
  | some second =>
    have hpair : q.RoutingSCs sl (q.slToSC sl) second := ⟨hin, rfl, hfound⟩
    have heq := congrFun h second
    rw [hpair.scscNoChg_second, hpair.scsc0_second hscs] at heq
    exact hpair.first_lt_second.ne' heq

theorem pairSCs_of_none (js : List (Fin 32)) (h : ∀ j ∈ js, q.scToSL j ≠ some sl)
    (firstSC : Option (Fin 32)) (sets : Nat) (maps : ScscMap × ScscMap) :
    q.pairSCs routingSCs sl js firstSC sets maps = maps := by
  induction js with
  | nil => rfl
  | cons j js ih =>
    unfold pairSCs
    rw [if_pos (h j List.mem_cons_self)]
    exact ih fun j' hj' => h j' (.tail _ hj')

theorem badTurnSCs_of_none (js : List (Fin 32)) (h : ∀ j ∈ js, q.scToSL j ≠ some sl)
    (secondSC thirdSC : Option (Fin 32)) (m : ScscMap) :
    q.badTurnSCs routingSCs sl first js secondSC thirdSC m = m := by
  induction js with
  | nil => rfl
  | cons j js ih =>
    unfold badTurnSCs
    rw [if_pos (h j List.mem_cons_self)]
    exact ih fun j' hj' => h j' (.tail _ hj')

theorem OneSC.maps_eq (h : q.OneSC) (hscs : 1 < routingSCs) :
    q.scscPlus1 routingSCs = q.scsc0 routingSCs ∧
      q.scscBadTurn routingSCs = q.scsc0 routingSCs := by
  have hloops : ∀ (l : List (Fin 32)) (m : ScscMap),
      l.foldl (fun maps i =>
          if q.linkSLsInuse i then
            let first := q.slToSC i
            q.pairSCs routingSCs i (scsAfter first) (some first) 0
              (Function.update maps.1 first first, Function.update maps.2 first first)
          else maps) (m, m) =
        (l.foldl (fun m i =>
            if q.linkSLsInuse i then
              let first := q.slToSC i
              q.badTurnSCs routingSCs i first (scsAfter first) none none
                (Function.update m first first)
            else m) m,
          l.foldl (fun m i =>
            if q.linkSLsInuse i then
              let first := q.slToSC i
              q.badTurnSCs routingSCs i first (scsAfter first) none none
                (Function.update m first first)
            else m) m) := by
    intro l
    induction l with
    | nil => exact fun _ => rfl
    | cons i l ih =>
      intro m
      rw [List.foldl_cons, List.foldl_cons]
      by_cases hin : q.linkSLsInuse i = true
      · have hnone := h i hin
        simp only [if_pos hin, pairSCs_of_none _ hnone, badTurnSCs_of_none _ hnone]
        exact ih _
      · simp only [if_neg hin]
        exact ih m
  unfold scscPlus1 scsc0 routingMaps scscBadTurn
  rw [if_pos hscs, if_pos hscs, hloops]
  exact ⟨rfl, rfl⟩

end OpaFm.Dor.ScTables

/-! ## Rules -/

namespace OpaFm.DorBiu

open OpaFm.Dor OpaFm.Dor.DorSwitch

variable {n D : Nat} {sw : DorSwitch n} {c : SmDorRouting D} {q : ScTables} {force : Bool}
  {biuPort : Nat} {datelineSwitch : Fin D → Bool} {i : Fin D} {p r : Nat} {b : ScscMultiset}
  {old m : ScscMap} {ingress egress : Nat → Bool}

structure BiuRule where
  old : ScscMap
  m : ScscMap
  ingress : Nat → Bool
  egress : Nat → Bool

def BiuRule.At (sw : DorSwitch n) (R : BiuRule) (p r : Nat) : Prop :=
  (p ∈ sw.physicalPorts ∧ R.ingress p = true) ∧ r ∈ sw.physicalPorts ∧ R.egress r = true

def biuEgress (sw : DorSwitch n) (biuPort r : Nat) : Bool :=
  (sw.port r).valid && (sw.port r).isIsl && isBiuLink sw biuPort r

def biuRules (sw : DorSwitch n) (c : SmDorRouting D) (q : ScTables) (biuPort : Nat) :
    List BiuRule :=
  [⟨q.scsc0 c.routingSCs, q.scscNoChg, fun p => sw.usable p, biuEgress sw biuPort⟩]

def siRules (sw : DorSwitch n) (c : SmDorRouting D) (q : ScTables) (biuPort : Nat) :
    List BiuRule :=
  [⟨q.scsc0 c.routingSCs, q.scscPlus1 c.routingSCs,
      fun p => sw.usable p && (sw.port p).isIsl && decide (p ≠ biuPort), biuEgress sw biuPort⟩,
    ⟨q.scsc0 c.routingSCs, q.scscNoChg,
      fun p => sw.usable p && (sw.port p).isIsl && decide (p = biuPort),
      fun p => (sw.port p).valid && (sw.port p).isIsl⟩]

def blocksWith (sw : DorSwitch n) (c : SmDorRouting D) (q : ScTables) (force : Bool)
    (datelineSwitch : Fin D → Bool) (rules : List BiuRule) : List ScscMultiset :=
  sw.hostBlocks c q force ++
    if c.routingSCs = 1 then []
    else
      sw.islToHostBlocks c q force ++
        ((rules.flatMap fun R => setBlocks sw force R.old R.m R.ingress R.egress) ++
          (List.finRange D).flatMap (sw.dimensionBlocks c q force datelineSwitch))

theorem generateBiuScscMap_eq :
    generateBiuScscMap sw c q force biuPort datelineSwitch =
      blocksWith sw c q force datelineSwitch (biuRules sw c q biuPort) := by
  unfold blocksWith biuRules
  rw [List.flatMap_cons, List.flatMap_nil, List.append_nil]
  rfl

theorem generateSiScscMap_eq :
    generateSiScscMap sw c q force biuPort datelineSwitch =
      blocksWith sw c q force datelineSwitch (siRules sw c q biuPort) := by
  unfold blocksWith siRules
  rw [List.flatMap_cons, List.flatMap_cons, List.flatMap_nil, List.append_nil, List.append_assoc]
  rfl

structure RulesOf (sw : DorSwitch n) (c : SmDorRouting D) (q : ScTables) (biuPort : Nat)
    (rules : List BiuRule) : Prop where
  old : ∀ R ∈ rules, R.old = q.scsc0 c.routingSCs
  map : ∀ R ∈ rules, R.m = q.scscNoChg ∨ R.m = q.scscPlus1 c.routingSCs
  host : ∀ R ∈ rules, ∀ p r, R.At sw p r → (sw.port p).isIsl = false → R.m = q.scscNoChg
  usable : ∀ R ∈ rules, ∀ p r, R.At sw p r → sw.usable p = true
  egress : ∀ R ∈ rules, ∀ p r, R.At sw p r → (sw.port r).isIsl = true
  atBiu : ∀ R ∈ rules, ∀ p r, R.At sw p r → p = biuPort ∨ r = biuPort
  single : ∀ R ∈ rules, ∀ p r p' r', R.At sw p r → R.At sw p' r' → p = p' ∨ r = r'
  alone : ∀ R ∈ rules, ∀ R' ∈ rules, ∀ p r, R.At sw p r → R'.At sw p r → R.m = R'.m
  loop : (sw.portDim c biuPort).isSome → ∀ R ∈ rules, ∀ p r, R.At sw p r →
    ∃ R ∈ rules, R.At sw biuPort biuPort

theorem biuEgress_iff :
    biuEgress sw biuPort r = true ↔ (sw.port r).valid = true ∧ (sw.port r).isIsl = true ∧
      r = biuPort ∧ (sw.port r).link.map Prod.snd = some biuPort := by
  unfold biuEgress isBiuLink
  simp only [Bool.and_eq_true, decide_eq_true_eq, and_assoc]

theorem biuRules_rulesOf : RulesOf sw c q biuPort (biuRules sw c q biuPort) := by
  have hall : ∀ R ∈ biuRules sw c q biuPort,
      R = ⟨q.scsc0 c.routingSCs, q.scscNoChg, fun p => sw.usable p, biuEgress sw biuPort⟩ :=
    fun R hR => List.mem_singleton.mp hR
  constructor
  · intro R hR
    rw [hall R hR]
  · intro R hR
    rw [hall R hR]
    exact .inl rfl
  · intro R hR p r _ _
    rw [hall R hR]
  · intro R hR p r h
    rw [hall R hR] at h
    exact h.1.2
  · intro R hR p r h
    rw [hall R hR] at h
    exact (biuEgress_iff.mp h.2.2).2.1
  · intro R hR p r h
    rw [hall R hR] at h
    exact .inr (biuEgress_iff.mp h.2.2).2.2.1
  · intro R hR p r p' r' h h'
    rw [hall R hR] at h h'
    exact .inr ((biuEgress_iff.mp h.2.2).2.2.1.trans (biuEgress_iff.mp h'.2.2).2.2.1.symm)
  · intro R hR R' hR' p r _ _
    rw [hall R hR, hall R' hR']
  · intro hdim R hR p r h
    obtain ⟨k, hk⟩ := Option.isSome_iff_exists.mp hdim
    obtain ⟨hphys, huse, -, -⟩ := portDim_eq_some hk
    refine ⟨R, hR, ?_⟩
    rw [hall R hR] at h ⊢
    have hr : r = biuPort := (biuEgress_iff.mp h.2.2).2.2.1
    rw [hr] at h
    exact ⟨⟨hphys, huse⟩, h.2⟩

theorem siRules_at {R : BiuRule} (hR : R ∈ siRules sw c q biuPort) (h : R.At sw p r) :
    sw.usable p = true ∧ (sw.port p).isIsl = true ∧ (sw.port r).isIsl = true ∧
      R.old = q.scsc0 c.routingSCs ∧
      (R.m = q.scscPlus1 c.routingSCs ∧ p ≠ biuPort ∧ r = biuPort ∨
        R.m = q.scscNoChg ∧ p = biuPort) := by
  rcases List.mem_cons.mp hR with rfl | hR
  · obtain ⟨⟨-, hin⟩, -, hout⟩ := h
    simp only [Bool.and_eq_true, decide_eq_true_eq] at hin
    obtain ⟨-, hisl, hr, -⟩ := biuEgress_iff.mp hout
    exact ⟨hin.1.1, hin.1.2, hisl, rfl, .inl ⟨rfl, hin.2, hr⟩⟩
  · rw [List.mem_singleton.mp hR] at h ⊢
    obtain ⟨⟨-, hin⟩, -, hout⟩ := h
    simp only [Bool.and_eq_true, decide_eq_true_eq] at hin hout
    exact ⟨hin.1.1, hin.1.2, hout.2, rfl, .inr ⟨rfl, hin.2⟩⟩

theorem siRules_rulesOf : RulesOf sw c q biuPort (siRules sw c q biuPort) := by
  constructor
  · intro R hR
    rcases List.mem_cons.mp hR with rfl | hR
    · rfl
    · rw [List.mem_singleton.mp hR]
  · intro R hR
    rcases List.mem_cons.mp hR with rfl | hR
    · exact .inr rfl
    · rw [List.mem_singleton.mp hR]
      exact .inl rfl
  · intro R hR p r h hhost
    rw [(siRules_at hR h).2.1] at hhost
    cases hhost
  · exact fun R hR p r h => (siRules_at hR h).1
  · exact fun R hR p r h => (siRules_at hR h).2.2.1
  · intro R hR p r h
    rcases (siRules_at hR h).2.2.2.2 with ⟨-, -, hr⟩ | ⟨-, hp⟩
    · exact .inr hr
    · exact .inl hp
  · intro R hR p r p' r' h h'
    rcases List.mem_cons.mp hR with rfl | hR
    · exact .inr ((biuEgress_iff.mp h.2.2).2.2.1.trans (biuEgress_iff.mp h'.2.2).2.2.1.symm)
    · rw [List.mem_singleton.mp hR] at h h'
      have hin := h.1.2
      have hin' := h'.1.2
      simp only [Bool.and_eq_true, decide_eq_true_eq] at hin hin'
      exact .inl (hin.2.trans hin'.2.symm)
  · intro R hR R' hR' p r h h'
    rcases (siRules_at hR h).2.2.2.2 with ⟨hm, hne, -⟩ | ⟨hm, heq⟩ <;>
      rcases (siRules_at hR' h').2.2.2.2 with ⟨hm', hne', -⟩ | ⟨hm', heq'⟩
    · rw [hm, hm']
    · exact absurd heq' hne
    · exact absurd heq hne'
    · rw [hm, hm']
  · intro hdim _ _ _ _ _
    obtain ⟨k, hk⟩ := Option.isSome_iff_exists.mp hdim
    obtain ⟨hphys, huse, hisl, -⟩ := portDim_eq_some hk
    refine ⟨_, List.mem_cons_of_mem _ List.mem_cons_self, ⟨hphys, ?_⟩, hphys, ?_⟩
    · simp only [huse, hisl, decide_true, Bool.and_self]
    · show ((sw.port biuPort).valid && (sw.port biuPort).isIsl) = true
      rw [hisl, Bool.and_true]
      exact (Bool.and_eq_true_iff.mp huse).1

/-! ## What a switch is looked through for -/

inductive Asks (sw : DorSwitch n) (c : SmDorRouting D) (q : ScTables)
    (datelineSwitch : Fin D → Bool) (rules : List BiuRule) (p r : Nat) : ScscMap → ScscMap → Prop
  | host : p ∈ sw.physicalPorts → sw.usable p = true → (sw.port p).isIsl = false →
      r ∈ sw.physicalPorts → Asks sw c q datelineSwitch rules p r q.scscNoChg q.scscNoChg
  | islToHost : p ∈ sw.physicalPorts → sw.usable p = true → (sw.port p).isIsl = true →
      r ∈ sw.physicalPorts → (sw.port r).valid = true → (sw.port r).isIsl = false →
        Asks sw c q datelineSwitch rules p r (q.scsc0 c.routingSCs) (q.scsc0 c.routingSCs)
  | rule {R : BiuRule} : R ∈ rules → R.At sw p r →
      Asks sw c q datelineSwitch rules p r R.old R.m
  | turn {i : Fin D} : sw.portDim c p = some i → (sw.portDim c r).isSome →
      Asks sw c q datelineSwitch rules p r (sw.turnOf c q datelineSwitch i p r).2
        (sw.turnOf c q datelineSwitch i p r).2

theorem islToHostBlocks_eq :
    sw.islToHostBlocks c q force =
      setBlocks sw force (q.scsc0 c.routingSCs) (q.scsc0 c.routingSCs)
        (fun p => sw.usable p && (sw.port p).isIsl)
        fun r => (sw.port r).valid && !(sw.port r).isIsl := rfl

theorem setBlocks_eq_nil_iff :
    setBlocks sw force old m ingress egress = [] ↔
      ∀ p r, (p ∈ sw.physicalPorts ∧ ingress p = true) → (r ∈ sw.physicalPorts ∧ egress r = true) →
        sw.needsSet force old p r = false := by
  constructor
  · intro hnil p r hp hr
    by_contra hneeds
    obtain ⟨b, hb, -⟩ := exists_mem_setBlocks (m := m) (Bool.eq_true_of_not_eq_false hneeds) hp.1
      hp.2 hr.1 hr.2
    rw [hnil] at hb
    cases hb
  · intro h
    unfold setBlocks
    refine if_pos (List.eq_nil_iff_forall_not_mem.mpr ?_)
    rintro ⟨p, r⟩ hpair
    obtain ⟨hp, hr, hneeds⟩ := mem_setPairs.mp hpair
    rw [h p r hp hr] at hneeds
    cases hneeds

theorem needsSet_eq_false_iff :
    sw.needsSet force m p r = false ↔
      (sw.port p).scscCurrent = true ∧ force = false ∧ (sw.port p).scscMap r = m := by
  unfold needsSet
  simp only [Bool.or_eq_false_iff, Bool.not_eq_false', decide_eq_false_iff_not, not_not, and_assoc]

theorem mem_hostIngress (hscs : 1 < c.routingSCs) :
    p ∈ sw.hostIngress c q force ↔ (p ∈ sw.physicalPorts ∧ sw.usable p = true ∧
      (sw.port p).isIsl = false) ∧
        ∃ r ∈ sw.physicalPorts, sw.needsSet force q.scscNoChg p r = true := by
  unfold hostIngress needsSet
  rw [List.mem_filter]
  simp only [hscs, decide_true, Bool.and_true, Bool.and_eq_true, Bool.not_eq_true', Bool.or_eq_true,
    List.any_eq_true, and_assoc]
  constructor
  · rintro ⟨hp, huse, hisl, hset⟩
    refine ⟨hp, huse, hisl, ?_⟩
    rcases hset with hset | ⟨r, hr, hset⟩
    · exact ⟨p, hp, .inl hset⟩
    · exact ⟨r, hr, .inr hset⟩
  · rintro ⟨hp, huse, hisl, r, hr, hset⟩
    exact ⟨hp, huse, hisl, hset.imp_right fun h => ⟨r, hr, h⟩⟩

theorem hostBlocks_eq_nil_iff (hscs : 1 < c.routingSCs) :
    sw.hostBlocks c q force = [] ↔ ∀ p r, p ∈ sw.physicalPorts → sw.usable p = true →
      (sw.port p).isIsl = false → r ∈ sw.physicalPorts →
        sw.needsSet force q.scscNoChg p r = false := by
  have hingress : sw.hostBlocks c q force = [] ↔ sw.hostIngress c q force = [] := by
    unfold hostBlocks
    split
    next h => exact iff_of_true rfl h
    next h => exact iff_of_false (List.cons_ne_nil _ _) h
  rw [hingress, List.eq_nil_iff_forall_not_mem]
  constructor
  · intro h p r hp huse hisl hr
    by_contra hneeds
    exact h p ((mem_hostIngress hscs).mpr
      ⟨⟨hp, huse, hisl⟩, r, hr, Bool.eq_true_of_not_eq_false hneeds⟩)
  · intro h p hp
    obtain ⟨⟨hphys, huse, hisl⟩, r, hr, hneeds⟩ := (mem_hostIngress hscs).mp hp
    rw [h p r hphys huse hisl hr] at hneeds
    cases hneeds

theorem dimensionTurns_eq_nil (turns : List (Nat × Nat))
    (h : ∀ t ∈ turns,
      sw.needsSet force (sw.turnOf c q datelineSwitch i t.1 t.2).2 t.1 t.2 = false) :
    sw.dimensionTurns c q force datelineSwitch i turns = [] := by
  unfold dimensionTurns
  induction turns with
  | nil => rfl
  | cons t turns ih =>
    rw [List.foldl_cons]
    simp only [h t List.mem_cons_self, Bool.false_eq_true, if_false]
    exact ih fun t' ht' => h t' (.tail _ ht')

theorem dimensionBlocks_eq_nil_iff :
    (List.finRange D).flatMap (sw.dimensionBlocks c q force datelineSwitch) = [] ↔
      ∀ i p r, sw.portDim c p = some i → (sw.portDim c r).isSome →
        sw.needsSet force (sw.turnOf c q datelineSwitch i p r).2 p r = false := by
  rw [List.flatMap_eq_nil_iff]
  constructor
  · intro hnil i p r hp hr
    by_contra hneeds
    obtain ⟨b, hb, -⟩ := (dimensionTurns_blocks sw c q force datelineSwitch i).2 (p, r)
      (mem_turnsFrom.mpr ⟨hp, hr⟩) (Bool.eq_true_of_not_eq_false hneeds)
    have hempty := List.map_eq_nil_iff.mp (hnil i (List.mem_finRange i))
    rw [hempty] at hb
    cases hb
  · intro h i _
    refine List.map_eq_nil_iff.mpr (dimensionTurns_eq_nil _ ?_)
    rintro ⟨p, r⟩ hpr
    obtain ⟨hp, hr⟩ := mem_turnsFrom.mp hpr
    exact h i p r hp hr

variable {rules : List BiuRule}

theorem mem_blocksWith (hone : c.routingSCs ≠ 1) :
    b ∈ blocksWith sw c q force datelineSwitch rules ↔
      b ∈ sw.hostBlocks c q force ∨ b ∈ sw.islToHostBlocks c q force ∨
        (∃ R ∈ rules, b ∈ setBlocks sw force R.old R.m R.ingress R.egress) ∨
          b ∈ (List.finRange D).flatMap (sw.dimensionBlocks c q force datelineSwitch) := by
  unfold blocksWith
  rw [if_neg hone]
  simp only [List.mem_append, List.mem_flatMap]

theorem blocksWith_eq_nil_iff (hscs : 1 < c.routingSCs) :
    blocksWith sw c q force datelineSwitch rules = [] ↔
      ∀ p r old m, Asks sw c q datelineSwitch rules p r old m →
        sw.needsSet force old p r = false := by
  unfold blocksWith
  rw [if_neg (by omega)]
  simp only [List.append_eq_nil_iff, hostBlocks_eq_nil_iff hscs, islToHostBlocks_eq,
    setBlocks_eq_nil_iff,
    List.flatMap_eq_nil_iff (l := rules), dimensionBlocks_eq_nil_iff]
  constructor
  · rintro ⟨hhost, hislHost, hrules, hturns⟩ p r old m hasks
    cases hasks with
    | host hp huse hisl hr => exact hhost p r hp huse hisl hr
    | islToHost hp huse hisl hr hvalid hhostr =>
      exact hislHost p r ⟨hp, by rw [huse, hisl]; rfl⟩ ⟨hr, by rw [hvalid, hhostr]; rfl⟩
    | rule hR hat => exact hrules _ hR p r hat.1 hat.2
    | turn hp hr => exact hturns _ p r hp hr
  · intro h
    refine ⟨fun p r hp huse hisl hr => h p r _ _ (.host hp huse hisl hr), ?_,
      fun R hR p r hp hr => h p r _ _ (.rule hR ⟨hp, hr⟩),
      fun i p r hp hr => h p r _ _ (.turn hp hr)⟩
    rintro p r ⟨hp, hin⟩ ⟨hr, hout⟩
    rw [Bool.and_eq_true] at hin hout
    exact h p r _ _ (.islToHost hp hin.1 hin.2 hr hout.1 (by simpa using hout.2))

theorem exists_mem_blocksWith (hscs : 1 < c.routingSCs)
    (hasks : Asks sw c q datelineSwitch rules p r old m)
    (hneeds : sw.needsSet force old p r = true) :
    ∃ b ∈ blocksWith sw c q force datelineSwitch rules,
      p ∈ b.ingressPortMask ∧ r ∈ b.egressPortMask ∧ b.scscMap = m := by
  have hone : c.routingSCs ≠ 1 := by omega
  cases hasks with
  | host hp huse hisl hr =>
    have hin : p ∈ sw.hostIngress c q force :=
      (mem_hostIngress hscs).mpr ⟨⟨hp, huse, hisl⟩, r, hr, hneeds⟩
    have hblock : ScscMultiset.mk (sw.hostIngress c q force) sw.physicalPorts q.scscNoChg ∈
        sw.hostBlocks c q force := by
      unfold hostBlocks
      rw [if_neg (List.ne_nil_of_mem hin)]
      exact List.mem_singleton.mpr rfl
    exact ⟨_, (mem_blocksWith hone).mpr (.inl hblock), hin, hr, rfl⟩
  | islToHost hp huse hisl hr hvalid hhostr =>
    have hblock : ∃ b ∈ sw.islToHostBlocks c q force,
        p ∈ b.ingressPortMask ∧ r ∈ b.egressPortMask := by
      rw [islToHostBlocks_eq]
      exact exists_mem_setBlocks hneeds hp (by rw [huse, hisl]; rfl) hr
        (by rw [hvalid, hhostr]; rfl)
    obtain ⟨b, hb, hpb, hrb⟩ := hblock
    refine ⟨b, (mem_blocksWith hone).mpr (.inr (.inl hb)), hpb, hrb, ?_⟩
    rw [islToHostBlocks_eq] at hb
    exact (mem_setBlocks hb).1
  | rule hR hat =>
    obtain ⟨b, hb, hpb, hrb⟩ := exists_mem_setBlocks hneeds hat.1.1 hat.1.2 hat.2.1 hat.2.2
    exact ⟨b, (mem_blocksWith hone).mpr (.inr (.inr (.inl ⟨_, hR, hb⟩))), hpb, hrb,
      (mem_setBlocks hb).1⟩
  | @turn i hp hr =>
    obtain ⟨hblocks, hcovers⟩ := dimensionTurns_blocks sw c q force datelineSwitch i
    obtain ⟨b, hb, hpb, hrb⟩ := hcovers (p, r) (mem_turnsFrom.mpr ⟨hp, hr⟩) hneeds
    refine ⟨b.2, (mem_blocksWith hone).mpr (.inr (.inr (.inr ?_))), hpb, hrb, ?_⟩
    · exact List.mem_flatMap.mpr ⟨i, List.mem_finRange i, List.mem_map.mpr ⟨b, hb, rfl⟩⟩
    · rw [hblocks.turn b hb p hpb r hrb]

theorem RulesOf.of_mem (h : RulesOf sw c q biuPort rules) {R : BiuRule} (hR : R ∈ rules)
    (hb : b ∈ setBlocks sw force R.old R.m R.ingress R.egress) (hp : p ∈ b.ingressPortMask)
    (hr : r ∈ b.egressPortMask) : R.At sw p r ∧ sw.needsSet force R.old p r = true := by
  obtain ⟨-, hin, hout⟩ := mem_setBlocks hb
  obtain ⟨hp, r', hr', hneeds⟩ := hin p hp
  obtain ⟨hr, p', hp', hneeds'⟩ := hout r hr
  refine ⟨⟨hp, hr⟩, ?_⟩
  obtain rfl | rfl := h.single R hR p r' p' r ⟨hp, hr'⟩ ⟨hp', hr⟩
  · exact hneeds'
  · exact hneeds

theorem exists_asks (hscs : 1 < c.routingSCs) (h : RulesOf sw c q biuPort rules)
    (hb : b ∈ blocksWith sw c q force datelineSwitch rules) (hp : p ∈ b.ingressPortMask)
    (hr : r ∈ b.egressPortMask) : ∃ old, Asks sw c q datelineSwitch rules p r old b.scscMap := by
  have hone : c.routingSCs ≠ 1 := by omega
  rcases (mem_blocksWith hone).mp hb with hb | hb | ⟨R, hR, hb⟩ | hb
  · unfold hostBlocks at hb
    split at hb
    next => cases hb
    next =>
      rw [List.mem_singleton.mp hb] at hp hr ⊢
      obtain ⟨⟨hphys, huse, hisl⟩, -⟩ := (mem_hostIngress hscs).mp hp
      exact ⟨_, .host hphys huse hisl hr⟩
  · rw [islToHostBlocks_eq] at hb
    obtain ⟨hmap, hin, hout⟩ := mem_setBlocks hb
    obtain ⟨⟨hphys, hp⟩, -⟩ := hin p hp
    obtain ⟨⟨hphysr, hr⟩, -⟩ := hout r hr
    rw [Bool.and_eq_true] at hp hr
    rw [hmap]
    exact ⟨_, .islToHost hphys hp.1 hp.2 hphysr hr.1 (by simpa using hr.2)⟩
  · rw [(mem_setBlocks hb).1]
    exact ⟨R.old, .rule hR (h.of_mem hR hb hp hr).1⟩
  · obtain ⟨i, hi, hsome, hmap⟩ := mem_dimensionBlocks hb hp hr
    rw [hmap]
    exact ⟨_, .turn hi hsome⟩

/-! ## Writing the blocks and computing them again -/

/-- The switch after the blocks were written and its ports were marked as current. -/
def written (sw : DorSwitch n) (blocks : List ScscMultiset) : DorSwitch n where
  numPorts := sw.numPorts
  port p := { sw.port p with scscCurrent := true, scscMap := sw.writeScsc blocks p }

def BlocksAgree (blocks : List ScscMultiset) : Prop :=
  ∀ b ∈ blocks, ∀ b' ∈ blocks, ∀ p r, p ∈ b.ingressPortMask → r ∈ b.egressPortMask →
    p ∈ b'.ingressPortMask → r ∈ b'.egressPortMask → b.scscMap = b'.scscMap

/-- Nothing is asked for where maps are always written again.  A rule for the BIU link writes what
it looks for, or there is an inter-switch link that has it already; the former also where the BIU
port belongs to a dimension. -/
structure RulesSettle (sw : DorSwitch n) (c : SmDorRouting D) (q : ScTables) (force : Bool)
    (biuPort : Nat) (datelineSwitch : Fin D → Bool) (rules : List BiuRule) : Prop where
  force : force = true → ∀ p r old m, ¬Asks sw c q datelineSwitch rules p r old m
  map : ∀ R ∈ rules, ∀ p r, R.At sw p r → R.m = R.old ∨
    (sw.port p).isIsl = true ∧ (sw.port p).scscCurrent = true ∧ (sw.port p).scscMap r = R.old
  dimension : (sw.portDim c biuPort).isSome → ∀ R ∈ rules, ∀ p r, R.At sw p r →
    q.scscNoChg = q.scsc0 c.routingSCs

theorem asks_written {blocks : List ScscMultiset} :
    Asks (written sw blocks) c q datelineSwitch rules p r old m ↔
      Asks sw c q datelineSwitch rules p r old m := by
  constructor
  · intro h
    cases h with
    | host hp huse hisl hr => exact .host hp huse hisl hr
    | islToHost hp huse hisl hr hvalid hhostr => exact .islToHost hp huse hisl hr hvalid hhostr
    | rule hR hat => exact .rule hR hat
    | turn hp hr => exact .turn hp hr
  · intro h
    cases h with
    | host hp huse hisl hr => exact .host hp huse hisl hr
    | islToHost hp huse hisl hr hvalid hhostr => exact .islToHost hp huse hisl hr hvalid hhostr
    | rule hR hat => exact .rule hR hat
    | turn hp hr => exact .turn hp hr

theorem blocksWith_written_iff (hscs : 1 < c.routingSCs) {blocks : List ScscMultiset} :
    blocksWith (written sw blocks) c q force datelineSwitch rules = [] ↔
      ∀ p r old m, Asks sw c q datelineSwitch rules p r old m →
        force = false ∧ sw.writeScsc blocks p r = old := by
  rw [blocksWith_eq_nil_iff hscs]
  simp only [asks_written, needsSet_eq_false_iff]
  exact forall₄_congr fun p r old m => imp_congr_right fun _ => and_iff_right rfl

theorem turnOf_snd_of_oneSC (hscs : 1 < c.routingSCs)
    (heq : q.scscNoChg = q.scsc0 c.routingSCs) :
    (sw.turnOf c q datelineSwitch i p r).2 = q.scsc0 c.routingSCs := by
  obtain ⟨hplus, hbad⟩ := (ScTables.oneSC_of_scscNoChg hscs heq).maps_eq hscs
  unfold turnOf
  rw [turn_snd]
  cases (turn c q i (datelineSwitch i) (sw.portPos c p) ((sw.portDim c r).getD i)
    (sw.portPos c r)).1 with
  | illegalTurn => exact hbad
  | changeDim => show (if _ then _ else _) = _; rw [heq, ite_self]
  | crossDateline1 => exact hplus
  | crossDateline2 => exact hplus
  | sameDim1 => exact heq
  | sameDim2 => exact heq

section Settle

variable (hscs : 1 < c.routingSCs) (h : RulesOf sw c q biuPort rules)

include hscs h

theorem RulesOf.map_of_oneSC {R : BiuRule} (hR : R ∈ rules)
    (heq : q.scscNoChg = q.scsc0 c.routingSCs) : R.m = q.scsc0 c.routingSCs := by
  rcases h.map R hR with hm | hm
  · exact hm.trans heq
  · exact hm.trans ((ScTables.oneSC_of_scscNoChg hscs heq).maps_eq hscs).1

theorem map_of_mem (hsettle : RulesSettle sw c q force biuPort datelineSwitch rules)
    (hasks : Asks sw c q datelineSwitch rules p r old m)
    (hb : b ∈ blocksWith sw c q force datelineSwitch rules) (hp : p ∈ b.ingressPortMask)
    (hr : r ∈ b.egressPortMask) : b.scscMap = old := by
  have hone : c.routingSCs ≠ 1 := by omega
  -- a rule and a turn meet only where the BIU port belongs to a dimension
  have hmeet : ∀ R ∈ rules, R.At sw p r → ∀ i, sw.portDim c p = some i →
      (sw.portDim c r).isSome → q.scscNoChg = q.scsc0 c.routingSCs := by
    intro R hR hat i hi hsome
    refine hsettle.dimension ?_ R hR p r hat
    rcases h.atBiu R hR p r hat with rfl | rfl
    · rw [hi]
      rfl
    · exact hsome
  cases hasks with
  | host hphys huse hhost hphysr =>
    rcases (mem_blocksWith hone).mp hb with hb | hb | ⟨R, hR, hb⟩ | hb
    · exact map_of_mem_hostBlocks hb
    · rw [isl_of_mem_islToHostBlocks hb hp] at hhost
      cases hhost
    · rw [(mem_setBlocks hb).1]
      exact h.host R hR p r (h.of_mem hR hb hp hr).1 hhost
    · obtain ⟨i, hi, -, -⟩ := mem_dimensionBlocks hb hp hr
      rw [(portDim_eq_some hi).2.2.1] at hhost
      cases hhost
  | islToHost hphys huse hisl hphysr hvalid hhostr =>
    rcases (mem_blocksWith hone).mp hb with hb | hb | ⟨R, hR, hb⟩ | hb
    · rw [isl_of_mem_hostBlocks hscs hb hp] at hisl
      cases hisl
    · rw [islToHostBlocks_eq] at hb
      exact (mem_setBlocks hb).1
    · rw [h.egress R hR p r (h.of_mem hR hb hp hr).1] at hhostr
      cases hhostr
    · obtain ⟨-, -, hsome, -⟩ := mem_dimensionBlocks hb hp hr
      obtain ⟨k, hk⟩ := Option.isSome_iff_exists.mp hsome
      rw [(portDim_eq_some hk).2.2.1] at hhostr
      cases hhostr
  | @rule R hR hat =>
    rcases (mem_blocksWith hone).mp hb with hb | hb | ⟨R', hR', hb⟩ | hb
    · have hhost := isl_of_mem_hostBlocks hscs hb hp
      rw [map_of_mem_hostBlocks hb, ← h.host R hR p r hat hhost]
      refine (hsettle.map R hR p r hat).resolve_right fun hhas => ?_
      rw [hhas.1] at hhost
      cases hhost
    · have hhostr := host_of_mem_islToHostBlocks hb hr
      rw [h.egress R hR p r hat] at hhostr
      cases hhostr
    · obtain ⟨hat', hneeds⟩ := h.of_mem hR' hb hp hr
      rw [(mem_setBlocks hb).1, h.old R hR, ← h.old R' hR']
      refine (hsettle.map R' hR' p r hat').resolve_right fun hhas => ?_
      have hfree : force = false := by
        cases hforce : force with
        | false => rfl
        | true => exact absurd (.rule hR hat) (hsettle.force hforce p r _ _)
      rw [needsSet_eq_false_iff.mpr ⟨hhas.2.1, hfree, hhas.2.2⟩] at hneeds
      cases hneeds
    · obtain ⟨i, hi, hsome, hmap⟩ := mem_dimensionBlocks hb hp hr
      rw [hmap, h.old R hR]
      exact turnOf_snd_of_oneSC hscs (hmeet R hR hat i hi hsome)
  | @turn i hi hsome =>
    obtain ⟨k, hk⟩ := Option.isSome_iff_exists.mp hsome
    rcases (mem_blocksWith hone).mp hb with hb | hb | ⟨R, hR, hb⟩ | hb
    · have hhost := isl_of_mem_hostBlocks hscs hb hp
      rw [(portDim_eq_some hi).2.2.1] at hhost
      cases hhost
    · have hhostr := host_of_mem_islToHostBlocks hb hr
      rw [(portDim_eq_some hk).2.2.1] at hhostr
      cases hhostr
    · have heq := hmeet R hR (h.of_mem hR hb hp hr).1 i hi hsome
      rw [(mem_setBlocks hb).1, h.map_of_oneSC hscs hR heq]
      exact (turnOf_snd_of_oneSC hscs heq).symm
    · obtain ⟨i', hi', -, hmap⟩ := mem_dimensionBlocks hb hp hr
      rw [hi] at hi'
      cases hi'
      exact hmap

theorem writeScsc_of_asks (hsettle : RulesSettle sw c q force biuPort datelineSwitch rules)
    (hasks : Asks sw c q datelineSwitch rules p r old m) :
    sw.writeScsc (blocksWith sw c q force datelineSwitch rules) p r = old := by
  apply writeScsc_eq
  · exact fun b hb hp hr => map_of_mem hscs h hsettle hasks hb hp hr
  · by_cases hneeds : sw.needsSet force old p r = true
    · obtain ⟨b, hb, hp, hr, -⟩ := exists_mem_blocksWith hscs hasks hneeds
      exact .inr ⟨b, hb, hp, hr⟩
    · exact .inl (map_eq_of_not_needsSet hneeds)

theorem blocksWith_settles_iff :
    (blocksWith (written sw (blocksWith sw c q force datelineSwitch rules)) c q force
          datelineSwitch rules = [] ∧
        BlocksAgree (blocksWith sw c q force datelineSwitch rules)) ↔
      RulesSettle sw c q force biuPort datelineSwitch rules := by
  rw [blocksWith_written_iff hscs]
  constructor
  · rintro ⟨hwritten, hagree⟩
    constructor
    · intro hforce p r old m hasks
      rw [(hwritten p r old m hasks).1] at hforce
      cases hforce
    · intro R hR p r hat
      by_contra hnot
      obtain ⟨hne, hhas⟩ := not_or.mp hnot
      have hold := (hwritten p r _ _ (.rule hR hat)).2
      cases hisl : (sw.port p).isIsl with
      | false =>
        have hhost := (hwritten p r _ _ (.host hat.1.1 (h.usable R hR p r hat) hisl hat.2.1)).2
        exact hne ((h.host R hR p r hat hisl).trans (hhost.symm.trans hold))
      | true =>
        have hneeds : sw.needsSet force R.old p r = true := by
          by_contra hneeds
          have hsame := needsSet_eq_false_iff.mp (Bool.eq_false_of_not_eq_true hneeds)
          exact hhas ⟨hisl, hsame.1, hsame.2.2⟩
        obtain ⟨b, hb, hp, hr, hmap⟩ := exists_mem_blocksWith hscs (.rule hR hat) hneeds
        refine hne (Eq.trans ?_ hold)
        rw [← hmap]
        exact (writeScsc_eq (fun b' hb' hp' hr' => hagree b' hb' b hb p r hp' hr' hp hr)
          (.inr ⟨b, hb, hp, hr⟩)).symm
    · intro hdim R hR p r hat
      obtain ⟨R', hR', hloop⟩ := h.loop hdim R hR p r hat
      obtain ⟨k, hk⟩ := Option.isSome_iff_exists.mp hdim
      have hold := (hwritten biuPort biuPort _ _ (.rule hR' hloop)).2
      have hturn := (hwritten biuPort biuPort _ _ (.turn hk hdim)).2
      have hmap : (sw.turnOf c q datelineSwitch k biuPort biuPort).2 = q.scscNoChg := by
        unfold turnOf turn
        rw [hk, Option.getD_some, if_neg (lt_irrefl k), if_neg (lt_irrefl k),
          if_neg (not_not.mpr (rfl : sw.portPos c biuPort = sw.portPos c biuPort))]
        split_ifs <;> rfl
      rw [← hmap, ← hturn, hold, h.old R' hR']
  · intro hsettle
    constructor
    · intro p r old m hasks
      refine ⟨?_, writeScsc_of_asks hscs h hsettle hasks⟩
      by_contra hforce
      exact hsettle.force (Bool.eq_true_of_not_eq_false hforce) p r old m hasks
    · intro b hb b' hb' p r hp hr hp' hr'
      obtain ⟨old, hasks⟩ := exists_asks hscs h hb hp hr
      rw [map_of_mem hscs h hsettle hasks hb hp hr, map_of_mem hscs h hsettle hasks hb' hp' hr']

end Settle

/-- In both modules a second call returns no blocks, and the blocks of a call agree, just if the
rules for the BIU link settle. -/
theorem generateScscMap_settles_iff (sw : DorSwitch n) (c : SmDorRouting D) (q : ScTables)
    (force : Bool) (biuPort : Nat) (datelineSwitch : Fin D → Bool) (hscs : 1 < c.routingSCs) :
    (generateBiuScscMap
            (written sw (generateBiuScscMap sw c q force biuPort datelineSwitch)) c q force
            biuPort datelineSwitch = [] ∧
          BlocksAgree (generateBiuScscMap sw c q force biuPort datelineSwitch) ↔
        RulesSettle sw c q force biuPort datelineSwitch (biuRules sw c q biuPort)) ∧
      (generateSiScscMap
            (written sw (generateSiScscMap sw c q force biuPort datelineSwitch)) c q force
            biuPort datelineSwitch = [] ∧
          BlocksAgree (generateSiScscMap sw c q force biuPort datelineSwitch) ↔
        RulesSettle sw c q force biuPort datelineSwitch (siRules sw c q biuPort)) := by
  rw [generateBiuScscMap_eq, generateBiuScscMap_eq, generateSiScscMap_eq, generateSiScscMap_eq]
  exact ⟨blocksWith_settles_iff hscs biuRules_rulesOf, blocksWith_settles_iff hscs siRules_rulesOf⟩

theorem fifteen_lt_scs : 15 < 32 := by decide

def biuSwitch : DorSwitch 2 where
  numPorts := 4
  port p :=
    { valid := decide (2 < p)
      up := decide (2 < p)
      isIsl := decide (p = 4)
      scscCurrent := false
      scscMap := fun _ _ => ⟨15, fifteen_lt_scs⟩
      link := if p = 4 then some (⟨1, Nat.one_lt_two⟩, 4) else none }

def oneDimension : SmDorRouting 1 := ⟨.torus, 2, fun _ => [(1, 2)]⟩

theorem generateScscMap_settles_iff_biuSwitch :
    (generateBiuScscMap
            (written biuSwitch (generateBiuScscMap biuSwitch oneDimension twoScs false 4
              fun _ => false)) oneDimension twoScs false 4 (fun _ => false) = [] ∧
          BlocksAgree (generateBiuScscMap biuSwitch oneDimension twoScs false 4 fun _ => false) ↔
        RulesSettle biuSwitch oneDimension twoScs false 4 (fun _ => false)
          (biuRules biuSwitch oneDimension twoScs 4)) ∧
      (generateSiScscMap
            (written biuSwitch (generateSiScscMap biuSwitch oneDimension twoScs false 4
              fun _ => false)) oneDimension twoScs false 4 (fun _ => false) = [] ∧
          BlocksAgree (generateSiScscMap biuSwitch oneDimension twoScs false 4 fun _ => false) ↔
        RulesSettle biuSwitch oneDimension twoScs false 4 (fun _ => false)
          (siRules biuSwitch oneDimension twoScs 4)) :=
  generateScscMap_settles_iff biuSwitch oneDimension twoScs false 4 (fun _ => false) (by decide)

/-- The map from the host to the BIU link is written by each call. -/
theorem not_generateBiuScscMap_settles :
    ¬(generateBiuScscMap
            (written biuSwitch (generateBiuScscMap biuSwitch oneDimension twoScs false 4
              fun _ => false)) oneDimension twoScs false 4 (fun _ => false) = [] ∧
          BlocksAgree
            (generateBiuScscMap biuSwitch oneDimension twoScs false 4 fun _ => false)) := by
  rw [generateBiuScscMap_eq, generateBiuScscMap_eq]
  intro hsettles
  have hrules := (blocksWith_settles_iff (by decide) biuRules_rulesOf).mp hsettles
  have hpair : twoScs.RoutingSCs 0 0 1 := ⟨by decide, by decide, by decide⟩
  rcases hrules.map _ List.mem_cons_self 3 4 ⟨by decide, by decide⟩ with hmap | hisl
  · have hsecond : twoScs.scscNoChg 1 = twoScs.scsc0 2 1 := congrFun hmap 1
    rw [hpair.scscNoChg_second, hpair.scsc0_second (by decide)] at hsecond
    exact absurd hsecond (by decide)
  · exact absurd hisl.1 (by decide)

end OpaFm.DorBiu
