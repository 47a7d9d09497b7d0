import Cadence.Proofs.PointMap

namespace Cadence

-- What a name holds after a set has been united with the one that was there.
def PointSet.onto (s : PointSet) : Option PointSet → PointSet
  | none => s
  | some old => { old with points := s.toList.foldl (fun m p => m.insert p.1 p.2) old.points }

namespace PointMap

-- Every set is kept under its own name.
def Named (m : PointMap) : Prop := ∀ name s, m.get? name = some s → s.name = name

def step? (m : PointMap) (name : String) : Option Int := (m.get? name).map (·.step)

-- Both maps have a set of the name, and the steps of the two differ.
def Conflicts (m other : PointMap) (name : String) : Prop :=
  ∃ left right, m.step? name = some left ∧ other.step? name = some right ∧ left ≠ right

-- A map holds of a name what two maps hold of it together. The points of the second map win.
structure Unites (m other united : PointMap) (name : String) : Prop where
  step : united.step? name = (m.step? name).or (other.step? name)
  points : ∀ t, united.at? name t = (other.at? name t).or (m.at? name t)

theorem named_empty : empty.Named := by
  intro name s hs
  simp [get?, empty] at hs

theorem Named.insert {m : PointMap} (h : m.Named) (s : PointSet) : (m.insert s).Named := by
  intro name old hold
  rw [get?_insert] at hold
  split at hold
  · rename_i hname
    cases hold
    exact hname
  · exact h name old hold

theorem named_ofList (sets : List PointSet) : (ofList sets).Named := by
  have hfold : ∀ m : PointMap, m.Named → (sets.foldl PointMap.insert m).Named := by
    induction sets with
    | nil => exact fun m hm => hm
    | cons s sets ih => exact fun m hm => ih _ (hm.insert s)
  exact hfold empty named_empty

theorem mem_toList_iff_get? {m : PointMap} (h : m.Named) (s : PointSet) :
    s ∈ m.toList ↔ m.get? s.name = some s := by
  rw [mem_toList_iff]
  constructor
  · rintro ⟨name, hs⟩
    rwa [h name s hs]
  · exact fun hs => ⟨s.name, hs⟩

-- The sets of a map stand in the order of their names.
theorem pairwise_toList {m : PointMap} (h : m.Named) : m.toList.Pairwise (·.name < ·.name) := by
  have hordered := Std.ExtTreeMap.ordered_keys_toList (t := m.sets)
  have hkeys : m.sets.toList.Pairwise (·.1 < ·.1) :=
    hordered.imp fun hlt => compareOfLessAndEq_eq_lt.mp hlt
  have hname : ∀ p ∈ m.sets.toList, p.2.name = p.1 := fun p hp =>
    h p.1 p.2 (Std.ExtTreeMap.mem_toList_iff_getElem?_eq_some.mp hp)
  have hvalues : m.toList = m.sets.toList.map Prod.snd := values_eq_map_toList m.sets
  rw [hvalues, List.pairwise_map]
  refine hkeys.imp_of_mem fun {p q} hp hq hlt => ?_
  rwa [hname p hp, hname q hq]

-- Maps that hold the same under every name are the same.
theorem ext_named {m other : PointMap} (hm : m.Named) (hother : other.Named)
    (hstep : ∀ name, m.step? name = other.step? name)
    (hat : ∀ name t, m.at? name t = other.at? name t) : m = other := by
  apply ext_get?
  intro name
  have hsteps := hstep name
  have hpoints := hat name
  unfold step? at hsteps
  unfold at? at hpoints
  cases hleft : m.get? name with
  | none =>
      rw [hleft] at hsteps
      exact (Option.map_eq_none_iff.mp hsteps.symm).symm
  | some s =>
      rw [hleft] at hsteps
      obtain ⟨o, hright, hsame⟩ := Option.map_eq_some_iff.mp hsteps.symm
      rw [hleft, hright] at hpoints
      rw [hright]
      congr 1
      exact PointSet.ext_points ((hm name s hleft).trans (hother name o hright).symm) hsame.symm hpoints

-- Some sets have been united with those of a map, whose steps are theirs; nothing else has changed.
structure Grown (m : PointMap) (sets : List PointSet) (united : PointMap) : Prop where
  named : united.Named
  agree : ∀ s ∈ sets, ∀ old, m.get? s.name = some old → old.step = s.step
  own : ∀ s ∈ sets, united.get? s.name = some (s.onto (m.get? s.name))
  others : ∀ name, (∀ s ∈ sets, s.name ≠ name) → united.get? name = m.get? name

theorem grown_nil {m : PointMap} (h : m.Named) : m.Grown [] m :=
  ⟨h, nofun, nofun, fun _ _ => rfl⟩

theorem mergeSets_cons_of_agree {m : PointMap} {s : PointSet}
    (h : ∀ old, m.get? s.name = some old → old.step = s.step) (rest : List PointSet) :
    m.mergeSets (s :: rest) = (m.insert (s.onto (m.get? s.name))).mergeSets rest := by
  rw [mergeSets]
  cases hold : m.get? s.name with
  | none => rfl
  | some old =>
      simp only [PointSet.merge, if_pos (h old hold)]
      rfl

theorem mergeSets_cons_of_ne {m : PointMap} {s old : PointSet} (hold : m.get? s.name = some old)
    (hne : old.step ≠ s.step) (rest : List PointSet) :
    m.mergeSets (s :: rest) = (m, some ⟨old.name, old.step, s.step⟩) := by
  rw [mergeSets, hold]
  simp only [PointSet.merge, if_neg hne]

theorem name_onto {m : PointMap} (h : m.Named) (s : PointSet) :
    (s.onto (m.get? s.name)).name = s.name := by
  cases hold : m.get? s.name with
  | none => rfl
  | some old => exact h s.name old hold

theorem Grown.cons {m united : PointMap} {s : PointSet} {sets : List PointSet} (hm : m.Named)
    (hs : ∀ old, m.get? s.name = some old → old.step = s.step)
    (hapart : ∀ x ∈ sets, s.name ≠ x.name)
    (h : (m.insert (s.onto (m.get? s.name))).Grown sets united) : m.Grown (s :: sets) united := by
  have hname := name_onto hm s
  have hkept : ∀ name, s.name ≠ name →
      (m.insert (s.onto (m.get? s.name))).get? name = m.get? name := fun name hne => by
    rw [get?_insert, hname, if_neg hne]
  refine ⟨h.named, ?_, ?_, ?_⟩
  · intro x hx old hold
    rcases List.mem_cons.mp hx with rfl | hx
    · exact hs old hold
    · exact h.agree x hx old (by rwa [hkept x.name (hapart x hx)])
  · intro x hx
    rcases List.mem_cons.mp hx with rfl | hx
    · rw [h.others x.name fun y hy => Ne.symm (hapart y hy), get?_insert, if_pos hname]
    · rw [h.own x hx, hkept x.name (hapart x hx)]
  · intro name hnames
    rw [h.others name fun y hy => hnames y (List.mem_cons_of_mem _ hy),
      hkept name (hnames s List.mem_cons_self)]

-- Sets of different names are all united, or those in front of the first whose step differs.
theorem mergeSets_cases {m : PointMap} (hm : m.Named) {sets : List PointSet}
    (hsets : sets.Pairwise (·.name ≠ ·.name)) :
    (∃ united, m.mergeSets sets = (united, none) ∧ m.Grown sets united) ∨
    ∃ before s after old united, sets = before ++ s :: after ∧ m.get? s.name = some old ∧
      old.step ≠ s.step ∧ m.mergeSets sets = (united, some ⟨s.name, old.step, s.step⟩) ∧
      m.Grown before united := by
  induction sets generalizing m with
  | nil => exact .inl ⟨m, rfl, grown_nil hm⟩
  | cons s sets ih =>
      obtain ⟨hapart, hsets⟩ := List.pairwise_cons.mp hsets
      by_cases hs : ∀ old, m.get? s.name = some old → old.step = s.step
      · rw [mergeSets_cons_of_agree hs]
        rcases ih (hm.insert _) hsets with ⟨united, hall, hgrown⟩ |
          ⟨before, x, after, old, united, rfl, hold, hne, hstop, hgrown⟩
        · exact .inl ⟨united, hall, hgrown.cons hm hs hapart⟩
        · have hbefore : ∀ y ∈ before, s.name ≠ y.name := fun y hy =>
            hapart y (List.mem_append_left _ hy)
          have hkept : m.get? x.name = some old := by
            have hxs : s.name ≠ x.name := hapart x (by simp)
            rwa [get?_insert, name_onto hm, if_neg hxs] at hold
          exact .inr ⟨s :: before, x, after, old, united, rfl, hkept, hne, hstop,
            hgrown.cons hm hs hbefore⟩
      · simp only [Classical.not_forall] at hs
        obtain ⟨old, hold, hne⟩ := hs
        rw [mergeSets_cons_of_ne hold hne, hm s.name old hold]
        exact .inr ⟨[], s, sets, old, m, rfl, hold, hne, rfl, grown_nil hm⟩

variable {m other united : PointMap}

-- Where some sets of a map have been united, their names hold what the two maps hold together.
theorem Grown.unites {sets : List PointSet} (h : m.Grown sets united) (hother : other.Named)
    {name : String} (hsets : ∀ s, s.name = name → (s ∈ sets ↔ other.get? name = some s)) :
    ¬m.Conflicts other name ∧ m.Unites other united name := by
  cases hset : other.get? name with
  | none =>
      have hkept := h.others name fun s hs hname => by
        rw [(hsets s hname).mp hs] at hset
        cases hset
      refine ⟨?_, ?_, fun t => ?_⟩
      · rintro ⟨left, right, -, hright, -⟩
        simp [step?, hset] at hright
      · simp [step?, hset, hkept]
      · simp [at?, hset, hkept]
  | some s =>
      obtain rfl : s.name = name := hother name s hset
      have hs := (hsets s rfl).mpr hset
      have hown := h.own s hs
      cases hold : m.get? s.name with
      | none =>
          rw [hold] at hown
          refine ⟨?_, ?_, fun t => ?_⟩
          · rintro ⟨left, right, hleft, -⟩
            simp [step?, hold] at hleft
          · simp [step?, hset, hold, hown, PointSet.onto]
          · simp [at?, hset, hold, hown, PointSet.onto]
      | some old =>
          rw [hold] at hown
          have hsame := h.agree s hs old hold
          have hpoints := getElem?_foldl_insert Prod.fst Prod.snd s.points.toList old.points
          refine ⟨?_, ?_, fun t => ?_⟩
          · rintro ⟨left, right, hleft, hright, hne⟩
            simp only [step?, hold, hset, Option.map_some, Option.some.injEq] at hleft hright
            exact hne (by rw [← hleft, ← hright, hsame])
          · simp [step?, hold, hown, PointSet.onto]
          · simpa [at?, hset, hold, hown, PointSet.onto, PointSet.toList, lastUnder_toList] using hpoints t

-- The sets of a map in front of one of them are those of lesser names.
theorem mem_before_iff (h : other.Named) {before after : List PointSet} {s : PointSet}
    (hsets : other.toList = before ++ s :: after) (x : PointSet) :
    x ∈ before ↔ other.get? x.name = some x ∧ x.name < s.name := by
  have hordered := pairwise_toList h
  rw [hsets, List.pairwise_append] at hordered
  obtain ⟨-, hback, hfront⟩ := hordered
  rw [← mem_toList_iff_get? h, hsets, List.mem_append]
  constructor
  · exact fun hx => ⟨.inl hx, hfront x hx s List.mem_cons_self⟩
  · rintro ⟨hx | hx, hlt⟩
    · exact hx
    · rcases List.mem_cons.mp hx with rfl | hx
      · exact absurd hlt (String.lt_irrefl _)
      · exact absurd hlt (String.lt_asymm ((List.pairwise_cons.mp hback).1 x hx))

theorem merge_cases (hm : m.Named) (hother : other.Named) :
    (∃ united, m.merge other = (united, none) ∧ united.Named ∧
      ∀ name, ¬m.Conflicts other name ∧ m.Unites other united name) ∨
    ∃ name left right united, m.merge other = (united, some ⟨name, left, right⟩) ∧ united.Named ∧
      m.step? name = some left ∧ other.step? name = some right ∧ left ≠ right ∧
      (∀ lesser < name, ¬m.Conflicts other lesser ∧ m.Unites other united lesser) ∧
      ∀ later, ¬later < name → united.get? later = m.get? later := by
  have hapart : other.toList.Pairwise (·.name ≠ ·.name) := by
    refine (pairwise_toList hother).imp fun {x y} hlt heq => ?_
    rw [heq] at hlt
    exact String.lt_irrefl _ hlt
  rcases mergeSets_cases hm hapart with ⟨united, hall, hgrown⟩ |
    ⟨before, s, after, old, united, hsets, hold, hne, hstop, hgrown⟩
  · refine .inl ⟨united, hall, hgrown.named, fun name => hgrown.unites hother ?_⟩
    rintro s rfl
    exact mem_toList_iff_get? hother s
  · have hbefore := mem_before_iff hother hsets
    have hset : other.get? s.name = some s :=
      (mem_toList_iff_get? hother s).mp (hsets ▸ List.mem_append_right before List.mem_cons_self)
    refine .inr ⟨s.name, old.step, s.step, united, hstop, hgrown.named, ?_, ?_, hne, ?_, ?_⟩
    · rw [step?, hold, Option.map_some]
    · rw [step?, hset, Option.map_some]
    · intro lesser hlt
      refine hgrown.unites hother ?_
      rintro x rfl
      rw [hbefore, and_iff_left hlt]
    · intro later hlater
      refine hgrown.others later ?_
      rintro x hx rfl
      exact hlater ((hbefore x).mp hx).2

-- Steps that are the same where there are two of them.
def SameStep (x y : Option Int) : Prop := ∀ left right, x = some left → y = some right → left = right

theorem not_conflicts_iff {name : String} :
    ¬m.Conflicts other name ↔ SameStep (m.step? name) (other.step? name) := by
  simp only [Conflicts, SameStep, not_exists, not_and, ne_eq, Decidable.not_not]

-- Of three steps, of which some may be missing, all are the same, however they are grouped.
theorem sameStep_or_iff (x y z : Option Int) :
    SameStep x y ∧ SameStep (x.or y) z ↔ SameStep y z ∧ SameStep x (y.or z) := by
  unfold SameStep
  cases x with
  | none => simp
  | some left =>
      cases y with
      | none => simp
      | some right =>
          simp only [Option.some.injEq, Option.some_or]
          grind

theorem exists_merge_iff (hm : m.Named) (hother : other.Named) :
    (∃ united, m.merge other = (united, none)) ↔
      ∀ name, SameStep (m.step? name) (other.step? name) := by
  simp only [← not_conflicts_iff]
  rcases merge_cases hm hother with ⟨united, hmerge, -, hall⟩ |
    ⟨name, left, right, united, hmerge, -, hleft, hright, hne, -⟩
  · exact ⟨fun _ name => (hall name).1, fun _ => ⟨united, hmerge⟩⟩
  · constructor
    · rintro ⟨united', hmerge'⟩
      rw [hmerge] at hmerge'
      cases hmerge'
    · exact fun hall => absurd ⟨left, right, hleft, hright, hne⟩ (hall name)

theorem unites_of_merge (hm : m.Named) (hother : other.Named) (h : m.merge other = (united, none)) :
    united.Named ∧ ∀ name, m.Unites other united name := by
  rcases merge_cases hm hother with ⟨united', hmerge, hnamed, hall⟩ |
    ⟨name, left, right, united', hmerge, -⟩
  · obtain rfl : united' = united := congrArg Prod.fst (hmerge.symm.trans h)
    exact ⟨hnamed, fun name => (hall name).2⟩
  · rw [hmerge] at h
    cases h

-- What a union holds says which map it is.
theorem merge_eq_iff (hm : m.Named) (hother : other.Named) :
    m.merge other = (united, none) ↔ united.Named ∧
      (∀ name, SameStep (m.step? name) (other.step? name)) ∧ ∀ name, m.Unites other united name := by
  constructor
  · intro h
    obtain ⟨hnamed, hunites⟩ := unites_of_merge hm hother h
    exact ⟨hnamed, (exists_merge_iff hm hother).mp ⟨united, h⟩, hunites⟩
  · rintro ⟨hnamed, hsame, hunites⟩
    obtain ⟨united', hmerge⟩ := (exists_merge_iff hm hother).mpr hsame
    obtain ⟨hnamed', hunites'⟩ := unites_of_merge hm hother hmerge
    have heq : united' = united := ext_named hnamed' hnamed
      (fun name => (hunites' name).step.trans (hunites name).step.symm)
      fun name t => ((hunites' name).points t).trans ((hunites name).points t).symm
    rw [hmerge, heq]

variable {a b c : PointMap}

theorem exists_merge_right (ha : a.Named) (hb : b.Named) (hc : c.Named) {ab : PointMap}
    (hab : a.merge b = (ab, none)) (habc : ab.merge c = (united, none)) :
    ∃ bc, b.merge c = (bc, none) ∧ a.merge bc = (united, none) := by
  obtain ⟨hnamed, hfirst, hunites⟩ := (merge_eq_iff ha hb).mp hab
  obtain ⟨hunited, hsecond, hunites'⟩ := (merge_eq_iff hnamed hc).mp habc
  have hsame := fun name => (sameStep_or_iff (a.step? name) (b.step? name) (c.step? name)).mp
    ⟨hfirst name, (hunites name).step ▸ hsecond name⟩
  obtain ⟨bc, hbc⟩ := (exists_merge_iff hb hc).mpr fun name => (hsame name).1
  obtain ⟨hnamed', hgrouped⟩ := unites_of_merge hb hc hbc
  refine ⟨bc, hbc, (merge_eq_iff ha hnamed').mpr ⟨hunited, fun name => ?_, fun name => ⟨?_, fun t => ?_⟩⟩⟩
  · rw [(hgrouped name).step]
    exact (hsame name).2
  · rw [(hunites' name).step, (hunites name).step, (hgrouped name).step, Option.or_assoc]
  · rw [(hunites' name).points, (hunites name).points, (hgrouped name).points, Option.or_assoc]

theorem exists_merge_left (ha : a.Named) (hb : b.Named) (hc : c.Named) {bc : PointMap}
    (hbc : b.merge c = (bc, none)) (habc : a.merge bc = (united, none)) :
    ∃ ab, a.merge b = (ab, none) ∧ ab.merge c = (united, none) := by
  obtain ⟨hnamed, hfirst, hunites⟩ := (merge_eq_iff hb hc).mp hbc
  obtain ⟨hunited, hsecond, hunites'⟩ := (merge_eq_iff ha hnamed).mp habc
  have hsame := fun name => (sameStep_or_iff (a.step? name) (b.step? name) (c.step? name)).mpr
    ⟨hfirst name, (hunites name).step ▸ hsecond name⟩
  obtain ⟨ab, hab⟩ := (exists_merge_iff ha hb).mpr fun name => (hsame name).1
  obtain ⟨hnamed', hgrouped⟩ := unites_of_merge ha hb hab
  refine ⟨ab, hab, (merge_eq_iff hnamed' hc).mpr ⟨hunited, fun name => ?_, fun name => ⟨?_, fun t => ?_⟩⟩⟩
  · rw [(hgrouped name).step]
    exact (hsame name).2
  · rw [(hunites' name).step, (hunites name).step, (hgrouped name).step, Option.or_assoc]
  · rw [(hunites' name).points, (hunites name).points, (hgrouped name).points, Option.or_assoc]

-- A union of maps stops at the least name of a conflict and is made up to there; without a conflict it holds
-- what both maps hold, where the points of the second map win. Unions may be grouped either way.
theorem merge_rightBiased (ha : a.Named) (hb : b.Named) (hc : c.Named) :
    ((∃ e, (a.merge b).2 = some e) ↔ ∃ name, a.Conflicts b name) ∧
    (∀ united e, a.merge b = (united, some e) →
      a.step? e.name = some e.left ∧ b.step? e.name = some e.right ∧ e.left ≠ e.right ∧
      united.Named ∧ (∀ name < e.name, ¬a.Conflicts b name ∧ a.Unites b united name) ∧
      ∀ name, ¬name < e.name → united.get? name = a.get? name) ∧
    (∀ united, a.merge b = (united, none) → united.Named ∧ ∀ name, a.Unites b united name) ∧
    ∀ united, (∃ ab, a.merge b = (ab, none) ∧ ab.merge c = (united, none)) ↔
      ∃ bc, b.merge c = (bc, none) ∧ a.merge bc = (united, none) := by
  refine ⟨?_, fun united e h => ?_, fun united h => unites_of_merge ha hb h, fun united => ?_⟩
  · rcases merge_cases ha hb with ⟨united, hmerge, -, hall⟩ |
      ⟨name, left, right, united, hmerge, -, hleft, hright, hne, -⟩
    · simp only [hmerge, reduceCtorEq, exists_false, false_iff, not_exists]
      exact fun name => (hall name).1
    · rw [hmerge]
      exact ⟨fun _ => ⟨name, left, right, hleft, hright, hne⟩, fun _ => ⟨_, rfl⟩⟩
  · rcases merge_cases ha hb with ⟨united', hmerge, -⟩ |
      ⟨name, left, right, united', hmerge, hnamed, hleft, hright, hne, hlesser, hlater⟩
    · rw [hmerge] at h
      cases h
    · rw [hmerge] at h
      cases h
      exact ⟨hleft, hright, hne, hnamed, hlesser, hlater⟩
  · constructor
    · rintro ⟨ab, hab, habc⟩
      exact exists_merge_right ha hb hc hab habc
    · rintro ⟨bc, hbc, habc⟩
      exact exists_merge_left ha hb hc hbc habc

-- Three maps that overlap in a metric, two of which have other steps for another one.
theorem merge_rightBiased_two_steps :
    ∃ a b c : PointMap, a.Named ∧ b.Named ∧ c.Named ∧
      (∃ united, a.merge b = (united, none) ∧ united.at? "m" 0 = some (some 1) ∧
        united.at? "m" 60 = some (some 2) ∧ united.at? "m" 120 = some none) ∧
      (∃ united, a.merge c = (united, some ⟨"n", 60, 300⟩) ∧ united.at? "m" 0 = some none ∧
        united.at? "m" 60 = some (some 1)) ∧
      ∀ united, (∃ ab, a.merge b = (ab, none) ∧ ab.merge c = (united, none)) ↔
        ∃ bc, b.merge c = (bc, none) ∧ a.merge bc = (united, none) := by
  let a := ofList [.ofPoints "m" 60 [(0, some 1), (60, some 1)], .empty "n" 60]
  let b := ofList [.ofPoints "m" 60 [(60, some 2), (120, none)]]
  let c := ofList [.ofPoints "m" 60 [(0, none)], .empty "n" 300]
  have ha : a.Named := named_ofList _
  have hb : b.Named := named_ofList _
  have hc : c.Named := named_ofList _
  obtain ⟨-, -, hunites, hgroups⟩ := merge_rightBiased ha hb hc
  obtain ⟨-, hstops, -, -⟩ := merge_rightBiased ha hc hb
  have hok : a.merge b = ((a.merge b).1, none) := Prod.ext rfl (by decide +kernel +zetaReduce)
  have hfails : a.merge c = ((a.merge c).1, some ⟨"n", 60, 300⟩) := Prod.ext rfl (by decide +kernel +zetaReduce)
  obtain ⟨-, hall⟩ := hunites (a.merge b).1 hok
  obtain ⟨-, -, -, -, hbefore, -⟩ := hstops (a.merge c).1 ⟨"n", 60, 300⟩ hfails
  have hpoints := (hall "m").points
  have hpart := (hbefore "m" (by decide)).2.points
  exact ⟨a, b, c, ha, hb, hc,
    ⟨(a.merge b).1, hok, (hpoints 0).trans rfl, (hpoints 60).trans rfl, (hpoints 120).trans rfl⟩,
    ⟨(a.merge c).1, hfails, (hpart 0).trans rfl, (hpart 60).trans rfl⟩, hgroups⟩

end PointMap

end Cadence
