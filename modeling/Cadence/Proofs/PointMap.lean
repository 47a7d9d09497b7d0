import Cadence.Proofs.LastWins
import Cadence.Store.Fetch

namespace Cadence

namespace PointSet

theorem name_empty (name : String) (step : Int) : (empty name step).name = name := rfl

theorem step_empty (name : String) (step : Int) : (empty name step).step = step := rfl

theorem merge_eq_ok {s other : PointSet} (h : s.step = other.step) :
    ∃ united, s.merge other = .ok united ∧ united.name = s.name ∧ united.step = s.step ∧
      ∀ t : Int, united.points[t]? = (other.points[t]?).or s.points[t]? := by
  refine ⟨_, if_pos h, rfl, rfl, fun t => ?_⟩
  rw [getElem?_foldl_insert Prod.fst Prod.snd, toList, lastUnder_toList]

theorem ofPoints_eq (name : String) (step : Int) (points : List (Int × Option Float)) :
    ofPoints name step points
      = ⟨name, step, points.foldl (fun m p => m.insert p.1 p.2) ∅⟩ := by
  have hfold : ∀ s : PointSet, points.foldl (fun s p => s.insert p.1 p.2) s
      = ⟨s.name, s.step, points.foldl (fun m p => m.insert p.1 p.2) s.points⟩ := by
    induction points with
    | nil => exact fun s => rfl
    | cons p points ih =>
        intro s
        rw [List.foldl_cons, ih, List.foldl_cons]
        rfl
  exact hfold (empty name step)

theorem name_ofPoints (name : String) (step : Int) (points : List (Int × Option Float)) :
    (ofPoints name step points).name = name := by rw [ofPoints_eq]

theorem step_ofPoints (name : String) (step : Int) (points : List (Int × Option Float)) :
    (ofPoints name step points).step = step := by rw [ofPoints_eq]

theorem getElem?_ofPoints (name : String) (step : Int) (points : List (Int × Option Float))
    (t : Int) : (ofPoints name step points).points[t]? = lastUnder Prod.fst Prod.snd t points := by
  rw [ofPoints_eq, getElem?_foldl_insert Prod.fst Prod.snd]
  simp

theorem ext_points {s other : PointSet} (hname : s.name = other.name) (hstep : s.step = other.step)
    (hpoints : ∀ t : Int, s.points[t]? = other.points[t]?) : s = other := by
  have hsame : s.points = other.points := Std.ExtTreeMap.ext_getElem? fun {t} => hpoints t
  cases s
  cases other
  simp only at hname hstep hsame
  rw [hname, hstep, hsame]

end PointSet

namespace PointMap

-- What a map holds for a name at an instant.
def at? (m : PointMap) (name : String) (t : Int) : Option (Option Float) :=
  (m.get? name).bind fun s => s.points[t]?

-- Every set is kept under its name, and all have one step.
def Uniform (m : PointMap) (step : Int) : Prop :=
  ∀ name s, m.get? name = some s → s.name = name ∧ s.step = step

theorem ext_get? {m other : PointMap} (h : ∀ name, m.get? name = other.get? name) : m = other := by
  have hsets : m.sets = other.sets := Std.ExtTreeMap.ext_getElem? fun {name} => h name
  cases m
  cases other
  exact congrArg mk hsets

theorem get?_insert (m : PointMap) (s : PointSet) (name : String) :
    (m.insert s).get? name = if s.name = name then some s else m.get? name := by
  simp [get?, insert, Std.ExtTreeMap.getElem?_insert]

theorem get?_ofList (sets : List PointSet) (name : String) :
    (ofList sets).get? name = lastUnder PointSet.name id name sets := by
  have hfold : ∀ m : PointMap, sets.foldl insert m
      = ⟨sets.foldl (fun m s => m.insert s.name s) m.sets⟩ := by
    induction sets with
    | nil => exact fun m => rfl
    | cons s sets ih =>
        intro m
        rw [List.foldl_cons, ih, List.foldl_cons]
        rfl
  have hget := getElem?_foldl_insert PointSet.name id sets empty.sets name
  rw [ofList, hfold, get?]
  simpa [empty] using hget

theorem get?_ofList_map {setOf : String → PointSet} (hname : ∀ name, (setOf name).name = name)
    (names : List String) (name : String) :
    (ofList (names.map setOf)).get? name = if name ∈ names then some (setOf name) else none := by
  rw [get?_ofList, lastUnder, lastSome_map]
  split
  · rename_i hmem
    rw [lastSome_eq_some_iff]
    · exact ⟨name, hmem, by simp [hname]⟩
    · intro x _ y _ b c hb hc
      simp only [Function.comp_apply, hname] at hb hc
      grind
  · rename_i hmem
    rw [lastSome_eq_none_iff]
    intro x hx
    have hne : x ≠ name := fun he => hmem (he ▸ hx)
    simp [hname, hne]

theorem exists_toList_ofList_map {setOf : String → PointSet} (hname : ∀ name, (setOf name).name = name)
    (names : List String) :
    ∃ sorted : List String, sorted.Pairwise (fun a b => compare a b = .lt) ∧
      (∀ name, name ∈ sorted ↔ name ∈ names) ∧
      (ofList (names.map setOf)).toList = sorted.map setOf := by
  let m := ofList (names.map setOf)
  have hget : ∀ name, m.sets[name]? = if name ∈ names then some (setOf name) else none :=
    get?_ofList_map hname names
  refine ⟨m.sets.keys, Std.ExtTreeMap.ordered_keys, ?_, ?_⟩
  · intro name
    rw [Std.ExtTreeMap.mem_keys, Std.ExtTreeMap.mem_iff_isSome_getElem?, hget]
    split <;> simp [*]
  · change m.sets.values = _
    rw [values_eq_map_toList, ← Std.ExtTreeMap.map_fst_toList_eq_keys, List.map_map]
    apply List.map_congr_left
    rintro ⟨name, s⟩ hs
    have hs := Std.ExtTreeMap.mem_toList_iff_getElem?_eq_some.mp hs
    rw [hget] at hs
    split at hs
    · exact (Option.some.inj hs).symm
    · cases hs

theorem isSome_get?_ofList_map {setOf : String → PointSet}
    (hname : ∀ name, (setOf name).name = name) (names : List String) (name : String) :
    ((ofList (names.map setOf)).get? name).isSome ↔ name ∈ names := by
  rw [get?_ofList_map hname]
  split <;> simp [*]

theorem uniform_ofList_map {setOf : String → PointSet} {step : Int}
    (hname : ∀ name, (setOf name).name = name) (hstep : ∀ name, (setOf name).step = step)
    (names : List String) : (ofList (names.map setOf)).Uniform step := by
  intro name s hs
  rw [get?_ofList_map hname] at hs
  split at hs
  · cases hs
    exact ⟨hname name, hstep name⟩
  · cases hs

theorem eq_ofList_map {setOf : String → PointSet} {step : Int}
    (hname : ∀ name, (setOf name).name = name) (hstep : ∀ name, (setOf name).step = step)
    {m : PointMap} (hm : m.Uniform step) {names : List String}
    (hkeys : ∀ name, (m.get? name).isSome ↔ name ∈ names)
    (hat : ∀ name ∈ names, ∀ t, m.at? name t = (setOf name).points[t]?) :
    m = ofList (names.map setOf) := by
  apply ext_get?
  intro name
  rw [get?_ofList_map hname]
  by_cases hn : name ∈ names
  · obtain ⟨s, hs⟩ := Option.isSome_iff_exists.mp ((hkeys name).mpr hn)
    obtain ⟨hsname, hsstep⟩ := hm name s hs
    rw [if_pos hn, hs]
    congr 1
    refine PointSet.ext_points (hsname.trans (hname name).symm) (hsstep.trans (hstep name).symm) ?_
    intro t
    rw [← hat name hn, at?, hs, Option.bind_some]
  · rw [if_neg hn]
    simpa using fun hs => hn ((hkeys name).mp hs)

theorem uniform_insert {m : PointMap} {step : Int} (hm : m.Uniform step) {s : PointSet}
    (hs : s.step = step) : (m.insert s).Uniform step := by
  intro name old hold
  rw [get?_insert] at hold
  split at hold
  · rename_i hname
    cases hold
    exact ⟨hname, hs⟩
  · exact hm name old hold

-- What some sets hold together for a name at an instant.
def pointIn (name : String) (t : Int) (sets : List PointSet) : Option (Option Float) :=
  lastSome (fun s => if s.name = name then s.points[t]? else none) sets

theorem mergeSets_cons {m : PointMap} {step : Int} (hm : m.Uniform step) {s : PointSet}
    (hs : s.step = step) (rest : List PointSet) :
    ∃ grown : PointMap, m.mergeSets (s :: rest) = grown.mergeSets rest ∧ grown.Uniform step ∧
      (∀ name, (grown.get? name).isSome ↔ (m.get? name).isSome ∨ s.name = name) ∧
      ∀ name t, grown.at? name t
        = (if s.name = name then s.points[t]? else none).or (m.at? name t) := by
  cases hold : m.get? s.name with
  | none =>
      refine ⟨m.insert s, by simp [mergeSets, hold], uniform_insert hm hs, ?_, ?_⟩
      · intro name
        rw [get?_insert]
        by_cases hn : s.name = name <;> simp [hn]
      · intro name t
        rw [at?, at?, get?_insert]
        by_cases hn : s.name = name
        · subst hn
          simp [hold]
        · simp [hn]
  | some old =>
      obtain ⟨holdname, holdstep⟩ := hm s.name old hold
      have hsame : old.step = s.step := holdstep.trans hs.symm
      obtain ⟨united, hunited, hname, hstep, hpoints⟩ := PointSet.merge_eq_ok hsame
      have hname := hname.trans holdname
      refine ⟨m.insert united, by simp [mergeSets, hold, hunited],
        uniform_insert hm (hstep.trans holdstep), ?_, ?_⟩
      · intro name
        rw [get?_insert, hname]
        by_cases hn : s.name = name
        · simp [hn]
        · simp [hn]
      · intro name t
        rw [at?, at?, get?_insert, hname]
        by_cases hn : s.name = name
        · subst hn
          simp [hold, hpoints]
        · simp [hn]

theorem mergeSets_uniform {m : PointMap} {step : Int} (hm : m.Uniform step) {sets : List PointSet}
    (hsets : ∀ s ∈ sets, s.step = step) :
    ∃ united : PointMap, m.mergeSets sets = (united, none) ∧ united.Uniform step ∧
      (∀ name, (united.get? name).isSome ↔ (m.get? name).isSome ∨ ∃ s ∈ sets, s.name = name) ∧
      ∀ name t, united.at? name t = (pointIn name t sets).or (m.at? name t) := by
  induction sets generalizing m with
  | nil => exact ⟨m, rfl, hm, by simp, fun _ _ => rfl⟩
  | cons s sets ih =>
      obtain ⟨grown, hstep, hgrown, hkeys, hpoints⟩ := mergeSets_cons hm (hsets s (by simp)) sets
      obtain ⟨united, hall, hunited, hnames, hat⟩ := ih hgrown fun x hx => hsets x (by simp [hx])
      refine ⟨united, hstep.trans hall, hunited, ?_, ?_⟩
      · intro name
        rw [hnames, hkeys]
        simp [or_assoc]
      · intro name t
        rw [hat, hpoints, pointIn, pointIn, lastSome_cons, Option.or_assoc]

theorem mem_toList_iff (m : PointMap) (s : PointSet) :
    s ∈ m.toList ↔ ∃ name, m.get? name = some s := mem_values_iff m.sets s

theorem pointIn_toList {m : PointMap} {step : Int} (hm : m.Uniform step) (name : String) (t : Int) :
    pointIn name t m.toList = m.at? name t := by
  have hget : ∀ s ∈ m.toList, s.name = name → m.get? name = some s := by
    intro s hs hname
    obtain ⟨key, hkey⟩ := (mem_toList_iff m s).mp hs
    rwa [← hname, (hm key s hkey).1]
  apply Option.ext
  intro value
  rw [pointIn, lastSome_eq_some_iff]
  · constructor
    · rintro ⟨s, hs, hvalue⟩
      split at hvalue
      · rename_i hname
        rw [at?, hget s hs hname]
        exact hvalue
      · cases hvalue
    · intro h
      obtain ⟨s, hs, hvalue⟩ := Option.bind_eq_some_iff.mp h
      exact ⟨s, (mem_toList_iff m s).mpr ⟨name, hs⟩, by rw [if_pos (hm name s hs).1, hvalue]⟩
  · -- two sets of the name are the one that is kept under it
    intro x hx y hy b c hb hc
    split at hb <;> split at hc <;> try contradiction
    rename_i hxname hyname
    have hxy : x = y := Option.some.inj ((hget x hx hxname).symm.trans (hget y hy hyname))
    rw [hxy, hc] at hb
    exact (Option.some.inj hb).symm

theorem merge_uniform {m other : PointMap} {step : Int} (hm : m.Uniform step)
    (hother : other.Uniform step) :
    ∃ united : PointMap, m.merge other = (united, none) ∧ united.Uniform step ∧
      (∀ name, (united.get? name).isSome ↔ (m.get? name).isSome ∨ (other.get? name).isSome) ∧
      ∀ name t, united.at? name t = (other.at? name t).or (m.at? name t) := by
  have hsets : ∀ s ∈ other.toList, s.step = step := by
    intro s hs
    obtain ⟨name, hname⟩ := (mem_toList_iff other s).mp hs
    exact (hother name s hname).2
  obtain ⟨united, hmerge, hunited, hkeys, hat⟩ := mergeSets_uniform hm hsets
  refine ⟨united, hmerge, hunited, ?_, ?_⟩
  · intro name
    rw [hkeys]
    refine or_congr_right ?_
    rw [Option.isSome_iff_exists]
    constructor
    · rintro ⟨s, hs, rfl⟩
      obtain ⟨key, hkey⟩ := (mem_toList_iff other s).mp hs
      exact ⟨s, by rw [(hother key s hkey).1, hkey]⟩
    · rintro ⟨s, hs⟩
      exact ⟨s, (mem_toList_iff other s).mpr ⟨name, hs⟩, (hother name s hs).1⟩
  · intro name t
    rw [hat, pointIn_toList hother]

-- Maps of one step can all be united, and the last that holds a point decides.
theorem mergeAll_uniform {m : PointMap} {step : Int} (hm : m.Uniform step) {parts : List PointMap}
    (hparts : ∀ part ∈ parts, part.Uniform step) :
    ∃ united : PointMap, m.mergeAll parts = .ok united ∧ united.Uniform step ∧
      (∀ name, (united.get? name).isSome
        ↔ (m.get? name).isSome ∨ ∃ part ∈ parts, (part.get? name).isSome) ∧
      ∀ name t, united.at? name t
        = (lastSome (fun part => part.at? name t) parts).or (m.at? name t) := by
  induction parts generalizing m with
  | nil => exact ⟨m, rfl, hm, by simp, fun _ _ => rfl⟩
  | cons part parts ih =>
      obtain ⟨grown, hmerge, hgrown, hkeys, hpoints⟩ := merge_uniform hm (hparts part (by simp))
      obtain ⟨united, hall, hunited, hnames, hat⟩ := ih hgrown fun x hx => hparts x (by simp [hx])
      refine ⟨united, by simp [mergeAll, hmerge, hall], hunited, ?_, ?_⟩
      · intro name
        rw [hnames, hkeys]
        simp [or_assoc]
      · intro name t
        rw [hat, hpoints, lastSome_cons, Option.or_assoc]

end PointMap

end Cadence
