import Cadence.Proofs.Outcome
import Cadence.Proofs.Transform.Aggregation

namespace Cadence

-- A result that has a property, or an error that the request is to blame for.
def Sound {α : Type} (P : α → Prop) : Except QueryError α → Prop
  | .ok a => P a
  | .error e => e.isClientError = true

namespace Builtin

def combineInWords (function : String) (a : Aggregation) : Transform := fun args => do
  let series ← (allSeries function args).mapError fun e => QueryError.argument e.message
  match series with
  | [] => return []
  | s :: rest =>
    match aggregateInWords a (callName function ((s :: rest).map (·.label))) (s :: rest) with
    | some combined => return [combined]
    | none => throw .overflow

end Builtin

def Registry.inWords : Registry where
  functions := [
    ("alias", .ofChecked Builtin.label),
    ("aliasByNode", .ofChecked Builtin.labelByNodes),
    ("averageSeries", Builtin.combineInWords "averageSeries" .average),
    ("group", .ofChecked Builtin.group),
    ("maxSeries", Builtin.combineInWords "maxSeries" .max),
    ("minSeries", Builtin.combineInWords "minSeries" .min),
    ("offset", .ofChecked (Builtin.mapValues "offset" (· + ·))),
    ("scale", .ofChecked (Builtin.mapValues "scale" (· * ·))),
    ("sumSeries", Builtin.combineInWords "sumSeries" .sum)]

-- Whether the series of an argument have grids of a kind.
def Argument.On (kind : Grid → Prop) : Argument → Prop
  | .series s => ∀ x ∈ s, kind x.grid
  | _ => True

-- Two functions that come to the same sound result on arguments with grids of a kind.
structure Transform.Agrees (kind : Grid → Prop) (f f' : Transform) : Prop where
  same : ∀ args : List Argument, (∀ a ∈ args, a.On kind) → f' args = f args
  sound : ∀ args : List Argument, (∀ a ∈ args, a.On kind) →
    Sound (fun series => ∀ s ∈ series, kind s.grid) (f args)

variable {kind : Grid → Prop} {args : List Argument} {series : List (Series Float)}

theorem Transform.agrees_ofChecked {f : List Argument → Checked (List (Series Float))}
    (h : ∀ {args series}, (∀ a ∈ args, a.On kind) → f args = .ok series → ∀ s ∈ series, kind s.grid) :
    Transform.Agrees kind (.ofChecked f) (.ofChecked f) := by
  refine ⟨fun _ _ => rfl, fun args hargs => ?_⟩
  rw [ofChecked]
  cases hf : f args with
  | ok series => exact h hargs hf
  | error e => rfl

theorem Argument.on_of_asSeries {a : Argument} {function : String} {position : Nat} (ha : a.On kind)
    (h : a.asSeries function position = .ok series) : ∀ s ∈ series, kind s.grid := by
  cases a with
  | series s =>
      cases h
      exact ha
  | number x => cases h
  | text t => cases h
  | flag b => cases h

theorem on_allSeries {function : String} (hargs : ∀ a ∈ args, a.On kind)
    (h : allSeries function args = .ok series) : ∀ s ∈ series, kind s.grid := by
  rw [allSeries] at h
  obtain ⟨-, -, h⟩ := exists_of_bind_eq_ok h
  obtain ⟨lists, hlists, h⟩ := exists_of_bind_eq_ok h
  cases h
  intro s hs
  obtain ⟨list, hlist, hs⟩ := List.mem_flatten.mp hs
  obtain ⟨⟨a, position⟩, ha, hseries⟩ := (mem_iff_of_mapM hlists list).mp hlist
  exact Argument.on_of_asSeries (hargs a (List.fst_mem_of_mem_zipIdx ha)) hseries s hs

theorem allSeries_of_series (function : String) {lists : List (List (Series Float))} (hne : lists ≠ []) :
    allSeries function (lists.map .series) = .ok lists.flatten := by
  have harity : checkArity function (.atLeast 1) (lists.map .series) = .ok () := by
    simp [checkArity, Arity.admits, Nat.one_le_iff_ne_zero, hne]
  rw [allSeries, harity]
  dsimp only [bind, Except.bind]
  rw [mapM_zipIdx_eq_ok fun _ _ => rfl]
  rfl

namespace Builtin

theorem on_label (hargs : ∀ a ∈ args, a.On kind) (h : label args = .ok series) :
    ∀ s ∈ series, kind s.grid := by
  unfold label at h
  obtain ⟨-, -, h⟩ := exists_of_bind_eq_ok h
  split at h
  · rename_i head name _
    obtain ⟨list, hlist, h⟩ := exists_of_bind_eq_ok h
    obtain ⟨text, -, h⟩ := exists_of_bind_eq_ok h
    cases h
    intro s hs
    obtain ⟨r, hr, rfl⟩ := List.mem_map.mp hs
    exact Argument.on_of_asSeries (hargs head List.mem_cons_self) hlist r hr
  · obtain rfl : [] = series := Except.ok.inj h
    exact fun _ hs => absurd hs List.not_mem_nil

theorem on_labelByNodes (hargs : ∀ a ∈ args, a.On kind) (h : labelByNodes args = .ok series) :
    ∀ s ∈ series, kind s.grid := by
  unfold labelByNodes at h
  obtain ⟨-, -, h⟩ := exists_of_bind_eq_ok h
  split at h
  · rename_i head rest _
    obtain ⟨list, hlist, h⟩ := exists_of_bind_eq_ok h
    obtain ⟨numbers, -, h⟩ := exists_of_bind_eq_ok h
    intro s hs
    obtain ⟨r, hr, hs⟩ := (mem_iff_of_mapM h s).mp hs
    obtain ⟨picked, -, hs⟩ := exists_of_bind_eq_ok hs
    cases hs
    exact Argument.on_of_asSeries (hargs head List.mem_cons_self) hlist r hr
  · obtain rfl : [] = series := Except.ok.inj h
    exact fun _ hs => absurd hs List.not_mem_nil

theorem grid_mapSeries (function : String) (op : Float → Float → Float) (factor : Float)
    (s : Series Float) : (mapSeries function op factor s).grid = s.grid := by
  rw [Series.grid, mapSeries, Series.ofValues]
  simp only [Array.size_map]
  rfl

theorem on_mapValues {function : String} {op : Float → Float → Float} (hargs : ∀ a ∈ args, a.On kind)
    (h : mapValues function op args = .ok series) : ∀ s ∈ series, kind s.grid := by
  unfold mapValues at h
  obtain ⟨-, -, h⟩ := exists_of_bind_eq_ok h
  split at h
  · rename_i head factor _
    obtain ⟨list, hlist, h⟩ := exists_of_bind_eq_ok h
    obtain ⟨number, -, h⟩ := exists_of_bind_eq_ok h
    cases h
    intro s hs
    obtain ⟨r, hr, rfl⟩ := List.mem_map.mp hs
    rw [grid_mapSeries]
    exact Argument.on_of_asSeries (hargs head List.mem_cons_self) hlist r hr
  · obtain rfl : [] = series := Except.ok.inj h
    exact fun _ hs => absurd hs List.not_mem_nil

theorem combine_agrees (w : Window) (function : String) (a : Aggregation) :
    Transform.Agrees (Grid.Fits w) (.ofChecked (combine function a)) (combineInWords function a) := by
  have hresult : ∀ args : List Argument, (∀ b ∈ args, b.On (Grid.Fits w)) →
      combineInWords function a args = Transform.ofChecked (combine function a) args ∧
      Sound (fun series => ∀ s ∈ series, s.Fits w) (Transform.ofChecked (combine function a) args) := by
    intro args hargs
    rw [Transform.ofChecked]
    cases hall : allSeries function args with
    | error e =>
        rw [combineInWords, combine, hall]
        exact ⟨rfl, rfl⟩
    | ok series =>
        cases series with
        | nil =>
            rw [combineInWords, combine, hall]
            exact ⟨rfl, fun _ hs => absurd hs List.not_mem_nil⟩
        | cons s rest =>
            let name := callName function ((s :: rest).map (·.label))
            obtain ⟨hwords, hfits⟩ := aggregateInWords_eq a name (on_allSeries hargs hall)
              (List.cons_ne_nil s rest)
            have hcombine : combine function a args = .ok [aggregate a name (s :: rest)] := by
              rw [combine, hall]
              rfl
            have hinWords : combineInWords function a args = .ok [aggregate a name (s :: rest)] := by
              rw [combineInWords, hall]
              change (match aggregateInWords a name (s :: rest) with
                | some combined => Except.ok [combined]
                | none => Except.error QueryError.overflow) = _
              rw [hwords]
            rw [hinWords, hcombine]
            refine ⟨rfl, fun r hr => ?_⟩
            rw [List.mem_singleton.mp hr]
            exact hfits
  exact ⟨fun args hargs => (hresult args hargs).1, fun args hargs => (hresult args hargs).2⟩

end Builtin

-- Functions of one name that agree, in one order.
def Registry.Agrees (kind : Grid → Prop) (r r' : Registry) : Prop :=
  List.Forall₂ (fun p p' => p.1 = p'.1 ∧ Transform.Agrees kind p.2 p'.2) r.functions r'.functions

-- Only the aggregations make grids of their own.
theorem Registry.agrees_of_combine {combine : String → Aggregation → Transform}
    (h : ∀ function a, Transform.Agrees kind (.ofChecked (Builtin.combine function a))
      (combine function a)) :
    Registry.builtin.Agrees kind ⟨[
      ("alias", .ofChecked Builtin.label),
      ("aliasByNode", .ofChecked Builtin.labelByNodes),
      ("averageSeries", combine "averageSeries" .average),
      ("group", .ofChecked Builtin.group),
      ("maxSeries", combine "maxSeries" .max),
      ("minSeries", combine "minSeries" .min),
      ("offset", .ofChecked (Builtin.mapValues "offset" (· + ·))),
      ("scale", .ofChecked (Builtin.mapValues "scale" (· * ·))),
      ("sumSeries", combine "sumSeries" .sum)]⟩ :=
  .cons ⟨rfl, Transform.agrees_ofChecked Builtin.on_label⟩ <|
  .cons ⟨rfl, Transform.agrees_ofChecked Builtin.on_labelByNodes⟩ <|
  .cons ⟨rfl, h _ _⟩ <|
  .cons ⟨rfl, Transform.agrees_ofChecked on_allSeries⟩ <|
  .cons ⟨rfl, h _ _⟩ <|
  .cons ⟨rfl, h _ _⟩ <|
  .cons ⟨rfl, Transform.agrees_ofChecked Builtin.on_mapValues⟩ <|
  .cons ⟨rfl, Transform.agrees_ofChecked Builtin.on_mapValues⟩ <|
  .cons ⟨rfl, h _ _⟩ .nil

theorem Registry.inWords_agrees (w : Window) : Registry.builtin.Agrees (Grid.Fits w) .inWords :=
  agrees_of_combine (Builtin.combine_agrees w)

theorem Registry.Agrees.find? {r r' : Registry} (h : r.Agrees kind r') (name : String) :
    (r.find? name = none ∧ r'.find? name = none) ∨
      ∃ f f', r.find? name = some f ∧ r'.find? name = some f' ∧ Transform.Agrees kind f f' := by
  rw [Registry.find?, Registry.find?]
  rw [Registry.Agrees] at h
  generalize r.functions = functions at h
  generalize r'.functions = functions' at h
  induction h with
  | nil => exact .inl ⟨rfl, rfl⟩
  | @cons p p' functions functions' first rest ih =>
      obtain ⟨own, f⟩ := p
      obtain ⟨own', f'⟩ := p'
      obtain ⟨hname, hagrees⟩ := first
      simp only at hname
      subst hname
      rw [List.lookup_cons, List.lookup_cons]
      split
      · exact .inr ⟨f, f', rfl, rfl, hagrees⟩
      · exact ih

end Cadence
