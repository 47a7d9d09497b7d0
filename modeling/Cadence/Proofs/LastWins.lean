import Std.Data.ExtTreeMap

namespace Cadence

variable {α β γ : Type}

-- What the last element says that says anything.
def lastSome (f : γ → Option β) (xs : List γ) : Option β := xs.reverse.findSome? f

theorem lastSome_nil (f : γ → Option β) : lastSome f [] = none := rfl

theorem lastSome_append (f : γ → Option β) (xs ys : List γ) :
    lastSome f (xs ++ ys) = (lastSome f ys).or (lastSome f xs) := by
  rw [lastSome, List.reverse_append, List.findSome?_append]
  rfl

theorem lastSome_singleton (f : γ → Option β) (x : γ) : lastSome f [x] = f x := by
  simp [lastSome]

theorem lastSome_cons (f : γ → Option β) (x : γ) (xs : List γ) :
    lastSome f (x :: xs) = (lastSome f xs).or (f x) := by
  rw [← List.singleton_append, lastSome_append, lastSome_singleton]

theorem lastSome_map {δ : Type} (f : γ → Option β) (g : δ → γ) (xs : List δ) :
    lastSome f (xs.map g) = lastSome (f ∘ g) xs := by
  rw [lastSome, ← List.map_reverse, List.findSome?_map]
  rfl

theorem lastSome_flatMap {δ : Type} (f : γ → Option β) (g : δ → List γ) (xs : List δ) :
    lastSome f (xs.flatMap g) = lastSome (fun x => lastSome f (g x)) xs := by
  induction xs with
  | nil => rfl
  | cons x xs ih => rw [List.flatMap_cons, lastSome_append, ih, lastSome_cons]

theorem lastSome_of_mem {δ : Type} [DecidableEq δ] (x : δ) (said : Option β) (lists : List (List δ)) :
    lastSome (fun l => if x ∈ l then said else none) lists
      = if x ∈ lists.flatten then said else none := by
  induction lists with
  | nil => rfl
  | cons l lists ih =>
      rw [lastSome_cons, ih, List.flatten_cons]
      by_cases hl : x ∈ l <;> by_cases hrest : x ∈ lists.flatten <;> simp [hl, hrest]

theorem lastSome_eq_none_iff (f : γ → Option β) (xs : List γ) :
    lastSome f xs = none ↔ ∀ x ∈ xs, f x = none := by
  simp [lastSome]

theorem exists_of_lastSome {f : γ → Option β} {xs : List γ} {b : β}
    (h : lastSome f xs = some b) : ∃ x ∈ xs, f x = some b := by
  obtain ⟨x, hx, hb⟩ := List.exists_of_findSome?_eq_some h
  exact ⟨x, List.mem_reverse.mp hx, hb⟩

-- Where all that is said is the same, it does not matter who said it last.
theorem lastSome_eq_some_iff {f : γ → Option β} {xs : List γ}
    (h : ∀ x ∈ xs, ∀ y ∈ xs, ∀ b c, f x = some b → f y = some c → b = c) (b : β) :
    lastSome f xs = some b ↔ ∃ x ∈ xs, f x = some b := by
  refine ⟨exists_of_lastSome, ?_⟩
  rintro ⟨x, hx, hb⟩
  cases hlast : lastSome f xs with
  | none =>
      have hnone := (lastSome_eq_none_iff f xs).mp hlast x hx
      simp [hb] at hnone
  | some c =>
      obtain ⟨y, hy, hc⟩ := exists_of_lastSome hlast
      rw [h x hx y hy b c hb hc]

variable [DecidableEq α]

-- The value of the last element with a key.
def lastUnder (key : γ → α) (value : γ → β) (k : α) (xs : List γ) : Option β :=
  lastSome (fun x => if key x = k then some (value x) else none) xs

theorem lastUnder_cons (key : γ → α) (value : γ → β) (k : α) (x : γ) (xs : List γ) :
    lastUnder key value k (x :: xs)
      = (lastUnder key value k xs).or (if key x = k then some (value x) else none) :=
  lastSome_cons _ x xs

theorem lastUnder_append (key : γ → α) (value : γ → β) (k : α) (xs ys : List γ) :
    lastUnder key value k (xs ++ ys) = (lastUnder key value k ys).or (lastUnder key value k xs) :=
  lastSome_append _ xs ys

theorem lastUnder_eq_none_iff (key : γ → α) (value : γ → β) (k : α) (xs : List γ) :
    lastUnder key value k xs = none ↔ ∀ x ∈ xs, key x ≠ k := by
  simp [lastUnder, lastSome_eq_none_iff]

theorem exists_of_lastUnder {key : γ → α} {value : γ → β} {k : α} {xs : List γ} {b : β}
    (h : lastUnder key value k xs = some b) : ∃ x ∈ xs, key x = k ∧ value x = b := by
  obtain ⟨x, hx, hb⟩ := exists_of_lastSome h
  split at hb
  · rename_i hk
    exact ⟨x, hx, hk, Option.some.inj hb⟩
  · cases hb

-- Where only elements with some keys are kept, the others have no value any more.
theorem lastUnder_filter (key : γ → α) (value : γ → β) (k : α) (p : α → Prop) [DecidablePred p]
    (xs : List γ) :
    lastUnder key value k (xs.filter fun x => p (key x))
      = if p k then lastUnder key value k xs else none := by
  by_cases hp : p k
  · rw [if_pos hp]
    induction xs with
    | nil => rfl
    | cons x xs ih =>
        rw [List.filter_cons, lastUnder_cons, ← ih]
        by_cases hx : p (key x)
        · rw [if_pos (decide_eq_true hx), lastUnder_cons]
        · have hk : key x ≠ k := fun hk => hx (hk ▸ hp)
          rw [if_neg (by simpa using hx), if_neg hk, Option.or_none]
  · rw [if_neg hp, lastUnder_eq_none_iff]
    rintro x hx rfl
    exact hp (by simpa using (List.mem_filter.mp hx).2)

theorem lastUnder_eq_some_iff_append (key : γ → α) (value : γ → β) (k : α) (xs : List γ) (b : β) :
    lastUnder key value k xs = some b ↔ ∃ before x after, xs = before ++ x :: after ∧
      key x = k ∧ (∀ y ∈ after, key y ≠ k) ∧ value x = b := by
  constructor
  · intro h
    induction xs with
    | nil => cases h
    | cons x xs ih =>
        rw [lastUnder_cons] at h
        cases hrest : lastUnder key value k xs with
        | some c =>
            rw [hrest] at h
            cases h
            obtain ⟨before, y, after, rfl, hy⟩ := ih hrest
            exact ⟨x :: before, y, after, rfl, hy⟩
        | none =>
            rw [hrest, Option.none_or] at h
            by_cases hk : key x = k
            · rw [if_pos hk] at h
              exact ⟨[], x, xs, rfl, hk, (lastUnder_eq_none_iff key value k xs).mp hrest,
                Option.some.inj h⟩
            · rw [if_neg hk] at h
              cases h
  · rintro ⟨before, x, after, rfl, hk, hafter, rfl⟩
    rw [lastUnder_append, lastUnder_cons, if_pos hk,
      (lastUnder_eq_none_iff key value k after).mpr hafter]
    rfl

-- Where no key occurs twice, the last element with a key is the only one.
theorem lastUnder_eq_some_iff {key : γ → α} {value : γ → β} {xs : List γ}
    (h : xs.Pairwise (key · ≠ key ·)) (k : α) (b : β) :
    lastUnder key value k xs = some b ↔ ∃ x ∈ xs, key x = k ∧ value x = b := by
  refine ⟨exists_of_lastUnder, ?_⟩
  rintro ⟨x, hx, rfl, rfl⟩
  induction xs with
  | nil => cases hx
  | cons y ys ih =>
      obtain ⟨hy, hys⟩ := List.pairwise_cons.mp h
      rw [lastUnder_cons]
      rcases List.mem_cons.mp hx with rfl | hm
      · have hnone := (lastUnder_eq_none_iff key value (key x) ys).mpr
          fun z hz he => hy z hz he.symm
        rw [hnone, if_pos rfl, Option.none_or]
      · rw [ih hys hm, Option.some_or]

variable {cmp : α → α → Ordering} [Std.TransCmp cmp] [Std.LawfulEqCmp cmp]

theorem getElem?_foldl_insert (key : γ → α) (value : γ → β) (xs : List γ)
    (m : Std.ExtTreeMap α β cmp) (k : α) :
    (xs.foldl (fun m x => m.insert (key x) (value x)) m)[k]?
      = (lastUnder key value k xs).or m[k]? := by
  induction xs generalizing m with
  | nil => rfl
  | cons x xs ih =>
      rw [List.foldl_cons, ih, lastUnder_cons, Option.or_assoc, Std.ExtTreeMap.getElem?_insert]
      by_cases hk : key x = k <;> simp [hk]

omit [DecidableEq α] in
theorem pairwise_fst_toList (m : Std.ExtTreeMap α β cmp) : m.toList.Pairwise (·.1 ≠ ·.1) := by
  refine m.distinct_keys_toList.imp ?_
  intro x y hne he
  exact hne (Std.LawfulEqCmp.compare_eq_iff_eq.mpr he)

omit [DecidableEq α] [Std.LawfulEqCmp cmp] in
theorem values_eq_map_toList (m : Std.ExtTreeMap α β cmp) : m.values = m.toList.map Prod.snd := by
  have hfold : m.values = m.foldr (fun _ v vs => v :: vs) [] := by
    rcases m with ⟨⟨q⟩⟩
    induction q using Quotient.ind
    rfl
  rw [hfold, Std.ExtTreeMap.foldr_eq_foldr_toList, List.map_eq_foldr]

omit [DecidableEq α] in
theorem mem_values_iff (m : Std.ExtTreeMap α β cmp) (b : β) :
    b ∈ m.values ↔ ∃ k : α, m[k]? = some b := by
  rw [values_eq_map_toList, List.mem_map]
  constructor
  · rintro ⟨⟨k, _⟩, hm, rfl⟩
    exact ⟨k, Std.ExtTreeMap.mem_toList_iff_getElem?_eq_some.mp hm⟩
  · rintro ⟨k, hk⟩
    exact ⟨(k, b), Std.ExtTreeMap.mem_toList_iff_getElem?_eq_some.mpr hk, rfl⟩

theorem lastUnder_toList (m : Std.ExtTreeMap α β cmp) (k : α) :
    lastUnder Prod.fst Prod.snd k m.toList = m[k]? := by
  apply Option.ext
  intro b
  rw [lastUnder_eq_some_iff (pairwise_fst_toList m),
    ← Std.ExtTreeMap.mem_toList_iff_getElem?_eq_some]
  constructor
  · rintro ⟨⟨_, _⟩, hm, rfl, rfl⟩
    exact hm
  · exact fun hm => ⟨_, hm, rfl, rfl⟩

end Cadence
