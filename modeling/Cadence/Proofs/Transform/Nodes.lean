import Cadence.Proofs.Names.Rejoin
import Cadence.Proofs.Transform.Builtin
import Cadence.Proofs.Transform.WholePart
import Mathlib.Data.List.Forall2

namespace Cadence

-- The nodes of a metric are its parts between dots.
structure IsNodes (nodes : List String) (metric : String) : Prop where
  ne_nil : nodes ≠ []
  undotted : ∀ node ∈ nodes, '.' ∉ node.toList
  joined : ".".intercalate nodes = metric

-- Nodes have numbers from both ends: the first one is zero, and the last one is minus one.
def node? (nodes : List String) : Int → Option String
  | .ofNat i => nodes[i]?
  | .negSucc i => nodes.reverse[i]?

-- The nodes of a metric with some numbers.
def Selects (metric : String) (numbers : List Int) (picked : List String) : Prop :=
  ∃ nodes, IsNodes nodes metric ∧ numbers.map (node? nodes) = picked.map some

def OutOfRange (metric : String) (number : Int) : Prop :=
  ∃ nodes, IsNodes nodes metric ∧ node? nodes number = none

-- A series that differs from another one in its label, which some nodes of the metric make up.
def Relabelled (numbers : List Int) (s t : Series Float) : Prop :=
  ∃ picked, Selects (metricPath s.name) numbers picked ∧ t = { s with label := ".".intercalate picked }

namespace Builtin

open Text

variable {metric : String}

theorem isNodes_iff {parts : List String} : IsNodes parts metric ↔ parts = nodes metric := by
  constructor
  · rintro ⟨hne, hundotted, rfl⟩
    have hchars : ∀ part ∈ parts.map String.toList, '.' ∉ part := by
      intro part hpart
      obtain ⟨node, hnode, rfl⟩ := List.mem_map.mp hpart
      exact hundotted node hnode
    have hsplit : splitOn '.' (".".intercalate parts).toList = parts.map String.toList := by
      rw [String.toList_intercalate]
      exact splitOn_intercalate (mt List.map_eq_nil_iff.mp hne) hchars
    rw [nodes, hsplit]
    simp [Function.comp_def]
  · rintro rfl
    refine ⟨mt List.map_eq_nil_iff.mp (splitOn_ne_nil '.' metric.toList), fun node hnode => ?_, ?_⟩
    · obtain ⟨part, hpart, rfl⟩ := List.mem_map.mp hnode
      rw [String.toList_ofList]
      exact (Names.mem_splitOn hpart).1
    · have hchars : (nodes metric).map String.toList = splitOn '.' metric.toList := by
        simp [nodes, Function.comp_def]
      apply String.toList_injective
      rw [String.toList_intercalate, hchars]
      exact intercalate_splitOn '.' metric.toList

theorem selects_iff {numbers : List Int} {picked : List String} :
    Selects metric numbers picked ↔ numbers.map (node? (nodes metric)) = picked.map some := by
  simp only [Selects, isNodes_iff, exists_eq_left]

theorem outOfRange_iff {number : Int} : OutOfRange metric number ↔ node? (nodes metric) number = none := by
  simp only [OutOfRange, isNodes_iff, exists_eq_left]

theorem pickNode_eq (name : String) (parts : List String) (number : Int) :
    pickNode name parts number = (node? parts number).elim (.error (.nodeOutOfRange number name)) .ok := by
  unfold pickNode
  cases number with
  | ofNat i =>
      have hfront : ¬(Int.ofNat i < 0) := by simp
      have hnat : (Int.ofNat i).toNat = i := rfl
      simp only [if_neg hfront, hnat, node?]
      cases parts[i]? <;> rfl
  | negSucc i =>
      have hback : Int.negSucc i < 0 := Int.negSucc_lt_zero i
      simp only [if_pos hback, node?]
      by_cases hi : i < parts.length
      · have hindex : ¬((parts.length : Int) + Int.negSucc i < 0) := by omega
        have hnat : ((parts.length : Int) + Int.negSucc i).toNat = parts.length - 1 - i := by omega
        rw [if_neg hindex, hnat, List.getElem?_reverse hi]
        cases parts[parts.length - 1 - i]? <;> rfl
      · have hindex : (parts.length : Int) + Int.negSucc i < 0 := by omega
        rw [if_pos hindex, List.getElem?_eq_none (by simpa using hi)]
        rfl

variable {numbers : List Int} {s t : Series Float} {e : ArgumentError}

theorem relabelled_of_labelByNode (h : labelByNode numbers s = .ok t) : Relabelled numbers s t := by
  obtain ⟨picked, hpicked, ht⟩ := exists_of_bind_eq_ok h
  refine ⟨picked, selects_iff.mpr ?_, (Except.ok.inj ht).symm⟩
  have hnode : ∀ number ∈ numbers,
      (pickNode s.name (nodes (metricPath s.name)) number).toOption = node? (nodes (metricPath s.name)) number := by
    intro number _
    rw [pickNode_eq]
    cases node? (nodes (metricPath s.name)) number <;> rfl
  have hoptions := (map_toOption_eq_iff _ _).mpr ((mapM_eq_ok_iff _ _ _).mp hpicked)
  rw [List.map_map] at hoptions
  exact (List.map_congr_left hnode).symm.trans hoptions

theorem outOfRange_of_labelByNode (h : labelByNode numbers s = .error e) :
    ∃ number ∈ numbers, OutOfRange (metricPath s.name) number ∧ e = .nodeOutOfRange number s.name := by
  rcases error_or_exists_of_bind_eq_error h with herror | ⟨_, _, hok⟩
  · obtain ⟨number, hnumber, hpick⟩ := exists_of_mapM_error herror
    rw [pickNode_eq] at hpick
    cases hnode : node? (nodes (metricPath s.name)) number with
    | some node =>
        rw [hnode] at hpick
        cases hpick
    | none =>
        rw [hnode] at hpick
        exact ⟨number, hnumber, outOfRange_iff.mpr hnode, (Except.error.inj hpick).symm⟩
  · cases hok

theorem labelByNodes_cons (series : List (Series Float)) (number : Float) (numbers : List Float) :
    labelByNodes (.series series :: (number :: numbers).map .number)
      = series.mapM (labelByNode ((number :: numbers).map nodeNumber)) := by
  have harity : checkArity "aliasByNode" (.atLeast 2) (.series series :: (number :: numbers).map .number)
      = .ok () := by
    simp [checkArity, Arity.admits]
  have hwhole : wholePart = nodeNumber := funext wholePart_eq
  rw [labelByNodes, harity, hwhole]
  dsimp only [bind, Except.bind]
  rw [mapM_zipIdx_eq_ok fun _ _ => rfl]
  rfl

-- Given numbers only, a call labels all series or points at a number without a node.
theorem labelByNodes_of_numbers (series : List (Series Float)) (numbers : List Float) :
    (∃ labelled, labelByNodes (.series series :: numbers.map .number) = .ok labelled ∧
        List.Forall₂ (Relabelled (numbers.map nodeNumber)) series labelled) ∨
    (∃ s ∈ series, ∃ number ∈ numbers.map nodeNumber, OutOfRange (metricPath s.name) number ∧
        labelByNodes (.series series :: numbers.map .number) = .error (.nodeOutOfRange number s.name)) ∨
    numbers = [] ∧ labelByNodes (.series series :: numbers.map .number)
      = .error (.arity "aliasByNode" (.atLeast 2) 1) := by
  cases numbers with
  | nil => exact .inr (.inr ⟨rfl, rfl⟩)
  | cons number numbers =>
      rw [labelByNodes_cons]
      cases hlabelled : series.mapM (labelByNode ((number :: numbers).map nodeNumber)) with
      | ok labelled =>
          have hall := (mapM_eq_ok_iff _ _ _).mp hlabelled
          rw [← List.forall₂_eq_eq_eq, List.forall₂_map_left_iff, List.forall₂_map_right_iff] at hall
          exact .inl ⟨labelled, rfl, hall.imp fun _ _ h => relabelled_of_labelByNode h⟩
      | error e =>
          obtain ⟨s, hs, hfails⟩ := exists_of_mapM_error hlabelled
          obtain ⟨number, hnumber, hrange, rfl⟩ := outOfRange_of_labelByNode hfails
          exact .inr (.inl ⟨s, hs, number, hnumber, hrange, rfl⟩)

end Builtin

end Cadence
