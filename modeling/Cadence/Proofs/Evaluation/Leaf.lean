import Cadence.Evaluation
import Cadence.Proofs.Names.Rejoin
import Cadence.Proofs.Target.Leaves

namespace Cadence.Evaluator

open Target

theorem map_toList_expand (pattern : String) :
    (Names.expand pattern).map String.toList = Names.expandChars pattern.toList := by
  rw [Names.expand, List.map_map]
  have hid : String.toList ∘ String.ofList = id := funext fun _ => String.toList_ofList
  rw [hid, List.map_id]

theorem toList_leafPattern (pattern : String) :
    (leafPattern pattern).toList = Names.joined (Names.expandChars pattern.toList) := by
  rw [leafPattern, String.toList_intercalate, map_toList_expand]
  rfl

-- The second expansion of a leaf's pattern yields its names again unless a group nests in it; then
-- reading the names of the leaf is reading its pattern.
theorem expand_leafPattern_iff {target pattern : String} {e : Expr} (h : parse target = .ok e)
    (hleaf : pattern ∈ e.leaves) :
    (Names.expand (leafPattern pattern) = Names.expand pattern ↔
      Names.nests 0 pattern.toList = false) ∧
    (Names.nests 0 pattern.toList = false →
      ∀ (σ : Type) (b : Backend σ) (settings : StoreSettings) (order : Nat → Fanout.Order)
        (w : Window), b.fetchMap settings order (leafPattern pattern) w
          = b.fetchMap settings order pattern w) := by
  have closed := endDepth_of_mem_leaves h hleaf
  have hexpand : Names.expand (leafPattern pattern) = Names.expand pattern ↔
      Names.nests 0 pattern.toList = false := by
    rw [← Names.expandChars_rejoined_iff closed, ← toList_leafPattern]
    constructor
    · intro hsame
      rw [← map_toList_expand, hsame, map_toList_expand]
    · intro hsame
      rw [Names.expand, hsame, Names.expand]
  refine ⟨hexpand, ?_⟩
  intro hflat σ b settings order w
  rw [Backend.fetchMap, hexpand.mpr hflat, Backend.fetchMap]

-- A group inside a group is opened by the second expansion, groups side by side are not.
theorem expand_leafPattern_nested :
    parse "\x7ba,\x7bb,c\x7d\x7d" = .ok (.series "\x7ba,\x7bb,c\x7d\x7d") ∧
    Names.expand (leafPattern "\x7ba,\x7bb,c\x7d\x7d") ≠ Names.expand "\x7ba,\x7bb,c\x7d\x7d" ∧
    parse "\x7ba,b\x7d\x7bc,d\x7d" = .ok (.series "\x7ba,b\x7d\x7bc,d\x7d") ∧
    Names.expand (leafPattern "\x7ba,b\x7d\x7bc,d\x7d") = ["ac", "ad", "bc", "bd"] := by
  have hnested : parse "\x7ba,\x7bb,c\x7d\x7d" = .ok (.series "\x7ba,\x7bb,c\x7d\x7d") :=
    parse_word '\x7b' ['a', ',', '\x7b', 'b', ',', 'c', '\x7d', '\x7d'] rfl (by with_unfolding_all rfl)
  have hflat : parse "\x7ba,b\x7d\x7bc,d\x7d" = .ok (.series "\x7ba,b\x7d\x7bc,d\x7d") :=
    parse_word '\x7b' ['a', ',', 'b', '\x7d', '\x7b', 'c', ',', 'd', '\x7d'] rfl (by with_unfolding_all rfl)
  refine ⟨hnested, ?_, hflat, ?_⟩
  · rw [Ne, (expand_leafPattern_iff hnested (List.mem_singleton_self _)).1]
    decide
  · rw [(expand_leafPattern_iff hflat (List.mem_singleton_self _)).1.mpr (by decide)]
    decide +kernel

end Cadence.Evaluator
