import Cadence.Proofs.Window

namespace Cadence.Window

-- A result that fits a signed word of 128 bits.
def word? (n : Int) : Option Int :=
  if -0x80000000000000000000000000000000 ≤ n ∧ n < 0x80000000000000000000000000000000 then some n
  else none

-- The tier by the length of the window, which is cut to the nearest timestamp.
def tierInWords (w : Window) : Tier :=
  Tier.forSpan (Timestamp.clamp (w.stop.toInt - w.start.toInt)).toInt

def floorInWords (instant width : Int) : Option Int := do
  let above ← word? (instant % width)
  word? (instant - above)

-- The first item of a window that is not empty, and the number of its items as a length.
def spanInWords (tier : Tier) (w : Window) : Option (Except WindowError (Int × Int)) := do
  let first ← floorInWords w.start.toInt tier.itemWidth
  let length ← word? (w.stop.toInt - first)
  let longer ← word? (length + tier.itemWidth)
  let whole ← word? (longer - 1)
  let count ← word? (whole / tier.itemWidth)
  if maxPartitions < count then return .error (.tooLarge count)
  else if first < Timestamp.lowest then return .error .outOfRange
  else if 0 ≤ count ∧ count < 0x10000000000000000 then return .ok (first, count)
  else return .error .outOfRange

-- The partitions from an item on, as far as items begin before the stop.
def walkInWords (tier : Tier) (tablePrefix : String) (stop item : Int) :
    Option (Except WindowError (List Partition)) :=
  if item < stop then do
    let table ← floorInWords item tier.tableWidth
    match Timestamp.ofInt? table, Timestamp.ofInt? item with
    | some table, some epoch =>
      let _ ← word? (item + tier.itemWidth)
      let rest ← walkInWords tier tablePrefix stop (item + tier.itemWidth)
      return rest.map (⟨tier.tableName tablePrefix table, epoch⟩ :: ·)
    | _, _ => return .error .outOfRange
  else return .ok []
termination_by (stop - item).toNat
decreasing_by
  have := tier.itemWidth_pos
  omega

-- The partitions of a window, unless a result leaves its word on the way.
def partitionsInWords (w : Window) (tablePrefix : String) :
    Option (Except WindowError (List Partition)) :=
  if w.stop.toInt ≤ w.start.toInt then return .ok []
  else do
    match ← spanInWords w.tierInWords w with
    | .error e => return .error e
    | .ok (first, _) => walkInWords w.tierInWords tablePrefix w.stop.toInt first

-- A window that is too long for a timestamp is cut to a length of the coarsest tier.
theorem tierInWords_eq (w : Window) : w.tierInWords = w.tier := by
  have hcut : ∀ bound : Int, Timestamp.lowest < bound → bound ≤ Timestamp.highest →
      (bound ≤ (Timestamp.clamp (w.stop.toInt - w.start.toInt)).toInt
        ↔ bound ≤ w.stop.toInt - w.start.toInt) := by
    intro bound hlow hhigh
    rw [Timestamp.toInt_clamp]
    omega
  have hday := hcut (360 * Tier.secondsPerDay) (by decide) (by decide)
  have hhour := hcut (7 * Tier.secondsPerDay) (by decide) (by decide)
  have hfive := hcut Tier.secondsPerDay (by decide) (by decide)
  simp only [tierInWords, tier, Tier.forSpan, hday, hhour, hfive]

-- All results lie within a few times the range of timestamps.
theorem word?_eq_some {n : Int} (hlow : 4 * Timestamp.lowest ≤ n)
    (hhigh : n ≤ 4 * Timestamp.highest) : word? n = some n := by
  unfold Timestamp.lowest at hlow
  unfold Timestamp.highest at hhigh
  exact if_pos (by omega)

theorem floorInWords_eq {instant width : Int} (hwidth : 0 < width)
    (hsmall : width ≤ 31104000) (hlow : 2 * Timestamp.lowest ≤ instant)
    (hhigh : instant ≤ 2 * Timestamp.highest) :
    floorInWords instant width = some (instant - instant % width) := by
  have hmod := Int.emod_nonneg instant (Int.ne_of_gt hwidth)
  have hlt := Int.emod_lt_of_pos instant hwidth
  have hrange : Timestamp.highest = -Timestamp.lowest - 1 := rfl
  have hwide : Timestamp.lowest < -1000000000 := by decide
  rw [floorInWords, word?_eq_some (by omega) (by omega), Option.bind_eq_bind, Option.bind_some,
    word?_eq_some (by omega) (by omega)]

theorem itemWidth_le (tier : Tier) : tier.itemWidth ≤ 31104000 := by cases tier <;> decide

theorem tableWidth_le (tier : Tier) : tier.tableWidth ≤ 31104000 := by cases tier <;> decide

theorem spanInWords_eq {w : Window} (hlt : w.start.toInt < w.stop.toInt) :
    spanInWords w.tier w = some (w.check.map fun _ => (w.firstItem, w.itemCount)) := by
  have hwidth := w.tier.itemWidth_pos
  have hsmall := itemWidth_le w.tier
  have hmod := Int.emod_nonneg w.start.toInt (Int.ne_of_gt hwidth)
  have hrest := Int.emod_lt_of_pos w.start.toInt hwidth
  have hstart := Timestamp.lowest_le_toInt w.start
  have hstop := Timestamp.toInt_le_highest w.stop
  have hrange : Timestamp.highest = -Timestamp.lowest - 1 := rfl
  have hwide : Timestamp.lowest < -1000000000 := by decide
  have hfirst : floorInWords w.start.toInt w.tier.itemWidth = some w.firstItem :=
    floorInWords_eq hwidth hsmall (by omega) (by omega)
  have hlength : w.stop.toInt - w.firstItem ≤ w.stop.toInt - w.start.toInt + w.tier.itemWidth ∧
      0 < w.stop.toInt - w.firstItem := by
    unfold firstItem
    omega
  have hcount : 0 ≤ w.itemCount ∧ w.itemCount ≤ w.stop.toInt - w.firstItem + w.tier.itemWidth - 1 := by
    unfold itemCount
    exact ⟨Int.ediv_nonneg (by omega) (by omega), Int.ediv_le_self _ (by omega)⟩
  simp only [spanInWords, hfirst, Option.bind_eq_bind, Option.bind_some]
  rw [word?_eq_some (by omega) (by omega), Option.bind_some, word?_eq_some (by omega) (by omega),
    Option.bind_some, word?_eq_some (by omega) (by omega), Option.bind_some]
  change (word? w.itemCount).bind _ = _
  rw [word?_eq_some (by omega) (by omega), Option.bind_some, check, if_neg (Int.not_le.mpr hlt)]
  by_cases hlarge : maxPartitions < w.itemCount
  · rw [if_pos hlarge, if_pos hlarge]
    rfl
  · have hfew : w.itemCount < 0x10000000000000000 := by
      unfold maxPartitions at hlarge
      omega
    rw [if_neg hlarge, if_neg hlarge]
    by_cases hbelow : w.firstItem < Timestamp.lowest
    · rw [if_pos hbelow, if_pos hbelow]
      rfl
    · rw [if_neg hbelow, if_neg hbelow, if_pos ⟨hcount.1, hfew⟩]
      rfl

theorem walkInWords_eq (tier : Tier) (tablePrefix : String) {stop : Int}
    (hstop : stop ≤ Timestamp.highest) (count : Nat) (item : Int)
    (hlow : 2 * Timestamp.lowest ≤ item)
    (hmore : ∀ k : Nat, item + k * tier.itemWidth < stop ↔ k < count) :
    walkInWords tier tablePrefix stop item
      = some (((List.range count).map fun (k : Nat) => item + k * tier.itemWidth).mapM
          (partitionAt tier tablePrefix)) := by
  have hwidth := tier.itemWidth_pos
  have hsmall := itemWidth_le tier
  induction count generalizing item with
  | zero =>
      have hdone : ¬item < stop := by simpa using hmore 0
      rw [walkInWords, if_neg hdone]
      rfl
  | succ count ih =>
      have hbefore : item < stop := by simpa using hmore 0
      have hrange : Timestamp.highest = -Timestamp.lowest - 1 := rfl
      have hwide : Timestamp.lowest < -1000000000 := by decide
      have hstep : ∀ k : Nat, item + (k + 1 : Nat) * tier.itemWidth
          = item + tier.itemWidth + k * tier.itemWidth := by
        intro k
        rw [Int.natCast_succ, Int.add_mul]
        omega
      have hrest := ih (item + tier.itemWidth) (by omega) fun k => by
        rw [← hstep, hmore]
        omega
      have htable := floorInWords_eq tier.tableWidth_pos (tableWidth_le tier) hlow (by omega)
      have hnext : word? (item + tier.itemWidth) = some (item + tier.itemWidth) :=
        word?_eq_some (by omega) (by omega)
      have hitems : (List.range (count + 1)).map (fun (k : Nat) => item + k * tier.itemWidth)
          = item :: (List.range count).map fun (k : Nat) =>
              item + tier.itemWidth + k * tier.itemWidth := by
        rw [List.range_succ_eq_map, List.map_cons, List.map_map]
        congr 1
        · simp
        · exact List.map_congr_left fun k _ => hstep k
      rw [walkInWords, if_pos hbefore, htable, hitems, List.mapM_cons, partitionAt]
      simp only [Option.bind_eq_bind, Option.bind_some]
      cases Timestamp.ofInt? (item - item % tier.tableWidth) with
      | none => rfl
      | some table =>
          cases Timestamp.ofInt? item with
          | none => rfl
          | some epoch =>
              simp only [hnext, hrest, Option.bind_some]
              cases List.mapM (partitionAt tier tablePrefix) _ <;> rfl

-- No result leaves its word, and what is computed in words are the partitions.
theorem partitionsInWords_eq (w : Window) (tablePrefix : String) :
    w.partitionsInWords tablePrefix = some (w.partitions tablePrefix) := by
  by_cases hempty : w.stop.toInt ≤ w.start.toInt
  · rw [partitionsInWords, if_pos hempty, Window.partitions, check, if_pos hempty, items,
      if_pos hempty]
    rfl
  · have hlt : w.start.toInt < w.stop.toInt := Int.not_le.mp hempty
    have hmod := Int.emod_lt_of_pos w.start.toInt w.tier.itemWidth_pos
    have hsmall := itemWidth_le w.tier
    have hstart := Timestamp.lowest_le_toInt w.start
    have hwide : Timestamp.lowest < -1000000000 := by decide
    have hwalk := walkInWords_eq w.tier tablePrefix (Timestamp.toInt_le_highest w.stop)
      w.itemCount.toNat w.firstItem (by unfold firstItem; omega) fun k => by
        rw [← lt_itemCount_iff]
        omega
    rw [partitionsInWords, if_neg hempty, tierInWords_eq, spanInWords_eq hlt, Window.partitions,
      items, if_neg hempty]
    cases w.check with
    | error e => rfl
    | ok _ => exact hwalk

end Cadence.Window
