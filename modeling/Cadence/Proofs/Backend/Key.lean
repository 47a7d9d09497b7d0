import Cadence.Backend.Key
import Cadence.Proofs.Bytes
import Cadence.Proofs.Text.Utf8

namespace Cadence.Key

open Text

-- Whether the length of a table's name fits its two bytes.
def Short (table : String) : Prop := (Utf8.encode table).length ≤ maxTableLength

instance (table : String) : Decidable (Short table) := inferInstanceAs (Decidable (_ ≤ _))

theorem ofTable_injective {t u : String} (h : ofTable t = ofTable u) : t = u := by
  unfold ofTable at h
  exact Utf8.encode_injective (List.cons.inj (List.cons.inj h).2).2

theorem itemStem_append (table : String) (item : Timestamp) (rest : Bytes) :
    itemStem table item ++ rest
      = version :: 2 :: (lengthBytes (Utf8.encode table).length
          ++ (Utf8.encode table ++ (epochBytes item ++ rest))) := by
  simp [itemStem]

theorem ofTable_ne_itemStem (t u : String) (item : Timestamp) (rest : Bytes) :
    ofTable t ≠ itemStem u item ++ rest := by
  intro h
  rw [itemStem_append] at h
  have hkind : (1 : UInt8) = 2 := (List.cons.inj (List.cons.inj h).2).1
  exact absurd hkind (by decide)

theorem ofTable_ne_ofItem (t u : String) (item : Timestamp) (name : String) :
    ofTable t ≠ ofItem u item name :=
  ofTable_ne_itemStem t u item (Utf8.encode name)

theorem lengthBytes_injective {m n : Nat} (hm : m ≤ maxTableLength) (hn : n ≤ maxTableLength)
    (h : lengthBytes m = lengthBytes n) : m = n := by
  unfold lengthBytes at h
  obtain ⟨hhigh, hlow⟩ := List.cons.inj h
  have hhigh := congrArg UInt8.toNat hhigh
  have hlow := congrArg UInt8.toNat (List.cons.inj hlow).1
  rw [UInt8.toNat_ofNat', UInt8.toNat_ofNat'] at hhigh hlow
  unfold maxTableLength at hm hn
  omega

-- Even without that, the lengths of two names with one key differ by a multiple of what fits.
theorem length_emod_of_ofItem {t u m n : String} {i j : Timestamp}
    (h : ofItem t i m = ofItem u j n) :
    (Utf8.encode t).length % 65536 = (Utf8.encode u).length % 65536 := by
  rw [ofItem, ofItem, itemStem_append, itemStem_append] at h
  obtain ⟨hlength, -⟩ := List.append_inj (List.cons.inj (List.cons.inj h).2).2 rfl
  obtain ⟨hhigh, hlow⟩ := List.cons.inj hlength
  have hhigh := congrArg UInt8.toNat hhigh
  have hlow := congrArg UInt8.toNat (List.cons.inj hlow).1
  rw [UInt8.toNat_ofNat', UInt8.toNat_ofNat'] at hhigh hlow
  omega

theorem length_epochBytes (t : Timestamp) : (epochBytes t).length = 8 := by simp [epochBytes]

theorem number_epochBytes (t : Timestamp) :
    Bytes.number (epochBytes t) = (t.toInt - Timestamp.lowest).toNat := by
  have hhigh := Timestamp.toInt_le_highest t
  apply Bytes.number_places 8
  change _ < 18446744073709551616
  unfold Timestamp.lowest
  unfold Timestamp.highest at hhigh
  omega

theorem epochBytes_injective {t u : Timestamp} (h : epochBytes t = epochBytes u) : t = u := by
  have hcount : (t.toInt - Timestamp.lowest).toNat = (u.toInt - Timestamp.lowest).toNat := by
    rw [← number_epochBytes, h, number_epochBytes]
  have ht := Timestamp.lowest_le_toInt t
  have hu := Timestamp.lowest_le_toInt u
  apply Int64.toInt_inj.mp
  omega

-- The key of an item tells where its table, its epoch and its name begin.
theorem itemStem_injective {t u : String} {i j : Timestamp} {rest rest' : Bytes}
    (ht : Short t) (hu : Short u) (h : itemStem t i ++ rest = itemStem u j ++ rest') :
    t = u ∧ i = j ∧ rest = rest' := by
  rw [itemStem_append, itemStem_append] at h
  have hbody := (List.cons.inj (List.cons.inj h).2).2
  obtain ⟨hlength, hbody⟩ := List.append_inj hbody rfl
  have hlength := lengthBytes_injective ht hu hlength
  obtain ⟨htable, hbody⟩ := List.append_inj hbody hlength
  obtain ⟨hepoch, hrest⟩ := List.append_inj hbody (by rw [length_epochBytes, length_epochBytes])
  exact ⟨Utf8.encode_injective htable, epochBytes_injective hepoch, hrest⟩

theorem ofItem_injective {t u m n : String} {i j : Timestamp} (ht : Short t) (hu : Short u)
    (h : ofItem t i m = ofItem u j n) : t = u ∧ i = j ∧ m = n := by
  obtain ⟨htable, hitem, hname⟩ := itemStem_injective ht hu h
  exact ⟨htable, hitem, Utf8.encode_injective hname⟩

-- Within a table and an epoch the keys are in the order of the names.
theorem isLE_compare_ofItem_iff (table : String) (item : Timestamp) (m n : String) :
    (compare (ofItem table item m) (ofItem table item n)).isLE ↔ m ≤ n := by
  rw [ofItem, ofItem, Utf8.compare_append_left, Utf8.isLE_compare_encode_iff]

end Cadence.Key
