import Cadence.Text.Utf8

namespace Cadence.Text.Utf8

theorem follow_byte {count seen number share : Nat} {low high : UInt8} (rest : Bytes)
    (hshare : share < 64) (hlow : low.toNat ≤ share + 0x80) (hhigh : share + 0x80 ≤ high.toNat) :
    follow (count + 1) low high seen number (UInt8.ofNat (share + 0x80) :: rest)
      = follow count 0x80 0xbf (seen + 1) (number * 64 + share) rest := by
  have hbyte : (UInt8.ofNat (share + 0x80)).toNat = share + 0x80 := by
    rw [UInt8.toNat_ofNat']
    omega
  have hin : low ≤ UInt8.ofNat (share + 0x80) ∧ UInt8.ofNat (share + 0x80) ≤ high := by
    rw [UInt8.le_iff_toNat_le, UInt8.le_iff_toNat_le, hbyte]
    exact ⟨hlow, hhigh⟩
  rw [follow, if_pos hin, hbyte, Nat.add_sub_cancel]

-- An ordinary byte behind the first may be any that is marked as such.
theorem follow_tail {count seen number share : Nat} (rest : Bytes) (hshare : share < 64) :
    follow (count + 1) 0x80 0xbf seen number (UInt8.ofNat (share + 0x80) :: rest)
      = follow count 0x80 0xbf (seen + 1) (number * 64 + share) rest := by
  apply follow_byte rest hshare <;> simp only [UInt8.reduceToNat] <;> omega

theorem lead_one : ∀ n < 0x80, lead (UInt8.ofNat n) = some (n, 0, 0x80, 0xbf) := by decide

theorem lead_two : ∀ n < 32, n < 2 ∨ lead (UInt8.ofNat (n + 0xc0)) = some (n, 1, 0x80, 0xbf) := by
  decide

-- The second byte is bounded below where the number would fit two bytes, and above where it would
-- be a surrogate.
theorem lead_three : ∀ n < 16, lead (UInt8.ofNat (n + 0xe0)) =
    some (n, 2, if n = 0 then 0xa0 else 0x80, if n = 13 then 0x9f else 0xbf) := by decide

theorem lead_four : ∀ n < 5, lead (UInt8.ofNat (n + 0xf0)) =
    some (n, 3, if n = 0 then 0x90 else 0x80, if n = 4 then 0x8f else 0xbf) := by decide

theorem front_encodeChar (c : Char) :
    ∃ first rest, String.utf8EncodeChar c = first :: rest ∧
      ∀ after, front first (rest ++ after) = .char c after := by
  have hvalid : c.toNat < 0xd800 ∨ 0xdfff < c.toNat ∧ c.toNat < 0x110000 := c.valid
  have hchar : Char.ofNat c.toNat = c := Char.ofNat_toNat c
  have hval : c.val.toNat = c.toNat := rfl
  unfold String.utf8EncodeChar
  simp only [hval]
  generalize c.toNat = v at *
  split
  · refine ⟨_, _, rfl, fun after => ?_⟩
    simp only [front, lead_one v (by omega), follow, List.nil_append, hchar]
  split
  · refine ⟨_, _, rfl, fun after => ?_⟩
    have hlead := (lead_two (v / 64 % 32) (by omega)).resolve_left (by omega)
    have hsum : v / 64 % 32 * 64 + v % 64 = v := by omega
    simp only [front, hlead, List.cons_append, List.nil_append]
    rw [follow_tail after (by omega), follow, hsum, hchar]
  split
  · refine ⟨_, _, rfl, fun after => ?_⟩
    have hlead := lead_three (v / 4096 % 16) (by omega)
    have hsum : (v / 4096 % 16 * 64 + v / 64 % 64) * 64 + v % 64 = v := by omega
    simp only [front, hlead, List.cons_append, List.nil_append]
    rw [follow_byte _ (by omega) (by split <;> simp only [UInt8.reduceToNat] <;> omega)
        (by split <;> simp only [UInt8.reduceToNat] <;> omega),
      follow_tail after (by omega), follow, hsum, hchar]
  · refine ⟨_, _, rfl, fun after => ?_⟩
    have hlead := lead_four (v / 262144 % 8) (by omega)
    have hsum : ((v / 262144 % 8 * 64 + v / 4096 % 64) * 64 + v / 64 % 64) * 64 + v % 64 = v := by
      omega
    simp only [front, hlead, List.cons_append, List.nil_append]
    rw [follow_byte _ (by omega) (by split <;> simp only [UInt8.reduceToNat] <;> omega)
        (by split <;> simp only [UInt8.reduceToNat] <;> omega),
      follow_tail _ (by omega), follow_tail after (by omega), follow, hsum, hchar]

theorem decodeFrom_encodeChars (cs : List Char) (index : Nat) :
    decodeFrom index (cs.flatMap String.utf8EncodeChar) = .ok cs := by
  induction cs generalizing index with
  | nil => rw [List.flatMap_nil, decodeFrom]
  | cons c cs ih =>
      obtain ⟨first, rest, hchar, hfront⟩ := front_encodeChar c
      rw [List.flatMap_cons, hchar, List.cons_append, decodeFrom]
      split
      · rename_i d after hd
        rw [hfront] at hd
        cases hd
        rw [ih]
      · rename_i n hn
        rw [hfront] at hn
        cases hn
      · rename_i hi
        rw [hfront] at hi
        cases hi

theorem decode_encode (s : String) : decode (encode s) = .ok s := by
  rw [decode, encode, decodeFrom_encodeChars, Except.map, String.ofList_toList]

theorem encode_injective {s t : String} (h : encode s = encode t) : s = t := by
  have hok : (.ok s : Except Fault String) = .ok t := by
    rw [← decode_encode s, h, decode_encode]
  cases hok
  rfl

theorem encode_append (s t : String) : encode (s ++ t) = encode s ++ encode t := by
  simp [encode]

theorem length_encode_le (s : String) : (encode s).length ≤ 4 * s.length := by
  have hchars : ∀ cs : List Char, (cs.flatMap String.utf8EncodeChar).length ≤ 4 * cs.length := by
    intro cs
    induction cs with
    | nil => exact Nat.le_refl 0
    | cons c cs ih =>
        have hc := c.utf8Size_le_four
        rw [List.flatMap_cons, List.length_append, String.length_utf8EncodeChar, List.length_cons]
        omega
  exact hchars s.toList

theorem compare_cons_ofNat {m n : Nat} (hm : m < 256) (hn : n < 256) (xs ys : Bytes) :
    compare (UInt8.ofNat m :: xs) (UInt8.ofNat n :: ys) = (compare m n).then (compare xs ys) := by
  have hbyte : compare (UInt8.ofNat m) (UInt8.ofNat n) = compare m n := by
    have htoNat : ∀ k < 256, (UInt8.ofNat k).toNat = k := by
      intro k hk
      rw [UInt8.toNat_ofNat']
      omega
    change compareOfLessAndEq _ _ = compareOfLessAndEq m n
    simp only [compareOfLessAndEq, UInt8.lt_iff_toNat_lt, ← UInt8.toNat_inj, htoNat m hm, htoNat n hn]
  rw [List.compare_cons_cons, hbyte]

theorem compare_append_left (stem xs ys : Bytes) :
    compare (stem ++ xs) (stem ++ ys) = compare xs ys := by
  induction stem with
  | nil => rfl
  | cons b stem ih =>
      have hb : compare b b = .eq := Std.ReflCmp.compare_self
      rw [List.cons_append, List.cons_append, List.compare_cons_cons, hb, ih, Ordering.eq_then]

-- The bytes of a smaller character come first, whatever follows.
theorem compare_encodeChar {c d : Char} (h : c < d) (xs ys : Bytes) :
    compare (String.utf8EncodeChar c ++ xs) (String.utf8EncodeChar d ++ ys) = .lt := by
  have hlt : c.toNat < d.toNat := h
  have hc : c.val.toNat = c.toNat := rfl
  have hd : d.val.toNat = d.toNat := rfl
  have hvalid : d.toNat < 0xd800 ∨ 0xdfff < d.toNat ∧ d.toNat < 0x110000 := d.valid
  unfold String.utf8EncodeChar
  simp only [hc, hd]
  generalize c.toNat = v at *
  generalize d.toNat = w at *
  have hthird : ∀ n, n / 4096 = n / 64 / 64 := by omega
  have hfourth : ∀ n, n / 262144 = n / 64 / 64 / 64 := by omega
  simp only [hthird, hfourth]
  -- a longer character begins with a greater byte, and those of one length are compared by their shares
  repeat' split
  all_goals
    simp only [List.cons_append, List.nil_append]
    repeat rw [compare_cons_ofNat (by omega) (by omega)]
    simp only [Ordering.then_eq_lt, Nat.compare_eq_lt, Nat.compare_eq_eq]
    omega

theorem compare_encodeChars {cs ds : List Char} (h : cs < ds) :
    compare (cs.flatMap String.utf8EncodeChar) (ds.flatMap String.utf8EncodeChar) = .lt := by
  induction h with
  | nil =>
      rename_i d ds
      obtain ⟨first, rest, hd, -⟩ := front_encodeChar d
      rw [List.flatMap_nil, List.flatMap_cons, hd, List.cons_append, List.compare_nil_cons]
  | rel h =>
      rw [List.flatMap_cons, List.flatMap_cons]
      exact compare_encodeChar h _ _
  | cons _ ih =>
      rename_i c _ _ _
      rw [List.flatMap_cons, List.flatMap_cons]
      rwa [compare_append_left]

theorem compare_encode {s t : String} (h : compare s t = .lt) :
    compare (encode s) (encode t) = .lt := by
  have hlt : s < t := compareOfLessAndEq_eq_lt.mp h
  exact compare_encodeChars hlt

theorem compare_encode_eq (s t : String) : compare (encode s) (encode t) = compare s t := by
  cases h : compare s t with
  | lt => exact compare_encode h
  | eq =>
      have hsame : s = t := Std.LawfulEqCmp.compare_eq_iff_eq.mp h
      rw [hsame]
      exact Std.ReflCmp.compare_self
  | gt => exact Std.OrientedCmp.gt_of_lt (compare_encode (Std.OrientedCmp.lt_of_gt h))

theorem isLE_compare_encode_iff (s t : String) : (compare (encode s) (encode t)).isLE ↔ s ≤ t := by
  rw [compare_encode_eq]
  constructor
  · intro h hlt
    have hgt : compare s t = .gt := Std.OrientedCmp.gt_of_lt (compareOfLessAndEq_eq_lt.mpr hlt)
    rw [hgt] at h
    cases h
  · intro h
    apply Classical.byContradiction
    intro hnot
    have hlt : compare t s = .lt := Std.OrientedCmp.lt_of_not_isLE hnot
    exact h (compareOfLessAndEq_eq_lt.mp hlt)

end Cadence.Text.Utf8
