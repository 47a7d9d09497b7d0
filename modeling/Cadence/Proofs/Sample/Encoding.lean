import Cadence.Proofs.Bytes
import Cadence.Sample

namespace Cadence.Sample

open Bytes

theorem number_wordBytes (w : UInt64) : number (wordBytes w) = w.toNat :=
  number_places 8 w.toNat_lt

theorem bytesWord_wordBytes (w : UInt64) : bytesWord (wordBytes w) = w := by
  change UInt64.ofNat (number (wordBytes w)) = w
  rw [number_wordBytes, UInt64.ofNat_toNat]

-- Eight bytes are told by their word.
theorem wordBytes_bytesWord {bytes : Bytes} (h : bytes.length = 8) :
    wordBytes (bytesWord bytes) = bytes := by
  have hlt := number_lt bytes
  rw [h] at hlt
  have hword : (bytesWord bytes).toNat = number bytes := UInt64.toNat_ofNat_of_lt' hlt
  calc wordBytes (bytesWord bytes)
      = places 8 (bytesWord bytes).toNat := rfl
    _ = places bytes.length (number bytes) := by rw [hword, h]
    _ = bytes := places_number bytes

theorem length_bytes (s : Sample) : s.bytes.length = width := rfl

theorem encode_append (xs ys : List Sample) : encode (xs ++ ys) = encode xs ++ encode ys :=
  List.flatMap_append

theorem length_encode (samples : List Sample) :
    (encode samples).length = width * samples.length := by
  induction samples with
  | nil => rfl
  | cons s rest ih =>
      rw [encode, List.flatMap_cons, List.length_append, length_bytes, ← encode, ih,
        List.length_cons, Nat.mul_succ, Nat.add_comm]

theorem decodeWhole_bytes_append (s : Sample) (rest : Bytes) :
    decodeWhole (s.bytes ++ rest) = s :: decodeWhole rest := by
  have hlen : ¬(s.bytes ++ rest).length < width := by
    rw [List.length_append, length_bytes]
    omega
  have htime : (s.bytes ++ rest).take 8 = wordBytes s.time.toUInt64 := rfl
  have hbits : ((s.bytes ++ rest).drop 8).take 8 = wordBytes s.bits := rfl
  have hrest : (s.bytes ++ rest).drop width = rest := rfl
  rw [decodeWhole, dif_neg hlen, htime, hbits, hrest, bytesWord_wordBytes, bytesWord_wordBytes,
    Int64.toInt64_toUInt64]

theorem decodeWhole_encode (samples : List Sample) : decodeWhole (encode samples) = samples := by
  induction samples with
  | nil =>
      rw [decodeWhole]
      exact dif_pos (by decide)
  | cons s rest ih =>
      change decodeWhole (s.bytes ++ encode rest) = s :: rest
      rw [decodeWhole_bytes_append, ih]

theorem decode_encode (samples : List Sample) : decode (encode samples) = .ok samples := by
  rw [decode, length_encode, if_pos (Nat.mul_mod_right _ _), decodeWhole_encode]

-- The sample that is read from the front is encoded as what stands there.
theorem bytes_of_front {bytes : Bytes} (h : width ≤ bytes.length) :
    Sample.bytes ⟨(bytesWord (bytes.take 8)).toInt64, bytesWord ((bytes.drop 8).take 8)⟩
      = bytes.take width := by
  unfold width at h
  have htime : (bytes.take 8).length = 8 := by
    rw [List.length_take]
    omega
  have hbits : ((bytes.drop 8).take 8).length = 8 := by
    rw [List.length_take, List.length_drop]
    omega
  calc Sample.bytes ⟨(bytesWord (bytes.take 8)).toInt64, bytesWord ((bytes.drop 8).take 8)⟩
      = bytes.take 8 ++ (bytes.drop 8).take 8 := by
        rw [Sample.bytes, UInt64.toUInt64_toInt64, wordBytes_bytesWord htime, wordBytes_bytesWord hbits]
    _ = bytes.take width := List.take_add.symm

theorem encode_decodeWhole {bytes : Bytes} (h : width ∣ bytes.length) :
    encode (decodeWhole bytes) = bytes := by
  fun_induction decodeWhole bytes with
  | case1 bytes hshort =>
      have hnone : bytes = [] := List.length_eq_zero_iff.mp (Nat.eq_zero_of_dvd_of_lt h hshort)
      rw [hnone]
      rfl
  | case2 bytes hlong ih =>
      have hfront : width ≤ bytes.length := Nat.le_of_not_lt hlong
      have hrest : width ∣ (bytes.drop width).length := by
        rw [List.length_drop]
        exact Nat.dvd_sub h (Nat.dvd_refl width)
      rw [encode, List.flatMap_cons, ← encode, ih hrest, bytes_of_front hfront, List.take_append_drop]

theorem decode_of_dvd {bytes : Bytes} (h : width ∣ bytes.length) :
    decode bytes = .ok (decodeWhole bytes) := by
  rw [decode, if_pos (Nat.mod_eq_zero_of_dvd h)]

theorem decode_of_not_dvd {bytes : Bytes} (h : ¬width ∣ bytes.length) :
    decode bytes = .error ⟨bytes.length⟩ := by
  rw [decode, if_neg (mt Nat.dvd_of_mod_eq_zero h)]

theorem decode_eq_ok_iff (bytes : Bytes) (samples : List Sample) :
    decode bytes = .ok samples ↔ encode samples = bytes := by
  constructor
  · intro hread
    by_cases hwhole : width ∣ bytes.length
    · rw [decode_of_dvd hwhole] at hread
      cases hread
      exact encode_decodeWhole hwhole
    · rw [decode_of_not_dvd hwhole] at hread
      cases hread
  · rintro rfl
    exact decode_encode samples

theorem exists_decode_iff (bytes : Bytes) :
    (∃ samples, decode bytes = .ok samples) ↔ width ∣ bytes.length := by
  constructor
  · rintro ⟨samples, hread⟩
    rw [← (decode_eq_ok_iff bytes samples).mp hread, length_encode]
    exact Nat.dvd_mul_right width samples.length
  · exact fun hwhole => ⟨decodeWhole bytes, decode_of_dvd hwhole⟩

-- The bytes of a sample make up one number, of its time above its value.
theorem number_bytes (s : Sample) :
    (number s.bytes : Int)
      = s.time.toInt % 18446744073709551616 * 18446744073709551616 + s.bits.toNat := by
  have hlength : (wordBytes s.bits).length = 8 := rfl
  have hroom : Nat.pow 256 8 = 18446744073709551616 := by decide
  have htime := Timestamp.toNat_toUInt64 s.time
  rw [Sample.bytes, number_append, number_wordBytes, number_wordBytes, hlength, hroom]
  omega

-- Reading gives the samples of which the bytes are the encoding, whatever the bits of their values, and it
-- fails on no bytes but those that are not made of sixteen for each sample. Samples are encoded one after
-- the other, each as one number of sixteen bytes: its time in two's complement above its value.
theorem decode_encode_inverse :
    (∀ samples bytes, decode bytes = .ok samples ↔ encode samples = bytes) ∧
    (∀ bytes : Bytes, (∃ samples, decode bytes = .ok samples) ↔ 16 ∣ bytes.length) ∧
    (∀ xs ys, encode (xs ++ ys) = encode xs ++ encode ys) ∧
    ∀ s, (encode [s]).length = 16 ∧
      (number (encode [s]) : Int)
        = s.time.toInt % 18446744073709551616 * 18446744073709551616 + s.bits.toNat := by
  refine ⟨fun samples bytes => decode_eq_ok_iff bytes samples, exists_decode_iff, encode_append,
    fun s => ⟨length_encode [s], ?_⟩⟩
  have hone : encode [s] = s.bytes := List.append_nil s.bytes
  rw [hone, number_bytes]

end Cadence.Sample
