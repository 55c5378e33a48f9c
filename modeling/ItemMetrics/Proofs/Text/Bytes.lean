import Mathlib.Data.List.Basic
import ItemMetrics.Text.Bytes

/-! # The bytes of texts

Texts are ordered by their characters, and that is the order of their bytes in UTF-8
(`Text.bytes_lt_iff`). Where bytes are shown, those of a text are shown as that text
(`Text.lossy_append`). -/

namespace ItemMetrics.Text

theorem bytes_injective : Function.Injective bytes := by
  intro s t h
  apply String.toByteArray_inj.mp
  exact ByteArray.ext (Array.toList_inj.mp h)

theorem isText_bytes (s : String) : isText (bytes s) = true := by
  apply ByteArray.validateUTF8_eq_true_iff.mpr
  exact s.isValidUTF8

/-! ## The order -/

theorem bytes_eq_flatMap (s : String) : bytes s = s.toList.flatMap String.utf8EncodeChar := by
  rw [bytes, String.toUTF8_eq_toByteArray, ← String.utf8Encode_toList, List.utf8Encode,
    List.toList_data_toByteArray]

section
variable {a b : Nat} (ha : a < 256) (hb : b < 256)
include ha hb

theorem byte_lt_iff : UInt8.ofNat a < UInt8.ofNat b ↔ a < b := by
  rw [UInt8.lt_iff_toNat_lt, UInt8.toNat_ofNat_of_lt' ha, UInt8.toNat_ofNat_of_lt' hb]

theorem byte_eq_iff : UInt8.ofNat a = UInt8.ofNat b ↔ a = b := by
  rw [← UInt8.toNat_inj, UInt8.toNat_ofNat_of_lt' ha, UInt8.toNat_ofNat_of_lt' hb]

end

/-- The bytes of different characters differ before those of either end. -/
theorem utf8EncodeChar_append_lt {c d : Char} (h : c < d) (l m : List UInt8) :
    String.utf8EncodeChar c ++ l < String.utf8EncodeChar d ++ m := by
  have hlt : c.val.toNat < d.val.toNat := h
  have hmax : d.val.toNat < 0x110000 := by
    have hvalid : d.val.toNat.isValidChar := d.valid
    unfold Nat.isValidChar at hvalid
    omega
  have hdiv (n : Nat) : n / 4096 = n / 64 / 64 ∧ n / 262144 = n / 64 / 64 / 64 := by
    simp [Nat.div_div_eq_div_mul]
  -- by the number of bytes of each: with more of them already the first byte is greater
  simp only [String.utf8EncodeChar, hdiv]
  split_ifs <;>
    simp (disch := omega) only [List.cons_append, List.nil_append, List.cons_lt_cons_iff,
      byte_lt_iff, byte_eq_iff] <;>
    omega

theorem flatMap_utf8EncodeChar_lt {cs ds : List Char} (h : cs < ds) :
    cs.flatMap String.utf8EncodeChar < ds.flatMap String.utf8EncodeChar := by
  induction h with
  | nil =>
    obtain ⟨b, bs, hbytes⟩ := List.exists_cons_of_ne_nil String.utf8EncodeChar_ne_nil
    rw [List.flatMap_cons, hbytes]
    exact .nil
  | cons _ ih => exact List.append_left_lt ih
  | rel h => exact utf8EncodeChar_append_lt h _ _

/-- One text is before another when its bytes are. -/
theorem bytes_lt_iff {s t : String} : bytes s < bytes t ↔ s < t := by
  have hmono {s t : String} (h : s < t) : bytes s < bytes t := by
    rw [bytes_eq_flatMap, bytes_eq_flatMap]
    exact flatMap_utf8EncodeChar_lt (String.lt_iff.mp h)
  refine ⟨fun h => ?_, hmono⟩
  by_contra hnot
  by_cases heq : t = s
  · exact List.lt_irrefl _ (heq ▸ h)
  · exact List.lt_asymm h (hmono (Std.lt_of_le_of_ne (String.not_lt.mp hnot) heq))

/-! ## What is shown -/

theorem lossyChars_append_of_length (bs bs' : List UInt8) :
    lossyChars bs.length (bs ++ bs') = lossyChars 0 bs' := by
  induction bs with
  | nil => rfl
  | cons b bs ih => exact ih

/-- A character in front is shown as itself. -/
theorem lossyChars_char (c : Char) (bs : List UInt8) :
    lossyChars 0 (String.utf8EncodeChar c ++ bs) = c :: lossyChars 0 bs := by
  obtain ⟨b, cs, hc⟩ := List.exists_cons_of_ne_nil (String.utf8EncodeChar_ne_nil (c := c))
  have hlength : c.utf8Size - 1 = cs.length := by
    rw [← String.length_utf8EncodeChar, hc, List.length_cons, Nat.add_sub_cancel]
  have hbytes : ByteArray.mk (b :: (cs ++ bs)).toArray =
      (String.utf8EncodeChar c).toByteArray ++ ByteArray.mk bs.toArray := by
    apply ByteArray.ext
    apply Array.toList_inj.mp
    simp [hc]
  rw [hc, List.cons_append, lossyChars, hbytes, ByteArray.utf8DecodeChar?_utf8EncodeChar_append]
  simp only [hlength, lossyChars_append_of_length]

/-- A text is shown as it is, whatever bytes come behind it. -/
theorem lossy_append (s : String) (bs : List UInt8) : lossy (bytes s ++ bs) = s ++ lossy bs := by
  have hchars (cs : List Char) :
      lossyChars 0 (cs.flatMap String.utf8EncodeChar ++ bs) = cs ++ lossyChars 0 bs := by
    induction cs with
    | nil => rfl
    | cons c cs ih =>
      rw [List.flatMap_cons, List.append_assoc, lossyChars_char, ih, List.cons_append]
  rw [lossy, bytes_eq_flatMap, hchars, String.ofList_append, String.ofList_toList, lossy]

example : lossy [0x61, 0xFF, 0xC3, 0xA9, 0xE2, 0x82, 0xF0, 0x9F, 0x41, 0xED, 0xA0] =
    "a\uFFFDé\uFFFD\uFFFDA\uFFFD\uFFFD" := by decide +kernel

end ItemMetrics.Text
