import KhCommon.Lib.Base64
import KhCommon.Lib.Python
import KhCommon.Utilities

/-! `kh_common.base64`: url-safe base64 without padding. `b64encode` strips the
padding; `b64decode` puts back what the length modulo four asks for, and four
characters too many when the length is a multiple of four, which the decoder
ignores. `none` is the `ValueError` of the standard library. -/

namespace KhCommon

open Python

/-- The url-safe alphabet has `-` and `_` for `+` and `/`. -/
def urlsafe (ch : UInt8) : UInt8 := if ch = 43 then 45 else if ch = 47 then 95 else ch

def fromUrlsafe (ch : UInt8) : UInt8 := if ch = 45 then 43 else if ch = 95 then 47 else ch

def urlsafeB64encode (s : Bytes) : Bytes := (Base64.encode s).map urlsafe

def urlsafeB64decode (s : Bytes) : Option Bytes := Base64.decode (s.map fromUrlsafe)

def b64encode (bytestring : Bytes) : Bytes := strip Base64.pad (urlsafeB64encode bytestring)

def b64decode (bytestring : Bytes) : Option Bytes :=
  urlsafeB64decode (bytestring ++ List.replicate (4 - bytestring.length % 4) Base64.pad)

/-- `b64decode` of a string, which the standard library encodes as ASCII first. -/
def b64decodeStr (bytestring : Str) : Option Bytes :=
  (asciiEncode (bytestring ++ List.replicate (4 - bytestring.length % 4) 61)).bind urlsafeB64decode

/-! ## Round trip -/

theorem fromUrlsafe_urlsafe_digit {n : ℕ} (h : n < 64) :
    fromUrlsafe (urlsafe (Base64.digit n)) = Base64.digit n := by
  revert n
  decide

theorem urlsafe_digit {n : ℕ} (h : n < 64) : (urlsafe (Base64.digit n)).toNat < 128 ∧
    urlsafe (Base64.digit n) ≠ 46 ∧ urlsafe (Base64.digit n) ≠ Base64.pad := by
  revert n
  decide

theorem mem_urlsafe_body {bytes : Bytes} {ch : UInt8}
    (h : ch ∈ (Base64.body bytes).map urlsafe) : ch.toNat < 128 ∧ ch ≠ 46 ∧ ch ≠ Base64.pad := by
  obtain ⟨d, hd, rfl⟩ := List.mem_map.mp h
  obtain ⟨n, hn, rfl⟩ := Base64.exists_digit_of_mem_body hd
  exact urlsafe_digit hn

theorem b64encode_eq_body (bytes : Bytes) : b64encode bytes = (Base64.body bytes).map urlsafe := by
  have absent : Base64.pad ∉ (Base64.body bytes).map urlsafe :=
    fun h => (mem_urlsafe_body h).2.2 rfl
  have padding : (Base64.padding bytes).map urlsafe = Base64.padding bytes := by
    rw [Base64.padding, List.map_replicate]
    rfl
  rw [b64encode, urlsafeB64encode, Base64.encode, List.map_append, padding]
  exact strip_append_replicate absent _

theorem ascii_of_mem_b64encode {bytes : Bytes} {ch : UInt8} (h : ch ∈ b64encode bytes) :
    ch.toNat < 128 :=
  (mem_urlsafe_body (b64encode_eq_body bytes ▸ h)).1

theorem period_not_mem_b64encode (bytes : Bytes) : 46 ∉ b64encode bytes :=
  fun h => (mem_urlsafe_body (b64encode_eq_body bytes ▸ h)).2.1 rfl

theorem map_fromUrlsafe_body (bytes : Bytes) :
    ((Base64.body bytes).map urlsafe).map fromUrlsafe = Base64.body bytes := by
  rw [List.map_map]
  refine (List.map_congr_left fun d hd => ?_).trans (List.map_id _)
  obtain ⟨n, hn, rfl⟩ := Base64.exists_digit_of_mem_body hd
  exact fromUrlsafe_urlsafe_digit hn

theorem b64decode_b64encode (bytes : Bytes) : b64decode (b64encode bytes) = some bytes := by
  rw [b64decode, urlsafeB64decode, b64encode_eq_body, List.map_append, map_fromUrlsafe_body,
    List.map_replicate, List.length_map]
  exact Base64.decode_body bytes

theorem b64decodeStr_ofBytes {bytes : Bytes} (ascii : ∀ b ∈ bytes, b.toNat < 128) :
    b64decodeStr (ofBytes bytes) = b64decode bytes := by
  have padded : ofBytes bytes ++ List.replicate (4 - (ofBytes bytes).length % 4) 61 =
      ofBytes (bytes ++ List.replicate (4 - bytes.length % 4) Base64.pad) := by
    rw [ofBytes, ofBytes, List.map_append, List.map_replicate, List.length_map]
    rfl
  rw [b64decodeStr, padded, asciiEncode_ofBytes, Option.bind_some, b64decode]
  intro b hb
  rcases List.mem_append.mp hb with hb | hb
  · exact ascii b hb
  · rw [List.eq_of_mem_replicate hb]
    decide

def IsUrlsafe (ch : UInt8) : Prop :=
  (65 ≤ ch.toNat ∧ ch.toNat ≤ 90) ∨ (97 ≤ ch.toNat ∧ ch.toNat ≤ 122) ∨
    (48 ≤ ch.toNat ∧ ch.toNat ≤ 57) ∨ ch = 45 ∨ ch = 95

instance (ch : UInt8) : Decidable (IsUrlsafe ch) :=
  inferInstanceAs (Decidable (_ ∨ _ ∨ _ ∨ _ ∨ _))

theorem isUrlsafe_digit {n : ℕ} (h : n < 64) : IsUrlsafe (urlsafe (Base64.digit n)) := by
  revert n
  decide

theorem isUrlsafe_of_mem_b64encode {bytes : Bytes} {ch : UInt8} (h : ch ∈ b64encode bytes) :
    IsUrlsafe ch := by
  rw [b64encode_eq_body] at h
  obtain ⟨d, hd, rfl⟩ := List.mem_map.mp h
  obtain ⟨n, hn, rfl⟩ := Base64.exists_digit_of_mem_body hd
  exact isUrlsafe_digit hn

/-- Bytes are encoded in letters, digits, `-` and `_`, and decoded again from the encoding and from
the string with the same characters. -/
theorem base64_roundTrip (bytes : Bytes) :
    (∀ ch ∈ b64encode bytes, IsUrlsafe ch ∧ ch ≠ Base64.pad ∧ ch ≠ 46) ∧
      b64decode (b64encode bytes) = some bytes ∧
      b64decodeStr (ofBytes (b64encode bytes)) = some bytes := by
  refine ⟨fun ch h => ⟨isUrlsafe_of_mem_b64encode h, ?_⟩, b64decode_b64encode bytes, ?_⟩
  · have characters := mem_urlsafe_body (b64encode_eq_body bytes ▸ h)
    exact ⟨characters.2.2, characters.2.1⟩
  · rw [b64decodeStr_ofBytes fun b h => ascii_of_mem_b64encode h, b64decode_b64encode]

end KhCommon
