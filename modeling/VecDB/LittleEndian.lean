import Mathlib.Tactic

/-!
# Little-endian words

Fixed-width little-endian encodings of naturals and of 32-bit word lists.
Nothing here depends on a particular file format: a width and a number give
bytes, and the two decoders invert the two encoders exactly.
-/

namespace LittleEndian

def encode : ℕ → ℕ → List UInt8
  | 0, _ => []
  | width + 1, n => UInt8.ofNat n :: encode width (n / 256)

def decode : List UInt8 → ℕ
  | [] => 0
  | byte :: bytes => byte.toNat + 256 * decode bytes

@[simp] theorem length_encode (width n : ℕ) :
    (encode width n).length = width := by
  induction width generalizing n with
  | zero => rfl
  | succ width ih => simp [encode, ih]

theorem decode_encode (width n : ℕ) :
    decode (encode width n) = n % 256 ^ width := by
  induction width generalizing n with
  | zero => simp [encode, decode, Nat.mod_one]
  | succ width ih =>
      have hbyte : (UInt8.ofNat n).toNat = n % 256 := by simp
      rw [encode, decode, ih, hbyte, pow_succ', Nat.mod_mul]

theorem decode_encode_of_lt {width n : ℕ} (hn : n < 256 ^ width) :
    decode (encode width n) = n := by
  rw [decode_encode, Nat.mod_eq_of_lt hn]

theorem decode_lt (bytes : List UInt8) :
    decode bytes < 256 ^ bytes.length := by
  induction bytes with
  | nil => simp [decode]
  | cons byte bytes ih =>
      have hbyte : byte.toNat < 256 := byte.toNat_lt
      have hstep : decode bytes + 1 ≤ 256 ^ bytes.length := ih
      calc
        decode (byte :: bytes) < 256 * (decode bytes + 1) := by
          simp only [decode]
          omega
        _ ≤ 256 * 256 ^ bytes.length := Nat.mul_le_mul_left 256 hstep
        _ = 256 ^ (byte :: bytes).length := by
          rw [List.length_cons, pow_succ']

/-- A number that is overwritten by a larger one, up to some byte. -/
theorem decode_take_append_drop_le (width : ℕ) {m n : ℕ} (hle : n ≤ m)
    (count : ℕ) :
    decode ((encode width m).take count ++ (encode width n).drop count) ≤
      m := by
  induction width generalizing m n count with
  | zero => simp [encode, decode]
  | succ width ih =>
      cases count with
      | zero =>
          rw [List.take_zero, List.nil_append, List.drop_zero, decode_encode]
          exact (Nat.mod_le _ _).trans hle
      | succ count =>
          have hrest := ih (Nat.div_le_div_right hle : n / 256 ≤ m / 256) count
          have hbyte : (UInt8.ofNat m).toNat = m % 256 := by simp
          rw [encode, encode, List.take_succ_cons, List.drop_succ_cons,
            List.cons_append, decode, hbyte]
          omega

theorem encode_decode (bytes : List UInt8) :
    encode bytes.length (decode bytes) = bytes := by
  induction bytes with
  | nil => rfl
  | cons byte bytes ih =>
      have hbyte : byte.toNat < 256 := byte.toNat_lt
      have hdiv : (byte.toNat + 256 * decode bytes) / 256 = decode bytes := by
        omega
      have hhead : UInt8.ofNat (byte.toNat + 256 * decode bytes) = byte := by
        apply UInt8.toNat_inj.mp
        simp
      simp only [List.length_cons, decode, encode]
      rw [hhead, hdiv, ih]

theorem decode_injective_of_length {first second : List UInt8}
    (hlength : first.length = second.length)
    (heq : decode first = decode second) : first = second := by
  rw [← encode_decode first, ← encode_decode second, hlength, heq]

theorem encode_zero (width : ℕ) :
    encode width 0 = List.replicate width 0 := by
  induction width with
  | zero => rfl
  | succ width ih =>
      rw [encode, Nat.zero_div, ih, List.replicate_succ]
      rfl

@[simp] theorem decode_replicate_zero (count : ℕ) :
    decode (List.replicate count 0) = 0 := by
  induction count with
  | zero => rfl
  | succ count ih => simp [List.replicate_succ, decode, ih]

/-! ## Word lists -/

def encodeWords (words : List UInt32) : List UInt8 :=
  words.flatMap fun word => encode 4 word.toNat

/-- Reads `count` words off the front of a byte list. -/
def decodeWords : ℕ → List UInt8 → List UInt32
  | 0, _ => []
  | count + 1, bytes =>
      UInt32.ofNat (decode (bytes.take 4)) :: decodeWords count (bytes.drop 4)

@[simp] theorem length_encodeWords (words : List UInt32) :
    (encodeWords words).length = words.length * 4 := by
  induction words with
  | nil => rfl
  | cons word words ih =>
      have ih' : (words.flatMap fun word => encode 4 word.toNat).length =
          words.length * 4 := ih
      simp only [encodeWords, List.flatMap_cons, List.length_append,
        length_encode, List.length_cons, ih']
      omega

@[simp] theorem length_decodeWords (count : ℕ) (bytes : List UInt8) :
    (decodeWords count bytes).length = count := by
  induction count generalizing bytes with
  | zero => rfl
  | succ count ih => simp [decodeWords, ih]

theorem decodeWords_encodeWords (words : List UInt32) :
    decodeWords words.length (encodeWords words) = words := by
  induction words with
  | nil => rfl
  | cons word words ih =>
      have htake : (encodeWords (word :: words)).take 4 =
          encode 4 word.toNat := by
        simp [encodeWords]
      have hdrop : (encodeWords (word :: words)).drop 4 =
          encodeWords words := by
        simp [encodeWords]
      have hword : decode (encode 4 word.toNat) = word.toNat :=
        decode_encode_of_lt word.toNat_lt
      rw [List.length_cons, decodeWords, htake, hdrop, hword, ih,
        UInt32.ofNat_toNat]

end LittleEndian
