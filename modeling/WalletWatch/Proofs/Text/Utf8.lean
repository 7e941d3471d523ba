import WalletWatch.Text.Utf8

set_option autoImplicit false

/-!
# Texts and bytes

The bytes of a string are read as its characters again, so a string that travels as bytes arrives as
it was sent. Strings in order have bytes in order.
-/

namespace WalletWatch.Text

/-! ## Bytes as numbers -/

theorem toNat_byte {n : Nat} (h : n < 256) : (UInt8.ofNat n).toNat = n := by
  rw [UInt8.toNat_ofNat']
  omega

theorem byte_lt {n high : Nat} (hn : n < 256) (hh : high < 256) :
    UInt8.ofNat n < UInt8.ofNat high ↔ n < high := by
  rw [UInt8.lt_iff_toNat_lt, toNat_byte hn, toNat_byte hh]

theorem byte_within {n low high : Nat} (hn : n < 256) (hl : low < 256) (hh : high < 256) :
    (UInt8.ofNat low ≤ UInt8.ofNat n && UInt8.ofNat n < UInt8.ofNat high) =
      (low ≤ n && n < high) := by
  have above : UInt8.ofNat low ≤ UInt8.ofNat n ↔ low ≤ n := by
    rw [UInt8.le_iff_toNat_le, toNat_byte hl, toNat_byte hn]
  simp only [above, byte_lt hn hh]

theorem byte_not_low {n : Nat} (h : 128 ≤ n) (hn : n < 256) : ¬ UInt8.ofNat n < 0x80 := by
  intro low
  have below : n < 128 := (byte_lt hn (by decide)).mp low
  omega

theorem continuation_byte {n : Nat} (h : n < 64) : continuation (UInt8.ofNat (n + 128)) = true := by
  have range : (128 ≤ n + 128 && n + 128 < 192) = true := by
    simp
    omega
  exact (byte_within (by omega) (by decide) (by decide)).trans range

theorem payload_byte {n : Nat} (h : n < 64) : payload (UInt8.ofNat (n + 128)) = n := by
  have value := toNat_byte (n := n + 128) (by omega)
  unfold payload
  omega

/-! ## One character

One lemma for each number of bytes: the first byte falls into one class, and what the others hold is
put together again. -/

theorem firstChar?_one {a : Nat} (ha : a < 128) (rest : List UInt8) :
    firstChar? (UInt8.ofNat a :: rest) = some (Char.ofNat a, 1) := by
  have value := toNat_byte (n := a) (by omega)
  have low : UInt8.ofNat a < 0x80 := (byte_lt (by omega) (by decide)).mpr ha
  simp only [firstChar?, low, value, if_true]

theorem firstChar?_two {a b : Nat} (ha : 2 ≤ a ∧ a < 32) (hb : b < 64) (rest : List UInt8) :
    firstChar? (UInt8.ofNat (a + 192) :: UInt8.ofNat (b + 128) :: rest) =
      some (Char.ofNat (a * 64 + b), 2) := by
  have value := toNat_byte (n := a + 192) (by omega)
  have one : ¬ UInt8.ofNat (a + 192) < 0x80 := byte_not_low (by omega) (by omega)
  have two : (0xC2 ≤ UInt8.ofNat (a + 192) && UInt8.ofNat (a + 192) < 0xE0) = true :=
    (byte_within (by omega) (by decide) (by decide)).trans (by simp; omega)
  have bits : (a + 192) % 32 = a := by omega
  simp only [firstChar?, one, two, continuation_byte hb, payload_byte hb, value, bits, if_true,
    if_false]

theorem firstChar?_three {a b c : Nat} (ha : a < 16) (hb : b < 64) (hc : c < 64)
    (long : 0x800 ≤ (a * 64 + b) * 64 + c)
    (scalar : ¬ (0xD800 ≤ (a * 64 + b) * 64 + c ∧ (a * 64 + b) * 64 + c < 0xE000))
    (rest : List UInt8) :
    firstChar? (UInt8.ofNat (a + 224) :: UInt8.ofNat (b + 128) :: UInt8.ofNat (c + 128) :: rest) =
      some (Char.ofNat ((a * 64 + b) * 64 + c), 3) := by
  have value := toNat_byte (n := a + 224) (by omega)
  have one : ¬ UInt8.ofNat (a + 224) < 0x80 := byte_not_low (by omega) (by omega)
  have two : (0xC2 ≤ UInt8.ofNat (a + 224) && UInt8.ofNat (a + 224) < 0xE0) = false :=
    (byte_within (by omega) (by decide) (by decide)).trans (by simp)
  have three : (0xE0 ≤ UInt8.ofNat (a + 224) && UInt8.ofNat (a + 224) < 0xF0) = true :=
    (byte_within (by omega) (by decide) (by decide)).trans (by simp; omega)
  have bits : (a + 224) % 16 = a := by omega
  have fits : (0x800 ≤ (a * 64 + b) * 64 + c &&
      !(0xD800 ≤ (a * 64 + b) * 64 + c && (a * 64 + b) * 64 + c < 0xE000)) = true := by
    simpa using ⟨long, by omega⟩
  simp only [firstChar?, one, two, three, continuation_byte hb, continuation_byte hc,
    payload_byte hb, payload_byte hc, value, bits, fits, Bool.and_self, Bool.true_and, if_true,
    if_false, Bool.false_eq_true]

theorem firstChar?_four {a b c d : Nat} (ha : a < 5) (hb : b < 64) (hc : c < 64) (hd : d < 64)
    (long : 0x10000 ≤ ((a * 64 + b) * 64 + c) * 64 + d)
    (last : ((a * 64 + b) * 64 + c) * 64 + d < 0x110000) (rest : List UInt8) :
    firstChar? (UInt8.ofNat (a + 240) :: UInt8.ofNat (b + 128) :: UInt8.ofNat (c + 128) ::
      UInt8.ofNat (d + 128) :: rest) =
        some (Char.ofNat (((a * 64 + b) * 64 + c) * 64 + d), 4) := by
  have value := toNat_byte (n := a + 240) (by omega)
  have one : ¬ UInt8.ofNat (a + 240) < 0x80 := byte_not_low (by omega) (by omega)
  have two : (0xC2 ≤ UInt8.ofNat (a + 240) && UInt8.ofNat (a + 240) < 0xE0) = false :=
    (byte_within (by omega) (by decide) (by decide)).trans (by simp)
  have three : (0xE0 ≤ UInt8.ofNat (a + 240) && UInt8.ofNat (a + 240) < 0xF0) = false :=
    (byte_within (by omega) (by decide) (by decide)).trans (by simp)
  have four : (0xF0 ≤ UInt8.ofNat (a + 240) && UInt8.ofNat (a + 240) < 0xF5) = true :=
    (byte_within (by omega) (by decide) (by decide)).trans (by simp; omega)
  have bits : (a + 240) % 8 = a := by omega
  have fits : (0x10000 ≤ ((a * 64 + b) * 64 + c) * 64 + d &&
      ((a * 64 + b) * 64 + c) * 64 + d < 0x110000) = true := by
    simpa using ⟨long, last⟩
  simp only [firstChar?, one, two, three, four, continuation_byte hb, continuation_byte hc,
    continuation_byte hd, payload_byte hb, payload_byte hc, payload_byte hd, value, bits, fits,
    Bool.and_self, Bool.true_and, if_true, if_false, Bool.false_eq_true]

theorem toNat_scalar (c : Char) :
    c.val.toNat < 0xD800 ∨ (0xE000 ≤ c.val.toNat ∧ c.val.toNat < 0x110000) := by
  have valid := c.valid
  unfold UInt32.isValidChar Nat.isValidChar at valid
  omega

theorem firstChar?_encode (c : Char) (rest : List UInt8) :
    firstChar? (String.utf8EncodeChar c ++ rest) =
      some (c, (String.utf8EncodeChar c).length) := by
  have scalar := toNat_scalar c
  have same : ∀ n, n = c.val.toNat → Char.ofNat n = c := by
    rintro n rfl
    exact c.ofNat_toNat
  simp only [String.utf8EncodeChar]
  generalize c.val.toNat = v at scalar same
  -- The cases are those of the encoder: what it takes apart, the decoder must put together.
  split
  · have whole := firstChar?_one (a := v) (by omega) rest
    rwa [same v rfl] at whole
  split
  · have whole := firstChar?_two (a := v / 64 % 32) (b := v % 64) (by omega) (by omega) rest
    rwa [same (v / 64 % 32 * 64 + v % 64) (by omega)] at whole
  split
  · have value : (v / 4096 % 16 * 64 + v / 64 % 64) * 64 + v % 64 = v := by omega
    have whole := firstChar?_three (a := v / 4096 % 16) (b := v / 64 % 64) (c := v % 64) (by omega)
      (by omega) (by omega) (by omega) (by omega) rest
    rwa [same _ value] at whole
  · have value : ((v / 262144 % 8 * 64 + v / 4096 % 64) * 64 + v / 64 % 64) * 64 + v % 64 = v := by
      omega
    have whole := firstChar?_four (a := v / 262144 % 8) (b := v / 4096 % 64) (c := v / 64 % 64)
      (d := v % 64) (by omega) (by omega) (by omega) (by omega) (by omega) (by omega) rest
    rwa [same _ value] at whole

/-! ## All characters -/

theorem readBytes_ofString (cs : List Char) {n : Nat}
    (enough : (toBytes (cs.map Sign.char)).length ≤ n) :
    readBytes n (toBytes (cs.map Sign.char)) = cs.map Sign.char := by
  induction cs generalizing n with
  | nil => cases n <;> rfl
  | cons c cs ih =>
    have split : toBytes ((c :: cs).map Sign.char) =
        String.utf8EncodeChar c ++ toBytes (cs.map Sign.char) := rfl
    have first := firstChar?_encode c (toBytes (cs.map Sign.char))
    have positive : 0 < (String.utf8EncodeChar c).length := by
      rw [String.length_utf8EncodeChar]
      exact c.utf8Size_pos
    rw [split] at enough ⊢
    rw [List.length_append] at enough
    -- A character takes a byte at least, so there is a round left for it.
    obtain ⟨n, rfl⟩ : ∃ k, n = k + 1 := ⟨n - 1, by omega⟩
    have behind := ih (n := n) (by omega)
    obtain ⟨a, bytes, hbytes⟩ := List.exists_cons_of_length_pos positive
    have dropped : (String.utf8EncodeChar c ++ toBytes (cs.map Sign.char)).drop
        (String.utf8EncodeChar c).length = toBytes (cs.map Sign.char) := List.drop_left
    rw [hbytes] at first dropped ⊢
    rw [List.cons_append] at first dropped ⊢
    simp only [readBytes, first, dropped, behind, List.map_cons]

@[simp] theorem delivered_ofString (s : String) : (ofString s).delivered = ofString s :=
  readBytes_ofString s.toList (Nat.le_refl _)

/-! ## Order -/

theorem byte_cons_lt {a b : Nat} (ha : a < 256) (hb : b < 256) {s t : List UInt8} :
    UInt8.ofNat a :: s < UInt8.ofNat b :: t ↔ a < b ∨ a = b ∧ s < t := by
  have same : UInt8.ofNat a = UInt8.ofNat b ↔ a = b := by
    rw [← UInt8.toNat_inj, toNat_byte ha, toNat_byte hb]
  rw [List.cons_lt_cons_iff, byte_lt ha hb, same]

/-- Of two characters the lesser has the lesser bytes, and no byte behind them counts. -/
theorem encode_lt {c d : Char} (lt : c < d) (rest rest' : List UInt8) :
    String.utf8EncodeChar c ++ rest < String.utf8EncodeChar d ++ rest' := by
  have below : c.val.toNat < d.val.toNat := lt
  have scalar := toNat_scalar d
  simp only [String.utf8EncodeChar]
  generalize c.val.toNat = v at below
  generalize d.val.toNat = w at below scalar
  have top : v / 262144 % 8 = v / 262144 := Nat.mod_eq_of_lt (by omega)
  have top' : w / 262144 % 8 = w / 262144 := Nat.mod_eq_of_lt (by omega)
  rw [top, top']
  -- Of two lengths the shorter has the lesser first byte; within one the bytes count in turn.
  (repeat' split) <;>
    simp (disch := omega) only [List.cons_append, List.nil_append, byte_cons_lt] <;> omega

theorem toBytes_ofString_lt {s t : String} (lt : s < t) :
    (ofString s).toBytes < (ofString t).toBytes := by
  have chars : List.Lex (· < ·) s.toList t.toList := lt
  unfold ofString
  generalize s.toList = cs at chars ⊢
  generalize t.toList = ds at chars ⊢
  induction chars with
  | @nil c cs =>
    obtain ⟨b, bs, first⟩ : ∃ b bs, String.utf8EncodeChar c = b :: bs := by
      apply List.exists_cons_of_length_pos
      rw [String.length_utf8EncodeChar]
      exact c.utf8Size_pos
    change [] < String.utf8EncodeChar c ++ toBytes (cs.map Sign.char)
    rw [first]
    exact .nil
  | @cons c cs ds _ ih =>
    change String.utf8EncodeChar c ++ toBytes (cs.map Sign.char) <
      String.utf8EncodeChar c ++ toBytes (ds.map Sign.char)
    exact List.append_left_lt ih
  | rel lt => exact encode_lt lt _ _

end WalletWatch.Text
