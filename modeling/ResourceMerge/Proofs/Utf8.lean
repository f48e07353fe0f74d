import Mathlib.Tactic.IntervalCases
import Mathlib.Tactic.Set
import ResourceMerge.Text.Utf8

/-! Writing a text in UTF-8 and reading it back gives the text. The decoder is followed through the
    one to four bytes of a character: the first byte puts it inside a form, each continuation byte
    grows the code point by six bits, and the last one completes the character. What has to be
    shown of the numbers is that each byte lies in the range the form asks for, also where the
    range of the second byte is narrower (no overlong forms, no surrogates, nothing beyond
    U+10FFFF). -/

namespace ResourceMerge.Text

/-! ### The first byte -/

theorem lead_of_two {k : Nat} (hk : 2 ≤ k) (hk' : k < 32) :
    lead? (UInt8.ofNat (k + 0xC0)) = some ⟨k, 0x80, 0xBF, 0⟩ := by
  interval_cases k <;> rfl

/-- The range of a second byte, by the bits in the first: it starts later where these are none, and
    ends earlier where they are `last`. -/
def secondRange (least greatest : UInt8) (last k : Nat) : UInt8 × UInt8 :=
  if k = 0 then (least, 0xBF) else if k = last then (0x80, greatest) else (0x80, 0xBF)

/-- The range of the second byte of three, by the bits in the first. -/
def secondOfThree (k : Nat) : UInt8 × UInt8 := secondRange 0xA0 0x9F 13 k

theorem lead_of_three {k : Nat} (hk : k < 16) :
    lead? (UInt8.ofNat (k + 0xE0))
      = some ⟨k, (secondOfThree k).1, (secondOfThree k).2, 1⟩ := by
  interval_cases k <;> rfl

/-- The range of the second byte of four, by the bits in the first. -/
def secondOfFour (k : Nat) : UInt8 × UInt8 := secondRange 0x90 0x8F 4 k

theorem lead_of_four {k : Nat} (hk : k < 5) :
    lead? (UInt8.ofNat (k + 0xF0))
      = some ⟨k, (secondOfFour k).1, (secondOfFour k).2, 2⟩ := by
  interval_cases k <;> rfl

/-- No byte of the first half starts a longer form. -/
theorem not_lt_of_lead {b : UInt8} {form : Lead} (h : lead? b = some form) : ¬ b < 0x80 := by
  intro hb
  rw [UInt8.lt_iff_toNat_lt] at hb
  have hb' : b.toNat < 128 := hb
  have hnone : lead? b = none := by
    simp only [lead?, UInt8.le_iff_toNat_le, ← UInt8.toNat_inj, UInt8.reduceToNat]
    simp only [show ¬ (194 ≤ b.toNat ∧ b.toNat ≤ 223) by omega, show ¬ b.toNat = 224 by omega,
      show ¬ b.toNat = 237 by omega, show ¬ (225 ≤ b.toNat ∧ b.toNat ≤ 239) by omega,
      show ¬ b.toNat = 240 by omega, show ¬ (241 ≤ b.toNat ∧ b.toNat ≤ 243) by omega,
      show ¬ b.toNat = 244 by omega, if_false]
  simp [hnone] at h

/-! ### The decoder, byte by byte -/

theorem decodeOnto_lead {b : UInt8} {form : Lead} (h : lead? b = some form)
    (done : List Char) (rest : List UInt8) :
    decodeOnto .between done (b :: rest) = decodeOnto (.inside form) done rest := by
  simp [decodeOnto, feed, startByte, not_lt_of_lead h, h]

theorem decodeOnto_more {high more : Nat} {least greatest b : UInt8}
    (hb : least ≤ b ∧ b ≤ greatest) (done : List Char) (rest : List UInt8) :
    decodeOnto (.inside ⟨high, least, greatest, more + 1⟩) done (b :: rest)
      = decodeOnto (.inside ⟨grow high b, 0x80, 0xBF, more⟩) done rest := by
  simp [decodeOnto, feed, hb]

theorem decodeOnto_last {high : Nat} {least greatest b : UInt8} (hb : least ≤ b ∧ b ≤ greatest)
    (done : List Char) (rest : List UInt8) :
    decodeOnto (.inside ⟨high, least, greatest, 0⟩) done (b :: rest)
      = decodeOnto .between (Char.ofNat (grow high b) :: done) rest := by
  simp [decodeOnto, feed, hb]

/-! ### Continuation bytes -/

theorem toNat_continuation {k : Nat} (hk : k < 64) :
    (UInt8.ofNat (k + 0x80)).toNat = k + 0x80 := by
  rw [UInt8.toNat_ofNat']
  exact Nat.mod_eq_of_lt (by omega)

theorem continuation_range {k : Nat} (hk : k < 64) :
    0x80 ≤ UInt8.ofNat (k + 0x80) ∧ UInt8.ofNat (k + 0x80) ≤ 0xBF := by
  rw [UInt8.le_iff_toNat_le, UInt8.le_iff_toNat_le, toNat_continuation hk]
  simp only [UInt8.reduceToNat]
  omega

theorem grow_continuation (high : Nat) {k : Nat} (hk : k < 64) :
    grow high (UInt8.ofNat (k + 0x80)) = high * 64 + k := by
  have h := toNat_continuation hk
  unfold grow
  omega

/-- A second byte lies in its range if it has the bits for it in the two narrower cases. -/
theorem secondRange_holds {least greatest : UInt8} {last k j : Nat} (hj : j < 64)
    (hfirst : k = 0 → least.toNat ≤ j + 0x80) (hlast : k = last → j + 0x80 ≤ greatest.toNat) :
    (secondRange least greatest last k).1 ≤ UInt8.ofNat (j + 0x80) ∧
      UInt8.ofNat (j + 0x80) ≤ (secondRange least greatest last k).2 := by
  have hrange := continuation_range hj
  unfold secondRange
  split
  · rename_i hk
    exact ⟨by rw [UInt8.le_iff_toNat_le, toNat_continuation hj]; exact hfirst hk, hrange.2⟩
  · split
    · rename_i hk
      exact ⟨hrange.1, by rw [UInt8.le_iff_toNat_le, toNat_continuation hj]; exact hlast hk⟩
    · exact hrange

/-- The second of three bytes lies where the first one wants it. -/
theorem secondOfThree_range {v : Nat} (h : 0x7ff < v) (h' : v ≤ 0xffff) (hs : v.isValidChar) :
    (secondOfThree (v / 4096 % 16)).1 ≤ UInt8.ofNat (v / 64 % 64 + 0x80) ∧
      UInt8.ofNat (v / 64 % 64 + 0x80) ≤ (secondOfThree (v / 4096 % 16)).2 := by
  refine secondRange_holds (Nat.mod_lt _ (by decide)) (fun hfirst => ?_) fun hlast => ?_
  · simp only [UInt8.reduceToNat]
    omega
  · simp only [UInt8.reduceToNat]
    rcases hs with hs | hs <;> omega

/-- The second of four bytes lies where the first one wants it. -/
theorem secondOfFour_range {v : Nat} (h : 0xffff < v) (hs : v.isValidChar) :
    (secondOfFour (v / 262144 % 8)).1 ≤ UInt8.ofNat (v / 4096 % 64 + 0x80) ∧
      UInt8.ofNat (v / 4096 % 64 + 0x80) ≤ (secondOfFour (v / 262144 % 8)).2 := by
  refine secondRange_holds (Nat.mod_lt _ (by decide)) (fun hfirst => ?_) fun hlast => ?_
  · simp only [UInt8.reduceToNat]
    omega
  · simp only [UInt8.reduceToNat]
    rcases hs with hs | hs <;> omega

/-! ### Characters and texts -/

/-- Between characters, the bytes of a character are read as that character. -/
theorem decodeOnto_encoded (c : Char) (done : List Char) (rest : List UInt8) :
    decodeOnto .between done (String.utf8EncodeChar c ++ rest)
      = decodeOnto .between (c :: done) rest := by
  have hc : c.val.toNat.isValidChar := c.valid
  have hchar : Char.ofNat c.val.toNat = c := Char.ofNat_toNat c
  rw [String.utf8EncodeChar]
  set v := c.val.toNat
  split
  · rename_i h
    have hv : v % 256 = v := Nat.mod_eq_of_lt (by omega)
    have hlt : UInt8.ofNat v < 0x80 := by
      rw [UInt8.lt_iff_toNat_lt, UInt8.toNat_ofNat', hv]
      exact Nat.lt_succ_of_le h
    simp [decodeOnto, feed, startByte, hlt, hv, hchar]
  · split
    · rename_i h h'
      have hbits : v / 64 % 32 = v / 64 := Nat.mod_eq_of_lt (by omega)
      rw [List.cons_append, decodeOnto_lead (lead_of_two (by omega) (by omega)),
        List.cons_append, decodeOnto_last (continuation_range (by omega)),
        grow_continuation _ (by omega), hbits, Nat.div_add_mod', hchar, List.nil_append]
    · split
      · rename_i h h' h''
        have hbits : v / 4096 % 16 * 64 + v / 64 % 64 = v / 64 := by omega
        rw [List.cons_append, decodeOnto_lead (lead_of_three (by omega)),
          List.cons_append, decodeOnto_more (secondOfThree_range (by omega) h'' hc),
          grow_continuation _ (by omega),
          List.cons_append, decodeOnto_last (continuation_range (by omega)),
          grow_continuation _ (by omega), hbits, Nat.div_add_mod', hchar, List.nil_append]
      · rename_i h h' h''
        have hlast : v < 0x110000 := by rcases hc with hc | hc <;> omega
        have hbits : (v / 262144 % 8 * 64 + v / 4096 % 64) * 64 + v / 64 % 64 = v / 64 := by omega
        rw [List.cons_append, decodeOnto_lead (lead_of_four (by omega)),
          List.cons_append, decodeOnto_more (secondOfFour_range (by omega) hc),
          grow_continuation _ (by omega),
          List.cons_append, decodeOnto_more (continuation_range (by omega)),
          grow_continuation _ (by omega),
          List.cons_append, decodeOnto_last (continuation_range (by omega)),
          grow_continuation _ (by omega), hbits, Nat.div_add_mod', hchar, List.nil_append]

theorem decodeOnto_utf8 : ∀ (chars done : List Char),
    decodeOnto .between done (chars.flatMap String.utf8EncodeChar) = done.reverse ++ chars
  | [], done => by simp [decodeOnto]
  | c :: chars, done => by
    rw [List.flatMap_cons, decodeOnto_encoded, decodeOnto_utf8 chars]
    simp

/-- A text read back from its own bytes is that text. -/
theorem lossy_utf8 (s : String) : lossy (utf8 s) = s := by
  rw [lossy, utf8, decodeOnto_utf8, List.reverse_nil, List.nil_append, String.ofList_toList]

end ResourceMerge.Text
