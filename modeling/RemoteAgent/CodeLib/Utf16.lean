import Mathlib.Data.List.Basic

/-!
# UTF-16

A character below `0x10000` is one unit, any other one a pair of a high and a low surrogate.
A list of units is a text if its surrogates come in such pairs.

`decode_eq_some_iff` says that reading and writing are inverse to each other: what is written
is read back, and nothing is read that was not written.
-/

namespace CodeLib.Utf16

/-! ## Writing -/

def encodeChar (c : Char) : List UInt16 :=
  let n := c.toNat
  if n < 0x10000 then [UInt16.ofNat n]
  else
    [UInt16.ofNat (0xD800 + (n - 0x10000) / 0x400), UInt16.ofNat (0xDC00 + (n - 0x10000) % 0x400)]

def encode (cs : List Char) : List UInt16 := cs.flatMap encodeChar

@[simp] theorem encode_nil : encode [] = [] := rfl

@[simp] theorem encode_cons (c : Char) (cs : List Char) :
    encode (c :: cs) = encodeChar c ++ encode cs := rfl

/-! ## Reading -/

def IsHigh (u : UInt16) : Prop := 0xD800 ≤ u.toNat ∧ u.toNat < 0xDC00

def IsLow (u : UInt16) : Prop := 0xDC00 ≤ u.toNat ∧ u.toNat < 0xE000

instance (u : UInt16) : Decidable (IsHigh u) := inferInstanceAs (Decidable (_ ∧ _))

instance (u : UInt16) : Decidable (IsLow u) := inferInstanceAs (Decidable (_ ∧ _))

/-- The number of the character that a pair stands for. -/
def pairValue (u v : UInt16) : Nat := 0x10000 + (u.toNat - 0xD800) * 0x400 + (v.toNat - 0xDC00)

/-- The characters that the units are, unless there is a surrogate outside of a pair. -/
def decode : List UInt16 → Option (List Char)
  | [] => some []
  | [u] => if IsHigh u ∨ IsLow u then none else some [Char.ofNat u.toNat]
  | u :: v :: us =>
    if IsHigh u then
      if IsLow v then (decode us).map (Char.ofNat (pairValue u v) :: ·) else none
    else if IsLow u then none
    else (decode (v :: us)).map (Char.ofNat u.toNat :: ·)

/-- A unit that is no surrogate is a character. -/
theorem decode_cons {u : UInt16} (us : List UInt16) (hhigh : ¬ IsHigh u) (hlow : ¬ IsLow u) :
    decode (u :: us) = (decode us).map (Char.ofNat u.toNat :: ·) := by
  cases us with
  | nil => simp [decode, hhigh, hlow]
  | cons v us => rw [decode, if_neg hhigh, if_neg hlow]

theorem decode_pair {u v : UInt16} (us : List UInt16) (hhigh : IsHigh u) (hlow : IsLow v) :
    decode (u :: v :: us) = (decode us).map (Char.ofNat (pairValue u v) :: ·) := by
  rw [decode, if_pos hhigh, if_pos hlow]

/-! ## One character -/

theorem toNat_ofNat {n : Nat} (h : n < 0x10000) : (UInt16.ofNat n).toNat = n := by
  rw [UInt16.toNat_ofNat']
  omega

theorem decode_encodeChar_append (c : Char) (us : List UInt16) :
    decode (encodeChar c ++ us) = (decode us).map (c :: ·) := by
  have hvalid : c.toNat < 0xD800 ∨ 0xDFFF < c.toNat ∧ c.toNat < 0x110000 := c.valid
  unfold encodeChar
  dsimp only
  split
  · rename_i hlt
    have hu := toNat_ofNat hlt
    rw [List.singleton_append, decode_cons, hu, Char.ofNat_toNat]
    · intro h
      rw [IsHigh, hu] at h
      omega
    · intro h
      rw [IsLow, hu] at h
      omega
  · rename_i hge
    obtain ⟨a, ha⟩ : ∃ a, a = 0xD800 + (c.toNat - 0x10000) / 0x400 := ⟨_, rfl⟩
    obtain ⟨b, hb⟩ : ∃ b, b = 0xDC00 + (c.toNat - 0x10000) % 0x400 := ⟨_, rfl⟩
    rw [← ha, ← hb]
    have hu : (UInt16.ofNat a).toNat = a := toNat_ofNat (by omega)
    have hv : (UInt16.ofNat b).toNat = b := toNat_ofNat (by omega)
    rw [List.cons_append, List.singleton_append, decode_pair]
    · have hvalue : pairValue (UInt16.ofNat a) (UInt16.ofNat b) = c.toNat := by
        unfold pairValue
        rw [hu, hv]
        omega
      rw [hvalue, Char.ofNat_toNat]
    · rw [IsHigh, hu]
      omega
    · rw [IsLow, hv]
      omega

/-- A unit that is no surrogate is what its character is written as. -/
theorem encodeChar_ofNat {u : UInt16} (hhigh : ¬ IsHigh u) (hlow : ¬ IsLow u) :
    encodeChar (Char.ofNat u.toNat) = [u] := by
  have hlt : u.toNat < 0x10000 := u.toNat_lt
  have hvalid : u.toNat.isValidChar := by
    unfold IsHigh at hhigh
    unfold IsLow at hlow
    unfold Nat.isValidChar
    omega
  have hn : (Char.ofNat u.toNat).toNat = u.toNat := by
    rw [Char.ofNat, dif_pos hvalid]
    rfl
  rw [encodeChar, hn, if_pos hlt, UInt16.ofNat_toNat]

theorem encodeChar_pairValue {u v : UInt16} (hhigh : IsHigh u) (hlow : IsLow v) :
    encodeChar (Char.ofNat (pairValue u v)) = [u, v] := by
  obtain ⟨hu, hu'⟩ := hhigh
  obtain ⟨hv, hv'⟩ := hlow
  have hge : ¬ pairValue u v < 0x10000 := by
    unfold pairValue
    omega
  have hvalid : (pairValue u v).isValidChar := by
    unfold pairValue Nat.isValidChar
    omega
  have hn : (Char.ofNat (pairValue u v)).toNat = pairValue u v := by
    rw [Char.ofNat, dif_pos hvalid]
    rfl
  have hhalf : 0xD800 + (pairValue u v - 0x10000) / 0x400 = u.toNat := by
    unfold pairValue
    omega
  have hrest : 0xDC00 + (pairValue u v - 0x10000) % 0x400 = v.toNat := by
    unfold pairValue
    omega
  rw [encodeChar, hn, if_neg hge, hhalf, hrest, UInt16.ofNat_toNat, UInt16.ofNat_toNat]

/-! ## Texts -/

theorem decode_encode (cs : List Char) : decode (encode cs) = some cs := by
  induction cs with
  | nil => rfl
  | cons c cs ih => rw [encode_cons, decode_encodeChar_append, ih, Option.map_some]

theorem encode_of_decode {us : List UInt16} {cs : List Char} (h : decode us = some cs) :
    encode cs = us := by
  induction us using decode.induct generalizing cs with
  | case1 =>
    cases h
    rfl
  | case2 u hsurrogate =>
    rw [decode, if_pos hsurrogate] at h
    cases h
  | case3 u hneither =>
    rw [decode, if_neg hneither] at h
    cases h
    rw [not_or] at hneither
    rw [encode_cons, encodeChar_ofNat hneither.1 hneither.2, encode_nil, List.append_nil]
  | case4 u v us hhigh hlow ih =>
    rw [decode_pair us hhigh hlow] at h
    obtain ⟨cs', hcs', rfl⟩ := Option.map_eq_some_iff.mp h
    rw [encode_cons, encodeChar_pairValue hhigh hlow, ih hcs']
    rfl
  | case5 u v us hhigh hlow =>
    rw [decode, if_pos hhigh, if_neg hlow] at h
    cases h
  | case6 u v us hhigh hlow =>
    rw [decode, if_neg hhigh, if_pos hlow] at h
    cases h
  | case7 u v us hhigh hlow ih =>
    rw [decode_cons _ hhigh hlow] at h
    obtain ⟨cs', hcs', rfl⟩ := Option.map_eq_some_iff.mp h
    rw [encode_cons, encodeChar_ofNat hhigh hlow, ih hcs']
    rfl

/-- The units of a text are those that are read as it. -/
theorem decode_eq_some_iff {us : List UInt16} {cs : List Char} :
    decode us = some cs ↔ encode cs = us :=
  ⟨encode_of_decode, fun h => h ▸ decode_encode cs⟩

end CodeLib.Utf16
