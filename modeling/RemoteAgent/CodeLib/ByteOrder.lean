import Mathlib.Algebra.Ring.Nat

/-!
# Byte order of fixed-width words

The big-endian bytes of a 16-bit and of a 32-bit word, the word that two or
four bytes stand for, and the reversal of a word's bytes.  `toBe` is the
conversion that makes a word's bytes in memory big-endian: it reverses them on
a little-endian host and does nothing on a big-endian one.

The bytes are written with division and remainder on `Nat`, so every proof
below is linear arithmetic.
-/

namespace CodeLib.ByteOrder

/-- The byte order of a machine. -/
inductive Endian where
  | little
  | big
  deriving DecidableEq, Repr

/-! ## 16-bit words -/

/-- The big-endian bytes of a 16-bit word. -/
def beBytes16 (x : UInt16) : List UInt8 :=
  [UInt8.ofNat (x.toNat / 2 ^ 8), UInt8.ofNat x.toNat]

/-- The 16-bit word with the given big-endian bytes. -/
def ofBeBytes16 (b₀ b₁ : UInt8) : UInt16 :=
  UInt16.ofNat (b₀.toNat * 2 ^ 8 + b₁.toNat)

/-- Reverse the two bytes of a word. -/
def swapBytes16 (x : UInt16) : UInt16 :=
  ofBeBytes16 (UInt8.ofNat x.toNat) (UInt8.ofNat (x.toNat / 2 ^ 8))

def toBe16 : Endian → UInt16 → UInt16
  | .little, x => swapBytes16 x
  | .big, x => x

theorem ofBeBytes16_toNat (b₀ b₁ : UInt8) :
    (ofBeBytes16 b₀ b₁).toNat = b₀.toNat * 2 ^ 8 + b₁.toNat := by
  have h₀ := b₀.toNat_lt
  have h₁ := b₁.toNat_lt
  rw [ofBeBytes16, UInt16.toNat_ofNat']
  omega

/-- The bytes of a word give the word back. -/
theorem ofBeBytes16_beBytes16 (x : UInt16) :
    ofBeBytes16 (UInt8.ofNat (x.toNat / 2 ^ 8)) (UInt8.ofNat x.toNat) = x := by
  apply UInt16.toNat_inj.mp
  have hx := x.toNat_lt
  rw [ofBeBytes16_toNat, UInt8.toNat_ofNat', UInt8.toNat_ofNat']
  omega

/-- The bytes of the word that two bytes stand for are these bytes. -/
theorem beBytes16_ofBeBytes16 (b₀ b₁ : UInt8) :
    beBytes16 (ofBeBytes16 b₀ b₁) = [b₀, b₁] := by
  have h₀ := b₀.toNat_lt
  have h₁ := b₁.toNat_lt
  rw [beBytes16, ofBeBytes16_toNat]
  congr 1
  · apply UInt8.toNat_inj.mp
    rw [UInt8.toNat_ofNat']
    omega
  · congr 1
    apply UInt8.toNat_inj.mp
    rw [UInt8.toNat_ofNat']
    omega

theorem swapBytes16_ofBeBytes16 (b₀ b₁ : UInt8) :
    swapBytes16 (ofBeBytes16 b₀ b₁) = ofBeBytes16 b₁ b₀ := by
  have h := beBytes16_ofBeBytes16 b₀ b₁
  simp only [beBytes16, List.cons.injEq, and_true] at h
  rw [swapBytes16, h.1, h.2]

/-- Reversing the bytes twice does nothing. -/
theorem swapBytes16_swapBytes16 (x : UInt16) : swapBytes16 (swapBytes16 x) = x := by
  have h : swapBytes16 x =
      ofBeBytes16 (UInt8.ofNat x.toNat) (UInt8.ofNat (x.toNat / 2 ^ 8)) := rfl
  rw [h, swapBytes16_ofBeBytes16, ofBeBytes16_beBytes16]

/-! ## 32-bit words -/

/-- The big-endian bytes of a 32-bit word. -/
def beBytes32 (x : UInt32) : List UInt8 :=
  [ UInt8.ofNat (x.toNat / 2 ^ 24)
  , UInt8.ofNat (x.toNat / 2 ^ 16)
  , UInt8.ofNat (x.toNat / 2 ^ 8)
  , UInt8.ofNat x.toNat ]

/-- The 32-bit word with the given big-endian bytes. -/
def ofBeBytes32 (b₀ b₁ b₂ b₃ : UInt8) : UInt32 :=
  UInt32.ofNat
    (b₀.toNat * 2 ^ 24 + b₁.toNat * 2 ^ 16 + b₂.toNat * 2 ^ 8 + b₃.toNat)

/-- Reverse the four bytes of a word. -/
def swapBytes32 (x : UInt32) : UInt32 :=
  ofBeBytes32 (UInt8.ofNat x.toNat) (UInt8.ofNat (x.toNat / 2 ^ 8))
    (UInt8.ofNat (x.toNat / 2 ^ 16)) (UInt8.ofNat (x.toNat / 2 ^ 24))

def toBe32 : Endian → UInt32 → UInt32
  | .little, x => swapBytes32 x
  | .big, x => x

theorem ofBeBytes32_toNat (b₀ b₁ b₂ b₃ : UInt8) :
    (ofBeBytes32 b₀ b₁ b₂ b₃).toNat =
      b₀.toNat * 2 ^ 24 + b₁.toNat * 2 ^ 16 + b₂.toNat * 2 ^ 8 + b₃.toNat := by
  have h₀ := b₀.toNat_lt
  have h₁ := b₁.toNat_lt
  have h₂ := b₂.toNat_lt
  have h₃ := b₃.toNat_lt
  rw [ofBeBytes32, UInt32.toNat_ofNat']
  omega

/-- The bytes of a word give the word back. -/
theorem ofBeBytes32_beBytes32 (x : UInt32) :
    ofBeBytes32 (UInt8.ofNat (x.toNat / 2 ^ 24)) (UInt8.ofNat (x.toNat / 2 ^ 16))
      (UInt8.ofNat (x.toNat / 2 ^ 8)) (UInt8.ofNat x.toNat) = x := by
  apply UInt32.toNat_inj.mp
  have hx := x.toNat_lt
  rw [ofBeBytes32_toNat]
  simp only [UInt8.toNat_ofNat']
  omega

/-- The bytes of the word that four bytes stand for are these bytes. -/
theorem beBytes32_ofBeBytes32 (b₀ b₁ b₂ b₃ : UInt8) :
    beBytes32 (ofBeBytes32 b₀ b₁ b₂ b₃) = [b₀, b₁, b₂, b₃] := by
  have h₀ := b₀.toNat_lt
  have h₁ := b₁.toNat_lt
  have h₂ := b₂.toNat_lt
  have h₃ := b₃.toNat_lt
  have hbyte : ∀ (n : Nat) (b : UInt8), n % 2 ^ 8 = b.toNat → UInt8.ofNat n = b := by
    intro n b hn
    apply UInt8.toNat_inj.mp
    rw [UInt8.toNat_ofNat', hn]
  rw [beBytes32, ofBeBytes32_toNat, hbyte _ b₀ (by omega), hbyte _ b₁ (by omega),
    hbyte _ b₂ (by omega), hbyte _ b₃ (by omega)]

theorem swapBytes32_ofBeBytes32 (b₀ b₁ b₂ b₃ : UInt8) :
    swapBytes32 (ofBeBytes32 b₀ b₁ b₂ b₃) = ofBeBytes32 b₃ b₂ b₁ b₀ := by
  have h := beBytes32_ofBeBytes32 b₀ b₁ b₂ b₃
  simp only [beBytes32, List.cons.injEq, and_true] at h
  rw [swapBytes32, h.1, h.2.1, h.2.2.1, h.2.2.2]

theorem swapBytes32_swapBytes32 (x : UInt32) : swapBytes32 (swapBytes32 x) = x := by
  have h : swapBytes32 x = ofBeBytes32 (UInt8.ofNat x.toNat) (UInt8.ofNat (x.toNat / 2 ^ 8))
      (UInt8.ofNat (x.toNat / 2 ^ 16)) (UInt8.ofNat (x.toNat / 2 ^ 24)) := rfl
  rw [h, swapBytes32_ofBeBytes32, ofBeBytes32_beBytes32]

end CodeLib.ByteOrder
