import Mathlib.Algebra.Ring.Nat

/-!
# Errors of the agent and of Win32

`error.rs`.  Only the variants that the modelled functions build are here:
`AuthorizationFailed` and `Serialization` are built nowhere.  A message is the
text that the source formats, with the text of a foreign error (a Win32 error,
a JSON error) left as an argument.

A failed Win32 call has a 16-bit error code.  The `windows` crate wraps it into
an `HRESULT`, and it is the `HRESULT` that the agent compares and stores.
-/

namespace RemoteAgent

/-- `std::io::Error`, as far as the agent looks into it: the raw OS code that
`from_raw_os_error` stores, or the kind `UnexpectedEof`. -/
inductive IoError where
  | rawOs (code : Int32)
  | unexpectedEof
  deriving DecidableEq, Repr

/-- `HRESULT_FROM_WIN32`. -/
def hresultFromWin32 (code : UInt32) : Int32 :=
  if code.toInt32 ≤ 0 then code.toInt32
  else ((code &&& 0x0000FFFF) ||| 0x00070000 ||| 0x80000000).toInt32

def errorBrokenPipe : UInt32 := 109
def errorMoreData : UInt32 := 234

/-- The error codes of Win32. -/
def IsWin32Error (code : UInt32) : Prop := 0 < code ∧ code < 0x10000

instance (code : UInt32) : Decidable (IsWin32Error code) :=
  inferInstanceAs (Decidable (_ ∧ _))

/-- The wrapping keeps the code in the lower half. -/
theorem low_of_wrapped (x : UInt32) :
    ((x &&& 0x0000FFFF) ||| 0x00070000 ||| 0x80000000) &&& 0x0000FFFF =
      x &&& 0x0000FFFF := by
  apply UInt32.toBitVec_inj.mp
  show ((x.toBitVec &&& 0xFFFF#32) ||| 0x70000#32 ||| 0x80000000#32) &&& 0xFFFF#32 =
    x.toBitVec &&& 0xFFFF#32
  have h1 : 0x70000#32 &&& 0xFFFF#32 = 0#32 := by decide
  have h2 : 0x80000000#32 &&& 0xFFFF#32 = 0#32 := by decide
  rw [BitVec.and_or_distrib_right, BitVec.and_or_distrib_right, BitVec.and_assoc,
    BitVec.and_self, h1, h2, BitVec.or_zero, BitVec.or_zero]

theorem low_of_lt {x : UInt32} (h : x < 0x10000) : x &&& 0x0000FFFF = x := by
  apply UInt32.toNat_inj.mp
  rw [UInt32.toNat_and]
  show x.toNat &&& (2 ^ 16 - 1) = x.toNat
  rw [Nat.and_two_pow_sub_one_eq_mod]
  have hx : x.toNat < 65536 := h
  omega

theorem hresultFromWin32_of_error {x : UInt32} (h : IsWin32Error x) :
    hresultFromWin32 x =
      ((x &&& 0x0000FFFF) ||| 0x00070000 ||| 0x80000000).toInt32 := by
  have hpos : 0 < x.toNat := h.1
  have hlt : x.toNat < 65536 := h.2
  have hint : x.toInt32.toInt = (x.toNat : Int) := by
    show x.toBitVec.toInt = _
    rw [BitVec.toInt_eq_toNat_of_lt]
    · rfl
    · show 2 * x.toNat < _
      omega
  unfold hresultFromWin32
  rw [if_neg]
  intro hle
  have hle' : x.toInt32.toInt ≤ (0 : Int32).toInt := Int32.le_iff_toInt_le.mp hle
  have hzero : (0 : Int32).toInt = 0 := by decide
  omega

/-- Different errors stay different `HRESULT`s. -/
theorem hresultFromWin32_inj {x y : UInt32} (hx : IsWin32Error x) (hy : IsWin32Error y)
    (h : hresultFromWin32 x = hresultFromWin32 y) : x = y := by
  rw [hresultFromWin32_of_error hx, hresultFromWin32_of_error hy] at h
  have hu := congrArg Int32.toUInt32 h
  simp only [UInt32.toUInt32_toInt32] at hu
  have hlow := congrArg (· &&& 0x0000FFFF) hu
  rw [low_of_wrapped, low_of_wrapped, low_of_lt hx.2, low_of_lt hy.2] at hlow
  exact hlow

inductive Error where
  | windows (msg : String)
  | io (e : IoError)
  | protocol (msg : String)
  | jobNotFound (jobId : UInt32)
  | jobExists (jobId : UInt32)
  | invalidStateTransition (msg : String)
  | processLaunchFailed (msg : String)
  | service (msg : String)
  deriving DecidableEq, Repr

end RemoteAgent
