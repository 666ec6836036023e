import Mathlib.Algebra.Ring.Nat

/-!
# The size of a JSON string

A writer of compact JSON puts a string between quotation marks.  Quotation marks and
backslashes in it get a backslash in front.  The control characters that have a short
escape are written with it, the others with their number in hexadecimal.  Every other
character is written as it is, in UTF-8.

`escapedSize` is what a character takes up then, and `utf8ByteSize_quote` adds it up.
-/

namespace CodeLib.Json

/-- The short escapes. -/
def shortEscape? (c : Char) : Option Char :=
  match c with
  | '"' => some '"'
  | '\\' => some '\\'
  | '\x08' => some 'b'
  | '\t' => some 't'
  | '\n' => some 'n'
  | '\x0c' => some 'f'
  | '\r' => some 'r'
  | _ => none

def escape (c : Char) : List Char :=
  match shortEscape? c with
  | some e => ['\\', e]
  | none =>
    if c.toNat < 0x20 then
      ['\\', 'u', '0', '0', Nat.digitChar (c.toNat / 16), Nat.digitChar (c.toNat % 16)]
    else [c]

def quote (s : String) : String :=
  "\"" ++ String.ofList (s.toList.flatMap escape) ++ "\""

/-- The bytes that a character takes up in a string. -/
def escapedSize (c : Char) : Nat :=
  if (shortEscape? c).isSome then 2 else if c.toNat < 0x20 then 6 else c.utf8Size

/-- The bytes between the quotation marks. -/
def escapedSizes (s : String) : Nat := (s.toList.map escapedSize).sum

theorem utf8Size_shortEscape {c e : Char} (h : shortEscape? c = some e) : e.utf8Size = 1 := by
  unfold shortEscape? at h
  split at h <;> cases h <;> rfl

theorem utf8Size_digitChar : ∀ n < 16, (Nat.digitChar n).utf8Size = 1 := by decide

theorem sum_utf8Size_escape (c : Char) :
    ((escape c).map Char.utf8Size).sum = escapedSize c := by
  unfold escape escapedSize
  cases hshort : shortEscape? c with
  | some e =>
    have he := utf8Size_shortEscape hshort
    have hslash : '\\'.utf8Size = 1 := rfl
    simp [he, hslash]
  | none =>
    by_cases hcontrol : c.toNat < 0x20
    · have hhigh := utf8Size_digitChar (c.toNat / 16) (by omega)
      have hlow := utf8Size_digitChar (c.toNat % 16) (by omega)
      simp only [hcontrol, if_true, Option.isSome_none, Bool.false_eq_true, if_false,
        List.map_cons, List.map_nil, List.sum_cons, List.sum_nil, hhigh, hlow]
      rfl
    · simp [hcontrol]

theorem utf8ByteSize_ofList (cs : List Char) :
    (String.ofList cs).utf8ByteSize = (cs.map Char.utf8Size).sum := by
  induction cs with
  | nil => rfl
  | cons c cs ih =>
    rw [← List.singleton_append, String.ofList_append, String.utf8ByteSize_append, ih]
    simp

theorem utf8ByteSize_quote (s : String) : (quote s).utf8ByteSize = 2 + escapedSizes s := by
  have hbody : ((s.toList.flatMap escape).map Char.utf8Size).sum = escapedSizes s := by
    unfold escapedSizes
    induction s.toList with
    | nil => rfl
    | cons c cs ih =>
      rw [List.flatMap_cons, List.map_append, List.sum_append, ih, sum_utf8Size_escape,
        List.map_cons, List.sum_cons]
  have hsize := utf8ByteSize_ofList (s.toList.flatMap escape)
  rw [quote, String.utf8ByteSize_append, String.utf8ByteSize_append, hsize, hbody]
  have hmark : "\"".utf8ByteSize = 1 := rfl
  omega

end CodeLib.Json
