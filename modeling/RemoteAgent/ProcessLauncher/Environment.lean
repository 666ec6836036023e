import RemoteAgent.CodeLib.MultiString
import RemoteAgent.ProcessLauncher.Launch

/-!
# The environment block

`build_env_block` writes the variables of a RUN payload as Windows wants them: an entry
`key=value` in UTF-16 for each, a NUL behind every entry, and one more NUL at the end.
The strings come from the client, and nobody looks into them.

* `buildEnvBlock_eq_pack`: the block is a block of strings with in-band terminators.
* `zero_mem_encodeWide_iff`: the encoding has a NUL exactly where the string has one.
* `buildEnvBlock_means_iff`: the block means the environment that was asked for exactly
  if there is a variable in it and no key and no value contains a NUL.
-/

namespace RemoteAgent.ProcessLauncher

open CodeLib

/-- The entry of a variable. -/
def envEntry (kv : String × String) : List UInt16 := encodeWide (kv.1 ++ "=" ++ kv.2)

/-- The block ends with two NULs and, read as Windows reads it, has one entry for each
variable and no other. -/
structure Means (env : List (String × String)) (block : List UInt16) : Prop where
  terminated : [0, 0] <:+ block
  entries : (MultiString.unpack 0 block).Perm (env.map envEntry)

theorem buildEnvBlock_eq_pack (env : List (String × String)) :
    buildEnvBlock env = MultiString.pack 0 (env.map envEntry) := by
  rw [buildEnvBlock, MultiString.pack, List.flatMap_map]
  rfl

/-! ## NULs in the encoding -/

theorem encodeWide_append (s t : String) :
    encodeWide (s ++ t) = encodeWide s ++ encodeWide t := by
  simp [encodeWide]

theorem ofNat_ne_zero {n : Nat} (hpos : 0 < n) (hlt : n < 0x10000) :
    (0 : UInt16) ≠ UInt16.ofNat n := by
  intro h
  have hn : 0 = n % 2 ^ 16 := congrArg UInt16.toNat h
  omega

theorem zero_mem_encodeWide_iff (s : String) : 0 ∈ encodeWide s ↔ '\x00' ∈ s.toList := by
  unfold encodeWide
  rw [List.mem_flatMap]
  constructor
  · rintro ⟨c, hc, hzero⟩
    suffices hnul : c = '\x00' by rwa [← hnul]
    by_contra hne
    have hpos : 0 < c.toNat := by
      refine Nat.pos_of_ne_zero fun hn => hne ?_
      exact Char.toNat_inj.mp (by rw [hn]; rfl)
    have hmax : c.toNat < 0x110000 := by
      rcases c.valid with hvalid | hvalid
      · exact Nat.lt_trans hvalid (by decide)
      · exact hvalid.2
    simp only at hzero
    split at hzero
    · rename_i hlt
      exact ofNat_ne_zero hpos hlt (List.mem_singleton.mp hzero)
    · -- neither half of a surrogate pair is zero
      rcases List.mem_pair.mp hzero with h | h
      · exact ofNat_ne_zero (by omega) (by omega) h
      · exact ofNat_ne_zero (by omega) (by omega) h
  · intro h
    exact ⟨'\x00', h, by decide⟩

theorem envEntry_ne_nil (kv : String × String) : envEntry kv ≠ [] := by
  rw [envEntry, encodeWide_append, encodeWide_append]
  simp [show encodeWide "=" = [61] by decide]

theorem zero_mem_envEntry_iff (kv : String × String) :
    0 ∈ envEntry kv ↔ '\x00' ∈ kv.1.toList ∨ '\x00' ∈ kv.2.toList := by
  rw [envEntry, zero_mem_encodeWide_iff]
  simp

/-- For every environment, in whatever order the map yields its entries. -/
theorem buildEnvBlock_means_iff {env order : List (String × String)} (h : order.Perm env) :
    Means env (buildEnvBlock order) ↔
      env ≠ [] ∧ ∀ kv ∈ env, '\x00' ∉ kv.1.toList ∧ '\x00' ∉ kv.2.toList := by
  have hentries : (order.map envEntry).Perm (env.map envEntry) := h.map envEntry
  have hne : ∀ e ∈ order.map envEntry, e ≠ [] := by
    intro e he
    obtain ⟨kv, -, rfl⟩ := List.mem_map.mp he
    exact envEntry_ne_nil kv
  have hmeans : Means env (buildEnvBlock order) ↔
      [0, 0] <:+ MultiString.pack 0 (order.map envEntry) ∧
        (MultiString.unpack 0 (MultiString.pack 0 (order.map envEntry))).Perm
          (order.map envEntry) := by
    rw [← buildEnvBlock_eq_pack]
    constructor
    · rintro ⟨hends, hperm⟩
      exact ⟨hends, hperm.trans hentries.symm⟩
    · rintro ⟨hends, hperm⟩
      exact ⟨hends, hperm.trans hentries⟩
  rw [hmeans, MultiString.unpack_pack_perm_iff hne]
  refine and_congr ?_ ?_
  · rw [ne_eq, ne_eq, List.map_eq_nil_iff, ← List.length_eq_zero_iff, h.length_eq,
      List.length_eq_zero_iff]
  · simp only [List.forall_mem_map, zero_mem_envEntry_iff, not_or]
    exact ⟨fun hall kv hkv => hall kv (h.mem_iff.mpr hkv),
      fun hall kv hkv => hall kv (h.mem_iff.mp hkv)⟩

theorem buildEnvBlock_means_iff_two :
    Means [("PATH", "C:\\"), ("TMP", "")] (buildEnvBlock [("TMP", ""), ("PATH", "C:\\")]) :=
  (buildEnvBlock_means_iff (.swap _ _ [])).mpr (by decide)

/-- The empty environment gives a block of one NUL, and a NUL in a value adds a variable
to the environment. -/
theorem buildEnvBlock_not_means :
    buildEnvBlock [] = [0] ∧ ¬ Means [] (buildEnvBlock []) ∧
      MultiString.unpack 0 (buildEnvBlock [("A", "1\x00B=2")]) =
        [envEntry ("A", "1"), envEntry ("B", "2")] ∧
      ¬ Means [("A", "1\x00B=2")] (buildEnvBlock [("A", "1\x00B=2")]) := by
  refine ⟨rfl, ?_, by decide, ?_⟩
  · intro h
    exact absurd h.terminated (by decide)
  · intro h
    exact absurd h.entries.length_eq (by decide)

end RemoteAgent.ProcessLauncher
