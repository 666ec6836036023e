import Mathlib.Data.List.DropRight

/-!
# Paths on Windows

How `Path::join` of the standard library puts two paths together, and what file the
system finds under the result.

* `Prefix` and `parsePrefix` are the prefixes of a path: a drive, a share, a device,
  and the verbatim forms.  `join` keeps nothing of its base when the other path has a
  prefix, and only the prefix of the base when the other path begins at a root.
* `resolve` takes names and the dots among them to a list of names, from a list that
  the path begins at.  `..` at the root stays at the root.
* `reduce` does the same without a place to begin at: how many levels a path goes up,
  and the names that it goes down afterwards.  `resolve_eq_reduce` says that this is
  all that matters.
* `Env` is what the system adds: the roots of drives and shares, the current
  directories, and which spellings are one name.  `locate` is the place that a path
  stands for.
* `DriveDir` is a directory given by its full path on a drive.  The place of a path
  that is joined to it is `locate_join_relative` or `locate_join_rooted`.

What a place holds, links among it, plays no part here.
-/

namespace CodeLib

namespace WindowsPath

abbrev Name := List Char

abbrev Path := List Char

/-! ## Separators and prefixes -/

def isSep (c : Char) : Bool := c = '\\' || c = '/'

/-- A verbatim path knows one separator only. -/
def isVerbatimSep (c : Char) : Bool := c = '\\'

/-- The text between the separators. -/
def split (p : Path) : List Name := p.splitOnP isSep

/-- `Prefix` of `std::path`. -/
inductive Prefix where
  | verbatim (name : Name)
  | verbatimUNC (server share : Name)
  | verbatimDisk (letter : Char)
  | deviceNS (device : Name)
  | unc (server share : Name)
  | disk (letter : Char)
  deriving DecidableEq, Repr

/-- `Prefix::len`. -/
def Prefix.len : Prefix → Nat
  | .verbatim name => 4 + name.length
  | .verbatimUNC server share =>
    8 + server.length + if share.length > 0 then 1 + share.length else 0
  | .verbatimDisk _ => 6
  | .deviceNS device => 4 + device.length
  | .unc server share => 2 + server.length + if share.length > 0 then 1 + share.length else 0
  | .disk _ => 2

/-- `parse_next_component`: the text up to the first separator, and the text behind it. -/
def parseNextComponent (sep : Char → Bool) (p : Path) : Name × Path :=
  (p.takeWhile (!sep ·), (p.dropWhile (!sep ·)).drop 1)

/-- `parse_drive`. -/
def parseDrive : Path → Option Char
  | letter :: ':' :: _ => if letter.isAlpha then some letter.toUpper else none
  | _ => none

/-- `parse_drive_exact`: nothing but a separator may follow. -/
def parseDriveExact (p : Path) : Option Char :=
  if (p[2]?).all isSep then parseDrive p else none

/-- A prefix is recognised with either separator. -/
def backslashed (p : Path) : Path := p.map fun c => if isSep c then '\\' else c

/-- What follows a verbatim prefix. -/
def parseVerbatim (p : Path) : Prefix :=
  if backslashed (p.take 4) = ['U', 'N', 'C', '\\'] then
    let (server, rest) := parseNextComponent isVerbatimSep (p.drop 4)
    .verbatimUNC server (parseNextComponent isVerbatimSep rest).1
  else
    match parseDriveExact p with
    | some letter => .verbatimDisk letter
    | none => .verbatim (parseNextComponent isVerbatimSep p).1

/-- `parse_prefix`.  A verbatim prefix has to be spelled with backslashes. -/
def parsePrefix (p : Path) : Option Prefix :=
  if p.take 4 = ['\\', '\\', '?', '\\'] then some (parseVerbatim (p.drop 4))
  else if backslashed (p.take 4) = ['\\', '\\', '.', '\\'] then
    some (.deviceNS (parseNextComponent isSep (p.drop 4)).1)
  else if backslashed (p.take 2) = ['\\', '\\'] then
    let (server, rest) := parseNextComponent isSep (p.drop 2)
    let share := (parseNextComponent isSep rest).1
    if server ≠ [] ∧ share ≠ [] then some (.unc server share) else none
  else (parseDrive p).map .disk

/-- `has_root` of a path without a prefix. -/
def hasRoot (p : Path) : Bool := p.head?.any isSep

/-- A separator goes behind a base unless it ends in one or is a drive alone. -/
def needSep (base : Path) : Bool :=
  base.getLast?.any (!isSep ·) &&
    !(base.length = 2 && (parsePrefix base).any fun pre => pre matches .disk _)

/-- `Path::join` for a base that is not verbatim. -/
def join (base p : Path) : Path :=
  if (parsePrefix p).isSome then p
  else if hasRoot p then base.take ((parsePrefix base).elim 0 Prefix.len) ++ p
  else if needSep base then base ++ '\\' :: p
  else base ++ p

example : join "C:\\a".toList "..\\b".toList = "C:\\a\\..\\b".toList := by decide

example : join "C:\\a".toList "/b".toList = "C:/b".toList := by decide

example : join "C:\\a".toList "D:b".toList = "D:b".toList := by decide

/-! ## Resolution -/

/-- One component on the way down from the root. -/
def descend (names : List Name) (c : Name) : List Name :=
  if c = [] ∨ c = ['.'] then names
  else if c = ['.', '.'] then names.dropLast
  else names ++ [c]

/-- The components of a path, taken one after the other. -/
def resolve (start : List Name) (cs : List Name) : List Name := cs.foldl descend start

/-- One component of a path that begins nowhere: the levels up and the names down. -/
def reduceStep (r : Nat × List Name) (c : Name) : Nat × List Name :=
  if c = [] ∨ c = ['.'] then r
  else if c = ['.', '.'] then
    if r.2 = [] then (r.1 + 1, []) else (r.1, r.2.dropLast)
  else (r.1, r.2 ++ [c])

/-- How many levels a path goes up, and the names that it goes down from there. -/
def reduce (cs : List Name) : Nat × List Name := cs.foldl reduceStep (0, [])

/-- The folders that a text goes through. -/
def folders (p : Path) : List Name := (split p).dropLast

/-! ## The system -/

/-- Where a file stands: a volume and the names from its root. -/
structure Place (ν : Type) where
  volume : ν
  names : List Name
  deriving DecidableEq

/-- `p` is an entry of the directory at `d`. -/
def Place.IsChildOf {ν : Type} (p d : Place ν) : Prop :=
  ∃ x, p = ⟨d.volume, d.names ++ [x]⟩

/-- What the system knows.  `key` is the spelling under which it looks a name up.
`device` and `object` are the names behind `\\.\` and behind `\\?\`. -/
structure Env (ν : Type) where
  key : Name → Name
  drive : Char → Place ν
  share : Name → Name → Place ν
  device : List Name → Place ν
  object : List Name → Place ν
  currentDrive : Char
  currentDir : Char → List Name

variable {ν : Type}

namespace Env

/-- The place at some names below a root. -/
def below (env : Env ν) (root : Place ν) (names : List Name) : Place ν :=
  ⟨root.volume, root.names ++ names.map env.key⟩

/-- What a path on a drive stands for, with or without a root. -/
def onDrive (env : Env ν) (letter : Char) (p : Path) : Place ν :=
  env.below (env.drive letter)
    (resolve (if hasRoot p then [] else env.currentDir letter) (split p))

/-- The place that a path stands for.  Dots in a verbatim path are names. -/
def locate (env : Env ν) (p : Path) : Place ν :=
  match parsePrefix p with
  | none => env.onDrive env.currentDrive p
  | some (.disk letter) => env.onDrive letter (p.drop 2)
  | some (.unc server share) =>
    env.below (env.share server share)
      (resolve [] (split (p.drop (Prefix.unc server share).len)))
  | some (.deviceNS _) => env.device (resolve [] (split (p.drop 4)))
  | some _ => env.object ((p.drop 4).splitOnP isVerbatimSep)

end Env

/-- A directory given by its full path on a drive. -/
structure DriveDir where
  letter : Char
  tail : Path
  isAlpha : letter.isAlpha = true
  rooted : hasRoot tail = true
  closed : tail.getLast?.any (!isSep ·) = true

namespace DriveDir

def path (d : DriveDir) : Path := d.letter :: ':' :: d.tail

/-- The names from the root of the drive. -/
def names (d : DriveDir) : List Name := resolve [] (split d.tail)

end DriveDir

/-! ## Splitting -/

theorem split_append_sep (p q : Path) : split (p ++ '\\' :: q) = split p ++ split q :=
  List.splitOnP_append_cons p q (by decide)

/-- A text without a separator belongs to the last component. -/
theorem split_append (p ext : Path) (hext : ∀ c ∈ ext, isSep c = false) :
    ∃ file, split (p ++ ext) = folders p ++ [file ++ ext] := by
  induction p with
  | nil =>
    refine ⟨[], ?_⟩
    show ext.splitOnP isSep = _
    rw [List.splitOnP_eq_singleton hext]
    rfl
  | cons a p ih =>
    obtain ⟨file, hfile⟩ := ih
    obtain ⟨x, xs, hp⟩ := List.exists_cons_of_ne_nil (List.splitOnP_ne_nil isSep p)
    simp only [folders, split, hp, List.cons_append,
      List.splitOnP_cons_eq_if_modifyHead] at hfile ⊢
    rw [hfile]
    -- the first component grows by `a` unless `a` ends it; it is the last one if `xs` is empty
    cases isSep a with
    | true => exact ⟨file, by simp⟩
    | false =>
      cases xs with
      | nil => exact ⟨a :: file, by simp⟩
      | cons y ys => exact ⟨file, by simp⟩

theorem hasRoot_append (p ext : Path) (hext : ∀ c ∈ ext, isSep c = false) :
    hasRoot (p ++ ext) = hasRoot p := by
  cases p with
  | cons a p => rfl
  | nil =>
    cases ext with
    | nil => rfl
    | cons b ext => exact hext b List.mem_cons_self

/-! ## Going up and down -/

theorem resolve_append (start cs ds : List Name) :
    resolve start (cs ++ ds) = resolve (resolve start cs) ds :=
  List.foldl_append

/-- A long component is no dot, and a name. -/
theorem resolve_concat (start cs : List Name) {c : Name} (hc : 2 < c.length) :
    resolve start (cs ++ [c]) = resolve start cs ++ [c] := by
  have hskip : ¬(c = [] ∨ c = ['.']) := by
    rintro (h | h) <;> simp [h] at hc
  have hup : c ≠ ['.', '.'] := by
    intro h
    simp [h] at hc
  rw [resolve_append]
  show descend (resolve start cs) c = _
  rw [descend, if_neg hskip, if_neg hup]

theorem dropLast_rdrop (start : List Name) (n : Nat) :
    (start.rdrop n).dropLast = start.rdrop (n + 1) := by
  simp only [List.rdrop, List.dropLast_eq_take, List.length_take, List.take_take]
  congr 1
  omega

/-- One component does the same to both. -/
theorem descend_eq_reduceStep (start : List Name) (r : Nat × List Name) (c : Name) :
    descend (start.rdrop r.1 ++ r.2) c =
      start.rdrop (reduceStep r c).1 ++ (reduceStep r c).2 := by
  simp only [descend, reduceStep]
  split
  · rfl
  · split
    · split
      · rename_i hdown
        simp [hdown, dropLast_rdrop]
      · rename_i hdown
        exact List.dropLast_append_of_ne_nil hdown
    · exact List.append_assoc _ _ _

/-- What a path leads to from `start`: `start` without its last levels, and the names
that the path goes down. -/
theorem resolve_eq_reduce (start cs : List Name) :
    resolve start cs = start.rdrop (reduce cs).1 ++ (reduce cs).2 := by
  have hgen : ∀ r : Nat × List Name, cs.foldl descend (start.rdrop r.1 ++ r.2) =
      start.rdrop (cs.foldl reduceStep r).1 ++ (cs.foldl reduceStep r).2 := by
    induction cs with
    | nil => exact fun _ => rfl
    | cons c cs ih =>
      intro r
      simp only [List.foldl_cons, descend_eq_reduceStep, ih]
  have hzero := hgen (0, [])
  rw [List.rdrop_zero, List.append_nil] at hzero
  exact hzero

/-- A path leads back to where it began if it goes down through the levels that it
went up. -/
theorem resolve_map_eq_iff (key : Name → Name) (start cs : List Name) :
    (resolve start cs).map key = start.map key ↔
      (reduce cs).2.map key = (start.rtake (reduce cs).1).map key := by
  have hsplit : start = start.rdrop (reduce cs).1 ++ start.rtake (reduce cs).1 :=
    (List.take_append_drop _ _).symm
  rw [resolve_eq_reduce]
  conv_lhs => rhs; rw [hsplit]
  rw [List.map_append, List.map_append, List.append_cancel_left_eq]

/-! ## Places -/

instance [DecidableEq ν] (p d : Place ν) : Decidable (p.IsChildOf d) :=
  decidable_of_iff (p.volume = d.volume ∧ p.names ≠ [] ∧ p.names.dropLast = d.names) <| by
    constructor
    · intro ⟨hv, hne, hnames⟩
      refine ⟨p.names.getLast hne, ?_⟩
      rw [← hv, ← hnames, List.dropLast_append_getLast]
    · rintro ⟨x, rfl⟩
      simp

theorem Env.below_isChildOf_iff (env : Env ν) (root : Place ν) (ns ds : List Name)
    (x : Name) :
    (env.below root (ns ++ [x])).IsChildOf (env.below root ds) ↔
      ns.map env.key = ds.map env.key := by
  simp only [Place.IsChildOf, Env.below, Place.mk.injEq, true_and, List.map_append,
    List.map_cons, List.map_nil, ← List.append_assoc]
  constructor
  · rintro ⟨y, h⟩
    exact List.append_cancel_left (List.append_inj_left' h rfl)
  · intro h
    exact ⟨env.key x, by rw [h]⟩

/-! ## Paths joined to a directory -/

theorem ne_backslash_of_isSep {c : Char} (h : isSep c = false) : c ≠ '\\' := by
  rintro rfl
  exact absurd h (by decide)

theorem parsePrefix_drive {letter : Char} (h : letter.isAlpha = true) (p : Path) :
    parsePrefix (letter :: ':' :: p) = some (.disk letter.toUpper) := by
  have hsep : isSep letter = false := by
    by_contra hs
    simp only [isSep, Bool.not_eq_false, Bool.or_eq_true, decide_eq_true_eq] at hs
    rcases hs with rfl | rfl <;> exact absurd h (by decide)
  simp [parsePrefix, backslashed, parseDrive, hsep, ne_backslash_of_isSep hsep, h]

/-- Without a separator and a colon there is no prefix. -/
theorem parsePrefix_eq_none {p : Path} (h : ∀ c ∈ p, isSep c = false ∧ c ≠ ':') :
    parsePrefix p = none := by
  cases p with
  | nil => rfl
  | cons a p =>
    have hsep : isSep a = false := (h a List.mem_cons_self).1
    have hdrive : parseDrive (a :: p) = none := by
      unfold parseDrive
      split
      · rename_i heq
        cases heq
        exact absurd rfl (h ':' (by simp)).2
      · rfl
    simp [parsePrefix, backslashed, hsep, ne_backslash_of_isSep hsep, hdrive]

namespace DriveDir

variable (d : DriveDir) (env : Env ν)

/-- A path on the drive of the directory. -/
theorem locate_rooted {p : Path} (hp : hasRoot p = true) :
    env.locate (d.letter :: ':' :: p) =
      env.below (env.drive d.letter.toUpper) (resolve [] (split p)) := by
  simp only [Env.locate, parsePrefix_drive d.isAlpha, List.drop_succ_cons, List.drop_zero,
    Env.onDrive, hp, if_true]

theorem locate_path :
    env.locate d.path = env.below (env.drive d.letter.toUpper) d.names :=
  d.locate_rooted env d.rooted

theorem exists_tail_eq : ∃ a t, d.tail = a :: t ∧ isSep a = true := by
  have hroot := d.rooted
  cases htail : d.tail with
  | nil => simp [htail, hasRoot] at hroot
  | cons a t =>
    rw [htail] at hroot
    exact ⟨a, t, rfl, hroot⟩

theorem hasRoot_tail_append (p : Path) : hasRoot (d.tail ++ p) = true := by
  obtain ⟨a, t, htail, ha⟩ := d.exists_tail_eq
  rw [htail]
  exact ha

theorem needSep_path : needSep d.path = true := by
  obtain ⟨a, t, htail, -⟩ := d.exists_tail_eq
  have hlen : d.path.length ≠ 2 := by simp [path, htail]
  have hlast : d.path.getLast? = d.tail.getLast? := by
    simp [path, htail, List.getLast?_cons_cons]
  simp [needSep, hlen, hlast, d.closed]

/-- A relative path goes on from the directory. -/
theorem locate_join_relative {p : Path} (hp : parsePrefix p = none)
    (hroot : hasRoot p = false) :
    env.locate (join d.path p) =
      env.below (env.drive d.letter.toUpper) (resolve d.names (split p)) := by
  have hjoin : join d.path p = d.letter :: ':' :: (d.tail ++ '\\' :: p) := by
    simp only [join, hp, hroot, d.needSep_path]
    simp [path]
  rw [hjoin, d.locate_rooted env (d.hasRoot_tail_append _), split_append_sep,
    resolve_append, names]

/-- A path with a root but no prefix keeps nothing of the directory but the drive. -/
theorem locate_join_rooted {p : Path} (hp : parsePrefix p = none)
    (hroot : hasRoot p = true) :
    env.locate (join d.path p) =
      env.below (env.drive d.letter.toUpper) (resolve [] (split p)) := by
  have hjoin : join d.path p = d.letter :: ':' :: p := by
    simp [join, hp, hroot, path, parsePrefix_drive d.isAlpha, Prefix.len]
  rw [hjoin, d.locate_rooted env hroot]

/-- A path with a prefix keeps nothing of the directory. -/
theorem join_prefixed {p : Path} (hp : (parsePrefix p).isSome = true) :
    join d.path p = p := by
  rw [join, if_pos hp]

end DriveDir

end WindowsPath

end CodeLib
