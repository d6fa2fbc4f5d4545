import Mathlib.Data.List.TakeDrop

/-!
# Files behind names

The part of a POSIX file system that a writer with a temporary file uses. A directory maps
names to inodes, an inode holds a list of bytes, and a handle is an inode with an offset, so
what is written through a handle goes to the inode whatever its name is by then. Opening for
writing truncates the file of that name or makes a new one; a write at an offset replaces
what is there and fills a gap with the default byte; a rename moves a name onto another one
and fails when there is nothing to move.
-/

set_option autoImplicit false

namespace ByoRedis.Lib

variable {ν β : Type}

/-- A directory with its files; inodes from `fresh` on have not been used. -/
structure Files (ν β : Type) where
  content : ℕ → List β := fun _ => []
  inode : ν → Option ℕ := fun _ => none
  fresh : ℕ := 0

/-- `piece` in the place of what `data` holds from `offset` on. -/
def overwrite [Inhabited β] (data : List β) (offset : ℕ) (piece : List β) : List β :=
  (data ++ List.replicate (offset - data.length) default).take offset ++ piece ++
    data.drop (offset + piece.length)

/-- A write at the end appends. -/
theorem overwrite_length [Inhabited β] (data piece : List β) :
    overwrite data data.length piece = data ++ piece := by
  simp [overwrite]

namespace Files

/-- The content of the file of a name. -/
def read (f : Files ν β) (name : ν) : Option (List β) := (f.inode name).map f.content

/-- What an inode holds from now on. -/
def setContent (f : Files ν β) (i : ℕ) (data : List β) : Files ν β :=
  { f with content := fun j => if j = i then data else f.content j }

/-- `open(name, "wb")`: the inode behind the handle, which starts at offset 0. -/
def openTruncate [DecidableEq ν] (f : Files ν β) (name : ν) : ℕ × Files ν β :=
  match f.inode name with
  | some i => (i, f.setContent i [])
  | none =>
    (f.fresh,
      { content := fun j => if j = f.fresh then [] else f.content j
        inode := fun n => if n = name then some f.fresh else f.inode n
        fresh := f.fresh + 1 })

/-- A write through a handle. -/
def writeAt [Inhabited β] (f : Files ν β) (i offset : ℕ) (piece : List β) : Files ν β :=
  f.setContent i (overwrite (f.content i) offset piece)

/-- `os.replace(source, target)`. -/
def replace [DecidableEq ν] (f : Files ν β) (source target : ν) : Option (Files ν β) :=
  (f.inode source).map fun i =>
    { f with inode := fun n =>
        if n = target then some i else if n = source then none else f.inode n }

/-- Two names never share an inode, and every inode in use has been handed out. -/
structure Distinct (f : Files ν β) : Prop where
  injective : ∀ {n m i}, f.inode n = some i → f.inode m = some i → n = m
  used : ∀ {n i}, f.inode n = some i → i < f.fresh

variable {f f' : Files ν β} {name source target : ν} {i : ℕ} {data : List β}

/-- A write changes no name. -/
@[simp] theorem inode_setContent (n : ν) : (f.setContent i data).inode n = f.inode n := rfl

/-- A file has the content it was given. -/
@[simp] theorem content_setContent : (f.setContent i data).content i = data := if_pos rfl

/-- Names that lead to distinct inodes still do after a write. -/
theorem Distinct.setContent (h : f.Distinct) (i : ℕ) (data : List β) :
    (f.setContent i data).Distinct := ⟨h.injective, h.used⟩

/-- A name whose file is another one reads as before. -/
theorem read_setContent (h : f.inode name ≠ some i) :
    (f.setContent i data).read name = f.read name := by
  unfold read
  rw [inode_setContent]
  cases hn : f.inode name with
  | none => rfl
  | some j =>
    have hij : j ≠ i := by
      rintro rfl
      exact h hn
    simp only [Option.map_some, setContent, if_neg hij]

/-- Opening for writing leaves an empty file behind the handle and every other name as it
was. -/
theorem openTruncate_spec [DecidableEq ν] (h : f.Distinct) (name : ν) :
    (f.openTruncate name).2.Distinct ∧
    (f.openTruncate name).2.inode name = some (f.openTruncate name).1 ∧
    (f.openTruncate name).2.content (f.openTruncate name).1 = [] ∧
    ∀ n, n ≠ name → (f.openTruncate name).2.read n = f.read n := by
  unfold openTruncate
  cases hn : f.inode name with
  | some i =>
    refine ⟨h.setContent i [], hn, content_setContent, ?_⟩
    intro n hne
    apply read_setContent
    intro hi
    exact hne (h.injective hi hn)
  | none =>
    refine ⟨⟨?_, ?_⟩, if_pos rfl, if_pos rfl, ?_⟩
    · intro n m i hn' hm'
      have hold : ∀ n, f.inode n ≠ some f.fresh := fun n hf => Nat.lt_irrefl _ (h.used hf)
      dsimp only at hn' hm'
      split_ifs at hn' hm' with h1 h2 h2
      · rw [h1, h2]
      · cases hn'
        exact absurd hm' (hold m)
      · cases hm'
        exact absurd hn' (hold n)
      · exact h.injective hn' hm'
    · intro n i hn'
      dsimp only at hn'
      split_ifs at hn' with h1
      · cases hn'
        exact Nat.lt_succ_self _
      · exact Nat.lt_trans (h.used hn') (Nat.lt_succ_self _)
    · intro n hne
      unfold read
      simp only [if_neg hne]
      cases hn' : f.inode n with
      | none => rfl
      | some i =>
        have hi : i ≠ f.fresh := Nat.ne_of_lt (h.used hn')
        simp only [Option.map_some, if_neg hi]

/-- A rename gives the target the file of the source and leaves the source without one. -/
theorem replace_spec [DecidableEq ν] (h : f.Distinct)
    (hr : f.replace source target = some f') :
    f'.Distinct ∧ f'.read target = f.read source := by
  unfold replace at hr
  cases hs : f.inode source with
  | none =>
    rw [hs] at hr
    cases hr
  | some i =>
    rw [hs] at hr
    cases hr
    refine ⟨⟨?_, ?_⟩, ?_⟩
    · intro n m j hn hm
      dsimp only at hn hm
      split_ifs at hn hm with h1 h2 h3 h4 h5 h6
      · rw [h1, h2]
      · cases hn
        exact absurd (h.injective hm hs) h3
      · cases hm
        exact absurd (h.injective hn hs) h4
      · exact h.injective hn hm
    · intro n j hn
      dsimp only at hn
      split_ifs at hn
      · cases hn
        exact h.used hs
      · exact h.used hn
    · simp only [read, if_true, Option.map_some, hs]

end Files

end ByoRedis.Lib
