import Mathlib.Data.List.Basic

/-!
# Paths and their extensions

A path with a file name, split as `std::path` splits it: the extension is what follows the last dot
of the name, unless that dot is the first character. `withExtension` keeps the stem, so the paths it
makes of one path are told apart by their extensions (`withExtension_inj`).
-/

namespace Driftbrake

structure Path where
  parent : String
  name : List Char
deriving DecidableEq, Repr

namespace Path

/-- What stands before the last dot of the name and what after it; a name with no dot, or with one
at its start only, is all stem. -/
def splitAtDot (name : List Char) : List Char × Option (List Char) :=
  match name.reverse.dropWhile (· != '.') with
  | _ :: before =>
    if before.isEmpty then (name, none)
    else (before.reverse, some (name.reverse.takeWhile (· != '.')).reverse)
  | [] => (name, none)

def stem (self : Path) : List Char := (splitAtDot self.name).1

def extension (self : Path) : Option (List Char) := (splitAtDot self.name).2

/-- `Path::with_extension` as it is documented. For a name `..x` the implementation of the standard
library differs: it returns the parent directory `..`. -/
def withExtension (self : Path) (extension : List Char) : Path :=
  { self with
    name := if extension.isEmpty then self.stem else self.stem ++ '.' :: extension }

theorem splitAtDot_some {name stem ext : List Char} (h : splitAtDot name = (stem, some ext)) :
    name = stem ++ '.' :: ext := by
  rw [splitAtDot] at h
  split at h
  · rename_i dot before hdrop
    have hdot : dot = '.' := by
      have := List.head?_dropWhile_not (· != '.') name.reverse
      rw [hdrop] at this
      simpa using this
    split at h
    · cases h
    · have hname := List.takeWhile_append_dropWhile (p := (· != '.')) (l := name.reverse)
      rw [hdrop, hdot] at hname
      have hrev := congrArg List.reverse hname
      rw [List.reverse_append, List.reverse_cons, List.reverse_reverse, List.append_assoc] at hrev
      cases h
      exact hrev.symm
  · cases h

theorem splitAtDot_none {name stem : List Char} (h : splitAtDot name = (stem, none)) :
    stem = name := by
  rw [splitAtDot] at h
  split at h
  · split at h <;> cases h
    rfl
  · cases h
    rfl

theorem splitAtDot_append {stem ext : List Char} (hstem : stem ≠ []) (hdot : '.' ∉ ext) :
    splitAtDot (stem ++ '.' :: ext) = (stem, some ext) := by
  have hext : ∀ c ∈ ext.reverse, (c != '.') = true := fun c hc =>
    bne_iff_ne.mpr fun heq => hdot (heq ▸ List.mem_reverse.mp hc)
  have hrev : (stem ++ '.' :: ext).reverse = ext.reverse ++ '.' :: stem.reverse := by simp
  have hdrop : (stem ++ '.' :: ext).reverse.dropWhile (· != '.') = '.' :: stem.reverse := by
    rw [hrev, List.dropWhile_append_of_pos hext]
    rfl
  have htake : (stem ++ '.' :: ext).reverse.takeWhile (· != '.') = ext.reverse := by
    rw [hrev, List.takeWhile_append_of_pos hext]
    simp
  rw [splitAtDot, hdrop, htake]
  simp [hstem]

variable {p : Path} {ext ext' : List Char}

theorem stem_ne_nil (h : p.name ≠ []) : p.stem ≠ [] := by
  rw [stem, splitAtDot]
  split
  · split
    · exact h
    · rename_i hbefore
      simpa using hbefore
  · exact h

theorem name_withExtension (h : ext ≠ []) : (p.withExtension ext).name = p.stem ++ '.' :: ext := by
  rw [withExtension, if_neg]
  simpa using h

/-- A path is its own lock or temporary path just when it has that extension. -/
theorem withExtension_eq_self_iff (h : ext ≠ []) :
    p.withExtension ext = p ↔ p.extension = some ext := by
  have hself : p.withExtension ext = p ↔ p.stem ++ '.' :: ext = p.name := by
    rw [← name_withExtension h]
    exact ⟨congrArg name, fun hn => by cases p; simpa [withExtension] using hn⟩
  rw [hself]
  rcases hs : splitAtDot p.name with ⟨stem, _ | ext'⟩
  · have hname := splitAtDot_none hs
    simp only [Path.stem, extension, hs, hname]
    refine ⟨fun hn => ?_, nofun⟩
    have := congrArg List.length hn
    simp at this
  · have hname := splitAtDot_some hs
    rw [Path.stem, extension, hs, hname]
    simp [eq_comm]

/-- A path that has been given an extension is not changed when it is given it again. -/
theorem withExtension_idem (h : p.name ≠ []) (hext : ext ≠ []) (hdot : '.' ∉ ext) :
    (p.withExtension ext).withExtension ext = p.withExtension ext := by
  rw [withExtension_eq_self_iff hext, extension, name_withExtension hext,
    splitAtDot_append (stem_ne_nil h) hdot]

theorem withExtension_inj (h : ext ≠ []) (h' : ext' ≠ [])
    (H : p.withExtension ext = p.withExtension ext') : ext = ext' := by
  have hn := congrArg name H
  rw [name_withExtension h, name_withExtension h'] at hn
  exact (List.cons.inj (List.append_cancel_left hn)).2

end Path

end Driftbrake
