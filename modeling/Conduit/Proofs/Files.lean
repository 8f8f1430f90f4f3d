import Conduit.Files
import Conduit.Proofs.Lists
import Mathlib.Data.List.Basic

/-!
# Putting text into a file

What is put into a file is its text then, and everything else is as it was: the other files,
the folders, and so the place that a path leads to.
-/

namespace Conduit.Files

section
variable {fs fs' : Files} {p q here : Path} {text other path : String} {names : List String}

theorem folders_put (fs : Files) (p : Path) (text : String) : (fs.put p text).folders = fs.folders := by
  unfold put
  split <;> rfl

/-- Replacing a text in place, as `put` does for a file that is there. -/
def replaceText (p : Path) (text : String) (files : List (Path × String)) : List (Path × String) :=
  files.map fun e => if e.1 = p then (e.1, text) else e

theorem put_of_some {old : String} (h : fs.text? p = some old) :
    fs.put p text = { fs with files := replaceText p text fs.files } :=
  if_pos (Option.isSome_of_eq_some h)

theorem put_of_none (h : fs.text? p = none) : fs.put p text = { fs with files := fs.files ++ [(p, text)] } :=
  if_neg (by simp [h])

theorem lookup_replaceText_ne (hne : q ≠ p) (files : List (Path × String)) :
    List.lookup q (replaceText p text files) = List.lookup q files := by
  induction files with
  | nil => rfl
  | cons e files ih =>
    obtain ⟨r, t⟩ := e
    rw [replaceText, List.map_cons, ← replaceText]
    by_cases hr : r = p
    · have hq : (q == r) = false := beq_false_of_ne (hr ▸ hne)
      simp only [if_pos hr, List.lookup_cons, hq, ih]
    · simp only [if_neg hr, List.lookup_cons, ih]

theorem lookup_replaceText_self {old : String} {files : List (Path × String)} (h : List.lookup p files = some old) :
    List.lookup p (replaceText p text files) = some text := by
  induction files with
  | nil => cases h
  | cons e files ih =>
    obtain ⟨r, t⟩ := e
    rw [replaceText, List.map_cons, ← replaceText]
    by_cases hr : r = p
    · simp [hr]
    · have hp : (p == r) = false := beq_false_of_ne (Ne.symm hr)
      simp only [List.lookup_cons, hp] at h
      simp only [if_neg hr, List.lookup_cons, hp, ih h]

theorem text?_put_self (fs : Files) (p : Path) (text : String) : (fs.put p text).text? p = some text := by
  cases h : fs.text? p with
  | some old =>
    rw [put_of_some h]
    exact lookup_replaceText_self h
  | none =>
    have hnone : List.lookup p fs.files = none := h
    rw [put_of_none h, text?, List.lookup_append, hnone, Option.none_or, List.lookup_cons_self]

theorem text?_put_ne (hne : q ≠ p) (fs : Files) (text : String) : (fs.put p text).text? q = fs.text? q := by
  cases h : fs.text? p with
  | some old =>
    rw [put_of_some h]
    exact lookup_replaceText_ne hne fs.files
  | none =>
    have hq : List.lookup q [(p, text)] = none := by
      rw [List.lookup_cons, beq_false_of_ne hne]
      rfl
    rw [put_of_none h, text?, List.lookup_append, hq, Option.or_none]
    rfl

theorem replaceText_replaceText (p : Path) (text other : String) (files : List (Path × String)) :
    replaceText p other (replaceText p text files) = replaceText p other files := by
  rw [replaceText, replaceText, replaceText, List.map_map]
  refine List.map_congr_left fun e _ => ?_
  by_cases he : e.1 = p <;> simp [he]

theorem replaceText_of_absent {files : List (Path × String)} (h : List.lookup p files = none) :
    replaceText p text files = files := by
  have hsame : ∀ e ∈ files, (if e.1 = p then (e.1, text) else e) = e := by
    intro e he
    have hne := List.lookup_eq_none_iff.mp h e he
    exact if_neg fun heq => by simp [heq] at hne
  exact (List.map_congr_left hsame).trans (List.map_id files)

theorem put_put (fs : Files) (p : Path) (text other : String) : (fs.put p text).put p other = fs.put p other := by
  rw [put_of_some (text?_put_self fs p text)]
  cases h : fs.text? p with
  | some old => rw [put_of_some h, put_of_some h, replaceText_replaceText]
  | none =>
    have happend : replaceText p other (fs.files ++ [(p, text)]) = fs.files ++ [(p, other)] := by
      rw [replaceText, List.map_append, ← replaceText, replaceText_of_absent h]
      simp
    rw [put_of_none h, put_of_none h, happend]

/-! ## Where a path leads -/

theorem isFolder_put (fs : Files) (p : Path) (text : String) (q : Path) :
    (fs.put p text).isFolder q = fs.isFolder q := by
  rw [isFolder, isFolder, folders_put]

theorem enter_put (h : fs.enter here names = .ok q) : (fs.put p text).enter here names = .ok q := by
  induction names generalizing here with
  | nil => exact h
  | cons name names ih =>
    rw [enter] at h ⊢
    rw [isFolder_put]
    by_cases hdot : name = "" ∨ name = "."
    · rw [if_pos hdot] at h ⊢
      exact ih h
    rw [if_neg hdot] at h ⊢
    by_cases hup : name = ".."
    · rw [if_pos hup] at h ⊢
      exact ih h
    rw [if_neg hup] at h ⊢
    by_cases hlong : 255 < name.utf8ByteSize
    · rw [if_pos hlong] at h
      cases h
    rw [if_neg hlong] at h ⊢
    by_cases hfolder : fs.isFolder (here ++ [name]) = true
    · rw [if_pos hfolder] at h ⊢
      exact ih h
    · rw [if_neg hfolder] at h
      split at h <;> cases h

def namesOf (path : String) : List String := (parts path).filter (· ≠ "")

def lastOf (path : String) : String := (namesOf path).getLast?.getD "."

def endsInSlash (path : String) : Bool := (parts path).getLast? = some ""

theorem resolve_eq (fs : Files) (path : String) : fs.resolve path =
    if path.toList.contains '\x00' then .error .nulInPath
    else if path.isEmpty then .error .notFound
    else if 4095 < path.utf8ByteSize then .error .nameTooLong
    else fs.enter [] (namesOf path).dropLast >>= fun here =>
      if 255 < (lastOf path).utf8ByteSize then .error .nameTooLong
      else .ok (here, lastOf path, endsInSlash path) := by
  unfold resolve namesOf lastOf endsInSlash
  rfl

theorem writable_eq (fs : Files) (path : String) : fs.writable path = fs.resolve path >>= fun r =>
    if r.2.1 = "." ∨ r.2.1 = ".." then .error .isFolder
    else if fs.isFolder (r.1 ++ [r.2.1]) then .error .isFolder
    else match fs.text? (r.1 ++ [r.2.1]) with
      | some _ => if r.2.2 then .error .notFolder else .ok (r.1 ++ [r.2.1])
      | none => if r.2.2 then .error .isFolder else .ok (r.1 ++ [r.2.1]) := by
  unfold writable
  rfl

theorem resolve_put {r : Path × String × Bool} (h : fs.resolve path = .ok r) :
    (fs.put p text).resolve path = .ok r := by
  rw [resolve_eq] at h ⊢
  split at h
  · cases h
  split at h
  · cases h
  split at h
  · cases h
  · next hnul hempty hlong =>
    obtain ⟨here, hhere, hr⟩ := bind_eq_ok.mp h
    rw [if_neg hnul, if_neg hempty, if_neg hlong]
    exact bind_eq_ok.mpr ⟨here, enter_put hhere, hr⟩

theorem writable_put (h : fs.writable path = .ok q) (p : Path) (text : String) :
    (fs.put p text).writable path = .ok q := by
  rw [writable_eq] at h ⊢
  obtain ⟨r, hr, h⟩ := bind_eq_ok.mp h
  refine bind_eq_ok.mpr ⟨r, resolve_put hr, ?_⟩
  rw [isFolder_put]
  split at h
  · cases h
  split at h
  · cases h
  · next hdots hfolder =>
    rw [if_neg hdots, if_neg hfolder]
    -- a path that ends in a slash leads to no file, whether there is one or not
    cases hslash : r.2.2 with
    | true =>
      rw [hslash] at h
      split at h <;> cases h
    | false =>
      rw [hslash] at h
      have hq : Except.ok (r.1 ++ [r.2.1]) = (Except.ok q : Except OpenError Path) := by
        split at h <;> exact h
      split <;> exact hq

theorem openFile_of_writable (h : fs.writable path = .ok p) (append : Bool) :
    fs.openFile path append = .ok (fs.put p (if append then (fs.text? p).getD "" else ""), p) := by
  rw [openFile, h]
  rfl

end

end Conduit.Files
