import Conduit.Proofs.Settings.Layers
import Conduit.Proofs.Toml.Distinct
import Mathlib.Data.List.TakeWhile

/-!
# A file's layer

A layer is merged entry by entry into what was there before. In front of a file there is
nothing, and the keys of a document are distinct, so the merged layer is the file's own.
-/

namespace Conduit.Settings

section
variable {L : Layering} {key : String} {f : Layered → Layered} {es acc layer : Layers} {o : Origin} {v : Toml.Value}

theorem Layers.alter_absent (h : key ∉ acc.map Prod.fst) : acc.alter key f = acc ++ [(key, f .nothing)] := by
  induction acc with
  | nil => rfl
  | cons e acc ih =>
    obtain ⟨k, v⟩ := e
    obtain ⟨hk, hacc⟩ := not_or.mp (mt List.mem_cons.mpr h)
    rw [Layers.alter, if_neg (Ne.symm hk), ih hacc, List.cons_append]

theorem entriesOver_append (keys : ((acc ++ es).map Prod.fst).Nodup)
    (values : ∀ e ∈ es, e.2.over .nothing = e.2) : entriesOver es acc = acc ++ es := by
  induction es generalizing acc with
  | nil => rw [entriesOver, List.append_nil]
  | cons e es ih =>
    obtain ⟨key, v⟩ := e
    obtain ⟨hv, values⟩ := List.forall_mem_cons.mp values
    have habsent : key ∉ acc.map Prod.fst := fun hmem =>
      List.disjoint_of_nodup_append (List.map_append ▸ keys) hmem List.mem_cons_self
    rw [entriesOver, Layers.alter_absent habsent, hv, ih (by simpa using keys) values]
    simp

theorem layeredEntries_eq (t : Toml.Table) :
    layeredEntries o t = t.map fun e => (e.1, Layered.ofToml o e.2) := by
  induction t with
  | nil => rfl
  | cons e t ih =>
    obtain ⟨key, v⟩ := e
    rw [layeredEntries, ih, List.map_cons]

theorem layeredEntries_keys (t : Toml.Table) : (layeredEntries o t).map Prod.fst = t.map Prod.fst := by
  rw [layeredEntries_eq, List.map_map]
  rfl

theorem over_nothing (h : v.Distinct) : (Layered.ofToml o v).over .nothing = Layered.ofToml o v := by
  induction h with
  | text | whole | real | truth | moment | array => simp [Layered.ofToml, Layered.over]
  | @table es keys _ ih =>
    rw [Layered.ofToml, Layered.over]
    have hkeys : (([] ++ layeredEntries o es).map Prod.fst).Nodup := (layeredEntries_keys es).symm ▸ keys
    have hvalues : ∀ e ∈ layeredEntries o es, e.2.over .nothing = e.2 := by
      intro e he
      rw [layeredEntries_eq] at he
      obtain ⟨e', he', rfl⟩ := List.mem_map.mp he
      exact ih e' he'
    exact congrArg Layered.table (entriesOver_append hkeys hvalues)

theorem add_bare (hL : L.Lawful) (h : ∀ e ∈ layer, isBare e.1 = true) : L.add layer acc = entriesOver layer acc := by
  induction layer generalizing acc with
  | nil => rw [entriesOver]; rfl
  | cons e layer ih =>
    obtain ⟨key, v⟩ := e
    obtain ⟨hkey, hlayer⟩ := List.forall_mem_cons.mp h
    rw [entriesOver, ← ih hlayer, ← hL.set_bare v acc hkey]
    rfl

end

/-! ## The two layers -/

section
variable {L : Layering} {source : Option Source} {file : Layers}

/-- The layer of a file, which is empty if there is no file. -/
def Layering.base (L : Layering) (source : Option Source) : Except LoadError Layers :=
  match source with
  | none => .ok []
  | some s => L.file s

theorem add_file (hL : L.Lawful) {s : Source} (h : L.file s = .ok file)
    (hbare : ∀ e ∈ file, isBare e.1 = true) : L.add file [] = file := by
  rw [add_bare hL hbare]
  unfold Layering.file at h
  split at h
  · cases h
  · next t ht =>
    obtain rfl := Except.ok.inj h
    exact Layered.table.inj (over_nothing (hL.distinct ht))

/-- The environment's layer goes over the file's as the document has it. -/
theorem gather_of_bare (hL : L.Lawful) (h : L.base source = .ok file)
    (hbare : ∀ e ∈ file, isBare e.1 = true) (vars : List (String × String)) :
    L.gather source vars = .ok (L.add (L.environment vars) file) := by
  cases source with
  | none =>
    obtain rfl := Except.ok.inj h
    rfl
  | some s =>
    have hs : L.file s = .ok file := h
    unfold Layering.gather
    simp only [hs]
    exact congrArg (fun base => Except.ok (L.add (L.environment vars) base)) (add_file hL hs hbare)

end

/-! ## Keys and names as they are written -/

section
variable {root name key : String}

theorem readName_append (h : isBare name = true) {r : List Char} (hr : ∀ c ∈ r.head?, isNameChar c = false) :
    readName (name.toList ++ r) = some (name, r) := by
  obtain ⟨hall, hne⟩ := Bool.and_eq_true_iff.mp h
  have hall : ∀ c ∈ name.toList, isNameChar c = true := List.all_eq_true.mp hall
  have htake : r.takeWhile isNameChar = [] := by
    cases r with
    | nil => rfl
    | cons c r => rw [List.takeWhile_cons_of_neg (by simp [hr c rfl])]
  have hdrop : r.dropWhile isNameChar = r := by
    cases r with
    | nil => rfl
    | cons c r => rw [List.dropWhile_cons_of_neg (by simp [hr c rfl])]
  rw [Bool.not_eq_true'] at hne
  rw [readName, List.takeWhile_append_of_pos hall, List.dropWhile_append_of_pos hall, htake, hdrop, List.append_nil,
    String.ofList_toList]
  simp only [hne]
  rfl

theorem read_bare (h : isBare key = true) : KeyPath.read key = ⟨key, []⟩ := by
  have hname := readName_append h (r := []) nofun
  rw [List.append_nil] at hname
  rw [KeyPath.read, KeyPath.read?, hname]
  rfl

theorem read_under (hroot : isBare root = true) (hname : isBare name = true) :
    KeyPath.read (root ++ "." ++ name) = ⟨root, [.key name]⟩ := by
  have hroot' := readName_append hroot (r := '.' :: name.toList) (by simp [isNameChar])
  have hname' := readName_append hname (r := []) nofun
  rw [List.append_nil] at hname'
  have hchars : (root ++ "." ++ name).toList = root.toList ++ '.' :: name.toList := by simp
  have hsteps : readSteps ('.' :: name.toList).length ('.' :: name.toList) = some [.key name] := by
    have hdone : readSteps name.toList.length [] = some [] := by rw [readSteps]
    rw [List.length_cons, readSteps, hname']
    simp only [Option.bind_eq_bind, Option.bind_some, hdone]
    rfl
  rw [KeyPath.read, KeyPath.read?, hchars, hroot']
  simp only [Option.bind_eq_bind, Option.bind_some, hsteps]
  rfl

end

theorem lawful_layering : layering.Lawful where
  derived := lawful_derived
  distinct h := by
    obtain ⟨hread, -⟩ := Option.filter_eq_some_iff.mp h
    exact Toml.read_distinct hread
  variableKey_name := by decide
  set_bare v layers hkey := by
    simp only [layering, Layers.set, read_bare hkey]
    rfl
  set_under v layers hroot hname := by
    simp only [layering, Layers.set, read_under hroot hname]
    rfl
  timestamps_text b o := by cases b <;> rfl

end Conduit.Settings
