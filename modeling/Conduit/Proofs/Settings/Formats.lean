import Conduit.Proofs.Settings.Records

/-!
# Reading settings

A sink in a table is read from the entries of its kind and of that kind's fields, by key. Where
the kind stands makes no difference, since all other entries are kept aside until it is known.
A configuration is read from the entries of its settings, by key.
-/

namespace Conduit.Settings

/-! ## What was kept -/

def optional {α : Type} (read : Item → Except Fault α) (i? : Option Item) : Except Fault (Option α) :=
  i?.elim (.ok none) fun i => (read i).map some

/-- The target of a kind, from its fields by name. -/
def targetOfFields (get? : String → Option Item) (kind : Kind) : Except Fault Log.Target :=
  match kind with
  | .stdout => .ok .stdout
  | .stderr => .ok .stderr
  | .null => .ok .null
  | .file => do
    let append ← optional Item.truth? (get? "append")
    let path ← optional Item.path (get? "path")
    fileTarget fun
      | .path => path
      | .append => append

def Kind.fields : Kind → List String
  | .file => ["path", "append"]
  | .stdout | .stderr | .null => []

section
variable {D : Derived} {kind : Kind} {kept : List (String × Item)} {target : Log.Target}
  {get? get?' : String → Option Item}

theorem targetOfFields_congr (h : ∀ name ∈ kind.fields, get? name = get?' name) :
    targetOfFields get? kind = targetOfFields get?' kind := by
  cases kind with
  | stdout | stderr | null => rfl
  | file => rw [targetOfFields, targetOfFields, h "append" (by decide), h "path" (by decide)]

theorem targetOfFields_congr_names (h : ∀ name, name ≠ "kind" → get? name = get?' name) :
    targetOfFields get? kind = targetOfFields get?' kind := by
  refine targetOfFields_congr fun name hname => h name ?_
  rintro rfl
  exact absurd hname (by cases kind <;> decide)

theorem wellFormed_fileRecord : fileRecord.WellFormed where
  complete f := by cases f <;> decide
  injective f g h := by cases f <;> cases g <;> first | rfl | exact absurd h (by decide)
  sorted := by decide

theorem wellFormed_bareRecord : bareRecord.WellFormed where
  complete := nofun
  injective := nofun
  sorted := .nil

theorem bareTarget_eq (hD : D.Lawful) (target : Log.Target) (kept : List (String × Item)) :
    bareTarget D target kept = .ok target := by
  have hnone : kept.filter (fun e => (bareRecord.field? e.1).isSome) = [] := by
    simp [Record.field?, bareRecord]
  rw [bareTarget, record_filter hD wellFormed_bareRecord fun _ _ _ => rfl, hnone, hD.record_nil]
  rfl

theorem targetOfFields_file :
    targetOfFields get? .file = .ok target ↔ ∃ path append, target = .file path (append.getD true) ∧
      optional Item.truth? (get? "append") = .ok append ∧ optional Item.path (get? "path") = .ok (some path) := by
  simp only [targetOfFields, bind_eq_ok]
  constructor
  · rintro ⟨append, happend, path, hpath, h⟩
    cases path with
    | none => cases h
    | some path => exact ⟨path, append, (Except.ok.inj h).symm, happend, hpath⟩
  · rintro ⟨path, append, rfl, happend, hpath⟩
    exact ⟨append, happend, some path, hpath, rfl⟩

theorem record_file (hD : D.Lawful) (kept : List (String × Item)) :
    D.record fileRecord .blank (byKey kept) = (do
      let append ← fileRecord.slot .blank kept .append
      let path ← fileRecord.slot .blank kept .path
      return fill? (fill? .blank .append append) .path path) := by
  rw [record_byKey hD wellFormed_fileRecord fun _ => rfl]
  refine (record_entriesOf_cons hD wellFormed_fileRecord rfl).trans (congrArg _ (funext fun append => ?_))
  have hempty : fill? (.blank : Slots FileField.Content) .append append .path = none := by cases append <;> rfl
  refine (record_entriesOf_cons hD wellFormed_fileRecord hempty).trans (congrArg _ (funext fun path => ?_))
  exact hD.record_nil ..

/-- In the order of their names the fields are read as they are by name. -/
theorem targetOfKept_byKey (hD : D.Lawful) (kind : Kind) (kept : List (String × Item)) :
    targetOfKept D kind (byKey kept) = targetOfFields (fun name => List.lookup name kept) kind := by
  cases kind with
  | stdout | stderr | null => exact bareTarget_eq hD _ _
  | file =>
    have hslots : ∀ append path, fill? (fill? (.blank : Slots FileField.Content) .append append) .path path =
        fun | .path => path | .append => append := by
      intro append path
      funext f
      cases f <;> cases append <;> cases path <;> rfl
    simp only [targetOfKept, record_file hD, hslots, bind_assoc, pure_bind]
    rfl

theorem targetOfKept_of_sorted (hD : D.Lawful) (hkept : Sorted kept) (kind : Kind) :
    targetOfKept D kind kept = targetOfFields (fun name => List.lookup name kept) kind := by
  have hsame : byKey kept = kept := (sorted_byKey kept).ext hkept (lookup_byKey kept)
  rw [← targetOfKept_byKey hD, hsame]

end

/-! ## The tag and what is kept beside it -/

section
variable {V E K I : Type} {D : Derived} {T : Tag V E K I} {keep : V → I} {es : List (String × V)}

def keptOf (T : Tag V E K I) (keep : V → I) (es : List (String × V)) : List (String × I) :=
  (es.filter fun e => e.1 != T.name).map fun e => (e.1, keep e.2)

theorem keptOf_cons_tag (T : Tag V E K I) (keep : V → I) (v : V) (es : List (String × V)) :
    keptOf T keep ((T.name, v) :: es) = keptOf T keep es := by
  simp [keptOf]

theorem keptOf_cons_other {key : String} (h : key ≠ T.name) (keep : V → I) (v : V) (es : List (String × V)) :
    keptOf T keep ((key, v) :: es) = (key, keep v) :: keptOf T keep es := by
  simp [keptOf, h]

theorem sorted_keptOf (hes : Sorted es) : Sorted (keptOf T keep es) :=
  List.pairwise_map.mpr (hes.filter _)

theorem lookup_keptOf {name : String} (h : name ≠ T.name) (keep : V → I) (es : List (String × V)) :
    List.lookup name (keptOf T keep es) = (List.lookup name es).map keep := by
  induction es with
  | nil => rfl
  | cons e es ih =>
    obtain ⟨key, v⟩ := e
    rw [lookup_cons_if]
    by_cases hkey : key = T.name
    · subst hkey
      rw [keptOf_cons_tag, ih, if_neg h]
    · rw [keptOf_cons_other hkey, lookup_cons_if, ih]
      split <;> rfl

theorem tagged_of_not_mem (hD : D.Lawful) (hkeep : ∀ e ∈ es, e.1 ≠ T.name → T.keep e.2 = .ok (keep e.2))
    (h : T.name ∉ es.map Prod.fst) (tag : Option K) (kept : List (String × I)) :
    D.tagged T tag kept es = .ok (tag, kept ++ keptOf T keep es) := by
  induction es generalizing kept with
  | nil => simp [hD.tagged_nil, keptOf]
  | cons e es ih =>
    obtain ⟨key, v⟩ := e
    obtain ⟨hv, hkeep⟩ := List.forall_mem_cons.mp hkeep
    obtain ⟨hkey, h⟩ := not_or.mp (mt List.mem_cons.mpr h)
    have hkey : key ≠ T.name := Ne.symm hkey
    rw [hD.tagged_other T tag kept v es hkey, hv hkey, keptOf_cons_other hkey]
    exact (ih hkeep h _).trans (by simp)

/-- Where every other entry can be kept, the tag is read wherever it stands. -/
theorem tagged_eq (hD : D.Lawful) (hkeep : ∀ e ∈ es, e.1 ≠ T.name → T.keep e.2 = .ok (keep e.2))
    (hes : (es.map Prod.fst).Nodup) (kept : List (String × I)) :
    D.tagged T none kept es = (List.lookup T.name es).elim (.ok (none, kept ++ keptOf T keep es))
      fun v => (T.read v).map fun k => (some k, kept ++ keptOf T keep es) := by
  induction es generalizing kept with
  | nil => simp [hD.tagged_nil, keptOf]
  | cons e es ih =>
    obtain ⟨key, v⟩ := e
    obtain ⟨hv, hrest⟩ := List.forall_mem_cons.mp hkeep
    obtain ⟨hnew, hnodup⟩ := List.nodup_cons.mp hes
    by_cases hkey : key = T.name
    · subst hkey
      rw [hD.tagged_tag, List.lookup_cons_self, Option.elim_some, keptOf_cons_tag]
      cases T.read v with
      | error e => rfl
      | ok k => exact tagged_of_not_mem hD hrest hnew (some k) kept
    · rw [hD.tagged_other T none kept v es hkey, hv hkey, keptOf_cons_other hkey, lookup_cons_ne (Ne.symm hkey)]
      exact (ih hrest hnodup _).trans (by simp)

end

/-! ## A sink in a table -/

section
variable {V E : Type} {F : Format V E} {D : Derived} {v : V} {es : List (String × V)} {target : Log.Target}

def Format.item? (F : Format V E) (es : List (String × V)) (name : String) : Option Item :=
  (List.lookup name es).bind fun v => (F.keep v).toOption

theorem Format.item?_congr {es' : List (String × V)} {name : String}
    (h : List.lookup name es' = List.lookup name es) : F.item? es' name = F.item? es name := by
  rw [Format.item?, h, Format.item?]

theorem sink_of_keep (hD : D.Lawful) (keep : V → Item) (hshape : F.shape v = .table es)
    (hes : ((F.entries es).map Prod.fst).Nodup)
    (hkeep : ∀ e ∈ F.entries es, e.1 ≠ "kind" → F.keep e.2 = .ok (keep e.2)) :
    F.sink D v = (List.lookup "kind" (F.entries es)).elim (.error (F.inSink (.missing "kind"))) fun k =>
      F.kind .entry k >>= fun kind =>
        (targetOfKept D kind (keptOf F.kindTag keep (F.entries es))).mapError F.inSink := by
  have htagged := tagged_eq hD (T := F.kindTag) hkeep hes []
  have hname : F.kindTag.name = "kind" := rfl
  have hread : F.kindTag.read = F.kind .entry := rfl
  simp only [Format.sink, hshape, htagged, hname, hread]
  cases List.lookup "kind" (F.entries es) with
  | none => rfl
  | some k => cases h : F.kind .entry k <;> simp [h] <;> rfl

end

/-! ## A configuration -/

def Setting.keys : List String := Setting.all.map Setting.key

theorem Setting.mem_all (x : Setting) : x ∈ Setting.all := by
  cases x <;> decide

theorem Setting.key_mem_keys (x : Setting) : x.key ∈ Setting.keys :=
  List.mem_map_of_mem x.mem_all

theorem Setting.key_injective {x y : Setting} (h : x.key = y.key) : x = y := by
  cases x <;> cases y <;> first | rfl | exact absurd h (by decide)

section
variable {V E : Type} {F : Format V E} {D : Derived} {es : List (String × V)} {c : Log.Config}

def Format.slot (F : Format V E) (D : Derived) (es : List (String × V)) (x : Setting) : Except E (Option x.Content) :=
  (F.record D).slot .blank es x

theorem Format.wellFormed_record (F : Format V E) (D : Derived) : (F.record D).WellFormed where
  complete := Setting.mem_all
  injective _ _ := Setting.key_injective
  sorted := show Setting.all.Pairwise fun x y => x.key < y.key by decide

end

end Conduit.Settings
