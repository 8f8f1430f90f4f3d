import Conduit.Toml.Reader
import Mathlib.Data.List.Nodup
import Mathlib.Data.Option.Basic

/-!
# Distinct keys

Every table of a document that is read has each of its keys once, the tables inside its values
included. The draft has them all along: a line replaces the entry of a key in place or adds
one for a key that its table does not have.
-/

namespace Conduit.Toml

def Draft.Distinct (d : Draft) : Prop := d.finish.Distinct

def Entries.Distinct (es : Entries) : Prop := Value.Distinct (.table (finishEntries es))

/-! ## A draft and its tables -/

section
variable {es newest : Entries} {older : List Entries} {d : Draft} {v : Value} {key : String} {by' : Opened}

theorem finishEntries_eq (es : Entries) : finishEntries es = es.map fun e => (e.1, e.2.finish) := by
  induction es with
  | nil => rfl
  | cons e es ih =>
    obtain ⟨k, d⟩ := e
    rw [finishEntries, ih, List.map_cons]

theorem finishTables_eq (ts : List Entries) : finishTables ts = ts.map fun t => .table (finishEntries t) := by
  induction ts with
  | nil => rfl
  | cons t ts ih => rw [finishTables, ih, List.map_cons]

theorem Entries.distinct_iff : es.Distinct ↔ (es.map Prod.fst).Nodup ∧ ∀ e ∈ es, e.2.Distinct := by
  have hkeys : (finishEntries es).map Prod.fst = es.map Prod.fst := by
    rw [finishEntries_eq, List.map_map]
    rfl
  constructor
  · rintro (_ | _ | _ | _ | _ | _ | ⟨keys, values⟩)
    refine ⟨hkeys ▸ keys, fun e he => values (e.1, e.2.finish) ?_⟩
    rw [finishEntries_eq]
    exact List.mem_map_of_mem he
  · rintro ⟨keys, values⟩
    refine .table (hkeys ▸ keys) fun e he => ?_
    rw [finishEntries_eq] at he
    obtain ⟨e', he', rfl⟩ := List.mem_map.mp he
    exact values e' he'

theorem Entries.distinct_nil : Entries.Distinct [] :=
  Entries.distinct_iff.mpr ⟨List.nodup_nil, nofun⟩

theorem Draft.distinct_closed : (Draft.closed v).Distinct ↔ v.Distinct := Iff.rfl

theorem Draft.distinct_table : (Draft.table by' es).Distinct ↔ es.Distinct := Iff.rfl

theorem Draft.distinct_tables :
    (Draft.tables newest older).Distinct ↔ newest.Distinct ∧ ∀ t ∈ older, Entries.Distinct t := by
  have hmem : ∀ v, v ∈ (finishTables older).reverse ++ [.table (finishEntries newest)] ↔
      v = .table (finishEntries newest) ∨ ∃ t ∈ older, v = .table (finishEntries t) := by
    intro v
    rw [finishTables_eq]
    simp [or_comm, eq_comm]
  constructor
  · rintro (_ | _ | _ | _ | _ | items)
    exact ⟨items _ ((hmem _).mpr (.inl rfl)), fun t ht => items _ ((hmem _).mpr (.inr ⟨t, ht, rfl⟩))⟩
  · rintro ⟨hnewest, holder⟩
    refine .array fun v hv => ?_
    obtain rfl | ⟨t, ht, rfl⟩ := (hmem v).mp hv
    · exact hnewest
    · exact holder t ht

theorem Entries.Distinct.of_lookup (hes : es.Distinct) (h : List.lookup key es = some d) : d.Distinct := by
  obtain ⟨l₁, l₂, rfl, -⟩ := List.lookup_eq_some_iff.mp h
  exact (Entries.distinct_iff.mp hes).2 (key, d) (by simp)

/-! ## One entry -/

theorem Entries.mem_put {e : String × Draft} (h : e ∈ es.put key d) : e = (key, d) ∨ e ∈ es := by
  induction es with
  | nil => exact .inl (List.mem_singleton.mp h)
  | cons x es ih =>
    obtain ⟨k, old⟩ := x
    rw [Entries.put] at h
    split at h
    · exact (List.mem_cons.mp h).imp_right (List.mem_cons_of_mem _)
    · obtain rfl | h := List.mem_cons.mp h
      · exact .inr List.mem_cons_self
      · exact (ih h).imp_right (List.mem_cons_of_mem _)

theorem Entries.nodup_put (h : (es.map Prod.fst).Nodup) : ((es.put key d).map Prod.fst).Nodup := by
  induction es with
  | nil => exact List.nodup_singleton key
  | cons x es ih =>
    obtain ⟨k, old⟩ := x
    obtain ⟨hk, hes⟩ := List.nodup_cons.mp h
    rw [Entries.put]
    split
    · next heq => exact heq ▸ h
    · next hne =>
      refine List.nodup_cons.mpr ⟨fun hmem => ?_, ih hes⟩
      obtain ⟨e, he, heq⟩ := List.mem_map.mp hmem
      obtain rfl | he := Entries.mem_put he
      · exact hne heq.symm
      · exact hk (heq ▸ List.mem_map_of_mem he)

theorem Entries.Distinct.put (hes : es.Distinct) (hd : d.Distinct) : (es.put key d).Distinct := by
  obtain ⟨keys, values⟩ := Entries.distinct_iff.mp hes
  refine Entries.distinct_iff.mpr ⟨Entries.nodup_put keys, fun e he => ?_⟩
  obtain rfl | he := Entries.mem_put he
  · exact hd
  · exact values e he

end

/-! ## One line -/

section
variable {es es' : Entries} {path : List String} {v : Value}

/-- Along a path the tables on the way keep their keys, if the table at its end does. -/
theorem Entries.Distinct.at {dotted : Bool} {f : Opened → Entries → Option Entries}
    (hf : ∀ by' inner inner', f by' inner = some inner' → inner.Distinct → inner'.Distinct) {by' : Opened}
    (hes : es.Distinct) (h : Entries.at dotted f path by' es = some es') : es'.Distinct := by
  induction path generalizing by' es es' with
  | nil => exact hf by' es es' h hes
  | cons key path ih =>
    rw [Entries.at] at h
    split at h
    · obtain ⟨inner, hinner, h⟩ := Option.bind_eq_some_iff.mp h
      obtain rfl := Option.some.inj h
      exact hes.put (Draft.distinct_table.mpr (ih Entries.distinct_nil hinner))
    · next by'' old hold =>
      obtain ⟨-, -, h⟩ := Option.bind_eq_some_iff.mp h
      obtain ⟨inner, hinner, h⟩ := Option.bind_eq_some_iff.mp h
      obtain rfl := Option.some.inj h
      exact hes.put (Draft.distinct_table.mpr (ih (Draft.distinct_table.mp (hes.of_lookup hold)) hinner))
    · next newest older hold =>
      obtain ⟨inner, hinner, h⟩ := Option.bind_eq_some_iff.mp h
      obtain rfl := Option.some.inj h
      obtain ⟨hnewest, holder⟩ := Draft.distinct_tables.mp (hes.of_lookup hold)
      exact hes.put (Draft.distinct_tables.mpr ⟨ih hnewest hinner, holder⟩)
    · cases h

theorem Entries.Distinct.assign (hes : es.Distinct) (hv : v.Distinct) (h : es.assign path v = some es') :
    es'.Distinct := by
  obtain ⟨⟨tables, key⟩, -, h⟩ := Option.bind_eq_some_iff.mp h
  refine hes.at (fun by' inner inner' h hinner => ?_) h
  split at h
  · obtain rfl := Option.some.inj h
    exact hinner.put (Draft.distinct_closed.mpr hv)
  · cases h

theorem Entries.Distinct.header (hes : es.Distinct) (h : es.header path = some es') : es'.Distinct := by
  obtain ⟨⟨tables, key⟩, -, h⟩ := Option.bind_eq_some_iff.mp h
  refine hes.at (fun by' inner inner' h hinner => ?_) h
  split at h
  · obtain rfl := Option.some.inj h
    exact hinner.put (Draft.distinct_table.mpr Entries.distinct_nil)
  · next old hold =>
    obtain rfl := Option.some.inj h
    exact hinner.put (Draft.distinct_table.mpr (Draft.distinct_table.mp (hinner.of_lookup hold)))
  · cases h

theorem Entries.Distinct.arrayHeader (hes : es.Distinct) (h : es.arrayHeader path = some es') : es'.Distinct := by
  obtain ⟨⟨tables, key⟩, -, h⟩ := Option.bind_eq_some_iff.mp h
  refine hes.at (fun by' inner inner' h hinner => ?_) h
  split at h
  · obtain rfl := Option.some.inj h
    exact hinner.put (Draft.distinct_tables.mpr ⟨Entries.distinct_nil, nofun⟩)
  · next newest older hold =>
    obtain rfl := Option.some.inj h
    obtain ⟨hnewest, holder⟩ := Draft.distinct_tables.mp (hinner.of_lookup hold)
    refine hinner.put (Draft.distinct_tables.mpr ⟨Entries.distinct_nil, fun t ht => ?_⟩)
    obtain rfl | ht := List.mem_cons.mp ht
    · exact hnewest
    · exact holder t ht
  · cases h

theorem Entries.Distinct.assignUnder {header : List String} (hes : es.Distinct) (hv : v.Distinct)
    (h : es.assignUnder header path v = some es') : es'.Distinct :=
  hes.at (fun _ _ _ h hinner => hinner.assign hv h) h

end

/-! ## Values -/

section
variable {item : List Char → Option (Value × List Char)} {s r : List Char} {v : Value} {n : Nat}

def ReadsDistinct (item : List Char → Option (Value × List Char)) : Prop :=
  ∀ s v r, item s = some (v, r) → v.Distinct

theorem arrayItems_distinct (hitem : ReadsDistinct item) {vs : List Value}
    (h : arrayItems item n s = some (vs, r)) : ∀ v ∈ vs, v.Distinct := by
  induction n generalizing s vs r with
  | zero => cases h
  | succ n ih =>
    rw [arrayItems] at h
    obtain ⟨s₁, -, h⟩ := Option.bind_eq_some_iff.mp h
    split at h
    · cases h
      exact nofun
    · obtain ⟨⟨v, s₂⟩, hv, h⟩ := Option.bind_eq_some_iff.mp h
      have hv := hitem _ _ _ hv
      obtain ⟨s₃, -, h⟩ := Option.bind_eq_some_iff.mp h
      split at h
      · obtain ⟨⟨vs, s₄⟩, hvs, h⟩ := Option.bind_eq_some_iff.mp h
        cases h
        exact List.forall_mem_cons.mpr ⟨hv, ih hvs⟩
      · cases h
        exact List.forall_mem_cons.mpr ⟨hv, nofun⟩
      · cases h

theorem assignment_distinct (hitem : ReadsDistinct item) {path : List String}
    (h : assignment item s = some ((path, v), r)) : v.Distinct := by
  obtain ⟨⟨keys, s₁⟩, -, h⟩ := Option.bind_eq_some_iff.mp h
  dsimp only at h
  split at h
  · obtain ⟨⟨w, s₂⟩, hw, h⟩ := Option.bind_eq_some_iff.mp h
    cases h
    exact hitem _ _ _ hw
  · cases h

theorem inlineEntries_distinct (hitem : ReadsDistinct item) {es es' : Entries} (hes : es.Distinct)
    (h : inlineEntries item n es s = some (es', r)) : es'.Distinct := by
  induction n generalizing s es with
  | zero => cases h
  | succ n ih =>
    rw [inlineEntries] at h
    obtain ⟨s₁, -, h⟩ := Option.bind_eq_some_iff.mp h
    split at h
    · cases h
      exact hes
    · obtain ⟨⟨⟨path, v⟩, s₂⟩, hv, h⟩ := Option.bind_eq_some_iff.mp h
      obtain ⟨es₁, hes₁, h⟩ := Option.bind_eq_some_iff.mp h
      have hes₁ := hes.assign (assignment_distinct hitem hv) hes₁
      obtain ⟨s₃, -, h⟩ := Option.bind_eq_some_iff.mp h
      split at h
      · exact ih hes₁ h
      · cases h
        exact hes₁
      · cases h

theorem wordValue_distinct {cs : List Char} (h : wordValue cs = some v) : v.Distinct := by
  unfold wordValue at h
  split at h
  · cases h
    exact .truth true
  · split at h
    · cases h
      exact .truth false
    · split at h
      · cases h
        exact .moment _
      · cases h
        exact .whole _
      · cases h
        exact .real _
      · cases h

theorem value_distinct_of_below {depth : Nat} (below : ∀ d, depth = d + 1 → ReadsDistinct (value d)) :
    ReadsDistinct (value depth) := by
  intro s v r h
  unfold value at h
  split at h
  · next d =>
    obtain ⟨⟨vs, r'⟩, hvs, heq⟩ := Option.map_eq_some_iff.mp h
    cases heq
    exact .array (arrayItems_distinct (below d rfl) hvs)
  · next d =>
    obtain ⟨⟨es, r'⟩, hes, heq⟩ := Option.map_eq_some_iff.mp h
    cases heq
    exact inlineEntries_distinct (below d rfl) Entries.distinct_nil hes
  · obtain ⟨⟨t, r'⟩, -, heq⟩ := Option.map_eq_some_iff.mp h
    cases heq
    exact .text t
  · obtain ⟨⟨t, r'⟩, -, heq⟩ := Option.map_eq_some_iff.mp h
    cases heq
    exact .text t
  · obtain ⟨w, hw, heq⟩ := Option.map_eq_some_iff.mp h
    cases heq
    exact wordValue_distinct hw

theorem value_distinct (depth : Nat) : ReadsDistinct (value depth) := by
  induction depth with
  | zero => exact value_distinct_of_below nofun
  | succ depth ih =>
    refine value_distinct_of_below fun d h => ?_
    obtain rfl := Nat.succ.inj h
    exact ih

end

/-! ## Documents -/

theorem documentLines_distinct {n : Nat} {header : List String} {es es' : Entries} {s : List Char}
    (hes : es.Distinct) (h : documentLines n header es s = some es') : es'.Distinct := by
  induction n generalizing header es s with
  | zero =>
    rw [documentLines] at h
    split at h
    · cases h
      exact hes
    · cases h
  | succ n ih =>
    rw [documentLines] at h
    split at h
    · cases h
      exact hes
    · obtain ⟨⟨path, r⟩, -, h⟩ := Option.bind_eq_some_iff.mp h
      dsimp only at h
      split at h
      · obtain ⟨es₁, hes₁, h⟩ := Option.bind_eq_some_iff.mp h
        obtain ⟨s₁, -, h⟩ := Option.bind_eq_some_iff.mp h
        exact ih (hes.arrayHeader hes₁) h
      · cases h
    · obtain ⟨⟨path, r⟩, -, h⟩ := Option.bind_eq_some_iff.mp h
      dsimp only at h
      split at h
      · obtain ⟨es₁, hes₁, h⟩ := Option.bind_eq_some_iff.mp h
        obtain ⟨s₁, -, h⟩ := Option.bind_eq_some_iff.mp h
        exact ih (hes.header hes₁) h
      · cases h
    · split at h
      · obtain ⟨s₁, -, h⟩ := Option.bind_eq_some_iff.mp h
        exact ih hes h
      · obtain ⟨⟨⟨path, v⟩, r⟩, hv, h⟩ := Option.bind_eq_some_iff.mp h
        have hv := assignment_distinct (value_distinct depthLimit) hv
        obtain ⟨es₁, hes₁, h⟩ := Option.bind_eq_some_iff.mp h
        obtain ⟨s₁, -, h⟩ := Option.bind_eq_some_iff.mp h
        exact ih (hes.assignUnder hv hes₁) h

theorem read_distinct {s : String} {t : Table} (h : read s = some t) : Value.Distinct (.table t) := by
  obtain ⟨es, hes, rfl⟩ := Option.map_eq_some_iff.mp h
  exact documentLines_distinct Entries.distinct_nil hes

end Conduit.Toml
