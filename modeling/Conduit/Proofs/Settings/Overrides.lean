import Conduit.Proofs.Settings.Merge

/-!
# Settings that a variable overrides

A variable holds a text. Read by itself a setting is converted from its text, so a variable
overrides it; but nothing inside the sink is converted, so there a variable overrides a path
and never whether a file is appended to: with such a variable there is no configuration at
all (`append_not_overridden`).
-/

namespace Conduit.Settings

/-! ## A file sink -/

section
variable {L : Layering} {es : Layers} {path : String} {append : Bool} {v : String} {o : Origin}

theorem file_of_kind {place : KindPlace} {k : Layered} (h : L.format.kind place k = .ok .file) :
    ∃ o, k = .text "file" o := by
  have hkind : k.item.kind = .ok .file := by cases place <;> exact mapError_eq_ok.mp h
  cases k with
  | text s o =>
    refine ⟨o, ?_⟩
    change Kind.ofName s = .ok .file at hkind
    unfold Kind.ofName at hkind
    split at hkind
    case h_3 => rfl
    all_goals cases hkind
  | nothing | whole | real | truth | array | table => cases hkind

theorem sink_file (hL : L.Lawful) (h : List.lookup "kind" es = some (.text "file" o)) :
    L.sink (.table es) = (targetOfFields (fieldsOf es) .file).mapError misfitInSink :=
  sink_table_of_kind hL h rfl

theorem kind_of_sink (hL : L.Lawful) (h : L.sink (.table es) = .ok (.file path append)) :
    ∃ o, List.lookup "kind" es = some (.text "file" o) := by
  rw [sink_table hL] at h
  cases hk : List.lookup "kind" es with
  | none =>
    rw [hk] at h
    cases h
  | some k =>
    rw [hk, Option.elim_some] at h
    obtain ⟨kind, hkind, htarget⟩ := bind_eq_ok.mp h
    cases kind with
    | file =>
      obtain ⟨o, rfl⟩ := file_of_kind hkind
      exact ⟨o, rfl⟩
    | stdout | stderr | null => cases htarget

/-- A text is no answer to whether a file is appended to, whatever it says. -/
theorem sink_append_text (hL : L.Lawful) (hkind : List.lookup "kind" es = some (.text "file" o))
    (happend : List.lookup "append" es = some (.text v .environment)) :
    L.sink (.table es) = .error (.at (.wrongType (.text v) .truth) "sink" none) := by
  have hitem : fieldsOf es "append" = some (.text v) := congrArg (Option.map Layered.item) happend
  rw [sink_file hL hkind, targetOfFields, hitem]
  rfl

theorem sink_path_text {append? : Option Bool} (hL : L.Lawful) (hkind : List.lookup "kind" es = some (.text "file" o))
    (happend : optional Item.truth? (fieldsOf es "append") = .ok append?)
    (hpath : List.lookup "path" es = some (.text v .environment)) :
    L.sink (.table es) = .ok (.file v (append?.getD true)) := by
  have hitem : fieldsOf es "path" = some (.text v) := congrArg (Option.map Layered.item) hpath
  rw [sink_file hL hkind, targetOfFields, happend, hitem]
  rfl

end

/-! ## What the variables do -/

def appendVariable : String := "PIPEQ_LOGGER__SINK__APPEND"

def pathVariable : String := "PIPEQ_LOGGER__SINK__PATH"

def timestampsVariable : String := "PIPEQ_LOGGER__TIMESTAMPS"

/-- How a file sink with a text for `append` is refused. A list of the kind and its fields is
replaced as a whole, and then the kind is missing. -/
def appendMisfit (v : String) : Layered → Misfit
  | .table _ => .at (.wrongType (.text v) .truth) "sink" none
  | _ => .missing "sink.kind"

section
variable {L : Layering} {source : Option Source} {vars : List (String × String)} {layers : Layers} {c : Log.Config}
  {path : String} {append : Bool} {sink : Layered} {es : Layers}

theorem sink_of_sinkSetting (h : sinkSetting L layers = .ok (.file path append)) :
    ∃ sink, List.lookup "sink" layers = some sink ∧ L.sink sink = .ok (.file path append) := by
  rw [sinkSetting] at h
  cases hs : List.lookup "sink" layers with
  | none =>
    rw [hs] at h
    cases h
  | some sink =>
    rw [hs] at h
    exact ⟨sink, rfl, h⟩

theorem sinkSetting_set {name v : String} (hL : L.Lawful) (hname : isBare name = true)
    (hs : List.lookup "sink" layers = some sink) :
    sinkSetting L (L.set ("sink" ++ "." ++ name) (.text v .environment) layers) =
      L.sink (.table (sink.entries.alter name fun _ => .text v .environment)) := by
  rw [sinkSetting, lookup_set_under hL (by decide) hname, hs]
  rfl

theorem sinkSetting_set_append (hL : L.Lawful) (hs : List.lookup "sink" layers = some sink)
    (hfile : L.sink sink = .ok (.file path append)) (v : String) :
    sinkSetting L (L.set ("sink" ++ "." ++ "append") (.text v .environment) layers) = .error (appendMisfit v sink) := by
  rw [sinkSetting_set hL (by decide) hs]
  cases sink with
  | table es =>
    obtain ⟨o, hkind⟩ := kind_of_sink hL hfile
    apply sink_append_text hL (o := o)
    · rw [Layers.lookup_alter_ne (by decide)]
      exact hkind
    · rw [Layered.entries, Layers.lookup_alter]
  | array vs o => exact sink_table hL _
  | nothing | text | whole | real | truth => cases hfile

theorem sinkSetting_set_path (hL : L.Lawful) (hs : List.lookup "sink" layers = some (.table es))
    (hfile : L.sink (.table es) = .ok (.file path append)) (v : String) :
    sinkSetting L (L.set ("sink" ++ "." ++ "path") (.text v .environment) layers) = .ok (.file v append) := by
  obtain ⟨o, hkind⟩ := kind_of_sink hL hfile
  rw [sink_file hL hkind, mapError_eq_ok, targetOfFields_file] at hfile
  obtain ⟨_, append?, heq, happend, -⟩ := hfile
  cases heq
  rw [sinkSetting_set hL (by decide) hs]
  apply sink_path_text hL (o := o)
  · rw [Layered.entries, Layers.lookup_alter_ne (by decide)]
    exact hkind
  · rw [Layered.entries, fieldsOf, Layers.lookup_alter_ne (by decide)]
    exact happend
  · rw [Layered.entries, Layers.lookup_alter]

/-- With a configuration whose sink is a file, a variable for `append` leaves none, whatever its
text; one for the path of a sink that is a table, and one for the timestamps, are heard. -/
theorem append_not_overridden (hL : L.Lawful) (h : L.load source vars = .ok c) (hfile : c.sink = .file path append) :
    ∃ layers sink, L.gather source vars = .ok layers ∧ List.lookup "sink" layers = some sink ∧
      (∀ v, L.load source (vars ++ [(appendVariable, v)]) = .error (.unfit (appendMisfit v sink))) ∧
      (∀ es, sink = .table es → ∀ v,
        L.load source (vars ++ [(pathVariable, v)]) = .ok { c with sink := .file v append }) ∧
      ∀ b : Bool, L.load source (vars ++ [(timestampsVariable, toString b)]) = .ok { c with timestamps := b } := by
  obtain ⟨layers, hg, hc⟩ := exists_layers_of_load h
  obtain ⟨-, hsink, -, -⟩ := (config_layers_ok_iff hL).mp hc
  rw [hfile] at hsink
  obtain ⟨sink, hs, hread⟩ := sink_of_sinkSetting hsink
  refine ⟨layers, sink, hg, hs, ?_, ?_, ?_⟩
  · intro v
    have hkey : L.variableKey appendVariable = some ("sink" ++ "." ++ "append") :=
      hL.variableKey_name (appendVariable, "sink.append") (by decide)
    rw [load_snoc hg hkey, config_set_sink hL hc (by decide), sinkSetting_set_append hL hs hread]
    rfl
  · rintro es rfl v
    have hkey : L.variableKey pathVariable = some ("sink" ++ "." ++ "path") :=
      hL.variableKey_name (pathVariable, "sink.path") (by decide)
    rw [load_snoc hg hkey, config_set_sink hL hc (by decide), sinkSetting_set_path hL hs hread]
    rfl
  · intro b
    have hkey : L.variableKey timestampsVariable = some "timestamps" :=
      hL.variableKey_name (timestampsVariable, "timestamps") (by decide)
    rw [load_snoc hg hkey, config_set_timestamps hL hc (hL.timestamps_text b .environment)]
    rfl

end

/-! ## A file to append to -/

def appending : Source := ⟨"pipeq.toml", "[sink]\nkind = \"file\"\npath = \"x.log\"\n"⟩

theorem load_appending : layering.load (some appending) [] = .ok { sink := .file "x.log" true } := by
  decide +kernel

theorem append_not_overridden_appending : layering.load (some appending) [] = .ok { sink := .file "x.log" true } ∧
    (∃ sink, ∀ v, layering.load (some appending) [(appendVariable, v)] = .error (.unfit (appendMisfit v sink))) ∧
    ∀ b : Bool, layering.load (some appending) [(timestampsVariable, toString b)] =
      .ok { sink := .file "x.log" true, timestamps := b } := by
  obtain ⟨layers, sink, -, -, happend, -, htimestamps⟩ := append_not_overridden lawful_layering load_appending rfl
  exact ⟨load_appending, ⟨sink, happend⟩, htimestamps⟩

theorem append_text_refused : layering.load (some appending) [] = .ok { sink := .file "x.log" true } ∧
    ∀ b : Bool, layering.load (some appending) [(appendVariable, toString b)] =
      .error (.unfit (.at (.wrongType (.text (toString b)) .truth) "sink" none)) :=
  ⟨load_appending, by decide +kernel⟩

end Conduit.Settings
