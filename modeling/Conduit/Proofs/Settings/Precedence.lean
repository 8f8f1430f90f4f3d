import Conduit.Proofs.Lists
import Conduit.Proofs.Settings.Merge
import Conduit.Proofs.Settings.Overrides

/-!
# Field by field

Of the variables each sets one entry of the layers, three at the root and two in the sink's
table, and leaves every other as it was. So in whatever order they come, an entry of the
merged layers is the variable's text if there is one and the file's otherwise
(`at_add`), and a configuration is read from those entries (`load_field_by_field`).
-/

namespace Conduit.Settings

/-! ## Variables and places -/

/-- The variables for single fields, of the whole or of the sink. -/
inductive Variable
  | capacity
  | timestamps
  | threadName
  | sinkKind
  | sinkPath
  deriving DecidableEq, Repr

inductive Place
  | root (key : String)
  | sink (name : String)
  deriving DecidableEq, Repr

namespace Variable

def name : Variable → String
  | capacity => "PIPEQ_LOGGER__CAPACITY"
  | timestamps => timestampsVariable
  | threadName => "PIPEQ_LOGGER__THREAD_NAME"
  | sinkKind => "PIPEQ_LOGGER__SINK__KIND"
  | sinkPath => pathVariable

def key : Variable → String
  | capacity => "capacity"
  | timestamps => "timestamps"
  | threadName => "thread_name"
  | sinkKind => "sink.kind"
  | sinkPath => "sink.path"

def place : Variable → Place
  | capacity => .root "capacity"
  | timestamps => .root "timestamps"
  | threadName => .root "thread_name"
  | sinkKind => .sink "kind"
  | sinkPath => .sink "path"

def isInSink : Variable → Bool
  | sinkKind | sinkPath => true
  | capacity | timestamps | threadName => false

end Variable

def sinkEntries (layers : Layers) : Layers := ((List.lookup "sink" layers).getD .nothing).entries

def Layers.at (layers : Layers) : Place → Option Layered
  | .root key => List.lookup key layers
  | .sink name => List.lookup name (sinkEntries layers)

def sinkIsTable (layers : Layers) : Bool :=
  match List.lookup "sink" layers with
  | none | some (.table _) => true
  | _ => false

def textLayer (given : List (Variable × String)) : Layers :=
  given.map fun e => (e.1.key, .text e.2 .environment)

theorem place_ne_sink (x : Variable) : x.place ≠ .root "sink" := by
  cases x <;> decide

theorem place_injective {x y : Variable} (h : x.place = y.place) : x = y := by
  cases x <;> cases y <;> first | rfl | exact absurd h (by decide)

/-! ## One variable -/

section
variable {L : Layering} {layers : Layers} {s : String} {o : Origin} {q : Place} {x : Variable}

theorem variableKey_name (hL : L.Lawful) (x : Variable) : L.variableKey x.name = some x.key :=
  hL.variableKey_name (x.name, x.key) (by cases x <;> decide)

theorem sinkEntries_set_root {key : String} (hL : L.Lawful) (hkey : isBare key = true) (hne : key ≠ "sink") :
    sinkEntries (L.set key (.text s o) layers) = sinkEntries layers := by
  rw [sinkEntries, lookup_set_ne hL hkey (Ne.symm hne), sinkEntries]

theorem sinkEntries_set_sink {name : String} (hL : L.Lawful) (hname : isBare name = true) :
    sinkEntries (L.set ("sink" ++ "." ++ name) (.text s o) layers) =
      (sinkEntries layers).alter name fun _ => .text s o := by
  rw [sinkEntries, lookup_set_under hL (by decide) hname]
  rfl

/-- A variable at the root sets that entry and leaves the others and the sink's as they were. -/
theorem at_set_root {key : String} (hL : L.Lawful) (hkey : isBare key = true) (hne : key ≠ "sink") :
    (L.set key (.text s o) layers).at (.root key) = some (.text s o) ∧
      ∀ q, q ≠ .root key → (L.set key (.text s o) layers).at q = layers.at q := by
  refine ⟨lookup_set hL hkey, fun q hq => ?_⟩
  cases q with
  | root other => exact lookup_set_ne hL hkey fun h => hq (congrArg Place.root h)
  | sink name => rw [Layers.at, Layers.at, sinkEntries_set_root hL hkey hne]

theorem at_set_sink {name : String} (hL : L.Lawful) (hname : isBare name = true) :
    (L.set ("sink" ++ "." ++ name) (.text s o) layers).at (.sink name) = some (.text s o) ∧
      ∀ q, q ≠ .sink name → q ≠ .root "sink" →
        (L.set ("sink" ++ "." ++ name) (.text s o) layers).at q = layers.at q := by
  refine ⟨by rw [Layers.at, sinkEntries_set_sink hL hname, Layers.lookup_alter], fun q hq hroot => ?_⟩
  cases q with
  | root other => exact lookup_set_under_ne hL (by decide) hname fun h => hroot (congrArg Place.root h)
  | sink other =>
    rw [Layers.at, sinkEntries_set_sink hL hname, Layers.lookup_alter_ne fun h => hq (congrArg Place.sink h), Layers.at]

theorem at_set (hL : L.Lawful) (x : Variable) : (L.set x.key (.text s o) layers).at x.place = some (.text s o) := by
  cases x with
  | capacity | timestamps | threadName => exact (at_set_root hL (by decide) (by decide)).1
  | sinkKind => exact (at_set_sink hL (show isBare "kind" = true by decide)).1
  | sinkPath => exact (at_set_sink hL (show isBare "path" = true by decide)).1

theorem at_set_ne (hL : L.Lawful) (hq : q ≠ .root "sink") (hne : q ≠ x.place) :
    (L.set x.key (.text s o) layers).at q = layers.at q := by
  cases x with
  | capacity | timestamps | threadName => exact (at_set_root hL (by decide) (by decide)).2 q hne
  | sinkKind => exact (at_set_sink hL (show isBare "kind" = true by decide)).2 q hne hq
  | sinkPath => exact (at_set_sink hL (show isBare "path" = true by decide)).2 q hne hq

theorem lookup_sink_set (hL : L.Lawful) (x : Variable) : List.lookup "sink" (L.set x.key (.text s o) layers) =
    if x.isInSink then some (.table (sinkEntries (L.set x.key (.text s o) layers)))
    else List.lookup "sink" layers := by
  have hsink : ∀ name, isBare name = true → List.lookup "sink" (L.set ("sink" ++ "." ++ name) (.text s o) layers) =
      some (.table (sinkEntries (L.set ("sink" ++ "." ++ name) (.text s o) layers))) := by
    intro name hname
    rw [sinkEntries, lookup_set_under hL (by decide) hname]
    rfl
  cases x with
  | capacity | timestamps | threadName => exact lookup_set_ne hL (by decide) (by decide)
  | sinkKind => exact hsink "kind" (by decide)
  | sinkPath => exact hsink "path" (by decide)

end

/-! ## All variables -/

section
variable {L : Layering} {layers : Layers} {given : List (Variable × String)} {x : Variable} {s : String} {p : Place}

theorem add_cons (e : Variable × String) (given : List (Variable × String)) (layers : Layers) :
    L.add (textLayer (e :: given)) layers =
      L.add (textLayer given) (L.set e.1.key (.text e.2 .environment) layers) := rfl

theorem at_add_ne (hL : L.Lawful) (hp : p ≠ .root "sink") (h : ∀ e ∈ given, e.1.place ≠ p) :
    (L.add (textLayer given) layers).at p = layers.at p := by
  induction given generalizing layers with
  | nil => rfl
  | cons e given ih =>
    obtain ⟨he, h⟩ := List.forall_mem_cons.mp h
    rw [add_cons, ih h, at_set_ne hL hp (Ne.symm he)]

theorem at_add_mem (hL : L.Lawful) (hgiven : (given.map Prod.fst).Nodup) (h : (x, s) ∈ given) :
    (L.add (textLayer given) layers).at x.place = some (.text s .environment) := by
  induction given generalizing layers with
  | nil => cases h
  | cons e given ih =>
    obtain ⟨he, hgiven⟩ := List.nodup_cons.mp hgiven
    rw [add_cons]
    obtain rfl | h := List.mem_cons.mp h
    · have hrest : ∀ e ∈ given, e.1.place ≠ x.place := fun e hmem heq =>
        he (List.mem_map.mpr ⟨e, hmem, place_injective heq⟩)
      rw [at_add_ne hL (place_ne_sink x) hrest, at_set hL]
    · exact ih hgiven h

def given? (given : List (Variable × String)) (x : Variable) : Option Layered :=
  (List.lookup x given).map fun s => .text s .environment

theorem at_add (hL : L.Lawful) (hgiven : (given.map Prod.fst).Nodup) (layers : Layers) (x : Variable) :
    (L.add (textLayer given) layers).at x.place = (given? given x).or (layers.at x.place) := by
  cases hx : List.lookup x given with
  | none =>
    have hrest : ∀ e ∈ given, e.1.place ≠ x.place := by
      intro e he heq
      have := List.lookup_eq_none_iff.mp hx e he
      simp [place_injective heq] at this
    rw [at_add_ne hL (place_ne_sink x) hrest, given?, hx]
    rfl
  | some s =>
    rw [at_add_mem hL hgiven (mem_of_lookup hx), given?, hx]
    rfl

theorem sinkIsTable_add (hL : L.Lawful) (h : sinkIsTable layers = true) (given : List (Variable × String)) :
    sinkIsTable (L.add (textLayer given) layers) = true := by
  induction given generalizing layers with
  | nil => exact h
  | cons e given ih =>
    refine ih ?_
    rw [sinkIsTable, lookup_sink_set hL]
    cases e.1.isInSink with
    | true => rfl
    | false => exact h

theorem isSome_sink_add (hL : L.Lawful) (given : List (Variable × String)) (layers : Layers) :
    (List.lookup "sink" (L.add (textLayer given) layers)).isSome = ((List.lookup "sink" layers).isSome ||
      ((given? given .sinkKind).isSome || (given? given .sinkPath).isSome)) := by
  induction given generalizing layers with
  | nil => exact (Bool.or_false _).symm
  | cons e given ih =>
    obtain ⟨x, s⟩ := e
    rw [add_cons, ih, lookup_sink_set hL]
    cases x with
    | capacity | timestamps | threadName => rfl
    | sinkKind | sinkPath => simp [given?, List.lookup_cons, Variable.isInSink]

end

/-! ## The sink -/

theorem sinkSetting_of_isTable {L : Layering} {layers : Layers} (h : sinkIsTable layers = true) :
    sinkSetting L layers =
      if (List.lookup "sink" layers).isSome then L.sink (.table (sinkEntries layers)) else .ok .stdout := by
  rw [sinkIsTable] at h
  rw [sinkSetting, sinkEntries]
  cases hs : List.lookup "sink" layers with
  | none => rfl
  | some v =>
    rw [hs] at h
    cases v with
    | table es => rfl
    | nothing | text | whole | real | truth | array => cases h

def Kind.target? : Kind → Option Log.Target
  | .stdout => some .stdout
  | .stderr => some .stderr
  | .null => some .null
  | .file => none

theorem targetOfFields_bare {kind : Kind} {target : Log.Target} (h : kind.target? = some target)
    (get? : String → Option Item) :
    targetOfFields get? kind = .ok target := by
  cases kind <;> cases h <;> rfl

section
variable {L : Layering} {file : Layers} {given : List (Variable × String)}
  {texts : Variable → Option Layered} {kind : Kind}

def putIfGiven (name : String) (v? : Option Layered) (es : Layers) : Layers :=
  match v? with
  | none => es
  | some v => es.alter name fun _ => v

/-- A sink's entries with kind and path replaced or added where there is a text for them. -/
def replaced (texts : Variable → Option Layered) (es : Layers) : Layers :=
  putIfGiven "path" (texts .sinkPath) (putIfGiven "kind" (texts .sinkKind) es)

/-- The sink that a file's layer and the variables give together. -/
def sinkOf (L : Layering) (file : Layers) (texts : Variable → Option Layered) : Except Misfit Log.Target :=
  if (List.lookup "sink" file).isSome || ((texts .sinkKind).isSome || (texts .sinkPath).isSome)
  then L.sink (.table (replaced texts (sinkEntries file)))
  else .ok .stdout

def fieldText (texts : Variable → Option Layered) (name : String) : Option Layered :=
  if name = "path" then texts .sinkPath else if name = "kind" then texts .sinkKind else none

theorem lookup_putIfGiven (name : String) (v? : Option Layered) (es : Layers) :
    List.lookup name (putIfGiven name v? es) = v?.or (List.lookup name es) := by
  cases v? with
  | none => rfl
  | some v => exact Layers.lookup_alter name _ es

theorem lookup_putIfGiven_ne {name other : String} (hne : other ≠ name) (v? : Option Layered) (es : Layers) :
    List.lookup other (putIfGiven name v? es) = List.lookup other es := by
  cases v? with
  | none => rfl
  | some v => exact Layers.lookup_alter_ne hne

theorem lookup_replaced (texts : Variable → Option Layered) (es : Layers) (name : String) :
    List.lookup name (replaced texts es) = (fieldText texts name).or (List.lookup name es) := by
  rw [replaced, fieldText]
  split
  · next hpath =>
    subst hpath
    rw [lookup_putIfGiven, lookup_putIfGiven_ne (by decide)]
  · next hpath =>
    rw [lookup_putIfGiven_ne hpath]
    split
    · next hkind =>
      subst hkind
      rw [lookup_putIfGiven]
    · next hkind =>
      rw [lookup_putIfGiven_ne hkind]
      rfl

theorem lookup_sinkEntries_add (hL : L.Lawful) (hgiven : (given.map Prod.fst).Nodup) (file : Layers) (name : String) :
    List.lookup name (sinkEntries (L.add (textLayer given) file)) =
      (fieldText (given? given) name).or (List.lookup name (sinkEntries file)) := by
  rw [fieldText]
  split
  · next hpath =>
    subst hpath
    exact at_add hL hgiven file .sinkPath
  · next hpath =>
    split
    · next hkind =>
      subst hkind
      exact at_add hL hgiven file .sinkKind
    · next hkind =>
      have hother : ∀ x : Variable, x.place ≠ .sink name := by
        intro x heq
        cases x with
        | capacity | timestamps | threadName => cases heq
        | sinkKind => exact hkind (Place.sink.inj heq).symm
        | sinkPath => exact hpath (Place.sink.inj heq).symm
      exact at_add_ne hL (by simp) fun e _ => hother e.1

theorem sinkSetting_add (hL : L.Lawful) (hgiven : (given.map Prod.fst).Nodup) (hsink : sinkIsTable file = true) :
    sinkSetting L (L.add (textLayer given) file) = sinkOf L file (given? given) := by
  have hentries : ∀ name, List.lookup name (sinkEntries (L.add (textLayer given) file)) =
      List.lookup name (replaced (given? given) (sinkEntries file)) := by
    intro name
    rw [lookup_sinkEntries_add hL hgiven, lookup_replaced]
  rw [sinkSetting_of_isTable (sinkIsTable_add hL hsink given), isSome_sink_add hL, sinkOf, sink_table_congr hL hentries]

theorem sinkOf_of_kind {v : Layered} (h : texts .sinkKind = some v) (file : Layers) :
    sinkOf L file texts = L.sink (.table (replaced texts (sinkEntries file))) := by
  rw [sinkOf, h, Option.isSome_some, Bool.true_or, Bool.or_true, if_pos rfl]

theorem sink_replaced {s : String} (hL : L.Lawful) (hs : texts .sinkKind = some (.text s .environment))
    (hkind : Kind.ofName s = .ok kind) (es : Layers) :
    L.sink (.table (replaced texts es)) =
      (targetOfFields (fieldsOf (replaced texts es)) kind).mapError misfitInSink := by
  have hlookup : List.lookup "kind" (replaced texts es) = some (.text s .environment) := by
    rw [lookup_replaced, fieldText, if_neg (by decide), if_pos rfl, hs]
    rfl
  exact sink_table_of_kind hL hlookup (mapError_eq_ok.mpr hkind)

/-- Entries that are no fields of the kind that a variable chose are not heard of. -/
theorem sink_leftovers {s : String} (hL : L.Lawful) (hs : texts .sinkKind = some (.text s .environment))
    (hkind : Kind.ofName s = .ok kind) (es : Layers) : L.sink (.table (replaced texts es)) =
      L.sink (.table (replaced texts (es.filter fun e => kind.fields.contains e.1))) := by
  rw [sink_replaced hL hs hkind, sink_replaced hL hs hkind]
  refine congrArg (Except.mapError misfitInSink) (targetOfFields_congr fun name hname => ?_)
  rw [fieldsOf, fieldsOf, lookup_replaced, lookup_replaced,
    lookup_filter kind.fields.contains, if_pos (List.contains_iff_mem.mpr hname)]

end

/-! ## The whole -/

/-- The variables that set anything are those of the list, in its order, with their texts. -/
def Sets (L : Layering) (vars : List (String × String)) (given : List (Variable × String)) : Prop :=
  (vars.filter fun e => (L.variableKey e.1).isSome) = given.map fun e => (e.1.name, e.2)

/-- A plain setting: the variable's text if there is one, else the file's entry, else the default. -/
def plainSetting {α : Type} (file : Layers) (texts : Variable → Option Layered) (x : Variable)
    (read : Layered → Except Fault α) (default : α) : Except Fault α :=
  match texts x, List.lookup x.key file with
  | some v, _ => read v
  | none, some v => read v
  | none, none => .ok default

section
variable {L : Layering} {source : Option Source} {file : Layers} {vars vars' : List (String × String)}
  {given given' : List (Variable × String)} {x : Variable}

theorem environment_of_sets (hL : L.Lawful) (h : Sets L vars given) : L.environment vars = textLayer given := by
  have hfilter : L.environment vars = L.environment (vars.filter fun e => (L.variableKey e.1).isSome) := by
    rw [Layering.environment, Layering.environment, List.filterMap_filter]
    refine congrArg (List.filterMap · vars) (funext fun e => ?_)
    cases hkey : L.variableKey e.1 <;> simp [hkey]
  rw [hfilter, h, Layering.environment, textLayer, List.filterMap_map]
  simp [variableKey_name hL, List.filterMap_eq_map']

theorem lookup_add (hL : L.Lawful) (hgiven : (given.map Prod.fst).Nodup) (hx : x.place = .root x.key) :
    List.lookup x.key (L.add (textLayer given) file) = (given? given x).or (List.lookup x.key file) := by
  have h := at_add hL hgiven file x
  rw [hx] at h
  exact h

theorem setting_add {α : Type} {read : Layered → Except Fault α} {default a : α}
    (hL : L.Lawful) (hgiven : (given.map Prod.fst).Nodup) (hx : x.place = .root x.key) :
    setting (L.add (textLayer given) file) x.key read default = .ok a ↔
      plainSetting file (given? given) x read default = .ok a := by
  rw [setting, plainSetting, lookup_add hL hgiven hx]
  cases given? given x with
  | some v => exact mapError_eq_ok
  | none =>
    cases List.lookup x.key file with
    | some v => exact mapError_eq_ok
    | none => simp

theorem given?_perm (hgiven : (given.map Prod.fst).Nodup) (h : given'.Perm given) : given? given' = given? given := by
  funext x
  rw [given?, given?, lookup_perm hgiven h.symm]

theorem load_of_sets (hL : L.Lawful) (hfile : L.base source = .ok file) (hbare : ∀ e ∈ file, isBare e.1 = true)
    (hvars : Sets L vars given) :
    L.load source vars = (L.config (L.add (textLayer given) file)).mapError .unfit :=
  load_of_gather (environment_of_sets hL hvars ▸ gather_of_bare hL hfile hbare vars)

theorem config_add_perm (hL : L.Lawful) (hgiven : (given.map Prod.fst).Nodup) (hsink : sinkIsTable file = true)
    (h : given'.Perm given) : L.config (L.add (textLayer given') file) =
      L.config (L.add (textLayer given) file) := by
  have hgiven' : (given'.map Prod.fst).Nodup := (h.map Prod.fst).nodup_iff.mpr hgiven
  have hplain : ∀ (x : Variable) (key : String), x.place = .root key → x.key = key →
      List.lookup key (L.add (textLayer given') file) = List.lookup key (L.add (textLayer given) file) := by
    rintro x key hx rfl
    rw [lookup_add hL hgiven' hx, lookup_add hL hgiven hx, given?_perm hgiven h]
  rw [config_eq hL, config_eq hL, sinkSetting_add hL hgiven' hsink, sinkSetting_add hL hgiven hsink,
    given?_perm hgiven h, setting_congr (hplain .capacity _ rfl rfl),
    setting_congr (hplain .threadName _ rfl rfl), setting_congr (hplain .timestamps _ rfl rfl)]

/-- Each plain setting comes from its variable, else from the file, else by default, and the
sink from the file's table with the variables' kind and path in it. Beside a kind from a
variable, entries that are no fields of it are not heard of. The order of the variables does not
matter. -/
theorem load_field_by_field (hL : L.Lawful) (hfile : L.base source = .ok file) (hbare : ∀ e ∈ file, isBare e.1 = true)
    (hsink : sinkIsTable file = true) (hgiven : (given.map Prod.fst).Nodup) (hvars : Sets L vars given) :
    (∀ c, L.load source vars = .ok c ↔
      plainSetting file (given? given) .capacity L.capacity 10000 = .ok c.capacity ∧
      plainSetting file (given? given) .timestamps L.timestamps false = .ok c.timestamps ∧
      plainSetting file (given? given) .threadName L.threadName "pipeq-logger" = .ok c.threadName ∧
      sinkOf L file (given? given) = .ok c.sink) ∧
    (∀ s kind, List.lookup .sinkKind given = some s → Kind.ofName s = .ok kind →
      sinkOf L file (given? given) = L.sink (.table (replaced (given? given)
        ((sinkEntries file).filter fun e => kind.fields.contains e.1))) ∧
      ∀ target, kind.target? = some target → sinkOf L file (given? given) = .ok target) ∧
    ∀ given' vars', given'.Perm given → Sets L vars' given' → L.load source vars' = L.load source vars := by
  refine ⟨fun c => ?_, fun s kind hs hkind => ?_, fun given' vars' hperm hvars' => ?_⟩
  · rw [load_of_sets hL hfile hbare hvars, mapError_eq_ok, config_layers_ok_iff hL, sinkSetting_add hL hgiven hsink,
      ← setting_add hL hgiven (x := .capacity) rfl, ← setting_add hL hgiven (x := .threadName) rfl,
      ← setting_add hL hgiven (x := .timestamps) rfl]
    constructor
    · rintro ⟨hcapacity, hsink, hthread, htimestamps⟩
      exact ⟨hcapacity, htimestamps, hthread, hsink⟩
    · rintro ⟨hcapacity, htimestamps, hthread, hsink⟩
      exact ⟨hcapacity, hsink, hthread, htimestamps⟩
  · have htext : given? given .sinkKind = some (.text s .environment) := by rw [given?, hs]; rfl
    rw [sinkOf_of_kind htext]
    refine ⟨sink_leftovers hL htext hkind _, fun target htarget => ?_⟩
    rw [sink_replaced hL htext hkind, targetOfFields_bare htarget]
    rfl
  · rw [load_of_sets hL hfile hbare hvars, load_of_sets hL hfile hbare hvars', config_add_perm hL hgiven hsink hperm]

end

/-! ## A file with leftovers -/

def leftover : Source :=
  ⟨"pipeq.toml", "capacity = 7\nthread_name = \"drain\"\n[sink]\nkind = \"file\"\npath = 3\nappend = \"maybe\"\n"⟩

def quieting : List (Variable × String) := [(.sinkKind, "null"), (.timestamps, "on"), (.capacity, "500")]

def quietingVariables : List (String × String) :=
  ("HOME", "/root") :: quieting.map fun e => (e.1.name, e.2)

theorem exists_base (source : Option Source) (p : Layers → Bool)
    (h : (layering.base source).toOption.any p = true) : ∃ file, layering.base source = .ok file ∧ p file = true := by
  cases hfile : layering.base source with
  | error e => simp [hfile, Except.toOption] at h
  | ok file => exact ⟨file, rfl, by simpa [hfile, Except.toOption] using h⟩

/-- The path and the append of the wrong type are left over below a kind that asks for neither. -/
theorem load_field_by_field_leftover : ∃ file, layering.base (some leftover) = .ok file ∧
    (∀ e ∈ file, isBare e.1 = true) ∧ sinkIsTable file = true ∧ (quieting.map Prod.fst).Nodup ∧
    Sets layering quietingVariables quieting ∧ sinkOf layering file (given? quieting) = .ok .null ∧
    layering.load (some leftover) quietingVariables =
      .ok { capacity := 500, timestamps := true, threadName := "drain", sink := .null } ∧
    ∀ given vars, given.Perm quieting → Sets layering vars given → layering.load (some leftover) vars =
      .ok { capacity := 500, timestamps := true, threadName := "drain", sink := .null } := by
  obtain ⟨file, hfile, hp⟩ := exists_base (some leftover)
    (fun file => file.all (fun e => isBare e.1) && sinkIsTable file) (by decide +kernel)
  obtain ⟨hbare, hsink⟩ := Bool.and_eq_true_iff.mp hp
  have hbare := List.all_eq_true.mp hbare
  have hsets : Sets layering quietingVariables quieting := by unfold Sets; decide
  have hload : layering.load (some leftover) quietingVariables =
      .ok { capacity := 500, timestamps := true, threadName := "drain", sink := .null } := by decide +kernel
  obtain ⟨-, hkind, horder⟩ := load_field_by_field lawful_layering hfile hbare hsink (by decide) hsets
  refine ⟨file, hfile, hbare, hsink, by decide, hsets, (hkind "null" .null rfl rfl).2 .null rfl, hload, ?_⟩
  intro given vars hperm hvars
  rw [horder given vars hperm hvars, hload]

end Conduit.Settings
