import Conduit.Proofs.Settings.Formats
import Conduit.Settings.Load

/-!
# What a variable does to the layers

A variable that is added last sets one entry: that entry has its text then, and the others
are as they were. A configuration is read from four entries, each by itself.
-/

namespace Conduit.Settings

/-! ## One entry -/

section
variable {L : Layering} {key other root name : String} {f : Layered → Layered} {es layers : Layers} {v : String}
  {w : Layered} {o : Origin}

theorem Layers.lookup_alter (key : String) (f : Layered → Layered) (es : Layers) :
    List.lookup key (es.alter key f) = some (f ((List.lookup key es).getD .nothing)) := by
  induction es with
  | nil => simp [Layers.alter]
  | cons e es ih =>
    obtain ⟨k, w⟩ := e
    by_cases hk : k = key
    · simp [Layers.alter, hk]
    · rw [Layers.alter, if_neg hk, lookup_cons_ne (Ne.symm hk), lookup_cons_ne (Ne.symm hk), ih]

theorem Layers.lookup_alter_ne (hne : other ≠ key) : List.lookup other (es.alter key f) = List.lookup other es := by
  induction es with
  | nil => simp [Layers.alter, lookup_cons_ne hne]
  | cons e es ih =>
    obtain ⟨k, w⟩ := e
    by_cases hk : k = key
    · subst hk
      rw [Layers.alter, if_pos rfl, lookup_cons_ne hne, lookup_cons_ne hne]
    · rw [Layers.alter, if_neg hk, lookup_cons_if, lookup_cons_if, ih]

theorem over_text (old : Layered) : (Layered.text v o).over old = .text v o := by
  simp [Layered.over]

theorem lookup_set (hL : L.Lawful) (hkey : isBare key = true) :
    List.lookup key (L.set key (.text v o) layers) = some (.text v o) := by
  rw [hL.set_bare _ _ hkey, Layers.lookup_alter, over_text]

theorem lookup_set_ne (hL : L.Lawful) (hkey : isBare key = true) (hne : other ≠ key) :
    List.lookup other (L.set key w layers) = List.lookup other layers := by
  rw [hL.set_bare _ _ hkey, Layers.lookup_alter_ne hne]

theorem lookup_set_under (hL : L.Lawful) (hroot : isBare root = true) (hname : isBare name = true) :
    List.lookup root (L.set (root ++ "." ++ name) (.text v o) layers) =
      some (.table (Layers.alter name (fun _ => .text v o) ((List.lookup root layers).getD .nothing).entries)) := by
  have hover : (Layered.text v o).over = fun _ => .text v o := funext over_text
  rw [hL.set_under _ _ hroot hname, Layers.lookup_alter, hover]

theorem lookup_set_under_ne (hL : L.Lawful) (hroot : isBare root = true) (hname : isBare name = true)
    (hne : other ≠ root) : List.lookup other (L.set (root ++ "." ++ name) w layers) = List.lookup other layers := by
  rw [hL.set_under _ _ hroot hname, Layers.lookup_alter_ne hne]

end

/-! ## One more variable -/

section
variable {L : Layering} {source : Option Source} {vars : List (String × String)} {layers : Layers} {c : Log.Config}
  {name key : String}

theorem environment_snoc (hkey : L.variableKey name = some key) (vars : List (String × String)) (v : String) :
    L.environment (vars ++ [(name, v)]) = L.environment vars ++ [(key, .text v .environment)] := by
  simp [Layering.environment, List.filterMap_append, hkey]

theorem gather_snoc (h : L.gather source vars = .ok layers) (hkey : L.variableKey name = some key) (v : String) :
    L.gather source (vars ++ [(name, v)]) = .ok (L.set key (.text v .environment) layers) := by
  have hadd : ∀ file, L.add (L.environment (vars ++ [(name, v)])) file =
      L.set key (.text v .environment) (L.add (L.environment vars) file) := by
    intro file
    rw [environment_snoc hkey, Layering.add, List.foldl_append]
    rfl
  cases source with
  | none =>
    obtain rfl : L.add (L.environment vars) [] = layers := Except.ok.inj h
    exact congrArg Except.ok (hadd _)
  | some s =>
    unfold Layering.gather at h ⊢
    cases hfile : L.file s with
    | error e =>
      simp only [hfile] at h
      cases h
    | ok file =>
      simp only [hfile] at h ⊢
      obtain rfl : L.add (L.environment vars) (L.add file []) = layers := Except.ok.inj h
      exact congrArg Except.ok (hadd _)

theorem load_of_gather (h : L.gather source vars = .ok layers) :
    L.load source vars = (L.config layers).mapError .unfit := by
  rw [Layering.load, h]
  rfl

theorem exists_layers_of_load (h : L.load source vars = .ok c) :
    ∃ layers, L.gather source vars = .ok layers ∧ L.config layers = .ok c := by
  obtain ⟨layers, hg, hc⟩ := bind_eq_ok.mp h
  exact ⟨layers, hg, mapError_eq_ok.mp hc⟩

theorem load_snoc (h : L.gather source vars = .ok layers) (hkey : L.variableKey name = some key) (v : String) :
    L.load source (vars ++ [(name, v)]) = (L.config (L.set key (.text v .environment) layers)).mapError .unfit :=
  load_of_gather (gather_snoc h hkey v)

end

/-! ## The four settings -/

section
variable {L : Layering} {layers layers' : Layers} {c : Log.Config}

/-- A plain setting, from its entry or by default. -/
def setting {α : Type} (layers : Layers) (key : String) (read : Layered → Except Fault α) (default : α) :
    Except Misfit α :=
  (List.lookup key layers).elim (.ok default) fun v => (read v).mapError fun f => .at f key v.origin

theorem setting_congr {α : Type} {key : String} {read : Layered → Except Fault α} {default : α}
    (h : List.lookup key layers' = List.lookup key layers) :
    setting layers' key read default = setting layers key read default := by
  rw [setting, setting, h]

theorem setting_of_lookup {α : Type} {key : String} {read : Layered → Except Fault α} {default a : α} {v : Layered}
    (h : List.lookup key layers = some v) (hread : read v = .ok a) : setting layers key read default = .ok a := by
  rw [setting, h, Option.elim_some, hread]
  rfl

def sinkSetting (L : Layering) (layers : Layers) : Except Misfit Log.Target :=
  (List.lookup "sink" layers).elim (.ok .stdout) L.sink

theorem sinkSetting_congr (h : List.lookup "sink" layers' = List.lookup "sink" layers) :
    sinkSetting L layers' = sinkSetting L layers := by
  rw [sinkSetting, sinkSetting, h]

theorem record_layers (hL : L.Lawful) (layers : Layers) :
    L.derived.record (L.format.record L.derived) .blank (byKey layers) = (do
      let capacity ← L.format.slot L.derived layers .capacity
      let sink ← L.format.slot L.derived layers .sink
      let threadName ← L.format.slot L.derived layers .threadName
      let timestamps ← L.format.slot L.derived layers .timestamps
      return fill? (fill? (fill? (fill? .blank .capacity capacity) .sink sink) .threadName threadName)
        .timestamps timestamps) := by
  have hR := L.format.wellFormed_record L.derived
  rw [record_byKey hL.derived hR fun _ => rfl]
  refine (record_entriesOf_cons hL.derived hR rfl).trans (congrArg _ (funext fun capacity => ?_))
  refine (record_entriesOf_cons hL.derived hR ?_).trans (congrArg _ (funext fun sink => ?_))
  · cases capacity <;> rfl
  refine (record_entriesOf_cons hL.derived hR ?_).trans (congrArg _ (funext fun threadName => ?_))
  · cases capacity <;> cases sink <;> rfl
  refine (record_entriesOf_cons hL.derived hR ?_).trans (congrArg _ (funext fun timestamps => ?_))
  · cases capacity <;> cases sink <;> cases threadName <;> rfl
  exact hL.derived.record_nil ..

theorem configOf_fill (capacity : Option Nat) (sink : Option Log.Target) (threadName : Option String)
    (timestamps : Option Bool) :
    Format.configOf (fill? (fill? (fill? (fill? .blank .capacity capacity) .sink sink) .threadName threadName)
      .timestamps timestamps) =
      { capacity := capacity.getD 10000, sink := sink.getD .stdout,
        threadName := threadName.getD "pipeq-logger", timestamps := timestamps.getD false } := by
  cases capacity <;> cases sink <;> cases threadName <;> cases timestamps <;> rfl

theorem elim_eq_map_getD {α : Type} (v? : Option Layered) (read : Layered → Except Misfit α) (default : α) :
    v?.elim (.ok default) read = (v?.elim (.ok none) fun v => (read v).map some).map (·.getD default) := by
  cases v? with
  | none => rfl
  | some v => cases h : read v <;> simp [h, Except.map]

/-- A configuration is read from the entries of its settings, one after another. -/
theorem config_eq (hL : L.Lawful) (layers : Layers) : L.config layers = (do
    let capacity ← setting layers "capacity" L.capacity 10000
    let sink ← sinkSetting L layers
    let threadName ← setting layers "thread_name" L.threadName "pipeq-logger"
    let timestamps ← setting layers "timestamps" L.timestamps false
    return { capacity, sink, timestamps, threadName }) := by
  have hconfig : L.config layers = L.derived.record (L.format.record L.derived) .blank (byKey layers) >>=
      fun slots => .ok (Format.configOf slots) := rfl
  have hcapacity : setting layers "capacity" L.capacity 10000 =
      (L.format.slot L.derived layers .capacity).map (·.getD 10000) :=
    elim_eq_map_getD ..
  have hsink : sinkSetting L layers = (L.format.slot L.derived layers .sink).map (·.getD .stdout) := elim_eq_map_getD ..
  have hthread : setting layers "thread_name" L.threadName "pipeq-logger" =
      (L.format.slot L.derived layers .threadName).map (·.getD "pipeq-logger") := elim_eq_map_getD ..
  have htimestamps : setting layers "timestamps" L.timestamps false =
      (L.format.slot L.derived layers .timestamps).map (·.getD false) :=
    elim_eq_map_getD ..
  rw [hconfig, record_layers hL, hcapacity, hsink, hthread, htimestamps]
  cases L.format.slot L.derived layers .capacity with
  | error f => rfl
  | ok capacity => cases L.format.slot L.derived layers .sink with
    | error f => rfl
    | ok sink => cases L.format.slot L.derived layers .threadName with
      | error f => rfl
      | ok threadName => cases L.format.slot L.derived layers .timestamps with
        | error f => rfl
        | ok timestamps => exact congrArg Except.ok (configOf_fill ..)

theorem config_layers_ok_iff (hL : L.Lawful) : L.config layers = .ok c ↔
    setting layers "capacity" L.capacity 10000 = .ok c.capacity ∧ sinkSetting L layers = .ok c.sink ∧
    setting layers "thread_name" L.threadName "pipeq-logger" = .ok c.threadName ∧
    setting layers "timestamps" L.timestamps false = .ok c.timestamps := by
  simp only [config_eq hL, bind_eq_ok]
  constructor
  · rintro ⟨capacity, hcapacity, sink, hsink, threadName, hthread, timestamps, htimestamps, hc⟩
    obtain rfl := Except.ok.inj hc
    exact ⟨hcapacity, hsink, hthread, htimestamps⟩
  · rintro ⟨hcapacity, hsink, hthread, htimestamps⟩
    exact ⟨_, hcapacity, _, hsink, _, hthread, _, htimestamps, rfl⟩

theorem config_set_sink {name : String} (hL : L.Lawful) (hc : L.config layers = .ok c) (hname : isBare name = true)
    (w : Layered) : L.config (L.set ("sink" ++ "." ++ name) w layers) =
      (sinkSetting L (L.set ("sink" ++ "." ++ name) w layers)).map fun sink => { c with sink } := by
  obtain ⟨hcapacity, -, hthread, htimestamps⟩ := (config_layers_ok_iff hL).mp hc
  have hother : ∀ other, other ≠ "sink" →
      List.lookup other (L.set ("sink" ++ "." ++ name) w layers) = List.lookup other layers :=
    fun other hne => lookup_set_under_ne hL (by decide) hname hne
  rw [← setting_congr (hother "capacity" (by decide))] at hcapacity
  rw [← setting_congr (hother "thread_name" (by decide))] at hthread
  rw [← setting_congr (hother "timestamps" (by decide))] at htimestamps
  rw [config_eq hL, hcapacity, hthread, htimestamps]
  cases sinkSetting L (L.set ("sink" ++ "." ++ name) w layers) <;> rfl

theorem config_set_timestamps {v : String} {o : Origin} {b : Bool} (hL : L.Lawful) (hc : L.config layers = .ok c)
    (hb : L.timestamps (.text v o) = .ok b) :
    L.config (L.set "timestamps" (.text v o) layers) = .ok { c with timestamps := b } := by
  obtain ⟨hcapacity, hsink, hthread, -⟩ := (config_layers_ok_iff hL).mp hc
  have hother : ∀ other, other ≠ "timestamps" →
      List.lookup other (L.set "timestamps" (.text v o) layers) = List.lookup other layers :=
    fun other hne => lookup_set_ne hL (by decide) hne
  rw [← setting_congr (hother "capacity" (by decide))] at hcapacity
  rw [← sinkSetting_congr (hother "sink" (by decide))] at hsink
  rw [← setting_congr (hother "thread_name" (by decide))] at hthread
  exact (config_layers_ok_iff hL).mpr
    ⟨hcapacity, hsink, hthread, setting_of_lookup (lookup_set hL (by decide)) hb⟩

end

/-! ## The sink -/

section
variable {L : Layering} {es es' : Layers} {kind : Kind} {k : Layered}

def fieldsOf (es : Layers) (name : String) : Option Item := (List.lookup name es).map Layered.item

theorem sink_table (hL : L.Lawful) (es : Layers) : L.sink (.table es) =
    (List.lookup "kind" es).elim (.error (.missing "sink.kind")) fun k =>
      L.format.kind .entry k >>= fun kind => (targetOfFields (fieldsOf es) kind).mapError misfitInSink := by
  have hsorted : Sorted (keptOf L.format.kindTag Layered.item (byKey es)) := sorted_keptOf (sorted_byKey es)
  have hfields : ∀ name, name ≠ "kind" →
      List.lookup name (keptOf L.format.kindTag Layered.item (byKey es)) = fieldsOf es name := by
    intro name hne
    rw [lookup_keptOf hne, lookup_byKey, fieldsOf]
  have htarget : ∀ kind, targetOfKept L.derived kind (keptOf L.format.kindTag Layered.item (byKey es)) =
      targetOfFields (fieldsOf es) kind := by
    intro kind
    rw [targetOfKept_of_sorted hL.derived hsorted, targetOfFields_congr_names hfields]
  have hshape : L.format.shape (.table es) = .table es := rfl
  have hread := sink_of_keep hL.derived Layered.item hshape (nodup_byKey es) fun _ _ _ => rfl
  have hentries : L.format.entries es = byKey es := rfl
  simp only [hentries, lookup_byKey, htarget] at hread
  exact hread

theorem sink_table_of_kind (hL : L.Lawful) (hk : List.lookup "kind" es = some k)
    (hkind : L.format.kind .entry k = .ok kind) :
    L.sink (.table es) = (targetOfFields (fieldsOf es) kind).mapError misfitInSink := by
  rw [sink_table hL, hk, Option.elim_some, hkind]
  rfl

theorem sink_table_congr (hL : L.Lawful) (h : ∀ name, List.lookup name es = List.lookup name es') :
    L.sink (.table es) = L.sink (.table es') := by
  have hfields : fieldsOf es = fieldsOf es' := funext fun name => by rw [fieldsOf, fieldsOf, h]
  rw [sink_table hL, sink_table hL, h, hfields]

end

end Conduit.Settings
