import Conduit.Settings.Sink

/-!
# Formats

The readers of settings are the same for every format. A format hands on the entries of a table
in an order of its own and answers when a value is asked for as a setting, as the kind of a sink
or as something to keep aside.
-/

namespace Conduit.Settings

/-- A value as a reader of anything is handed it. -/
inductive Shape (V : Type)
  | table (es : List (String × V))
  | array (vs : List V)
  | other (found : Found)

/-- Where the kind of a sink stands: in an entry of its own, or first in an array. -/
inductive KindPlace
  | entry
  | front
  deriving DecidableEq, Repr

structure Format (V E : Type) where
  entries : List (String × V) → List (String × V)
  shape : V → Shape V
  capacity : V → Except E Nat
  timestamps : V → Except E Bool
  threadName : V → Except E String
  kind : KindPlace → V → Except E Kind
  keep : V → Except E Item
  skip : V → Except E Unit
  duplicate : String → E
  inSink : Fault → E

inductive Setting
  | capacity
  | sink
  | timestamps
  | threadName
  deriving DecidableEq, Repr

namespace Setting

def key : Setting → String
  | capacity => "capacity"
  | sink => "sink"
  | timestamps => "timestamps"
  | threadName => "thread_name"

def all : List Setting := [capacity, sink, threadName, timestamps]

abbrev Content : Setting → Type
  | capacity => Nat
  | sink => Log.Target
  | timestamps => Bool
  | threadName => String

end Setting

namespace Format

variable {V E : Type}

def kindTag (F : Format V E) : Tag V E Kind Item where
  name := "kind"
  read := F.kind .entry
  keep := F.keep
  duplicate := F.inSink (.duplicate "kind")

def sink (F : Format V E) (D : Derived) (v : V) : Except E Log.Target :=
  match F.shape v with
  | .table es => do
    match ← D.tagged F.kindTag none [] (F.entries es) with
    | (none, _) => .error (F.inSink (.missing "kind"))
    | (some kind, kept) => (targetOfKept D kind kept).mapError F.inSink
  | .array [] => .error (F.inSink (.missing "kind"))
  | .array (v :: vs) => do
    let kind ← F.kind .front v
    let kept ← vs.mapM F.keep
    (targetOfItems kind kept).mapError F.inSink
  | .other found => .error (F.inSink (.wrongType found .sink))

def record (F : Format V E) (D : Derived) : Record Setting.Content V E where
  fields := Setting.all
  key := Setting.key
  read
    | .capacity => F.capacity
    | .sink => F.sink D
    | .timestamps => F.timestamps
    | .threadName => F.threadName
  skip := F.skip
  duplicate := F.duplicate

def configOf (slots : Slots Setting.Content) : Log.Config :=
  let defaults : Log.Config := {}
  { capacity := (slots .capacity).getD defaults.capacity
    sink := (slots .sink).getD defaults.sink
    timestamps := (slots .timestamps).getD defaults.timestamps
    threadName := (slots .threadName).getD defaults.threadName }

def config (F : Format V E) (D : Derived) (es : List (String × V)) : Except E Log.Config := do
  return configOf (← D.record (F.record D) .blank (F.entries es))

end Format

end Conduit.Settings
