import Conduit.Log.Lifetime
import Conduit.Proofs.Files
import Conduit.Proofs.Log.Waiting
import Mathlib.Data.List.Induction

/-!
# Loggers one after the other on a file

While a logger lives its file has all that the sink has accepted, but for what the buffer holds
back, and the flush before the worker's end passes that on (`Written`). When the logger is over
the call that waited for the worker has told how many lines that are. So each logger leaves in
the file what it found there, or nothing, and its accepted lines, and the next one finds that
(`lifetimes_write_accepted_lines`).
-/

namespace Conduit

/-! ## Buffers -/

namespace Sink.Buffer

/-- No byte is lost or moved: what is passed on and what is held are what was held and the piece. -/
theorem write_eq (piece : String) (b : Buffer) :
    (b.write piece).2 ++ (b.write piece).1.held = b.held ++ piece := by
  unfold write
  by_cases hfits : piece.utf8ByteSize < b.spare
  · simp [hfits]
  rw [if_neg hfits]
  by_cases hspare : b.spare < piece.utf8ByteSize
  · by_cases hroom : b.room ≤ piece.utf8ByteSize <;> simp [hspare, hroom, flush]
  by_cases hroom : b.room ≤ piece.utf8ByteSize
  · -- the piece goes past a buffer without a flush, so one of the two is empty
    have hempty : b.held.utf8ByteSize = 0 ∨ piece.utf8ByteSize = 0 := by
      unfold spare at hfits hspare
      omega
    rw [String.utf8ByteSize_eq_zero_iff, String.utf8ByteSize_eq_zero_iff] at hempty
    obtain h | h := hempty <;> simp [hspare, hroom, h]
  · simp [hspare, hroom]

end Sink.Buffer

namespace Log

/-! ## A file behind a buffer -/

section
variable {s : Surroundings} {p : Path} {k : FileSink} {text : String}

def Surroundings.withText (s : Surroundings) (p : Path) (text : String) : Surroundings :=
  { s with files := s.files.put p text }

theorem withText_withText (s : Surroundings) (p : Path) (text other : String) :
    (s.withText p text).withText p other = s.withText p other := by
  rw [Surroundings.withText, Surroundings.withText, Surroundings.withText]
  simp only [Files.put_put]

theorem write_withText (s : Surroundings) (p : Path) (text more : String) :
    (Outlet.file p).write more (s.withText p text) = s.withText p (text ++ more) := by
  have htext : (s.withText p text).files.text? p = some text := Files.text?_put_self s.files p text
  rw [Outlet.write, Files.appendTo, htext]
  exact withText_withText s p text (text ++ more)

/-- The file and the buffer have the text between them, the file its first part. -/
structure FileSink.Holds (s : Surroundings) (p : Path) (text : String) (k : FileSink) : Prop where
  place : k.place = p
  text : ∃ t, k.around = s.withText p t ∧ t ++ k.buffer.held = text

theorem FileSink.Holds.pass (h : k.Holds s p text) {b : Sink.Buffer} {passed more : String}
    (hb : passed ++ b.held = k.buffer.held ++ more) : (k.pass (b, passed)).Holds s p (text ++ more) := by
  obtain ⟨rfl, t, haround, rfl⟩ := h
  refine ⟨rfl, t ++ passed, ?_, ?_⟩
  · show (if passed = "" then k.around else _) = _
    rw [haround]
    split
    · next hnone => rw [hnone, String.append_empty]
    · exact write_withText s k.place t passed
  · rw [String.append_assoc, String.append_assoc, ← hb]
    rfl

theorem FileSink.Holds.write (h : k.Holds s p text) (piece : String) : (k.write piece).Holds s p (text ++ piece) :=
  h.pass (k.buffer.write_eq piece)

theorem FileSink.Holds.writeLine (h : k.Holds s p text) (line : String) :
    (k.writeLine line).Holds s p (text ++ line ++ "\n") :=
  (h.write line).write "\n"

theorem FileSink.Holds.flush (h : k.Holds s p text) : k.flush.Holds s p text := by
  have hflush : k.flush.Holds s p (text ++ "") := h.pass rfl
  rw [String.append_empty] at hflush
  exact hflush

theorem held_flush (k : FileSink) : k.flush.buffer.held = "" := rfl

theorem FileSink.Holds.around (h : k.Holds s p text) (hheld : k.buffer.held = "") : k.around = s.withText p text := by
  obtain ⟨-, t, haround, ht⟩ := h
  rw [haround, ← ht, hheld, String.append_empty]

theorem textOf_snoc (lines : List String) (line : String) :
    textOf (lines ++ [line]) = textOf lines ++ line ++ "\n" := by
  rw [textOf, List.foldl_append]
  rfl

theorem writeLines_withText (s : Surroundings) (p : Path) (text : String) (lines : List String) :
    (Outlet.file p).writeLines lines (s.withText p text) = s.withText p (text ++ textOf lines) := by
  have hholds : (lines.foldl (fun k line => k.writeLine line) ⟨p, {}, s.withText p text⟩ : FileSink).Holds s p
      (text ++ textOf lines) := by
    induction lines using List.reverseRecOn with
    | nil => exact ⟨rfl, text, rfl, rfl⟩
    | append_singleton lines line ih =>
      rw [List.foldl_append, textOf_snoc, ← String.append_assoc, ← String.append_assoc]
      exact ih.writeLine line
  exact hholds.flush.around (held_flush _)

end

/-! ## One lifetime -/

inductive Runs (l₀ : Lifetime) : List Event → Lifetime → Prop
  | refl : Runs l₀ [] l₀
  | step {past : List Event} {l : Lifetime} (t : Nat) (a : Lifetime.Act) : Runs l₀ past l →
      Runs l₀ (⟨t, a.atLogger, l.logger.accepts a.atLogger, l.logger.loses a.atLogger⟩ :: past) (l.step a)

def Worker.isSound : Worker → Bool
  | .failing _ _ | .clearing _ _ | .counting _ _ | .ended (.failed _) | .ended (.panicked _) => false
  | _ => true

/-- File and buffer have the stored lines after the text that was there, and the buffer has
nothing when the worker has ended. -/
structure Written (s : Surroundings) (p : Path) (text : String) (l : Lifetime) : Prop where
  sink : l.sink.Holds s p (text ++ textOf l.logger.stored.toList)
  sound : l.logger.worker.isSound = true
  flushed : l.logger.worker = .ended .finished → l.sink.buffer.held = ""

section
variable {s : Surroundings} {p : Path} {text : String} {l : Lifetime} {capacity : Nat} {past : List Event}

theorem Runs.steps (h : Runs (.start capacity p s) past l) : Steps (.start capacity) past l.logger := by
  induction h with
  | refl => exact .refl
  | step t a _ ih => exact ih.step t a.atLogger

theorem isSound_afterPop (a : Blocking.Answer String) : (Logger.afterPop a).isSound = true := by
  cases a <;> rfl

theorem isSound_afterLine (lines : List String) : (Logger.afterLine lines).isSound = true := by
  cases lines <;> rfl

theorem Written.work (h : Written s p text l) : Written s p text (l.step .work) := by
  obtain ⟨⟨queue, worker, written, stored, dropped, refusing, handle, outcome, callers⟩, sink⟩ := l
  obtain ⟨hsink, hsound, hflushed⟩ := h
  have hpush : ∀ line, text ++ textOf stored.toList ++ line ++ "\n" = text ++ textOf (stored.push line).toList := by
    intro line
    rw [Array.toList_push, textOf_snoc, ← String.append_assoc, ← String.append_assoc]
  cases worker with
  | popping => exact ⟨hsink, isSound_afterPop _, fun h => absurd h (afterPop_ne_ended _ _)⟩
  | asleep =>
    cases hq : queue.resumePop 0 0 with
    | none =>
      simp only [Lifetime.step, Lifetime.Act.atLogger, Logger.step, Logger.work, hq]
      exact ⟨hsink, hsound, hflushed⟩
    | some q =>
      simp only [Lifetime.step, Lifetime.Act.atLogger, Logger.step, Logger.work, hq]
      exact ⟨hsink, isSound_afterPop _, fun h => absurd h (afterPop_ne_ended _ _)⟩
  | writing line => exact ⟨hpush line ▸ hsink.writeLine line, rfl, fun h => by cases h⟩
  | draining => exact ⟨hsink, isSound_afterLine _, fun h => absurd h (afterLine_ne_ended _ _)⟩
  | closing line rest =>
    exact ⟨hpush line ▸ hsink.writeLine line, isSound_afterLine _, fun h => absurd h (afterLine_ne_ended _ _)⟩
  | flushing => exact ⟨hsink.flush, rfl, fun _ => held_flush sink⟩
  | failing | clearing | counting => cases hsound
  | ended e => exact ⟨hsink, hsound, hflushed⟩

theorem Written.step (h : Written s p text l) (a : Lifetime.Act) : Written s p text (l.step a) := by
  by_cases ha : a = .work
  · subst ha
    exact h.work
  have hwork : ∀ r, a.atLogger ≠ .work r := by
    intro r
    cases a with
    | work => exact absurd rfl ha
    | submit | countRefused | call | advance => nofun
  obtain ⟨hworker, -, hstored⟩ := worker_step (s := l.logger) hwork
  have hsink : (l.step a).sink = l.sink := if_neg ha
  refine ⟨?_, ?_, ?_⟩
  · rw [hsink]
    show l.sink.Holds s p (text ++ textOf (l.logger.step a.atLogger).stored.toList)
    rw [hstored]
    exact h.sink
  · exact (congrArg Worker.isSound hworker).trans h.sound
  · intro hw
    rw [hsink]
    exact h.flushed (hworker ▸ hw)

theorem Runs.written (h : Runs (.start capacity p (s.withText p text)) past l) : Written s p text l := by
  induction h with
  | refl =>
    refine ⟨⟨rfl, text, rfl, ?_⟩, rfl, nofun⟩
    rfl
  | step t a _ ih => exact ih.step a

end

/-! ## The end of a lifetime -/

section
variable {s : Surroundings} {p : Path} {text : String} {l : Lifetime} {capacity : Nat} {past : List Event}

theorem returned_of_isOver (h : l.isOver = true) :
    (∃ r, l.logger.callers[0]? = some (.returned r)) ∧
    ∀ (i : Nat) (c : Caller), l.logger.callers[i]? = some c → ∃ r, c = .returned r := by
  obtain ⟨hcalled, hall⟩ := Bool.and_eq_true_iff.mp h
  have hreturned : ∀ i < l.logger.callers.size, ∃ r, l.logger.callers[i]? = some (.returned r) := by
    intro i hi
    obtain ⟨r, hr⟩ := Option.isSome_iff_exists.mp (List.all_eq_true.mp hall i (List.mem_range.mpr hi))
    exact ⟨r, Logger.returned?_eq_some.mp hr⟩
  refine ⟨hreturned 0 ?_, fun i c hc => ?_⟩
  · rw [Array.size_pos_iff]
    simpa using hcalled
  · obtain ⟨hlt, -⟩ := Array.getElem?_eq_some_iff.mp hc
    obtain ⟨r, hr⟩ := hreturned i hlt
    exact ⟨r, Option.some.inj (hc.symm.trans hr)⟩

theorem ending_of_isSound {e : Ending} (h : (Worker.ended e).isSound = true) : e = .finished := by
  cases e with
  | finished => rfl
  | failed | panicked => cases h

theorem Runs.over (h : Runs (.start capacity p (s.withText p text)) past l) (hover : l.isOver = true) :
    l.sink.around = s.withText p (text ++ textOf ((accepted past).map Entry.line)) ∧
    ∃ i dropped, l.logger.returned? i = some (.ok ⟨(accepted past).length, dropped⟩) := by
  obtain ⟨⟨r, hr⟩, hreturned⟩ := returned_of_isOver hover
  obtain ⟨i, c, hi, hc⟩ := h.steps.waited (h.steps.handle_of_returned hr)
  obtain ⟨r', rfl⟩ := hreturned i c hi
  obtain ⟨e, dropped, he, rfl⟩ := hc
  have hwritten := h.written
  obtain rfl : e = .finished := ending_of_isSound (he ▸ hwritten.sound)
  have hstored : l.logger.stored.toList = (accepted past).map Entry.line := (stored_in_order h.steps).complete he
  have hcount : l.logger.written = (accepted past).length := by
    rw [h.steps.balanced.written, ← Array.length_toList, hstored, List.length_map]
  refine ⟨?_, i, dropped, ?_⟩
  · rw [← hstored]
    exact hwritten.sink.around (hwritten.flushed he)
  · rw [← hcount]
    exact Logger.returned?_eq_some.mpr hi

theorem Runs.around_eq_writeLines (h : Runs (.start capacity p (s.withText p text)) past l) (hover : l.isOver = true) :
    l.sink.around = (Outlet.file p).writeLines ((accepted past).map Entry.line) (s.withText p text) := by
  rw [writeLines_withText]
  exact (h.over hover).1

end

/-! ## One after the other -/

structure Life where
  append : Bool
  log : List Event
  final : Logger

def Life.lines (x : Life) : List String := (accepted x.log).map Entry.line

/-- Loggers on the file of a path, each started once the one before was over; the newest comes
first. -/
inductive Lifetimes (path : String) (s : Surroundings) : List Life → Surroundings → Prop
  | none : Lifetimes path s [] s
  | next {lives : List Life} {s₁ opened : Surroundings} {c : Config} {append : Bool} {place : Path}
      {log : List Event} {l : Lifetime} : Lifetimes path s lives s₁ → c.sink = .file path append →
      c.launch s₁ = (opened, .ok (.file place)) → Runs (.start c.capacity place opened) log l →
      l.isOver = true → Lifetimes path s (⟨append, log, l.logger⟩ :: lives) l.sink.around

def textAfter (old : Option String) : List Life → Option String
  | [] => old
  | x :: lives => some ((if x.append then (textAfter old lives).getD "" else "") ++ textOf x.lines)

structure Left (path : String) (p : Path) (s : Surroundings) (lives : List Life) (s' : Surroundings) : Prop where
  text : s'.files.text? p = textAfter (s.files.text? p) lives
  others : ∀ q, q ≠ p → s'.files.text? q = s.files.text? q
  folders : s'.files.folders = s.files.folders
  streams : s'.stdout = s.stdout ∧ s'.stderr = s.stderr
  told : ∀ x ∈ lives, ∃ i dropped, x.final.returned? i = some (.ok ⟨x.lines.length, dropped⟩)
  place : s'.files.writable path = .ok p

section
variable {path : String} {p : Path} {s s₁ s' : Surroundings} {lives : List Life} {c : Config} {append : Bool}

theorem launch_file (hc : c.sink = .file path append) (hp : s.files.writable path = .ok p) :
    c.launch s =
      (s.withText p (if append then (s.files.text? p).getD "" else ""), c.checkName.map fun _ => .file p) := by
  rw [Config.launch, hc, Target.open?, Files.openFile_of_writable hp]
  rfl

theorem place_of_checkName {q : Path} (h : (c.checkName.map fun _ => Outlet.file p) = .ok (.file q)) : p = q := by
  cases hname : c.checkName with
  | error e =>
    rw [hname] at h
    cases h
  | ok u =>
    rw [hname] at h
    cases h
    rfl

theorem checkName_ne_failure (c : Config) (f : Failure) : c.checkName ≠ .error (.failure f) := by
  unfold Config.checkName
  split <;> nofun

/-- Only a file that cannot be opened, and not a bad name, keeps everything as it was. -/
theorem launch_failure {f : Failure} (h : (c.launch s).2 = .error (.failure f)) : (c.launch s).1 = s := by
  cases hopen : c.sink.open? s with
  | error e => rw [Config.launch, hopen]
  | ok opened =>
    rw [Config.launch, hopen] at h
    cases hname : c.checkName with
    | error e =>
      rw [hname] at h
      cases h
      exact absurd hname (checkName_ne_failure c f)
    | ok u =>
      rw [hname] at h
      cases h

theorem Left.next (h : Left path p s lives s₁) (x : Life)
    (hs' : s' = s₁.withText p ((if x.append then (s₁.files.text? p).getD "" else "") ++ textOf x.lines))
    (htold : ∃ i dropped, x.final.returned? i = some (.ok ⟨x.lines.length, dropped⟩)) :
    Left path p s (x :: lives) s' := by
  subst hs'
  refine ⟨?_, ?_, ?_, h.streams, ?_, Files.writable_put h.place p _⟩
  · rw [textAfter, ← h.text]
    exact Files.text?_put_self s₁.files p _
  · intro q hq
    exact (Files.text?_put_ne hq s₁.files _).trans (h.others q hq)
  · exact (Files.folders_put s₁.files p _).trans h.folders
  · exact List.forall_mem_cons.mpr ⟨htold, h.told⟩

theorem Lifetimes.left (h : Lifetimes path s lives s') (hp : s.files.writable path = .ok p) :
    Left path p s lives s' := by
  induction h with
  | none => exact ⟨rfl, fun _ _ => rfl, rfl, ⟨rfl, rfl⟩, fun x hx => absurd hx List.not_mem_nil, hp⟩
  | @next lives s₁ opened c append place log l _ hc hlaunch hruns hover ih =>
    rw [launch_file hc ih.place] at hlaunch
    simp only [Prod.mk.injEq] at hlaunch
    obtain ⟨hopened, hok⟩ := hlaunch
    obtain rfl : p = place := place_of_checkName hok
    subst hopened
    obtain ⟨haround, i, dropped, hi⟩ := hruns.over hover
    refine ih.next ⟨append, log, l.logger⟩ haround ⟨i, dropped, ?_⟩
    rw [Life.lines, List.length_map]
    exact hi

/-- Each logger on a file that can be opened leaves its accepted lines there, after what it found
or after nothing, and tells their number; nothing else changes, and the next one can start. A
logger whose file cannot be opened changes nothing. -/
theorem lifetimes_write_accepted_lines (hp : s.files.writable path = .ok p) (h : Lifetimes path s lives s') :
    Left path p s lives s' ∧
    (∀ (c : Config) (append : Bool), c.sink = .file path append → c.checkName = .ok () →
      (c.launch s').2 = .ok (.file p)) ∧
    ∀ (c : Config) (s : Surroundings) (f : Failure), (c.launch s).2 = .error (.failure f) → (c.launch s).1 = s := by
  have hleft := h.left hp
  refine ⟨hleft, fun c append hc hname => ?_, fun c s f => launch_failure⟩
  rw [launch_file hc hleft.place, hname]
  rfl

end

/-! ## Two loggers -/

def play : List (Nat × Lifetime.Act) → List Event × Lifetime → List Event × Lifetime
  | [], r => r
  | (t, a) :: acts, (past, l) =>
    play acts (⟨t, a.atLogger, l.logger.accepts a.atLogger, l.logger.loses a.atLogger⟩ :: past, l.step a)

theorem Runs.play {l₀ l : Lifetime} {past : List Event} (h : Runs l₀ past l) (acts : List (Nat × Lifetime.Act)) :
    Runs l₀ (Log.play acts (past, l)).1 (Log.play acts (past, l)).2 := by
  induction acts generalizing past l with
  | nil => exact h
  | cons e acts ih => exact ih (h.step e.1 e.2)

def shelf : Surroundings := { files := { files := [(["x.log"], "old\n"), (["y.log"], "kept")] } }

/-- A third line finds the queue full, and the other two are written once it is down. -/
def crowded : List (Nat × Lifetime.Act) :=
  [(1, .submit "a"), (2, .submit "b"), (1, .submit "c"), (1, .countRefused), (1, .call), (1, .advance 0),
    (1, .advance 0), (0, .work), (0, .work), (0, .work), (0, .work), (0, .work), (1, .advance 0), (1, .advance 0),
    (1, .advance 0)]

def idle : List (Nat × Lifetime.Act) :=
  [(0, .work), (1, .submit "d"), (0, .work), (0, .work), (1, .call), (1, .advance 0), (1, .advance 0), (0, .work),
    (0, .work), (0, .work), (1, .advance 0), (1, .advance 0), (1, .advance 0)]

def lifeOf (append : Bool) (r : List Event × Lifetime) : Life := ⟨append, r.1, r.2.logger⟩

def firstRun : List Event × Lifetime :=
  play crowded ([], .start 2 ["x.log"] (shelf.withText ["x.log"] "old\n"))

def secondRun : List Event × Lifetime :=
  play idle ([], .start 5 ["x.log"] (firstRun.2.sink.around.withText ["x.log"] ""))

theorem lifetimes_write_accepted_lines_twice : shelf.files.writable "x.log" = .ok ["x.log"] ∧
    Lifetimes "x.log" shelf [lifeOf true firstRun] firstRun.2.sink.around ∧
    Lifetimes "x.log" shelf [lifeOf false secondRun, lifeOf true firstRun] secondRun.2.sink.around ∧
    firstRun.2.sink.around.files.text? ["x.log"] = some "old\na\nb\n" ∧
    secondRun.2.sink.around.files.text? ["x.log"] = some "d\n" ∧
    secondRun.2.sink.around.files.text? ["y.log"] = some "kept" := by
  have hp : shelf.files.writable "x.log" = .ok ["x.log"] := rfl
  have hfirst : Lifetimes "x.log" shelf [lifeOf true firstRun] firstRun.2.sink.around := by
    refine .next (c := { capacity := 2, sink := .file "x.log" true }) .none rfl rfl (Runs.refl.play crowded) ?_
    decide +kernel
  have hsecond : Lifetimes "x.log" shelf [lifeOf false secondRun, lifeOf true firstRun] secondRun.2.sink.around := by
    refine .next (c := { capacity := 5, sink := .file "x.log" false }) hfirst rfl rfl (Runs.refl.play idle) ?_
    decide +kernel
  obtain ⟨hleft₁, -, -⟩ := lifetimes_write_accepted_lines hp hfirst
  obtain ⟨hleft₂, -, -⟩ := lifetimes_write_accepted_lines hp hsecond
  refine ⟨hp, hfirst, hsecond, ?_, ?_, ?_⟩
  · rw [hleft₁.text]
    decide +kernel
  · rw [hleft₂.text]
    decide +kernel
  · rw [hleft₂.others ["y.log"] (by decide)]
    rfl

end Log

end Conduit
