import Conduit.Sink.Writer
import Mathlib.Data.List.Basic

/-!
# Lines through a writer with limits

A writer takes its bytes in pieces of any size and with any number of interruptions, and of
that nothing can be seen afterwards. What it has taken is the beginning of all that it was
given, up to its limit, and a line succeeds if it ends within the limit; a failed line leaves
the writer full, so every later one fails like it.
-/

namespace Conduit.Sink

namespace Writer

/-! ## Room -/

/-- Takes something wherever there is room, and does not answer with an interruption for ever. -/
structure Willing (w : Writer) : Prop where
  chunk : w.chunk ≠ some 0
  failure : ∀ f, w.failure = some f → f.kind ≠ .interrupted

/-- How many of `n` more bytes there is room for, in as many calls as it takes. -/
def fits (w : Writer) (n : Nat) : Nat := atMost (w.limit.map (· - w.taken.size)) n

def refusal (w : Writer) : Failure := w.failure.getD .nothingTaken

/-- The same writer, but for what it has taken and how often it is still interrupted. -/
structure Alike (w w' : Writer) : Prop where
  chunk : w'.chunk = w.chunk
  limit : w'.limit = w.limit
  failure : w'.failure = w.failure

section
variable {w w' w'' : Writer} {bytes more : List UInt8} {r : Except Failure Unit} {m n : Nat}

theorem Alike.trans (h : Alike w w') (h' : Alike w' w'') : Alike w w'' :=
  ⟨h'.chunk.trans h.chunk, h'.limit.trans h.limit, h'.failure.trans h.failure⟩

theorem Alike.willing (h : Alike w w') (hw : w.Willing) : w'.Willing :=
  ⟨h.chunk ▸ hw.chunk, h.failure ▸ hw.failure⟩

theorem Alike.refusal (h : Alike w w') : w'.refusal = w.refusal := by
  rw [Writer.refusal, h.failure, Writer.refusal]

theorem fits_le (w : Writer) (n : Nat) : w.fits n ≤ n := by
  unfold fits atMost
  cases w.limit with
  | none => exact Nat.le_refl n
  | some l => exact Nat.min_le_right _ _

theorem Alike.fits_add (h : Alike w w') (hsize : w'.taken.size = w.taken.size + w.fits m) :
    w.fits (m + n) = w.fits m + w'.fits n := by
  unfold fits at hsize ⊢
  rw [h.limit]
  cases hl : w.limit with
  | none => rfl
  | some l =>
    simp only [hl, Option.map_some, atMost] at hsize ⊢
    omega

theorem fits_add_of_lt (h : w.fits m < m) (n : Nat) : w.fits (m + n) = w.fits m := by
  unfold fits at h ⊢
  cases hl : w.limit with
  | none => simp [hl, atMost] at h
  | some l =>
    simp only [hl, Option.map_some, atMost] at h ⊢
    omega

theorem fits_eq_of_le (h : m ≤ w.fits n) : w.fits m = m := by
  unfold fits at h ⊢
  cases hl : w.limit with
  | none => rfl
  | some l =>
    simp only [hl, Option.map_some, atMost] at h ⊢
    omega

theorem room_le (w : Writer) (n : Nat) : w.room n ≤ w.fits n := by
  unfold room fits
  cases w.chunk with
  | none => exact Nat.le_refl _
  | some c => exact Nat.min_le_right _ _

theorem Willing.room_pos (h : w.Willing) (hf : 0 < w.fits n) : 0 < w.room n := by
  unfold room
  unfold fits at hf
  cases hc : w.chunk with
  | none => exact hf
  | some c =>
    have hpos : c ≠ 0 := fun h0 => h.chunk (hc.trans (congrArg some h0))
    exact Nat.lt_min.mpr ⟨Nat.pos_of_ne_zero hpos, hf⟩

/-! ## One call -/

/-- A call is interrupted, finds no room at all, or takes a part of what there is room for. -/
inductive Calls (bytes : List UInt8) (w : Writer) : Writer × Written → Prop
  | interrupted : 0 < w.interrupts → Calls bytes w ({ w with interrupts := w.interrupts - 1 }, .interrupted)
  | full : w.fits bytes.length = 0 → w.failure = none → Calls bytes w (w, .took 0)
  | failed {f : Failure} : w.fits bytes.length = 0 → w.failure = some f → Calls bytes w (w, .failed f)
  | took {n : Nat} : n + 1 ≤ w.fits bytes.length →
      Calls bytes w ({ w with taken := w.taken.appendList (bytes.take (n + 1)) }, .took (n + 1))

theorem calls_write (hw : w.Willing) (bytes : List UInt8) : Calls bytes w (w.write bytes) := by
  unfold write
  split
  · rename_i hi
    exact .interrupted hi
  · split
    · rename_i hroom
      have hfull : w.fits bytes.length = 0 := by
        by_contra hne
        have := hw.room_pos (Nat.pos_of_ne_zero hne)
        omega
      cases hf : w.failure with
      | none => exact .full hfull hf
      | some f => exact .failed hfull hf
    · rename_i hroom
      obtain ⟨n, hn⟩ := Nat.exists_eq_succ_of_ne_zero hroom
      have hle := w.room_le bytes.length
      rw [hn] at hle ⊢
      exact .took hle

/-! ## All bytes of a text -/

structure Took (bytes : List UInt8) (w w' : Writer) : Prop where
  taken : w'.taken.toList = w.taken.toList ++ bytes.take (w.fits bytes.length)
  alike : Alike w w'

theorem Took.size (h : Took bytes w w') : w'.taken.size = w.taken.size + w.fits bytes.length := by
  rw [← Array.length_toList, h.taken, List.length_append, Array.length_toList, List.length_take,
    Nat.min_eq_left (w.fits_le _)]

theorem Took.refl (w : Writer) : Took [] w w := ⟨by simp, rfl, rfl, rfl⟩

theorem Took.append (h : Took bytes w w') (h' : Took more w' w'') : Took (bytes ++ more) w w'' := by
  have hadd : w.fits (bytes.length + more.length) = w.fits bytes.length + w'.fits more.length :=
    h.alike.fits_add h.size
  refine ⟨?_, h.alike.trans h'.alike⟩
  rw [h'.taken, h.taken, List.length_append, hadd, List.append_assoc]
  rcases Nat.lt_or_eq_of_le (w.fits_le bytes.length) with hcut | hall
  · have hfull : w'.fits more.length = 0 := by
      have := fits_add_of_lt hcut more.length
      omega
    rw [hfull, List.take_zero, List.append_nil, Nat.add_zero, List.take_append_of_le_length (Nat.le_of_lt hcut)]
  · rw [hall, List.take_length_add_append, List.take_length]

def answer (w : Writer) (n : Nat) : Except Failure Unit :=
  if w.fits n = n then .ok () else .error w.refusal

/-- The rest of a text is answered like the whole, for it fits exactly if the whole does. -/
theorem Took.answer_add (h : Took bytes w w') (hn : w.fits bytes.length = bytes.length ∨ 0 < n) :
    w'.answer n = w.answer (bytes.length + n) := by
  have hle := w.fits_le bytes.length
  have hle' := w'.fits_le n
  have hadd : w.fits (bytes.length + n) = w.fits bytes.length + w'.fits n := h.alike.fits_add h.size
  unfold answer
  rw [h.alike.refusal]
  by_cases hall : w'.fits n = n
  · rcases Nat.lt_or_eq_of_le hle with hcut | hfirst
    · have hfull := fits_add_of_lt hcut n
      omega
    · rw [if_pos hall, if_pos (by omega)]
  · rw [if_neg hall, if_neg (by omega)]

theorem took_take (hn : n ≤ w.fits bytes.length) :
    Took (bytes.take n) w { w with taken := w.taken.appendList (bytes.take n) } := by
  have hlen : (bytes.take n).length = n := by
    rw [List.length_take, Nat.min_eq_left (Nat.le_trans hn (w.fits_le _))]
  refine ⟨?_, rfl, rfl, rfl⟩
  rw [hlen, fits_eq_of_le hn, List.take_of_length_le (Nat.le_of_eq hlen)]
  exact Array.toList_appendList

theorem took_none (hfull : w.fits bytes.length = 0) (hne : bytes ≠ []) :
    Took bytes w w ∧ w.answer bytes.length = .error w.refusal := by
  have hpos := List.length_pos_iff.mpr hne
  refine ⟨⟨?_, rfl, rfl, rfl⟩, if_neg (by omega)⟩
  rw [hfull, List.take_zero, List.append_nil]

theorem writeAll_spec (hw : w.Willing) (bytes : List UInt8) :
    Took bytes w (w.writeAll bytes).1 ∧ (w.writeAll bytes).2 = w.answer bytes.length := by
  fun_induction writeAll bytes w with
  | case1 w => exact ⟨.refl w, (if_pos (Nat.le_zero.mp (w.fits_le 0))).symm⟩
  | case2 w b bytes w' h ih =>
    have hc := calls_write hw (b :: bytes)
    rw [h] at hc
    cases hc
    obtain ⟨htook, hanswer⟩ := ih ⟨hw.chunk, hw.failure⟩
    exact ⟨⟨htook.taken, htook.alike.chunk, htook.alike.limit, htook.alike.failure⟩, hanswer⟩
  | case3 w b bytes w' h =>
    have hc := calls_write hw (b :: bytes)
    rw [h] at hc
    cases hc with
    | full hfull hnone =>
      obtain ⟨htook, hanswer⟩ := took_none hfull (List.cons_ne_nil b bytes)
      rw [refusal, hnone] at hanswer
      exact ⟨htook, hanswer.symm⟩
  | case4 w b bytes w' n h ih =>
    have hc := calls_write hw (b :: bytes)
    rw [h] at hc
    cases hc with
    | took hn =>
      have hfirst := took_take hn
      have hall : w.fits ((b :: bytes).take (n + 1)).length = ((b :: bytes).take (n + 1)).length :=
        fits_eq_of_le (Nat.le_trans (List.length_take_le _ _) hn)
      have hsplit : (b :: bytes).take (n + 1) ++ bytes.drop n = b :: bytes :=
        List.take_append_drop (n + 1) (b :: bytes)
      obtain ⟨hrest, hanswer⟩ := ih ⟨hw.chunk, hw.failure⟩
      have hboth := hfirst.append hrest
      rw [hfirst.answer_add (.inl hall), ← List.length_append, hsplit] at hanswer
      rw [hsplit] at hboth
      exact ⟨hboth, hanswer⟩
  | case5 w b bytes w' f h =>
    have hc := calls_write hw (b :: bytes)
    rw [h] at hc
    cases hc with
    | failed hfull hsome =>
      obtain ⟨htook, hanswer⟩ := took_none hfull (List.cons_ne_nil b bytes)
      rw [refusal, hsome] at hanswer
      exact ⟨htook, hanswer.symm⟩

/-! ## Lines -/

def lineBytes (line : String) : List UInt8 := line.toUTF8.toList ++ newline

def stream (lines : List String) : List UInt8 := lines.flatMap lineBytes

theorem writeLine_spec (hw : w.Willing) (line : String) :
    Took (lineBytes line) w (w.writeLine line).1 ∧ (w.writeLine line).2 = w.answer (lineBytes line).length := by
  obtain ⟨htext, hanswer⟩ := writeAll_spec hw line.toUTF8.toList
  unfold writeLine
  cases hfirst : w.writeAll line.toUTF8.toList with
  | mk w₁ r₁ =>
    rw [hfirst] at htext hanswer
    by_cases hall : w.fits line.toUTF8.toList.length = line.toUTF8.toList.length
    · rw [answer, if_pos hall] at hanswer
      obtain ⟨hnewline, hanswer'⟩ := writeAll_spec (htext.alike.willing hw) newline
      obtain rfl : r₁ = .ok () := hanswer
      refine ⟨htext.append hnewline, ?_⟩
      rw [lineBytes, List.length_append, ← htext.answer_add (.inl hall)]
      exact hanswer'
    · -- the newline is not tried after the text has failed, and there would be no room for it
      rw [answer, if_neg hall] at hanswer
      obtain rfl : r₁ = .error w.refusal := hanswer
      have hcut := Nat.lt_of_le_of_ne (w.fits_le _) hall
      have hfull := fits_add_of_lt hcut newline.length
      refine ⟨⟨?_, htext.alike⟩, ?_⟩
      · rw [lineBytes, List.length_append, hfull, List.take_append_of_le_length (Nat.le_of_lt hcut)]
        exact htext.taken
      · rw [answer, lineBytes, List.length_append, if_neg (by omega)]

theorem stream_take_pos {lines : List String} {i : Nat} (hi : i < lines.length) :
    0 < (stream (lines.take (i + 1))).length := by
  cases lines with
  | nil => cases hi
  | cons line lines =>
    have hnewline : 0 < newline.length := by decide
    rw [List.take_succ_cons, stream, List.flatMap_cons, lineBytes, List.length_append, List.length_append]
    omega

def writeEach : List String → Writer → Writer × List (Except Failure Unit)
  | [], w => (w, [])
  | line :: lines, w =>
    let (w, r) := w.writeLine line
    let (w, rs) := writeEach lines w
    (w, r :: rs)

theorem writeEach_spec (hw : w.Willing) (lines : List String) :
    Took (stream lines) w (w.writeEach lines).1 ∧ (w.writeEach lines).2.length = lines.length ∧
      ∀ i, i < lines.length →
        (w.writeEach lines).2[i]? = some (w.answer (stream (lines.take (i + 1))).length) := by
  induction lines generalizing w with
  | nil => exact ⟨.refl w, rfl, nofun⟩
  | cons line lines ih =>
    obtain ⟨hline, hanswer⟩ := writeLine_spec hw line
    obtain ⟨hrest, hlen, hanswers⟩ := ih (hline.alike.willing hw)
    refine ⟨hline.append hrest, congrArg Nat.succ hlen, ?_⟩
    intro i hi
    cases i with
    | zero =>
      have hone : stream ((line :: lines).take 1) = lineBytes line := by simp [stream]
      rw [hone, ← hanswer]
      rfl
    | succ i =>
      have hi : i < lines.length := Nat.lt_of_succ_lt_succ hi
      have hsplit : stream ((line :: lines).take (i + 2)) = lineBytes line ++ stream (lines.take (i + 1)) := rfl
      rw [hsplit, List.length_append, ← hline.answer_add (.inr (stream_take_pos hi))]
      exact hanswers i hi

end

/-! ## Reading the lines back -/

section
variable {line : String} {lines : List String}

theorem toList_loop (bytes : ByteArray) {n i : Nat} (r : List UInt8) (hn : i + n = bytes.size) :
    ByteArray.toList.loop bytes i r = r.reverse ++ bytes.data.toList.drop i := by
  have hsize : bytes.data.toList.length = bytes.size := rfl
  induction n generalizing i r with
  | zero =>
    rw [ByteArray.toList.loop, if_neg (by omega), List.drop_of_length_le (by omega), List.append_nil]
  | succ n ih =>
    have hi : i < bytes.data.toList.length := by omega
    have hget : bytes.get! i = bytes.data.toList[i] := getElem!_pos bytes.data i hi
    rw [ByteArray.toList.loop, if_pos (by omega), ih _ (by omega), List.drop_eq_getElem_cons hi, hget,
      List.reverse_cons, List.append_assoc, List.singleton_append]

theorem data_toList (bytes : ByteArray) : bytes.toList = bytes.data.toList :=
  toList_loop bytes [] (Nat.zero_add bytes.size)

theorem toList_toUTF8 (line : String) : line.toUTF8.toList = line.toList.flatMap String.utf8EncodeChar := by
  rw [data_toList, String.toUTF8_eq_toByteArray, ← String.utf8Encode_toList, List.utf8Encode,
    List.toList_data_toByteArray]

theorem fromUTF8_toList (line : String) : String.fromUTF8? line.toUTF8.toList.toByteArray = some line := by
  have hbytes : line.toUTF8.toList.toByteArray = line.toByteArray := by
    rw [data_toList, String.toUTF8_eq_toByteArray]
    exact ByteArray.ext (by rw [List.data_toByteArray])
  rw [hbytes, String.fromUTF8?, dif_pos line.isValidUTF8]
  rfl

/-- All bytes of a character above ASCII are above ASCII, so a newline's byte is its own. -/
theorem eq_newline_of_mem {c : Char} (h : 10 ∈ String.utf8EncodeChar c) : c = '\n' := by
  have hhigh : ∀ n, 128 ≤ n → n < 256 → (10 : UInt8) ≠ UInt8.ofNat n := by
    intro n hlow hhigh he
    have := congrArg UInt8.toNat he
    rw [UInt8.toNat_ofNat_of_lt' hhigh] at this
    have hten : (10 : UInt8).toNat = 10 := rfl
    omega
  simp only [String.utf8EncodeChar] at h
  split at h
  · rename_i hlow
    have he := congrArg UInt8.toNat (List.mem_singleton.mp h)
    rw [UInt8.toNat_ofNat_of_lt' (Nat.lt_of_le_of_lt hlow (by decide))] at he
    exact Char.ext (UInt32.toNat_inj.mp he.symm)
  · exfalso
    split at h
    · simp only [List.mem_cons, List.not_mem_nil, or_false] at h
      rcases h with h | h <;> exact hhigh _ (by omega) (by omega) h
    · split at h
      · simp only [List.mem_cons, List.not_mem_nil, or_false] at h
        rcases h with h | h | h <;> exact hhigh _ (by omega) (by omega) h
      · simp only [List.mem_cons, List.not_mem_nil, or_false] at h
        rcases h with h | h | h | h <;> exact hhigh _ (by omega) (by omega) h

theorem newline_notMem (h : '\n' ∉ line.toList) : 10 ∉ line.toUTF8.toList := by
  rw [toList_toUTF8, List.mem_flatMap]
  rintro ⟨c, hc, hmem⟩
  exact h (eq_newline_of_mem hmem ▸ hc)

theorem splitOn_stream (h : ∀ line ∈ lines, '\n' ∉ line.toList) :
    (stream lines).splitOn 10 = lines.map (fun line => line.toUTF8.toList) ++ [[]] := by
  induction lines with
  | nil => rfl
  | cons line lines ih =>
    have hline := newline_notMem (h line List.mem_cons_self)
    have hsplit : stream (line :: lines) = line.toUTF8.toList ++ 10 :: stream lines := by
      simp [stream, lineBytes, newline]
    rw [hsplit, List.splitOn_append_cons_self_of_not_mem hline,
      ih fun line hl => h line (List.mem_cons_of_mem _ hl)]
    rfl

/-- The texts between the newlines, without what is after the last one. -/
def readLines (bytes : List UInt8) : List (Option String) :=
  ((bytes.splitOn 10).dropLast).map fun piece => String.fromUTF8? piece.toByteArray

theorem readLines_stream (h : ∀ line ∈ lines, '\n' ∉ line.toList) :
    readLines (stream lines) = lines.map some := by
  rw [readLines, splitOn_stream h, List.dropLast_concat, List.map_map]
  exact List.map_congr_left fun line _ => fromUTF8_toList line

end

/-! ## The whole -/

def admits (w : Writer) (n : Nat) : Bool := w.limit.all (n ≤ ·)

section
variable {w : Writer}

theorem fits_fresh (hfresh : w.taken = #[]) (n : Nat) : w.fits n = atMost w.limit n := by
  rw [fits, hfresh]
  cases w.limit <;> rfl

theorem atMost_eq_iff {bound : Option Nat} {n : Nat} : atMost bound n = n ↔ bound.all (n ≤ ·) = true := by
  cases bound with
  | none => simp [atMost]
  | some b =>
    simp only [atMost, Option.all_some, decide_eq_true_eq]
    omega

theorem answer_fresh (hfresh : w.taken = #[]) (n : Nat) :
    w.answer n = if w.admits n then .ok () else .error w.refusal := by
  rw [answer, fits_fresh hfresh]
  exact if_congr atMost_eq_iff rfl rfl

theorem writeEach_all (hw : w.Willing) {lines : List String} (hall : ∀ r ∈ (w.writeEach lines).2, r = .ok ()) :
    (w.writeEach lines).1.taken.toList = w.taken.toList ++ stream lines := by
  obtain ⟨htook, -, hanswers⟩ := writeEach_spec hw lines
  rw [htook.taken]
  rcases lines.eq_nil_or_concat with rfl | ⟨rest, line, rfl⟩
  · simp [stream]
  · -- the last line ends where all lines end, so its answer tells that there was room for them all
    rw [List.concat_eq_append] at hall hanswers ⊢
    have hlast := hanswers rest.length (by simp)
    rw [List.take_of_length_le (by simp)] at hlast
    have hok := hall _ (List.mem_of_getElem? hlast)
    have hfits : w.fits (stream (rest ++ [line])).length = (stream (rest ++ [line])).length := by
      by_contra hne
      rw [answer, if_neg hne] at hok
      cases hok
    rw [hfits, List.take_length]

/-- A fresh writer has taken the beginning of all lines, up to its limit, and a line was written
if it ends within the limit; neither depends on how the bytes were cut up or on interruptions.
Lines that were all written can be read back. -/
theorem lines_up_to_limit (hw : w.Willing) (hfresh : w.taken = #[]) (lines : List String) :
    (w.writeEach lines).1.taken.toList = (stream lines).take (atMost w.limit (stream lines).length) ∧
    (w.writeEach lines).2.length = lines.length ∧
    (∀ i, i < lines.length → (w.writeEach lines).2[i]? =
      some (if w.admits (stream (lines.take (i + 1))).length then .ok () else .error w.refusal)) ∧
    (∀ chunk interrupts, chunk ≠ some 0 →
      (({ w with chunk, interrupts } : Writer).writeEach lines).1.taken = (w.writeEach lines).1.taken ∧
      (({ w with chunk, interrupts } : Writer).writeEach lines).2 = (w.writeEach lines).2) ∧
    ((∀ r ∈ (w.writeEach lines).2, r = .ok ()) → (∀ line ∈ lines, '\n' ∉ line.toList) →
      readLines (w.writeEach lines).1.taken.toList = lines.map some) := by
  obtain ⟨htook, hlen, hanswers⟩ := writeEach_spec hw lines
  have htaken := htook.taken
  rw [hfresh, fits_fresh hfresh, List.nil_append] at htaken
  refine ⟨htaken, hlen, ?_, ?_, ?_⟩
  · intro i hi
    rw [hanswers i hi, answer_fresh hfresh]
  · intro chunk interrupts hchunk
    obtain ⟨htook', hlen', hanswers'⟩ :=
      writeEach_spec (w := { w with chunk, interrupts }) ⟨hchunk, hw.failure⟩ lines
    refine ⟨Array.ext' (htook'.taken.trans htook.taken.symm), List.ext_getElem? fun i => ?_⟩
    by_cases hi : i < lines.length
    · rw [hanswers i hi, hanswers' i hi]
      rfl
    · rw [List.getElem?_eq_none (by omega), List.getElem?_eq_none (by omega)]
  · intro hall hlines
    rw [writeEach_all hw hall, hfresh]
    exact readLines_stream hlines

end

def gone : Failure := ⟨.brokenPipe, "gone"⟩

def brokenAtTwo : Writer := { chunk := some 1, limit := some 2, failure := some gone, interrupts := 3 }

/-- The writer breaks between a text and its newline: then an empty line fails as well. Without
a limit the same lines come back. -/
theorem lines_up_to_limit_cut :
    (brokenAtTwo.Willing ∧ (brokenAtTwo.writeEach ["ab", "", "c"]).1.taken.toList = [97, 98] ∧
      ∀ i, i < 3 → (brokenAtTwo.writeEach ["ab", "", "c"]).2[i]? = some (.error gone)) ∧
    readLines (({ chunk := some 1 } : Writer).writeEach ["ab", "", "c"]).1.taken.toList =
      [some "ab", some "", some "c"] := by
  have hline : lineBytes = fun line => line.toList.flatMap String.utf8EncodeChar ++ [10] :=
    funext fun line => by rw [lineBytes, toList_toUTF8, newline]
  have hbytes : stream ["ab", "", "c"] = [97, 98, 10, 10, 99, 10] := by
    rw [stream, hline]
    decide
  have hlate : ∀ i, i < 3 → brokenAtTwo.admits (stream (["ab", "", "c"].take (i + 1))).length = false := by
    simp only [stream, hline]
    decide
  have hbroken : brokenAtTwo.Willing := ⟨by decide, by decide⟩
  obtain ⟨htaken, -, hresults, -, -⟩ := lines_up_to_limit hbroken rfl ["ab", "", "c"]
  have hwide : Willing { chunk := some 1 } := ⟨by decide, nofun⟩
  obtain ⟨-, hlen, hanswers, -, hback⟩ := lines_up_to_limit hwide rfl ["ab", "", "c"]
  refine ⟨⟨hbroken, ?_, ?_⟩, hback ?_ (by decide)⟩
  · rw [htaken, hbytes]
    rfl
  · intro i hi
    rw [hresults i hi, hlate i hi]
    rfl
  · intro r hr
    obtain ⟨i, hi⟩ := List.mem_iff_getElem?.mp hr
    obtain ⟨hlt, -⟩ := List.getElem?_eq_some_iff.mp hi
    exact Option.some.inj (hi.symm.trans (hanswers i (hlen ▸ hlt)))

end Writer

end Conduit.Sink
