import AmrFramework.JsonText
import AmrFramework.Utf8
import Mathlib.Data.List.TakeWhile

/-!
# The log worker

`LogEvent::make` cuts the two texts of an event to the arrays that hold them, and `write_json`
prints an event as one line: a JSON object, with the texts between quotation marks as they are.
The buffer is always large enough (`length_line_lt`), so that no event is dropped.

A text that is cut inside a character, or that has a character with a meaning of its own in a
JSON string, does not come back from the line (`logged_iff`).
-/

namespace AmrFramework.Observability

open JsonText Utf8

/-! ## Events

The texts of an event are cut to arrays of 32 and 64 bytes, the last of which is always zero. -/

/-- `LogLevel`; the type underneath has more values than there are names, and all the others are
written as `UNKNOWN`. -/
inductive LogLevel
  | debug
  | info
  | warn
  | error
  | fatal
  | other (raw : UInt8)
  deriving DecidableEq

/-- `level_to_string`. -/
def levelToString : LogLevel → String
  | .debug => "DEBUG"
  | .info => "INFO"
  | .warn => "WARN"
  | .error => "ERROR"
  | .fatal => "FATAL"
  | .other _ => "UNKNOWN"

/-- A `std::array<char, n>`. -/
structure CharArray (n : Nat) where
  chars : List UInt8
  length_eq : chars.length = n

/-- What `make` copies into an array of zeros: as much as leaves room for the last one. -/
def CharArray.copy {n : Nat} (hn : 0 < n) (text : List UInt8) : CharArray n where
  chars :=
    let len := if text.length < n then text.length else n - 1
    text.take len ++ List.replicate (n - len) 0
  length_eq := by
    simp only [List.length_append, List.length_take, List.length_replicate]
    split <;> omega

/-- What `%s` prints of an array. There always is a zero to stop at. -/
def CharArray.data {n : Nat} (a : CharArray n) : List UInt8 := a.chars.takeWhile (· ≠ 0)

structure LogEvent where
  timestampNs : UInt64
  traceId : UInt64
  spanId : UInt64
  module : CharArray 32
  message : CharArray 64
  latencyUs : Int64
  extraValue : Int32
  level : LogLevel

/-- `LogEvent::make`, at the time `now`. -/
def LogEvent.make (now : UInt64) (lvl : LogLevel) (mod msg : List UInt8) (latUs : Int64 := 0)
    (extra : Int32 := 0) : LogEvent where
  timestampNs := now
  -- no trace is active
  traceId := 0
  spanId := 0
  module := .copy (by decide) mod
  message := .copy (by decide) msg
  latencyUs := latUs
  extraValue := extra
  level := lvl

/-! ## Lines

One format, with the texts put in as they are. What is printed of an array ends at its first
zero. -/

/-- The text of a format. -/
def literal (s : String) : List UInt8 := utf8 s.toList

/-- What the format of `write_json` makes of an event. -/
def LogEvent.line (ev : LogEvent) : List UInt8 :=
  literal "\x7b\"ts\":" ++ utf8 (decimal ev.timestampNs.toNat) ++
    literal ",\"lvl\":\"" ++ literal (levelToString ev.level) ++
    literal "\",\"mod\":\"" ++ ev.module.data ++
    literal "\",\"msg\":\"" ++ ev.message.data ++
    literal "\",\"lat_us\":" ++ utf8 (decimal ev.latencyUs.toInt) ++
    literal ",\"extra\":" ++ utf8 (decimal ev.extraValue.toInt) ++
    literal "\x7d\n"

/-- What a `LogWorker` has written to `std::cout`, and its `dropped_`. Output is a list of bytes,
since the texts are whatever was put into the arrays. -/
structure LogWorker where
  out : List UInt8 := []
  dropped : UInt64 := 0

/-- `write_json`: `snprintf` returns the length of the whole line, whatever fits. -/
def LogWorker.writeJson (w : LogWorker) (ev : LogEvent) : LogWorker :=
  let n := ev.line.length
  if 0 < n ∧ n < 256 then { w with out := w.out ++ ev.line }
  else { w with dropped := w.dropped + 1 }

/-- The events that `run` or `drain_remaining` pops, in the order of the buffer. -/
def LogWorker.drain (w : LogWorker) (events : List LogEvent) : LogWorker :=
  events.foldl writeJson w

/-! ## What is asked of a line

A line should be an object with the six fields, and the two texts should come back from it as far
as they were kept. Nothing is asked of a text that does not fit. -/

/-- The object that a line is of: its fields, with the two texts as they are decoded. Numbers are
compared as they are written. -/
def fields (now : UInt64) (lvl : LogLevel) (mod msg : List Char) (latUs : Int64) (extra : Int32) :
    Json :=
  .obj [("ts".toList, .num (decimal now.toNat)), ("lvl".toList, .str (levelToString lvl).toList),
    ("mod".toList, .str mod), ("msg".toList, .str msg),
    ("lat_us".toList, .num (decimal latUs.toInt)), ("extra".toList, .num (decimal extra.toInt))]

/-- A line is one JSON object, with the fields of the event and the texts as they were cut. That
it is one line is part of it, since lines are how events are told apart. -/
def Records (now : UInt64) (lvl : LogLevel) (mod msg : List UInt8) (latUs : Int64) (extra : Int32)
    (line : List UInt8) : Prop :=
  ∃ t m s, line = utf8 t ++ utf8 ['\n'] ∧ '\n' ∉ t ∧ Text t (fields now lvl m s latUs extra) ∧
    utf8 m = mod.take 31 ∧ utf8 s = msg.take 63

/-- The event is recorded in one line, or counted as dropped. Nothing else about the worker has
changed. -/
def LogWorker.Logged (w : LogWorker) (now : UInt64) (lvl : LogLevel) (mod msg : List UInt8)
    (latUs : Int64) (extra : Int32) : Prop :=
  let w' := w.writeJson (.make now lvl mod msg latUs extra)
  (∃ line, w' = { w with out := w.out ++ line } ∧ Records now lvl mod msg latUs extra line) ∨
    w' = { w with dropped := w.dropped + 1 }

/-- A text of whole characters, all of which stand for themselves in a JSON string. -/
def Plain (text : List UInt8) : Prop := ∃ cs, text = utf8 cs ∧ ∀ c ∈ cs, Unescaped c

/-! ## The length of a line

The buffer of 256 bytes is a few bytes longer than the longest line, so an event is never
dropped. -/

theorem CharArray.length_data_le {n : Nat} (a : CharArray n) : a.data.length ≤ n :=
  (List.takeWhile_prefix _).length_le.trans_eq a.length_eq

theorem length_utf8_decimal (z : Int) : (utf8 (decimal z)).length = (decimal z).length :=
  length_utf8 fun _ hc => Nat.lt_of_le_of_lt (mem_decimal hc).2 (by decide)

theorem length_levelToString_le (l : LogLevel) : (literal (levelToString l)).length ≤ 7 := by
  cases l with
  | other raw =>
    have hunknown : (literal "UNKNOWN").length ≤ 7 := by decide
    exact hunknown
  | _ => decide

/-- The longest line fits into the buffer. -/
theorem length_line_lt (ev : LogEvent) : ev.line.length < 256 := by
  have hts : (decimal ev.timestampNs.toNat).length ≤ 21 :=
    length_decimal_le (by decide) (Nat.lt_trans ev.timestampNs.toNat_lt (by decide))
  have hlat : (decimal ev.latencyUs.toInt).length ≤ 20 := by
    refine length_decimal_le (by decide) ?_
    have hlo := ev.latencyUs.le_toInt
    have hhi := ev.latencyUs.toInt_lt
    omega
  have hextra : (decimal ev.extraValue.toInt).length ≤ 11 := by
    refine length_decimal_le (by decide) ?_
    have hlo := ev.extraValue.le_toInt
    have hhi := ev.extraValue.toInt_lt
    omega
  have hlevel := length_levelToString_le ev.level
  have hmod := ev.module.length_data_le
  have hmsg := ev.message.length_data_le
  have hbrace : (literal "\x7b\"ts\":").length = 6 := by decide
  have hlvl : (literal ",\"lvl\":\"").length = 8 := by decide
  have hmodName : (literal "\",\"mod\":\"").length = 9 := by decide
  have hmsgName : (literal "\",\"msg\":\"").length = 9 := by decide
  have hlatName : (literal "\",\"lat_us\":").length = 11 := by decide
  have hextraName : (literal ",\"extra\":").length = 9 := by decide
  have hend : (literal "\x7d\n").length = 2 := by decide
  simp only [LogEvent.line, List.length_append, length_utf8_decimal]
  omega

/-- No event is dropped. -/
theorem LogWorker.writeJson_eq (w : LogWorker) (ev : LogEvent) :
    w.writeJson ev = { w with out := w.out ++ ev.line } := by
  have hpos : 0 < ev.line.length := by
    rw [LogEvent.line, List.length_append]
    exact Nat.lt_of_lt_of_le (by decide) (Nat.le_add_left _ _)
  rw [writeJson, if_pos ⟨hpos, length_line_lt ev⟩]

/-- All that is popped is written, line by line. -/
theorem LogWorker.drain_eq (w : LogWorker) (events : List LogEvent) :
    w.drain events = { w with out := w.out ++ events.flatMap LogEvent.line } := by
  induction events generalizing w with
  | nil => rw [drain, List.foldl_nil, List.flatMap_nil, List.append_nil]
  | cons ev events ih =>
    rw [drain, List.foldl_cons, writeJson_eq]
    refine (ih _).trans ?_
    rw [List.flatMap_cons, List.append_assoc]

/-! ## The texts of a line

A line is given, and what decodes to what is asked. The fields are taken off one by one, and for
each of the two texts it comes down to `chars_iff`. -/

theorem CharArray.data_copy {n : Nat} (hn : 0 < n) (text : List UInt8) :
    (CharArray.copy hn text).data = (text.take (n - 1)).takeWhile (· ≠ 0) := by
  have htake : text.take (if text.length < n then text.length else n - 1) =
      text.take (n - 1) := by
    split
    case isTrue h =>
      rw [List.take_length, List.take_of_length_le (Nat.le_sub_one_of_lt h)]
    case isFalse => rfl
  have hzeros : ∀ k, (List.replicate k (0 : UInt8)).takeWhile (· ≠ 0) = [] := by
    intro k
    cases k <;> rfl
  simp only [data, copy, htake, List.takeWhile_append, hzeros, List.append_nil]
  split
  case isTrue h => exact ((List.takeWhile_prefix _).eq_of_length h).symm
  case isFalse => rfl

/-- The line of an event, without its end, whose fields are these texts. -/
def lineText (ts lvl mod msg lat extra : List Char) : List Char :=
  '\x7b' :: '"' :: ("ts".toList ++ '"' :: ':' :: (ts ++ ',' :: '"' ::
    ("lvl".toList ++ '"' :: ':' :: '"' :: (lvl ++ '"' :: ',' :: '"' ::
    ("mod".toList ++ '"' :: ':' :: '"' :: (mod ++ '"' :: ',' :: '"' ::
    ("msg".toList ++ '"' :: ':' :: '"' :: (msg ++ '"' :: ',' :: '"' ::
    ("lat_us".toList ++ '"' :: ':' :: (lat ++ ',' :: '"' ::
    ("extra".toList ++ '"' :: ':' :: (extra ++ '\x7d' :: []))))))))))))

theorem LogEvent.line_eq {ev : LogEvent} {mod msg : List Char} (hmod : ev.module.data = utf8 mod)
    (hmsg : ev.message.data = utf8 msg) :
    ev.line = utf8 (lineText (decimal ev.timestampNs.toNat) (levelToString ev.level).toList mod msg
      (decimal ev.latencyUs.toInt) (decimal ev.extraValue.toInt)) ++ utf8 ['\n'] := by
  rw [LogEvent.line, hmod, hmsg]
  simp only [literal, ← utf8_append]
  refine congrArg utf8 ?_
  simp [lineText]

theorem newline_notMem_decimal (z : Int) : '\n' ∉ decimal z :=
  fun hmem => absurd (mem_decimal hmem).1 (by decide)

theorem newline_notMem_of_unescaped {cs : List Char} (h : ∀ c ∈ cs, Unescaped c) : '\n' ∉ cs :=
  fun hmem => absurd (h _ hmem).1 (by decide)

theorem unescaped_levelToString (lvl : LogLevel) :
    ∀ c ∈ (levelToString lvl).toList, Unescaped c := by
  cases lvl with
  | other raw => exact @unescaped_of_all "UNKNOWN".toList rfl
  | _ => exact unescaped_of_all rfl

/-- **Where the line of two texts decodes to texts that start with them**, it does so to the same
ones, and all their characters stand for themselves. -/
theorem text_lineText_iff {now : UInt64} {lvl : LogLevel} {mod msg u v : List Char} {lat : Int64}
    {extra : Int32} :
    Text (lineText (decimal now.toNat) (levelToString lvl).toList mod msg (decimal lat.toInt)
        (decimal extra.toInt)) (fields now lvl (mod ++ u) (msg ++ v) lat extra) ↔
      ((∀ c ∈ mod, Unescaped c) ∧ u = []) ∧ (∀ c ∈ msg, Unescaped c) ∧ v = [] := by
  rw [lineText, fields, text_obj_iff]
  simp only [members_num_iff (k := "ts".toList) (unescaped_of_all rfl) (isNumber_decimal _),
    members_str_self_iff (k := "lvl".toList) (unescaped_of_all rfl),
    members_str_iff (k := "mod".toList) (unescaped_of_all rfl),
    members_str_iff (k := "msg".toList) (unescaped_of_all rfl),
    members_num_iff (k := "lat_us".toList) (unescaped_of_all rfl) (isNumber_decimal _),
    members_last_num_iff (k := "extra".toList) (unescaped_of_all rfl) (isNumber_decimal _)]
  refine ⟨?_, ?_⟩
  · rintro ⟨r, ⟨-, hmod, hmsg, -⟩, -⟩
    exact ⟨hmod, hmsg⟩
  · rintro ⟨hmod, hmsg⟩
    exact ⟨[], ⟨unescaped_levelToString lvl, hmod, hmsg, rfl⟩, rfl⟩

theorem text_lineText (now : UInt64) (lvl : LogLevel) {mod msg : List Char} (lat : Int64)
    (extra : Int32) (hmod : ∀ c ∈ mod, Unescaped c) (hmsg : ∀ c ∈ msg, Unescaped c) :
    Text (lineText (decimal now.toNat) (levelToString lvl).toList mod msg (decimal lat.toInt)
      (decimal extra.toInt)) (fields now lvl mod msg lat extra) := by
  have h := (@text_lineText_iff now lvl mod msg [] [] lat extra).mpr ⟨⟨hmod, rfl⟩, hmsg, rfl⟩
  rwa [List.append_nil, List.append_nil] at h

theorem newline_notMem_lineText {ts lvl mod msg lat extra : List Char} (hts : '\n' ∉ ts)
    (hlvl : '\n' ∉ lvl) (hmod : '\n' ∉ mod) (hmsg : '\n' ∉ msg) (hlat : '\n' ∉ lat)
    (hextra : '\n' ∉ extra) : '\n' ∉ lineText ts lvl mod msg lat extra := by
  simp [lineText, hts, hlvl, hmod, hmsg, hlat, hextra]

/-- What an array prints, when its text is a text of characters. -/
theorem CharArray.data_copy_utf8 {n : Nat} (hn : 0 < n) {text : List UInt8} {cs : List Char}
    (h : utf8 cs = text.take (n - 1)) :
    (CharArray.copy hn text).data = utf8 (cs.takeWhile (· ≠ '\x00')) := by
  rw [CharArray.data_copy, ← h]
  exact takeWhile_utf8 (by decide) rfl cs

theorem takeWhile_unescaped {cs : List Char} (h : ∀ c ∈ cs, Unescaped c) :
    cs.takeWhile (· ≠ '\x00') = cs := by
  refine List.takeWhile_eq_self_iff.mpr fun c hc => decide_eq_true ?_
  rintro rfl
  exact absurd (h _ hc).1 (by decide)

variable {now : UInt64} {lvl : LogLevel} {mod msg : List UInt8} {lat : Int64} {extra : Int32}

theorem exists_takeWhile_append (p : Char → Bool) (cs : List Char) :
    ∃ a u, cs.takeWhile p = a ∧ cs = a ++ u :=
  ⟨_, _, rfl, List.takeWhile_append_dropWhile.symm⟩

/-- **What the line of an event records.** A text that is cut inside a character is no text any
more, and a character with a meaning of its own is decoded to something else or ends the string. -/
theorem records_iff :
    Records now lvl mod msg lat extra (LogEvent.make now lvl mod msg lat extra).line ↔
      Plain (mod.take 31) ∧ Plain (msg.take 63) := by
  refine ⟨?_, ?_⟩
  · rintro ⟨t, m, s, hline, -, htext, hm, hs⟩
    -- the arrays print the decoded texts up to their first zero
    rw [LogEvent.line_eq (CharArray.data_copy_utf8 (by decide) hm)
      (CharArray.data_copy_utf8 (by decide) hs), List.append_cancel_right_eq] at hline
    rw [← utf8_inj hline] at htext
    obtain ⟨a, u, ha, rfl⟩ := exists_takeWhile_append (· ≠ '\x00') m
    obtain ⟨b, v, hb, rfl⟩ := exists_takeWhile_append (· ≠ '\x00') s
    rw [ha, hb] at htext
    obtain ⟨⟨hmod, rfl⟩, hmsg, rfl⟩ := text_lineText_iff.mp htext
    rw [List.append_nil] at hm hs
    exact ⟨⟨a, hm.symm, hmod⟩, b, hs.symm, hmsg⟩
  · rintro ⟨⟨m, hm, hmod⟩, s, hs, hmsg⟩
    refine ⟨_, m, s, ?_, ?_, text_lineText now lvl lat extra hmod hmsg, hm.symm, hs.symm⟩
    · rw [LogEvent.line_eq (CharArray.data_copy_utf8 (by decide) hm.symm)
        (CharArray.data_copy_utf8 (by decide) hs.symm), takeWhile_unescaped hmod,
        takeWhile_unescaped hmsg]
      rfl
    · exact newline_notMem_lineText (newline_notMem_decimal _)
        (newline_notMem_of_unescaped (unescaped_levelToString lvl))
        (newline_notMem_of_unescaped hmod) (newline_notMem_of_unescaped hmsg)
        (newline_notMem_decimal _) (newline_notMem_decimal _)

theorem logged_iff_records (w : LogWorker) :
    w.Logged now lvl mod msg lat extra ↔
      Records now lvl mod msg lat extra (LogEvent.make now lvl mod msg lat extra).line := by
  rw [LogWorker.Logged]
  simp only [LogWorker.writeJson_eq]
  refine ⟨?_, ?_⟩
  · rintro (⟨line, hout, hrecords⟩ | hdropped)
    · rwa [List.append_cancel_left (LogWorker.mk.inj hout).1]
    · exact absurd (UInt64.left_eq_add.mp (LogWorker.mk.inj hdropped).2) (by decide)
  · intro hrecords
    exact .inl ⟨_, rfl, hrecords⟩

/-- **An event is logged** exactly when both texts are plain, as far as they fit: valid UTF-8
without anything to be escaped. A quotation mark, a backslash or a control character ends up in
the line as it is, and so does half a character. -/
theorem logged_iff (w : LogWorker) (now : UInt64) (lvl : LogLevel) (mod msg : List UInt8)
    (lat : Int64) (extra : Int32) :
    w.Logged now lvl mod msg lat extra ↔ Plain (mod.take 31) ∧ Plain (msg.take 63) :=
  (logged_iff_records w).trans records_iff

/-- A quotation mark ends the message before its end. -/
theorem quoted_message_not_logged :
    ¬ ({} : LogWorker).Logged 0 .info (literal "fusion") (literal "box \"A\" lost") 230 5 := by
  rw [logged_iff_records, records_iff]
  rintro ⟨-, cs, hcs, hplain⟩
  have hmsg : utf8 "box \"A\" lost".toList = utf8 cs := hcs
  have hquote : '"' ∈ cs := by
    rw [← utf8_inj hmsg]
    decide
  exact absurd rfl (hplain _ hquote).2.1

end AmrFramework.Observability
