import Forge.Engine.Logs
import Forge.Python.JsonRoundTrip

/-! # The text of `combined.jsonl`

The file is the sequence of the payloads written so far, one line for each, and a read from the end of a line
gets the lines after it. A line that is read back is the event that was written.
-/
namespace Forge.Engine
open Forge.Python Forge.Registry Forge.Theory
set_option autoImplicit false

variable {floats : FloatRepr}

theorem LogEvent.canonical (event : LogEvent) : Canonical floats.repr event.toJson := by
  refine ⟨?_, ?_⟩
  · simp
  · simp [CanonicalMembers, Canonical]

theorem LogEvent.payload_toList (event : LogEvent) :
    event.payload.toList = encode .compact event.toJson ++ ['\n'] := by
  simp [LogEvent.payload, dumps]

/-- The object of an event between its braces. -/
theorem isPrintable_member (key value : String) :
    ∀ c ∈ quoted key ++ ':' :: quoted value, isPrintable c = true := by
  rw [List.forall_mem_append, List.forall_mem_cons]
  exact ⟨isPrintable_quoted key, by decide, isPrintable_quoted value⟩

theorem LogEvent.encode_eq (event : LogEvent) : ∃ members, (∀ c ∈ members, isPrintable c = true) ∧
    encode .compact event.toJson = '{' :: (members ++ ['}']) := by
  have hComma : isPrintable ',' = true := by decide
  refine ⟨(quoted "ts" ++ ':' :: quoted event.ts) ++ ',' :: ((quoted "job" ++ ':' :: quoted event.job) ++
    ',' :: (quoted "line" ++ ':' :: quoted event.line)), ?_, ?_⟩
  · have hLater := List.forall_mem_append.mpr ⟨isPrintable_member "job" event.job,
      List.forall_mem_cons.mpr ⟨hComma, isPrintable_member "line" event.line⟩⟩
    exact List.forall_mem_append.mpr ⟨isPrintable_member "ts" event.ts,
      List.forall_mem_cons.mpr ⟨hComma, hLater⟩⟩
  · simp [LogEvent.toJson, encode, encodeMembers, Separators.key, Separators.item]

theorem isLineBreak_of_isPrintable {c : Char} (h : isPrintable c = true) : isLineBreak c = false := by
  simp only [isPrintable, Bool.and_eq_true, decide_eq_true_eq] at h
  simp only [isLineBreak, Bool.or_eq_false_iff, Bool.and_eq_false_iff, decide_eq_false_iff_not, beq_eq_false_iff_ne]
  omega

theorem LogEvent.isPrintable_encode (event : LogEvent) :
    ∀ c ∈ encode .compact event.toJson, isPrintable c = true := by
  obtain ⟨members, hMembers, hEq⟩ := event.encode_eq
  intro c hc
  simp only [hEq, List.mem_cons, List.mem_append, List.not_mem_nil, or_false] at hc
  rcases hc with rfl | hc | rfl
  · decide
  · exact hMembers c hc
  · decide

theorem LogEvent.stripChars_encode (event : LogEvent) {space : List Char}
    (hSpace : ∀ c ∈ space, isSpace c = true) :
    stripChars (encode .compact event.toJson ++ space) = encode .compact event.toJson := by
  obtain ⟨members, -, hEq⟩ := event.encode_eq
  have hOpen : isSpace '{' = false := by decide
  have hClose : isSpace '}' = false := by decide
  have hReverse : ∀ c ∈ space.reverse, isSpace c = true := fun c hc => hSpace c (List.mem_reverse.mp hc)
  rw [stripChars, stripBy, hEq, List.cons_append, List.dropWhile_cons_of_neg (by simp [hOpen]), ← List.cons_append,
    List.reverse_append, List.dropWhile_append_of_pos hReverse]
  simp [hClose]

theorem LogEvent.strip_payload (event : LogEvent) :
    strip event.payload = dumps .compact event.toJson := by
  rw [strip, event.payload_toList, event.stripChars_encode (by simp [isSpace]), dumps]

def LogEvent.sse (event : LogEvent) : String := "data: " ++ dumps .compact event.toJson ++ "\n\n"

theorem LogEvent.dumps_ne (event : LogEvent) : dumps .compact event.toJson ≠ "" := by
  obtain ⟨members, -, hEq⟩ := event.encode_eq
  intro hEmpty
  have hChars := congrArg String.toList hEmpty
  rw [dumps, String.toList_ofList, hEq] at hChars
  cases hChars

theorem sse_payload (now : String) (event : LogEvent) : sse floats now event.payload = some event.sse := by
  simp only [sse, event.strip_payload, event.dumps_ne, loads_dumps floats .compact event.canonical,
    if_false, LogEvent.sse]

/-- The text of the file after these writes. -/
def logText (events : List LogEvent) : List Char := events.flatMap fun event => event.payload.toList

@[simp] theorem logText_append (events events' : List LogEvent) :
    logText (events ++ events') = logText events ++ logText events' := List.flatMap_append

theorem logText_eq_nil {events : List LogEvent} (h : logText events = []) : events = [] := by
  cases events with
  | nil => rfl
  | cons event events => simp [logText, event.payload_toList] at h

theorem not_mem_logText (events : List LogEvent) : '\r' ∉ logText events := by
  intro hMem
  obtain ⟨event, -, hc⟩ := List.mem_flatMap.mp hMem
  rw [event.payload_toList, List.mem_append] at hc
  cases hc with
  | inl hBody => exact absurd (event.isPrintable_encode _ hBody) (by decide)
  | inr hNewline => exact absurd (List.mem_singleton.mp hNewline) (by decide)

theorem universalNewlines_logText (events : List LogEvent) :
    universalNewlines (logText events) = logText events := universalNewlines_eq_self (not_mem_logText events)

theorem splitLines_logText (events : List LogEvent) :
    splitLinesKeepends (String.ofList (logText events)) = events.map LogEvent.payload := by
  rw [splitLinesKeepends, String.toList_ofList]
  induction events with
  | nil => rfl
  | cons event events ih =>
    have hUnbroken : ∀ c ∈ encode .compact event.toJson, isLineBreak c = false :=
      fun c hc => isLineBreak_of_isPrintable (event.isPrintable_encode c hc)
    have hText : logText (event :: events) =
        encode .compact event.toJson ++ '\n' :: logText events := by
      simp [logText, event.payload_toList]
    rw [hText, splitLinesChars_line hUnbroken, List.map_cons, ih, ← event.payload_toList, String.ofList_toList]
    rfl

/-- A read from the end of some line gets the lines of the events after it. -/
theorem iterFileFrom_logText {streamer : LogStreamer} {before after : List LogEvent}
    (hText : streamer.combined.getD [] = logText (before ++ after)) :
    streamer.iterFileFrom (logText before).length =
      (after.map LogEvent.payload, (logText (before ++ after)).length) := by
  cases hCombined : streamer.combined with
  | none =>
    rw [hCombined] at hText
    obtain ⟨rfl, rfl⟩ := List.append_eq_nil_iff.mp (logText_eq_nil hText.symm)
    simp [LogStreamer.iterFileFrom, hCombined]
  | some text =>
    rw [hCombined, Option.getD_some] at hText
    simp only [LogStreamer.iterFileFrom, hCombined]
    rw [hText, logText_append, List.drop_left, universalNewlines_logText, splitLines_logText,
      max_eq_right (by simp)]

end Forge.Engine
