import Forge.Engine.LogFollowers

/-! # Reads that end inside of a line

A long append becomes visible in several pieces, and a poll can find the file to end anywhere. The follower goes
on from there, and each poll is cut into lines by itself.
-/
namespace Forge.Engine
open Forge.Python Forge.Theory
set_option autoImplicit false

variable {floats : FloatRepr}

/-- What a follower can see before one of its steps. -/
structure Observation where
  fileEnd : Nat
  registered : Bool
  status : RunStatus
  now : String

/-- A call of `stream_sse`, with the positions at which its polls have found the file to end. -/
structure PolledCall where
  follower : Follower := {}
  polls : List Nat := []

def PolledCall.next (floats : FloatRepr) (text : List Char) (s : PolledCall) (o : Observation) : Option PolledCall :=
  (s.follower.step floats ⟨some (text.take o.fileEnd), o.registered⟩ o.status o.now).map fun follower =>
    { follower, polls := if s.follower.phase.polls then s.polls ++ [o.fileEnd] else s.polls }

def PolledCall.Step (floats : FloatRepr) (text : List Char) : PolledCall → Observation → PolledCall → Prop :=
  stepsOf (PolledCall.next floats text)

/-- What one read of the file sends. -/
def readOnce (floats : FloatRepr) (now : String) (text : List Char) : List String :=
  (LogStreamer.iterFileFrom { combined := some text } 0).1.filterMap (sse floats now)

theorem readOnce_logText (now : String) (events : List LogEvent) :
    readOnce floats now (logText events) = events.map LogEvent.sse := by
  have hText : ({ combined := some (logText events) } : LogStreamer).combined.getD [] = logText ([] ++ events) := by
    rw [List.nil_append]
    rfl
  have hRead := iterFileFrom_logText hText
  have hStart : (logText []).length = 0 := rfl
  rw [hStart] at hRead
  rw [readOnce, hRead, List.filterMap_map]
  apply List.filterMap_eq_map_iff_forall_eq_some.mpr
  intro event _
  rw [Function.comp_apply, sse_payload]

/-! ## Polls -/

/-- A read while the file ends at `p`. -/
def readTo (text : List Char) (p offset : Nat) : List String × Nat :=
  LogStreamer.iterFileFrom { combined := some (text.take p) } offset

/-- The lines that polls get, and the offset they leave, when they find the file to end at these positions. -/
def polled (text : List Char) : Nat → List Nat → List String × Nat
  | offset, [] => ([], offset)
  | offset, p :: rest =>
    let read := readTo text p offset
    (read.1 ++ (polled text read.2 rest).1, (polled text read.2 rest).2)

theorem polled_concat (text : List Char) (offset : Nat) (polls : List Nat) (p : Nat) :
    polled text offset (polls ++ [p]) =
      ((polled text offset polls).1 ++ (readTo text p (polled text offset polls).2).1,
        (readTo text p (polled text offset polls).2).2) := by
  induction polls generalizing offset with
  | nil => simp only [List.nil_append, polled, List.append_nil]
  | cons q rest ih => simp only [List.cons_append, polled, ih, List.append_assoc]

/-- These lines are sent as these events, each at its own time. -/
inductive Emitted (floats : FloatRepr) : List String → List String → Prop where
  | nil : Emitted floats [] []
  | line {lines sent : List String} (now raw : String) (before : Emitted floats lines sent) :
      Emitted floats (lines ++ [raw]) (sent ++ (sse floats now raw).toList)

/-- The lines of the polls so far are those sent and those that the follower has yet to send. -/
structure PolledCall.Inv (floats : FloatRepr) (text : List Char) (s : PolledCall) : Prop where
  lines : ∃ done, (polled text 0 s.polls).1 = done ++ s.follower.phase.lines ∧ Emitted floats done s.follower.sent
  offset : s.follower.offset = (polled text 0 s.polls).2

theorem PolledCall.Inv.next {text : List Char} {s t : PolledCall} {o : Observation} (h : s.Inv floats text)
    (hStep : PolledCall.Step floats text s o t) : t.Inv floats text := by
  obtain ⟨done, hLines, hSent⟩ := h.lines
  obtain ⟨follower, hFollower, rfl⟩ := Option.map_eq_some_iff.mp hStep
  cases Follower.step_does hFollower with
  | reads hPolls hNone hRead hSame =>
    rw [hNone, List.append_nil] at hLines
    rw [h.offset] at hRead
    have hRead : (follower.phase.lines, follower.offset) = readTo text o.fileEnd (polled text 0 s.polls).2 := hRead
    simp only [if_pos hPolls]
    refine ⟨⟨done, ?_, hSame ▸ hSent⟩, ?_⟩
    · rw [polled_concat, hLines, ← hRead]
    · rw [polled_concat, ← hRead]
  | emits raw hPolls hRaw hOffset hMore hLast =>
    simp only [hPolls, Bool.false_eq_true, if_false]
    refine ⟨⟨done ++ [raw], ?_, hMore ▸ .line o.now raw hSent⟩, hOffset.trans h.offset⟩
    rw [hLines, hRaw, List.append_assoc]
    rfl
  | moves hPolls hNone hLater hOffset hSame hLast =>
    simp only [hPolls, Bool.false_eq_true, if_false]
    exact ⟨⟨done, by rw [hLines, hNone, hLater], hSame ▸ hSent⟩, hOffset.trans h.offset⟩

/-- At the end of a call, all lines of its polls have been sent. -/
theorem emitted_of_ended {text : List Char} {labels : List Observation} {s : PolledCall}
    (hRun : Run (PolledCall.Step floats text) {} labels s) (hEnded : s.follower.phase = .ended) :
    Emitted floats (polled text 0 s.polls).1 s.follower.sent := by
  have hKeeps := hRun.invariant fun s o t (h : s.Inv floats text) hStep => h.next hStep
  obtain ⟨done, hLines, hSent⟩ := (hKeeps ⟨⟨[], rfl, .nil⟩, rfl⟩).lines
  rw [hLines, hEnded]
  exact (List.append_nil done).symm ▸ hSent

/-! ## Every sequence of polls -/

section
variable {text : List Char} {s : PolledCall}

/-- A sight of the file that no step depends on. -/
def glance (registered : Bool) : Observation := { fileEnd := 0, registered, status := .running, now := "" }

/-- While the lines of a poll are sent, the file is not looked at. -/
theorem run_emits (floats : FloatRepr) (text : List Char) {phase : List String → FollowerPhase} {next : FollowerPhase}
    (hPhase : phase = .emitting ∧ next = .asking ∨ phase = .emittingLast ∧ next = .ended) {lines : List String}
    (h : s.follower.phase = phase lines) : ∃ labels t,
    Run (PolledCall.Step floats text) s labels t ∧ t.follower.phase = next ∧ t.polls = s.polls := by
  induction lines generalizing s with
  | nil =>
    refine ⟨[glance true], { s with follower := { s.follower with phase := next } }, .single ?_, rfl, rfl⟩
    rcases hPhase with ⟨rfl, rfl⟩ | ⟨rfl, rfl⟩
    · simp [PolledCall.Step, stepsOf, PolledCall.next, Follower.step, h, FollowerPhase.polls]
    · simp [PolledCall.Step, stepsOf, PolledCall.next, Follower.step, h, FollowerPhase.polls]
  | cons raw lines ih =>
    obtain ⟨labels, t, hRun, hNext, hPolls⟩ :=
      ih (s := { s with follower := { s.follower.emit floats "" raw with phase := phase lines } }) rfl
    refine ⟨glance true :: labels, t, .cons ?_ hRun, hNext, hPolls⟩
    rcases hPhase with ⟨rfl, rfl⟩ | ⟨rfl, rfl⟩
    · simp [PolledCall.Step, stepsOf, PolledCall.next, Follower.step, h, FollowerPhase.polls, glance]
    · simp [PolledCall.Step, stepsOf, PolledCall.next, Follower.step, h, FollowerPhase.polls, glance]

/-- A poll, after which the run is found to go on or not. -/
theorem run_poll (floats : FloatRepr) (text : List Char) (p : Nat) (registered : Bool)
    (h : s.follower.phase = .reading) : ∃ labels t, Run (PolledCall.Step floats text) s labels t ∧
      t.follower.phase = (if registered then .reading else .draining) ∧ t.polls = s.polls ++ [p] := by
  obtain ⟨labels, t, hRun, hAsking, hPolls⟩ := run_emits floats text (.inl ⟨rfl, rfl⟩)
    (s := ⟨⟨.emitting (readTo text p s.follower.offset).1, (readTo text p s.follower.offset).2, s.follower.sent⟩,
      s.polls ++ [p]⟩) rfl
  have hRead : PolledCall.Step floats text s { glance true with fileEnd := p }
      ⟨⟨.emitting (readTo text p s.follower.offset).1, (readTo text p s.follower.offset).2, s.follower.sent⟩,
        s.polls ++ [p]⟩ := by
    simp [PolledCall.Step, stepsOf, PolledCall.next, Follower.step, h, FollowerPhase.polls, readTo,
      LogStreamer.iterFileFrom]
  have hAsk : PolledCall.Step floats text t (glance registered)
      { t with follower := { t.follower with phase := .checking registered } } := by
    simp [PolledCall.Step, stepsOf, PolledCall.next, Follower.step, hAsking, FollowerPhase.polls, glance]
  have hCheck : PolledCall.Step floats text { t with follower := { t.follower with phase := .checking registered } }
      (glance true)
      { t with follower := { t.follower with phase := if registered then .reading else .draining } } := by
    simp [PolledCall.Step, stepsOf, PolledCall.next, Follower.step, FollowerPhase.polls, glance, goesOn,
      RunStatus.isLive]
  exact ⟨_, _, (Run.cons hRead hRun).append (.cons hAsk (.single hCheck)), rfl, hPolls⟩

theorem run_lastPoll (floats : FloatRepr) (text : List Char) (p : Nat) (h : s.follower.phase = .draining) :
    ∃ labels t, Run (PolledCall.Step floats text) s labels t ∧
      t.follower.phase = .ended ∧ t.polls = s.polls ++ [p] := by
  obtain ⟨labels, t, hRun, hEnded, hPolls⟩ := run_emits floats text (.inr ⟨rfl, rfl⟩)
    (s := ⟨⟨.emittingLast (readTo text p s.follower.offset).1, (readTo text p s.follower.offset).2, s.follower.sent⟩,
      s.polls ++ [p]⟩) rfl
  refine ⟨{ glance true with fileEnd := p } :: labels, t, .cons ?_ hRun, hEnded, hPolls⟩
  simp [PolledCall.Step, stepsOf, PolledCall.next, Follower.step, h, FollowerPhase.polls, readTo,
    LogStreamer.iterFileFrom]

/-- A call polls once before the run is found to be over and once afterwards, and it can find the file to end
anywhere each time. -/
theorem exists_polledCall (floats : FloatRepr) (text : List Char) (polls : List Nat) (p q : Nat)
    (h : s.follower.phase = .reading) : ∃ labels t, Run (PolledCall.Step floats text) s labels t ∧
      t.follower.phase = .ended ∧ t.polls = s.polls ++ polls ++ [p, q] := by
  induction polls generalizing s with
  | nil =>
    obtain ⟨labels, t, hRun, hDraining, hPolls⟩ := run_poll floats text p false h
    obtain ⟨labels', u, hRun', hEnded, hPolls'⟩ := run_lastPoll floats text q hDraining
    exact ⟨_, u, hRun.append hRun', hEnded, by rw [hPolls', hPolls]; simp⟩
  | cons r rest ih =>
    obtain ⟨labels, t, hRun, hReading, hPolls⟩ := run_poll floats text r true h
    obtain ⟨labels', u, hRun', hEnded, hPolls'⟩ := ih hReading
    exact ⟨_, u, hRun.append hRun', hEnded, by rw [hPolls', hPolls]; simp⟩

end

/-! ## Lines and the events sent for them -/

/-- The stripped lines that are not blank. -/
def contentsOf (lines : List String) : List (List Char) := lineContents (lines.map String.toList)

theorem contentsOf_append (lines lines' : List String) :
    contentsOf (lines ++ lines') = contentsOf lines ++ contentsOf lines' := by
  rw [contentsOf, List.map_append, lineContents_append]
  rfl

theorem contentsOf_ofList (lines : List (List Char)) : contentsOf (lines.map String.ofList) = lineContents lines := by
  rw [contentsOf, List.map_map]
  have hSame : String.toList ∘ String.ofList = id := funext fun _ => String.toList_ofList
  rw [hSame, List.map_id]

theorem strip_eq_empty {raw : String} : strip raw = "" ↔ stripChars raw.toList = [] := by
  rw [strip, String.ofList_eq_empty_iff]

theorem length_sse (now raw : String) : (sse floats now raw).toList.length = (contentsOf [raw]).length := by
  rw [contentsOf, List.map_singleton]
  by_cases hBlank : stripChars raw.toList = []
  · rw [sse, if_pos (strip_eq_empty.mpr hBlank), lineContents_of_eq_nil hBlank]
    rfl
  · rw [sse, if_neg fun hEmpty => hBlank (strip_eq_empty.mp hEmpty), lineContents_of_ne_nil hBlank]
    rfl

theorem Emitted.length_sent {lines sent : List String} (h : Emitted floats lines sent) :
    sent.length = (contentsOf lines).length := by
  induction h with
  | nil => rfl
  | line now raw before ih =>
    rw [contentsOf_append, List.length_append, List.length_append, ih, length_sse]

theorem sse_of_contents {raw : String} {event : LogEvent} (now : String)
    (h : stripChars raw.toList = encode .compact event.toJson) : sse floats now raw = some event.sse := by
  have hStrip : strip raw = dumps .compact event.toJson := by rw [strip, h, dumps]
  simp only [sse, hStrip, event.dumps_ne, loads_dumps floats .compact event.canonical, if_false, LogEvent.sse]

theorem Emitted.sent_of_contents {lines sent : List String} (h : Emitted floats lines sent) {events : List LogEvent}
    (hContents : contentsOf lines = events.map fun event => encode .compact event.toJson) :
    sent = events.map LogEvent.sse := by
  induction h generalizing events with
  | nil =>
    cases List.map_eq_nil_iff.mp hContents.symm
    rfl
  | @line lines sent now raw before ih =>
    rw [contentsOf_append] at hContents
    by_cases hBlank : stripChars raw.toList = []
    · have hNone : contentsOf [raw] = [] := lineContents_of_eq_nil hBlank
      rw [hNone, List.append_nil] at hContents
      rw [ih hContents, sse, if_pos (strip_eq_empty.mpr hBlank)]
      exact List.append_nil _
    · have hOne : contentsOf [raw] = [stripChars raw.toList] := lineContents_of_ne_nil hBlank
      rw [hOne] at hContents
      obtain ⟨front, last, rfl, hFront, hLast⟩ := List.append_eq_map_iff.mp hContents
      obtain ⟨event, rfl, hEvent⟩ := List.map_eq_singleton_iff.mp hLast
      rw [ih hFront.symm, sse_of_contents now hEvent.symm, List.map_append]
      rfl

/-! ## Cuts -/

theorem contentsOf_polled_cons {text : List Char} (hText : '\r' ∉ text) {offset p : Nat} (hOffset : offset ≤ p)
    (hEnd : p ≤ text.length) (rest : List Nat) :
    contentsOf (polled text offset (p :: rest)).1 =
      lineContents (splitLinesChars ((text.take p).drop offset)) ++ contentsOf (polled text p rest).1 := by
  have hSame : universalNewlines ((text.take p).drop offset) = (text.take p).drop offset :=
    universalNewlines_eq_self fun hMem => hText (List.mem_of_mem_take (List.mem_of_mem_drop hMem))
  have hRead : readTo text p offset =
      ((splitLinesChars ((text.take p).drop offset)).map String.ofList, p) := by
    rw [readTo, LogStreamer.iterFileFrom]
    dsimp only
    rw [hSame, splitLinesKeepends, String.toList_ofList, List.length_take, min_eq_left hEnd, max_eq_right hOffset]
  rw [polled, hRead, contentsOf_append, contentsOf_ofList]

/-- The polls go forward in the text, the last one to its end. -/
inductive PollsTo (text : List Char) : Nat → List Nat → Prop where
  | done : PollsTo text text.length []
  | poll {offset p : Nat} {rest : List Nat} (forward : offset ≤ p) (later : PollsTo text p rest) :
      PollsTo text offset (p :: rest)

theorem pollsTo_of_sorted {text : List Char} {offset : Nat} {polls : List Nat}
    (hSorted : (offset :: polls).Pairwise (· ≤ ·)) (hLast : (offset :: polls).getLast? = some text.length) :
    PollsTo text offset polls := by
  induction polls generalizing offset with
  | nil =>
    cases Option.some.inj hLast
    exact .done
  | cons p rest ih =>
    rw [List.getLast?_cons_cons] at hLast
    obtain ⟨hForward, hLater⟩ := List.pairwise_cons.mp hSorted
    exact .poll (hForward p List.mem_cons_self) (ih hLater hLast)

theorem PollsTo.le_length {text : List Char} {offset : Nat} {polls : List Nat} (h : PollsTo text offset polls) :
    offset ≤ text.length := by
  induction h with
  | done => exact le_rfl
  | poll hForward _ ih => exact hForward.trans ih

theorem drop_eq_append {text : List Char} {offset p : Nat} (hOffset : offset ≤ p) (hEnd : p ≤ text.length) :
    text.drop offset = (text.take p).drop offset ++ text.drop p := by
  have hLength : offset ≤ (text.take p).length := by
    rw [List.length_take, min_eq_left hEnd]
    exact hOffset
  rw [← List.drop_append_of_le_length hLength, List.take_append_drop]

theorem le_contentsOf_polled {text : List Char} (hText : '\r' ∉ text) {offset : Nat} {polls : List Nat}
    (h : PollsTo text offset polls) :
    (lineContents (splitLinesChars (text.drop offset))).length ≤ (contentsOf (polled text offset polls).1).length := by
  induction h with
  | done =>
    rw [List.drop_length]
    exact Nat.zero_le _
  | @poll offset p rest hForward hLater ih =>
    have hAppend := lineContents_splitLines_append_le ((text.take p).drop offset) (text.drop p)
    rw [← drop_eq_append hForward hLater.le_length] at hAppend
    rw [contentsOf_polled_cons hText hForward hLater.le_length, List.length_append]
    omega

/-- Further cuts before and after a cut make no line less. -/
theorem le_contentsOf_cut {text : List Char} (hText : '\r' ∉ text) {offset : Nat} {polls : List Nat}
    (h : PollsTo text offset polls) {p : Nat} (hp : p ∈ polls) :
    (lineContents (splitLinesChars ((text.take p).drop offset))).length +
        (lineContents (splitLinesChars (text.drop p))).length ≤
      (contentsOf (polled text offset polls).1).length ∧ offset ≤ p ∧ p ≤ text.length := by
  induction h with
  | done => cases hp
  | @poll offset q rest hForward hLater ih =>
    rw [contentsOf_polled_cons hText hForward hLater.le_length, List.length_append]
    rcases List.mem_cons.mp hp with rfl | hp
    · exact ⟨Nat.add_le_add_left (le_contentsOf_polled hText hLater) _, hForward, hLater.le_length⟩
    · obtain ⟨hLines, hOffset, hEnd⟩ := ih hp
      have hLength : q ≤ (text.take p).length := by
        rw [List.length_take, min_eq_left hEnd]
        exact hOffset
      have hAppend := lineContents_splitLines_append_le ((text.take q).drop offset) ((text.take p).drop q)
      have hSplit := drop_eq_append hForward hLength
      rw [List.take_take, min_eq_left hOffset] at hSplit
      rw [← hSplit] at hAppend
      exact ⟨by omega, hForward.trans hOffset, hEnd⟩

/-! ## Where events end -/

/-- The file ends so after some of the events, or before the newline of the last of them. -/
def AtEventEnd (events : List LogEvent) (p : Nat) : Prop :=
  ∃ before, before <+: events ∧ (p = (logText before).length ∨ p + 1 = (logText before).length)

theorem logText_cons (event : LogEvent) (events : List LogEvent) :
    logText (event :: events) = encode .compact event.toJson ++ '\n' :: logText events := by
  simp [logText, event.payload_toList]

theorem contents_payload (event : LogEvent) (cs : List Char) :
    lineContents (splitLinesChars (encode .compact event.toJson ++ '\n' :: cs)) =
      encode .compact event.toJson :: lineContents (splitLinesChars cs) := by
  have hUnbroken : ∀ c ∈ encode .compact event.toJson, isLineBreak c = false :=
    fun c hc => isLineBreak_of_isPrintable (event.isPrintable_encode c hc)
  have hStrip : stripChars (encode .compact event.toJson ++ ['\n']) = encode .compact event.toJson :=
    event.stripChars_encode (by simp [isSpace])
  obtain ⟨members, -, hEq⟩ := event.encode_eq
  have hSome : stripChars (encode .compact event.toJson ++ ['\n']) ≠ [] := by
    rw [hStrip, hEq]
    exact List.cons_ne_nil _ _
  rw [splitLinesChars_line hUnbroken, lineContents_cons, lineContents_of_ne_nil hSome, hStrip]
  rfl

theorem contents_logText (events : List LogEvent) :
    lineContents (splitLinesChars (logText events)) = events.map fun event => encode .compact event.toJson := by
  induction events with
  | nil => rfl
  | cons event events ih => rw [logText_cons, contents_payload, ih, List.map_cons]

/-! ## Cuts elsewhere -/

theorem length_contents_line {piece : List Char} (hUnbroken : ∀ c ∈ piece, isLineBreak c = false) {c : Char}
    (hc : c ∈ piece) (hSpace : isSpace c = false) (cs : List Char) :
    (lineContents (splitLinesChars (piece ++ '\n' :: cs))).length =
      (lineContents (splitLinesChars cs)).length + 1 := by
  have hSome : stripChars (piece ++ ['\n']) ≠ [] := by
    intro hNone
    have hAll := stripChars_eq_nil.mp hNone c (List.mem_append_left _ hc)
    rw [hSpace] at hAll
    cases hAll
  rw [splitLinesChars_line hUnbroken, lineContents_cons, lineContents_of_ne_nil hSome]
  rfl

/-- A cut inside the object of an event leaves a brace on each side. -/
theorem mem_take_mem_drop (event : LogEvent) {p : Nat} (hPos : 0 < p)
    (hInside : p < (encode .compact event.toJson).length) :
    '{' ∈ (encode .compact event.toJson).take p ∧ '}' ∈ (encode .compact event.toJson).drop p := by
  obtain ⟨members, -, hEq⟩ := event.encode_eq
  rw [hEq] at hInside ⊢
  obtain ⟨q, rfl⟩ := Nat.exists_eq_succ_of_ne_zero hPos.ne'
  have hShort : q ≤ members.length := by
    simp only [List.length_cons, List.length_append, List.length_nil] at hInside
    omega
  rw [List.take_succ_cons, List.drop_succ_cons, List.drop_append_of_le_length hShort]
  exact ⟨List.mem_cons_self, List.mem_append_right _ (List.mem_singleton_self _)⟩

theorem length_lt_of_cut {events : List LogEvent} {p : Nat} (hEnd : p ≤ (logText events).length)
    (h : ¬AtEventEnd events p) :
    events.length < (lineContents (splitLinesChars ((logText events).take p))).length +
      (lineContents (splitLinesChars ((logText events).drop p))).length := by
  induction events generalizing p with
  | nil => exact absurd ⟨[], List.prefix_rfl, .inl (Nat.le_zero.mp hEnd)⟩ h
  | cons event events ih =>
    have hFirst : (logText [event]).length = (encode .compact event.toJson).length + 1 := by
      rw [logText_cons, List.length_append]
      rfl
    rw [logText_cons] at hEnd ⊢
    rcases Nat.lt_or_ge p (encode .compact event.toJson).length with hInside | hBehind
    · have hPos : 0 < p := by
        apply Nat.pos_of_ne_zero
        rintro rfl
        exact h ⟨[], List.nil_prefix, .inl rfl⟩
      obtain ⟨hOpen, hClose⟩ := mem_take_mem_drop event hPos hInside
      have hUnbroken : ∀ c ∈ encode .compact event.toJson, isLineBreak c = false :=
        fun c hc => isLineBreak_of_isPrintable (event.isPrintable_encode c hc)
      have hBefore := length_contents_line (fun c hc => hUnbroken c (List.mem_of_mem_take hc)) hOpen (by decide) []
      have hAfter := length_contents_line (fun c hc => hUnbroken c (List.mem_of_mem_drop hc)) hClose (by decide)
        (logText events)
      rw [lineContents_append_newline] at hBefore
      rw [contents_logText, List.length_map] at hAfter
      rw [List.take_append_of_le_length hInside.le, List.drop_append_of_le_length hInside.le, hBefore, hAfter,
        List.length_cons]
      omega
    · -- The cut lies in the text of the later events.
      have hPast : (encode .compact event.toJson).length + 1 ≤ p := by
        refine Nat.lt_of_le_of_ne hBehind fun hNewline => h ⟨[event], ?_, .inr ?_⟩
        · exact List.prefix_append [event] events
        · rw [hFirst, hNewline]
      obtain ⟨q, rfl⟩ := Nat.exists_eq_add_of_le hPast
      have hLater : ¬AtEventEnd events q := by
        rintro ⟨before, hPrefix, hq⟩
        refine h ⟨event :: before, List.cons_prefix_cons.mpr ⟨rfl, hPrefix⟩, ?_⟩
        rw [logText_cons, List.length_append, List.length_cons]
        omega
      have hLength : q ≤ (logText events).length := by
        rw [List.length_append, List.length_cons] at hEnd
        omega
      have hMore := ih hLength hLater
      have hSplit : encode .compact event.toJson ++ '\n' :: logText events =
          (encode .compact event.toJson ++ ['\n']) ++ logText events := by simp
      have hHead : (encode .compact event.toJson ++ ['\n']).length = (encode .compact event.toJson).length + 1 :=
        List.length_append
      rw [hSplit, ← hHead, List.take_length_add_append, List.drop_length_add_append, List.append_assoc,
        List.singleton_append, contents_payload, List.length_cons, List.length_cons]
      omega

/-! ## Cuts where events end -/

def IsClosing (closing : List Char) : Prop := closing = [] ∨ closing = ['\n']

theorem contents_append_closing {closing : List Char} (h : IsClosing closing) (cs : List Char) :
    lineContents (splitLinesChars (cs ++ closing)) = lineContents (splitLinesChars cs) := by
  rcases h with rfl | rfl
  · rw [List.append_nil]
  · exact lineContents_append_newline cs

theorem contents_closing_append {closing : List Char} (h : IsClosing closing) (cs : List Char) :
    lineContents (splitLinesChars (closing ++ cs)) = lineContents (splitLinesChars cs) := by
  rcases h with rfl | rfl
  · rfl
  · exact lineContents_newline cs

/-- The text up to `p` is that of the events `before`, but for a newline at its end. -/
def EndsAfter (text : List Char) (before : List LogEvent) (p : Nat) : Prop :=
  ∃ closing, IsClosing closing ∧ text.take p ++ closing = logText before

theorem endsAfter_of_atEventEnd {events : List LogEvent} {p : Nat} (h : AtEventEnd events p) :
    ∃ before, before <+: events ∧ EndsAfter (logText events) before p := by
  obtain ⟨before, ⟨after, rfl⟩, hp⟩ := h
  refine ⟨before, List.prefix_append before after, ?_⟩
  rw [logText_append]
  rcases hp with rfl | hp
  · exact ⟨[], .inl rfl, by rw [List.take_left, List.append_nil]⟩
  · rcases List.eq_nil_or_concat before with rfl | ⟨front, last, rfl⟩
    · cases hp
    · have hText : logText (front ++ [last]) = (logText front ++ encode .compact last.toJson) ++ ['\n'] := by
        rw [logText_append, logText_cons, List.append_assoc]
        rfl
      rw [List.concat_eq_append, hText] at hp ⊢
      rw [List.length_append] at hp
      have hLength : p = (logText front ++ encode .compact last.toJson).length := Nat.succ_injective hp
      exact ⟨['\n'], .inr rfl, by rw [List.append_assoc _ ['\n'], hLength, List.take_left, hText]⟩

theorem EndsAfter.length {text : List Char} {before : List LogEvent} {p : Nat} (h : EndsAfter text before p)
    (hEnd : p ≤ text.length) : p ≤ (logText before).length ∧ (logText before).length ≤ p + 1 := by
  obtain ⟨closing, hClosing, hText⟩ := h
  have hLength := congrArg List.length hText
  rw [List.length_append, List.length_take, min_eq_left hEnd] at hLength
  rcases hClosing with rfl | rfl
  · rw [List.length_nil] at hLength
    omega
  · rw [List.length_singleton] at hLength
    omega

theorem two_le_length {events : List LogEvent} (h : events ≠ []) : 2 ≤ (logText events).length := by
  obtain ⟨event, rest, rfl⟩ := List.exists_cons_of_ne_nil h
  obtain ⟨members, -, hEq⟩ := event.encode_eq
  rw [logText_cons, hEq, List.cons_append, List.length_cons, List.length_append, List.length_append]
  simp only [List.length_cons]
  omega

/-- A later position is behind as many events or more. -/
theorem prefix_of_le {text : List Char} {events before before' : List LogEvent} {offset p : Nat}
    (hBefore : before <+: events) (hBefore' : before' <+: events) (h : EndsAfter text before offset)
    (h' : EndsAfter text before' p) (hForward : offset ≤ p) (hEnd : p ≤ text.length) : before <+: before' := by
  rcases List.prefix_or_prefix_of_prefix hBefore hBefore' with hPrefix | ⟨extra, rfl⟩
  · exact hPrefix
  · by_cases hExtra : extra = []
    · rw [hExtra, List.append_nil]
    · have hMore := two_le_length hExtra
      have hLess := (h.length (hForward.trans hEnd)).2
      have hFull := (h'.length hEnd).1
      rw [logText_append, List.length_append] at hLess
      omega

theorem contents_between {text : List Char} {before between : List LogEvent} {offset p : Nat}
    (h : EndsAfter text before offset) (h' : EndsAfter text (before ++ between) p) (hForward : offset ≤ p) :
    lineContents (splitLinesChars ((text.take p).drop offset)) =
      between.map fun event => encode .compact event.toJson := by
  obtain ⟨closing, hClosing, hText⟩ := h
  obtain ⟨closing', hClosing', hText'⟩ := h'
  have hTake : text.take p = text.take offset ++ (text.take p).drop offset := by
    have hSplit := List.take_append_drop offset (text.take p)
    rw [List.take_take, min_eq_left hForward] at hSplit
    exact hSplit.symm
  have hMiddle : (text.take p).drop offset ++ closing' = closing ++ logText between := by
    rw [hTake, logText_append, ← hText, List.append_assoc, List.append_assoc] at hText'
    exact List.append_cancel_left hText'
  calc lineContents (splitLinesChars ((text.take p).drop offset))
      = lineContents (splitLinesChars ((text.take p).drop offset ++ closing')) :=
        (contents_append_closing hClosing' _).symm
    _ = lineContents (splitLinesChars (logText between)) := by rw [hMiddle, contents_closing_append hClosing]
    _ = between.map fun event => encode .compact event.toJson := contents_logText between

theorem contentsOf_polled {text : List Char} {offset : Nat} {polls : List Nat} (hPolls : PollsTo text offset polls)
    {before after : List LogEvent} (hText : text = logText (before ++ after)) (hBefore : EndsAfter text before offset)
    (h : ∀ p ∈ polls, AtEventEnd (before ++ after) p) :
    contentsOf (polled text offset polls).1 = after.map fun event => encode .compact event.toJson := by
  induction hPolls generalizing before after with
  | done =>
    obtain ⟨closing, -, hWhole⟩ := hBefore
    have hLength := congrArg List.length hWhole
    rw [List.take_length, hText, logText_append, List.length_append, List.length_append] at hLength
    have hNone : logText after = [] := List.eq_nil_of_length_eq_zero (by omega)
    rw [logText_eq_nil hNone]
    rfl
  | @poll offset p rest hForward hLater ih =>
    obtain ⟨hHead, hRest⟩ := List.forall_mem_cons.mp h
    obtain ⟨before', hPrefix, hEnds⟩ := endsAfter_of_atEventEnd hHead
    rw [← hText] at hEnds
    obtain ⟨between, rfl⟩ := prefix_of_le (List.prefix_append before after) hPrefix hBefore hEnds hForward
      hLater.le_length
    obtain ⟨after', hAfter⟩ := hPrefix
    rw [List.append_assoc] at hAfter
    obtain rfl := List.append_cancel_left hAfter
    have hNoCr : '\r' ∉ text := hText ▸ not_mem_logText _
    rw [← List.append_assoc] at hText hRest
    rw [contentsOf_polled_cons hNoCr hForward hLater.le_length, contents_between hBefore hEnds hForward,
      ih hText hEnds hRest, List.map_append]

/-- A call sends the events of one read of the final file if and only if each of its polls finds the file to end
after an event or before the newline of one. -/
theorem polledCall_sends_iff {events : List LogEvent} {labels : List Observation} {s : PolledCall}
    (hRun : Run (PolledCall.Step floats (logText events)) {} labels s) (hEnded : s.follower.phase = .ended)
    (hSorted : s.polls.Pairwise (· ≤ ·)) (hLast : s.polls.getLast? = some (logText events).length) (now : String) :
    s.follower.sent = readOnce floats now (logText events) ↔ ∀ p ∈ s.polls, AtEventEnd events p := by
  have hEmitted := emitted_of_ended hRun hEnded
  have hFromStart : (0 :: s.polls).Pairwise (· ≤ ·) := List.pairwise_cons.mpr ⟨fun p _ => Nat.zero_le p, hSorted⟩
  have hPolls : PollsTo (logText events) 0 s.polls := by
    apply pollsTo_of_sorted hFromStart
    rw [List.getLast?_cons, hLast]
    rfl
  rw [readOnce_logText]
  constructor
  · intro hSent p hp
    by_contra hCut
    obtain ⟨hLines, -, hEnd⟩ := le_contentsOf_cut (not_mem_logText events) hPolls hp
    have hMore := length_lt_of_cut hEnd hCut
    have hLength := hEmitted.length_sent
    rw [hSent, List.length_map] at hLength
    rw [List.drop_zero] at hLines
    omega
  · intro hCuts
    have hStart : EndsAfter (logText events) [] 0 := ⟨[], .inl rfl, rfl⟩
    exact hEmitted.sent_of_contents (contentsOf_polled hPolls rfl hStart hCuts)

def tailedEvents : List LogEvent := [⟨"10:00", "build", "ab"⟩, ⟨"10:01", "build", "c"⟩]

def looks (fileEnd : Nat) (registered : Bool) (n : Nat) : List Observation :=
  List.replicate n { fileEnd, registered, status := .running, now := "10:02" }

/-- The first poll finds no newline after the first event, the second one finds it. -/
theorem polledCall_sends_whole : ∃ s : PolledCall,
    Run (PolledCall.Step zeroFloats (logText tailedEvents)) {}
        (looks 40 true 5 ++ looks 41 true 5 ++ looks 81 false 7) s ∧
      s.polls = [40, 41, 81, 81] ∧
      s.follower.sent = readOnce zeroFloats "10:03" (logText tailedEvents) := by
  have hSome : ((execute (PolledCall.next zeroFloats (logText tailedEvents)) {}
      (looks 40 true 5 ++ looks 41 true 5 ++ looks 81 false 7)).any fun s =>
        s.polls = [40, 41, 81, 81] ∧ s.follower.hasEnded = true) = true := by decide +kernel
  obtain ⟨s, hExecute, hEnd⟩ := (Option.any_eq_true _ _).mp hSome
  obtain ⟨hPolls, hEnded⟩ := of_decide_eq_true hEnd
  have hRun := run_stepsOf_iff.mpr hExecute
  have hFirst : (logText (tailedEvents.take 1)).length = 41 := by decide +kernel
  have hBoth : (logText tailedEvents).length = 81 := by decide +kernel
  have hIff := polledCall_sends_iff hRun (Follower.hasEnded_iff.mp hEnded) (by rw [hPolls]; decide)
    (by rw [hPolls, hBoth]; rfl) "10:03"
  refine ⟨s, hRun, hPolls, hIff.mpr fun p hp => ?_⟩
  rw [hPolls] at hp
  simp only [List.mem_cons, List.not_mem_nil, or_false, or_self] at hp
  rcases hp with rfl | rfl | rfl
  · exact ⟨_, List.take_prefix 1 tailedEvents, .inr hFirst.symm⟩
  · exact ⟨_, List.take_prefix 1 tailedEvents, .inl hFirst.symm⟩
  · exact ⟨_, List.prefix_rfl, .inl hBoth.symm⟩

/-- The first poll ends inside of the first event, which is sent as two events of the job `system`. -/
theorem polledCall_sends_torn : ∃ s : PolledCall,
    Run (PolledCall.Step zeroFloats (logText tailedEvents)) {}
        (looks 20 true 5 ++ looks 41 true 5 ++ looks 81 false 7) s ∧
      s.follower.phase = .ended ∧ s.polls = [20, 41, 81, 81] ∧ (logText tailedEvents).length = 81 ∧
      s.follower.sent ≠ readOnce zeroFloats "10:03" (logText tailedEvents) ∧
      s.follower.sent.take 2 = [LogEvent.sse ⟨"10:02", "system", "\x7b\"ts\":\"10:00\",\"job\":"⟩,
        LogEvent.sse ⟨"10:02", "system", "\"build\",\"line\":\"ab\"\x7d"⟩] := by
  have hSome : ((execute (PolledCall.next zeroFloats (logText tailedEvents)) {}
      (looks 20 true 5 ++ looks 41 true 5 ++ looks 81 false 7)).any fun s =>
        s.follower.hasEnded = true ∧ s.polls = [20, 41, 81, 81] ∧ (logText tailedEvents).length = 81 ∧
          s.follower.sent ≠ readOnce zeroFloats "10:03" (logText tailedEvents) ∧
          s.follower.sent.take 2 = [LogEvent.sse ⟨"10:02", "system", "\x7b\"ts\":\"10:00\",\"job\":"⟩,
            LogEvent.sse ⟨"10:02", "system", "\"build\",\"line\":\"ab\"\x7d"⟩]) = true := by decide +kernel
  obtain ⟨s, hExecute, hEnd⟩ := (Option.any_eq_true _ _).mp hSome
  obtain ⟨hEnded, hRest⟩ := of_decide_eq_true hEnd
  exact ⟨s, run_stepsOf_iff.mpr hExecute, Follower.hasEnded_iff.mp hEnded, hRest⟩

end Forge.Engine
