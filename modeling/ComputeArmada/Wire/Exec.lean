import ComputeArmada.Adapter.Channel
import ComputeArmada.Agent.Events

/-!
# The output of a command

What the agent writes to `POST /exec`, read by `AgentChannel.run` and `AgentChannel.stream`.

* `reads_isPrefix` : of a response that may be cut short, the reader yields the events that have arrived;
* `collect_events` : what they come to;
* `exec_output` : a whole response is the command's output and its exit code;
* `cut_off` : a part of one is no result.
-/

namespace ComputeArmada.Wire
open Adapter Agent

/-! ## Lines -/

section

theorem trimList_brace (text : List Char) :
    Js.trimList ('{' :: text) = '{' :: (text.reverse.dropWhile Js.isSpace).reverse := by
  have hbrace : Js.isSpace '{' = false := by decide
  rw [Js.trimList, List.dropWhile_cons_of_neg (by simp [hbrace]), List.reverse_cons, List.dropWhile_append]
  split
  · rename_i hempty
    rw [List.isEmpty_iff.mp hempty]
    simp [hbrace]
  · simp

/-- What begins with a brace still does when it is trimmed. -/
theorem trimList_isPrefix (text : List Char) : ∃ text', Js.trimList ('{' :: text) = '{' :: text' ∧ text' <+: text := by
  refine ⟨_, trimList_brace text, ?_⟩
  have hpre := List.reverse_prefix.mpr (List.dropWhile_suffix (p := Js.isSpace) (l := text.reverse))
  rw [List.reverse_reverse] at hpre
  exact hpre

theorem trimList_object (text : List Char) : Js.trimList ('{' :: (text ++ ['}'])) = '{' :: (text ++ ['}']) := by
  have hbrace : Js.isSpace '}' = false := by decide
  rw [trimList_brace, List.reverse_append, List.reverse_singleton, List.singleton_append,
    List.dropWhile_cons_of_neg (by simp [hbrace])]
  simp

variable (engine : Engine)

theorem parse_line (event : ExecEvent) :
    engine.parse (Js.trimList event.line) = .ok (event.json engine.number) := by
  have hline : Js.trimList event.line = event.line := trimList_object _
  rw [hline, Engine.parse, event.parse_line]

/-- A part of a line of the agent is no JSON. -/
theorem parse_part {event : ExecEvent} {part : List Char} (hpart : part <+: event.line) (hne : part ≠ [])
    (hproper : part ≠ event.line) : Js.trimList part ≠ [] ∧
    ∃ cause, engine.parse (Js.trimList part) = .error cause := by
  obtain ⟨rest, hrest⟩ := hpart
  obtain ⟨c, part, rfl⟩ := List.exists_cons_of_ne_nil hne
  have hbrace : c = '{' := List.head_eq_of_cons_eq hrest
  subst hbrace
  obtain ⟨part', htrim, rest', rfl⟩ := trimList_isPrefix part
  refine ⟨by rw [htrim]; exact List.cons_ne_nil _ _, ?_⟩
  rw [htrim, Engine.parse]
  cases hread : Json.parse engine.number ('{' :: part') with
  | none => exact ⟨_, rfl⟩
  | some v =>
    have hwhole := event.parse_line engine.number
    rw [← hrest, List.cons_append, List.append_assoc] at hwhole
    have hblank := Json.parse_isPrefix hread hwhole
    -- what is left of the line ends with a brace
    have hne : rest' ++ rest ≠ [] := by
      intro hnil
      obtain ⟨rfl, rfl⟩ := List.append_eq_nil_iff.mp hnil
      exact hproper (by simpa using hrest)
    have hlast : event.line.getLast? = some '}' := by
      rw [ExecEvent.line, Json.Reader.objectText, ← List.cons_append, List.getLast?_concat]
    rw [← hrest, List.cons_append, List.append_assoc, ← List.cons_append, List.getLast?_append_of_ne_nil _ hne] at hlast
    exact absurd (hblank '}' (List.mem_of_getLast? hlast)) (by decide)

theorem notMem_line (event : ExecEvent) : '\n' ∉ event.line := fun h =>
  absurd (event.printable_line '\n' h) (by decide)

theorem parseLines_events (events : List ExecEvent) : parseLines engine (events.map (·.line)) =
    { values := events.map (·.json engine.number), failure := none } := by
  induction events with
  | nil => rfl
  | cons event events ih =>
    have htrim : Js.trimList event.line ≠ [] := by
      rw [ExecEvent.line, Json.Reader.objectText, trimList_object]
      exact List.cons_ne_nil _ _
    rw [List.map_cons, parseLines]
    simp only [if_neg htrim, parse_line, ih, List.map_cons]

end

/-- The lines of a text that is cut short: whole ones, and a part of the next one. -/
theorem takeLines_isPrefix {lines : List (List Char)} (hlines : ∀ line ∈ lines, '\n' ∉ line) {text : List Char}
    (h : text <+: lines.flatMap (· ++ ['\n'])) : ∃ k rest, takeLines text = (lines.take k, rest) ∧
      text = (lines.take k).flatMap (· ++ ['\n']) ++ rest ∧
      (rest = [] ∨ ∃ line, lines[k]? = some line ∧ rest <+: line) := by
  induction lines generalizing text with
  | nil =>
    obtain rfl : text = [] := List.prefix_nil.mp h
    exact ⟨0, [], rfl, rfl, .inl rfl⟩
  | cons line lines ih =>
    obtain ⟨hline, hlines⟩ := List.forall_mem_cons.mp hlines
    rw [List.flatMap_cons] at h
    rcases List.prefix_or_prefix_of_prefix h (List.prefix_append _ _) with hshort | ⟨text', rfl⟩
    · rcases List.prefix_concat_iff.mp hshort with rfl | hshort
      · refine ⟨1, [], ?_, by simp, .inl rfl⟩
        rw [takeLines_line hline]
        rfl
      · have hnone : '\n' ∉ text := fun hmem => hline (hshort.subset hmem)
        exact ⟨0, text, takeLines_of_notMem hnone, rfl, .inr ⟨line, rfl, hshort⟩⟩
    · obtain ⟨k, rest, htake, htext, hrest⟩ := ih hlines ((List.prefix_append_right_inj _).mp h)
      refine ⟨k + 1, rest, ?_, ?_, hrest⟩
      · rw [List.append_assoc, List.singleton_append, takeLines_line hline, htake]
        rfl
      · rw [List.take_succ_cons, List.flatMap_cons, List.append_assoc _ _ rest, ← htext]

/-! ## Events -/

def textOf (events : List ExecEvent) : List Char := (events.map (·.line)).flatMap (· ++ ['\n'])

theorem execBody_eq (pid : Int) (output : List ExecEvent) (last : ExecEvent) :
    execBody pid output last = Utf8.encode (textOf ({ pid : ExecEvent } :: output ++ [last])) := by
  rw [execBody, textOf, Utf8.encode, List.flatMap_assoc, List.flatMap_map]
  rfl

theorem textOf_append (events events' : List ExecEvent) :
    textOf (events ++ events') = textOf events ++ textOf events' := by
  simp [textOf]

/-- A text of the agent has no byte order mark. -/
theorem decode_isPrefix {events : List ExecEvent} {bytes : List UInt8} (h : bytes <+: Utf8.encode (textOf events)) :
    (TextDecoder.new.decode bytes).2 = (Utf8.run .none bytes).2 := by
  have hread : (Utf8.run .none bytes).2 <+: textOf events := (Utf8.run_isPrefix h).1
  unfold TextDecoder.decode TextDecoder.new
  simp only [Bool.false_eq_true, if_false]
  split
  · rename_i hnil
    rw [hnil]
  · rename_i c text hcons
    have hbrace : c = '{' := by
      cases events with
      | nil => simp [textOf, hcons] at hread
      | cons event events =>
        obtain ⟨rest, hrest⟩ := hread
        rw [hcons] at hrest
        exact List.head_eq_of_cons_eq hrest
    rw [hcons, if_neg (by rw [hbrace]; decide)]

variable (engine : Engine)

theorem takeLines_textOf (events : List ExecEvent) : takeLines (textOf events) = (events.map (·.line), []) := by
  induction events with
  | nil => rfl
  | cons event events ih =>
    have htext : textOf (event :: events) = event.line ++ '\n' :: textOf events := by simp [textOf]
    rw [htext, takeLines_line (notMem_line event), ih]
    rfl

/-- Of a whole response, the reader yields the events. -/
theorem reads_whole {events : List ExecEvent} (body : ResponseBody)
    (h : body.chunks.flatten = Utf8.encode (textOf events)) (hend : body.failure = none) :
    readNdjson engine body = { values := events.map (·.json engine.number), failure := none } := by
  have hpre : body.chunks.flatten <+: Utf8.encode (textOf events) := h ▸ List.prefix_rfl
  rw [readNdjson_eq, decode_isPrefix hpre, h, Utf8.run_encode, takeLines_textOf, parseLines_events, hend]
  simp [Yielded.andThen, readRest, parseLines, Js.trimList]

theorem textOf_take_succ {events : List ExecEvent} {k : Nat} {event : ExecEvent} (h : events[k]? = some event) :
    textOf (events.take (k + 1)) = textOf (events.take k) ++ event.line ++ ['\n'] := by
  rw [List.take_add_one, h, Option.toList_some, textOf_append]
  simp [textOf]

/-- Of a response that may be cut short, the reader yields the events whose lines have arrived, but perhaps for
the newline of the last of them. -/
theorem reads_isPrefix {events : List ExecEvent} {body : ResponseBody}
    (h : body.chunks.flatten <+: Utf8.encode (textOf events)) : ∃ k,
      (readNdjson engine body).values = (events.take k).map (·.json engine.number) ∧
      (Utf8.encode (textOf (events.take k))).length ≤ body.chunks.flatten.length + 1 := by
  have hlines : ∀ line ∈ events.map (·.line), '\n' ∉ line := by
    intro line hline
    obtain ⟨event, -, rfl⟩ := List.mem_map.mp hline
    exact notMem_line event
  obtain ⟨hread, hbytes⟩ := Utf8.run_isPrefix h
  obtain ⟨k, rest, htake, htext, hrest⟩ := takeLines_isPrefix hlines hread
  rw [← List.map_take] at htext
  have hlength := hbytes.length_le
  rw [htext, Utf8.encode_append, List.length_append] at hlength
  rw [readNdjson_eq, decode_isPrefix h, htake, ← List.map_take, parseLines_events]
  by_cases hvalues : (readRest engine body.failure rest).values = []
  · exact ⟨k, by simp [Yielded.andThen, hvalues], by unfold textOf; omega⟩
  · obtain ⟨hend, hne⟩ : body.failure = none ∧ rest ≠ [] := by
      refine ⟨Option.eq_none_iff_forall_ne_some.mpr fun cause hcause => hvalues ?_, fun hnil => hvalues ?_⟩
      · rw [hcause]
        rfl
      · rw [hnil]
        cases body.failure <;> rfl
    obtain ⟨line, hline, hpart⟩ := hrest.resolve_left hne
    rw [List.getElem?_map] at hline
    obtain ⟨event, hevent, rfl⟩ := Option.map_eq_some_iff.mp hline
    -- a proper part of the line would be refused
    have hrest : rest = event.line := by
      by_contra hproper
      obtain ⟨htrim, cause, hcause⟩ := parse_part engine hpart hne hproper
      refine hvalues ?_
      rw [hend]
      simp only [readRest, parseLines, if_neg htrim, hcause]
    have hone := parseLines_events engine [event]
    refine ⟨k + 1, ?_, ?_⟩
    · rw [hend, readRest, hrest, List.take_add_one, hevent]
      rw [List.map_singleton] at hone
      simp [Yielded.andThen, hone]
    · rw [textOf_take_succ hevent, Utf8.encode_append, Utf8.encode_append, List.length_append,
        List.length_append, ← hrest]
      have hnewline : (Utf8.encode ['\n']).length = 1 := by decide
      unfold textOf
      omega

/-! ## What they come to -/

theorem push_bytes (buffers : List (List UInt8)) (bytes : List UInt8) :
    AgentChannel.push engine buffers
        (if bytes = [] then none else some (.string (String.ofList (Base64.encode bytes)))) =
      .ok (buffers ++ if bytes = [] then [] else [bytes]) := by
  split
  · simp [AgentChannel.push]
  · simp only [AgentChannel.push, Engine.base64Bytes, String.toList_ofList, Base64.decode_encode]
    rfl

theorem onEvent_json (read : AgentChannel.Read) {event : ExecEvent} (h : event.error = []) :
    AgentChannel.onEvent engine read (event.json engine.number) =
      .ok { out := read.out ++ (if event.stdout = [] then [] else [event.stdout])
            err := read.err ++ (if event.stderr = [] then [] else [event.stderr])
            exit := if event.exit.isSome then some (event.json engine.number) else read.exit } := by
  obtain ⟨hstdout, hstderr, hexit, -, herror⟩ := event.get_json engine.number
  have hevent : asEvent (event.json engine.number) = .ok (event.json engine.number) := rfl
  simp only [AgentChannel.onEvent, hevent, ok_bind, hstdout, hstderr, herror, if_pos h, push_bytes, hexit,
    Option.isSome_map]
  rfl

theorem onEvent_error (read : AgentChannel.Read) {event : ExecEvent} (h : event.error ≠ []) :
    ∃ cause, AgentChannel.onEvent engine read (event.json engine.number) = .error cause := by
  obtain ⟨hstdout, hstderr, -, -, herror⟩ := event.get_json engine.number
  have hevent : asEvent (event.json engine.number) = .ok (event.json engine.number) := rfl
  simp only [AgentChannel.onEvent, hevent, ok_bind, hstdout, hstderr, herror, if_neg h, push_bytes]
  exact ⟨_, rfl⟩

theorem collect_events {events : List ExecEvent} (h : ∀ event ∈ events, event.error = [] ∧ event.exit = none)
    (read : AgentChannel.Read) : ∃ read',
      (events.map (·.json engine.number)).foldlM (AgentChannel.onEvent engine) read = .ok read' ∧
      read'.out.flatten = read.out.flatten ++ events.flatMap (·.stdout) ∧
      read'.err.flatten = read.err.flatten ++ events.flatMap (·.stderr) ∧ read'.exit = read.exit := by
  induction events generalizing read with
  | nil => exact ⟨read, rfl, by simp, by simp, rfl⟩
  | cons event events ih =>
    obtain ⟨⟨herror, hexit⟩, hevents⟩ := List.forall_mem_cons.mp h
    have hflatten : ∀ bytes : List UInt8, (if bytes = [] then [] else [bytes]).flatten = bytes := by
      intro bytes
      split <;> simp [*]
    obtain ⟨read', hread', hout, herr, hexit'⟩ := ih hevents
      { out := read.out ++ (if event.stdout = [] then [] else [event.stdout])
        err := read.err ++ (if event.stderr = [] then [] else [event.stderr]), exit := read.exit }
    refine ⟨read', ?_, ?_, ?_, hexit'⟩
    · rw [List.map_cons, List.foldlM_cons, onEvent_json engine read herror, hexit]
      exact hread'
    · rw [hout, List.flatten_append, hflatten, List.flatMap_cons, List.append_assoc]
    · rw [herr, List.flatten_append, hflatten, List.flatMap_cons, List.append_assoc]

/-- What the events before an exit, and the exit, come to. -/
theorem collect_exit {events : List ExecEvent} (h : ∀ event ∈ events, event.error = [] ∧ event.exit = none)
    (status : WaitStatus) (timedOut : Bool) : ∃ read,
      ((events ++ [exitEvent status timedOut]).map (·.json engine.number)).foldlM (AgentChannel.onEvent engine)
        { out := [], err := [], exit := none } = .ok read ∧
      read.out.flatten = events.flatMap (·.stdout) ∧ read.err.flatten = events.flatMap (·.stderr) ∧
      read.exit = some ((exitEvent status timedOut).json engine.number) := by
  obtain ⟨read, hread, hout, herr, -⟩ := collect_events engine h { out := [], err := [], exit := none }
  refine ⟨{ read with exit := some ((exitEvent status timedOut).json engine.number) }, ?_, by simpa using hout,
    by simpa using herr, rfl⟩
  rw [List.map_append, List.foldlM_append, hread, List.map_singleton]
  change AgentChannel.onEvent engine read _ >>= _ = _
  rw [onEvent_json engine read rfl]
  simp [exitEvent]

/-- A response to a command that was started. -/
def started (body : ResponseBody) : Fetched := .answered { status := 200, body := some body }

section
variable (endpoint : AgentEndpoint) (command : List String)

theorem run_started (timeoutMs : Option Nat) (body : ResponseBody) :
    AgentChannel.run engine endpoint command timeoutMs (started body) =
      match AgentChannel.readEvents engine body with
      | .error cause => .error (AgentChannel.failure endpoint (runWhat command) cause)
      | .ok read =>
        match read.exit with
        | none => .error (AgentChannel.failure endpoint (runWhat command)
            (error "the response ended without an exit status"))
        | some event =>
          if booleanOf event "timedOut" = some true then
            .error { name := "CommandTimeoutError"
                     message := "Command timed out after " ++ (timeoutMs.map toString).getD "undefined" ++ "ms in " ++
                       AgentChannel.place endpoint ++ ": " ++ programOf command }
          else .ok { stdout := AgentChannel.utf8Text read.out, stderr := AgentChannel.utf8Text read.err
                     exitCode := (event.get? "exit").getD .null } := rfl

theorem run_exit (timeoutMs : Option Nat) {pid : Int} {output : List ExecEvent}
    (h : ∀ event ∈ output, event.error = [] ∧ event.exit = none) (status : WaitStatus) (timedOut : Bool)
    {chunks : List (List UInt8)} (hchunks : chunks.flatten = execBody pid output (exitEvent status timedOut)) :
    AgentChannel.run engine endpoint command timeoutMs (started { chunks, failure := none }) =
      if timedOut then
        .error { name := "CommandTimeoutError"
                 message := "Command timed out after " ++ (timeoutMs.map toString).getD "undefined" ++ "ms in " ++
                   AgentChannel.place endpoint ++ ": " ++ programOf command }
      else .ok { stdout := String.ofList (Utf8.decode (output.flatMap (·.stdout)))
                 stderr := String.ofList (Utf8.decode (output.flatMap (·.stderr)))
                 exitCode := .number (engine.number status.exitCode) } := by
  rw [execBody_eq] at hchunks
  have hread := reads_whole engine { chunks, failure := none } hchunks rfl
  have hfirst : ∀ event ∈ { pid : ExecEvent } :: output, event.error = [] ∧ event.exit = none :=
    List.forall_mem_cons.mpr ⟨⟨rfl, rfl⟩, h⟩
  obtain ⟨read, hcollect, hout, herr, hexit⟩ := collect_exit engine hfirst status timedOut
  have hevents : AgentChannel.readEvents engine { chunks, failure := none } = .ok read := by
    simp only [AgentChannel.readEvents, hread, hcollect, ok_bind]
    rfl
  obtain ⟨-, -, hcode, htimed, -⟩ := (exitEvent status timedOut).get_json engine.number
  rw [run_started, hevents]
  simp only [hexit, booleanOf, htimed, hcode, AgentChannel.utf8Text, hout, herr]
  cases timedOut <;> rfl

theorem run_whole (timeoutMs : Option Nat) {pid : Int} {output : List ExecEvent}
    (h : ∀ event ∈ output, event.error = [] ∧ event.exit = none) (status : WaitStatus) {chunks : List (List UInt8)}
    (hchunks : chunks.flatten = execBody pid output (exitEvent status false)) :
    AgentChannel.run engine endpoint command timeoutMs (started { chunks, failure := none }) =
      .ok { stdout := String.ofList (Utf8.decode (output.flatMap (·.stdout)))
            stderr := String.ofList (Utf8.decode (output.flatMap (·.stderr)))
            exitCode := .number (engine.number status.exitCode) } :=
  run_exit engine endpoint command timeoutMs h status false hchunks

theorem pull_events (aborted : Bool) {events : List ExecEvent} (h : ∀ event ∈ events, event.error = []) :
    AgentChannel.pull engine endpoint (runWhat command) aborted none (events.map (·.json engine.number)) =
      { chunks := (events.map (·.stdout)).filter (· ≠ []), failure := none } := by
  induction events with
  | nil => cases aborted <;> rfl
  | cons event events ih =>
    obtain ⟨herror, hevents⟩ := List.forall_mem_cons.mp h
    obtain ⟨hstdout, -, -, -, hnone⟩ := event.get_json engine.number
    rw [if_pos herror] at hnone
    have hevent : asEvent (event.json engine.number) = .ok (event.json engine.number) := rfl
    rw [List.map_cons, AgentChannel.pull, hevent]
    simp only [hnone, hstdout]
    by_cases hempty : event.stdout = []
    · rw [if_pos hempty]
      simp only [ih hevents, List.map_cons, hempty]
      rfl
    · rw [if_neg hempty]
      simp only [Engine.base64Bytes, String.toList_ofList, Base64.decode_encode, ih hevents, List.map_cons]
      rw [List.filter_cons_of_pos (by simpa using hempty)]

theorem stream_whole (aborted : Bool) {pid : Int} {output : List ExecEvent} (h : ∀ event ∈ output, event.error = [])
    (status : WaitStatus) {chunks : List (List UInt8)}
    (hchunks : chunks.flatten = execBody pid output (exitEvent status false)) :
    AgentChannel.stream engine endpoint command aborted (started { chunks, failure := none }) =
      .ok { chunks := (output.map (·.stdout)).filter (· ≠ []), failure := none } := by
  rw [execBody_eq] at hchunks
  have hread := reads_whole engine { chunks, failure := none } hchunks rfl
  have hplain : ∀ event ∈ { pid : ExecEvent } :: output ++ [exitEvent status false], event.error = [] :=
    List.forall_mem_append.mpr ⟨List.forall_mem_cons.mpr ⟨rfl, h⟩, by simp [exitEvent]⟩
  have hpull := pull_events engine endpoint command aborted hplain
  change Except.ok (AgentChannel.pull engine endpoint (runWhat command) aborted
    (readNdjson engine { chunks, failure := none }).failure (readNdjson engine { chunks, failure := none }).values) = _
  rw [hread, hpull]
  simp [exitEvent]

end

/-! ## Output -/

section
variable {α β : Type} {f : α → List β} {xs ys zs : List α}

theorem flatMap_left (h : Interleaves xs ys zs) (hys : ∀ y ∈ ys, f y = []) : zs.flatMap f = xs.flatMap f := by
  induction h with
  | nil => rfl
  | left _ ih => rw [List.flatMap_cons, List.flatMap_cons, ih hys]
  | right _ ih =>
    obtain ⟨hy, hys⟩ := List.forall_mem_cons.mp hys
    rw [List.flatMap_cons, hy, List.nil_append, ih hys]

theorem flatMap_right (h : Interleaves xs ys zs) (hxs : ∀ x ∈ xs, f x = []) : zs.flatMap f = ys.flatMap f := by
  induction h with
  | nil => rfl
  | left _ ih =>
    obtain ⟨hx, hxs⟩ := List.forall_mem_cons.mp hxs
    rw [List.flatMap_cons, hx, List.nil_append, ih hxs]
  | right _ ih => rw [List.flatMap_cons, List.flatMap_cons, ih hxs]

theorem mem_interleaves (h : Interleaves xs ys zs) {z : α} (hz : z ∈ zs) : z ∈ xs ∨ z ∈ ys := by
  induction h with
  | nil => cases hz
  | left _ ih =>
    rcases List.mem_cons.mp hz with rfl | hz
    · exact .inl List.mem_cons_self
    · exact (ih hz).imp_left (List.mem_cons_of_mem _)
  | right _ ih =>
    rcases List.mem_cons.mp hz with rfl | hz
    · exact .inr List.mem_cons_self
    · exact (ih hz).imp_right (List.mem_cons_of_mem _)

end

def stdoutEvents (reads : List PipeRead) : List ExecEvent := (forward reads).map fun bytes => { stdout := bytes }

def stderrEvents (reads : List PipeRead) : List ExecEvent := (forward reads).map fun bytes => { stderr := bytes }

/-- What the two readers send carries neither an error nor an exit, and the bytes they read. -/
theorem output_events {out err : List PipeRead} {output : List ExecEvent}
    (h : Interleaves (stdoutEvents out) (stderrEvents err) output) :
    (∀ event ∈ output, event.error = [] ∧ event.exit = none) ∧
    output.flatMap (·.stdout) = (forward out).flatten ∧ output.flatMap (·.stderr) = (forward err).flatten := by
  refine ⟨?_, ?_, ?_⟩
  · intro event hevent
    rcases mem_interleaves h hevent with hevent | hevent
    all_goals
      obtain ⟨bytes, -, rfl⟩ := List.mem_map.mp hevent
      exact ⟨rfl, rfl⟩
  · rw [flatMap_left h, stdoutEvents, List.flatMap_map, List.flatMap_id']
    intro event hevent
    obtain ⟨bytes, -, rfl⟩ := List.mem_map.mp hevent
    rfl
  · rw [flatMap_right h, stderrEvents, List.flatMap_map, List.flatMap_id']
    intro event hevent
    obtain ⟨bytes, -, rfl⟩ := List.mem_map.mp hevent
    rfl

theorem value_exitCode (status : WaitStatus) : (engine.number status.exitCode).value = some (status.exitCode : ℚ) := by
  have hsmall : |status.exitCode| < 2 ^ 53 := by
    cases status with
    | exited status =>
      have hbyte := status.toNat_lt
      simp only [WaitStatus.exitCode]
      rw [abs_lt]
      omega
    | signaled signal =>
      simp only [WaitStatus.exitCode]
      rw [abs_lt]
      omega
  simp only [Engine.number, double_int hsmall]

/-- **The output of a command arrives as it is**: whatever its pipes give, in whatever order the two readers
send it, and in whatever chunks the response arrives, `run` gives the decoded output and the exit code, and
`stream` the bytes of `stdout`. -/
theorem exec_output (engine : Engine) (endpoint : AgentEndpoint) (command : List String) (timeoutMs : Option Nat)
    (aborted : Bool) (pid : Int) (out err : List PipeRead) {output : List ExecEvent}
    (h : Interleaves (stdoutEvents out) (stderrEvents err) output) (status : WaitStatus) {chunks : List (List UInt8)}
    (hchunks : chunks.flatten = execBody pid output (exitEvent status false)) :
    AgentChannel.run engine endpoint command timeoutMs (started { chunks, failure := none }) =
      .ok { stdout := String.ofList (Utf8.decode (forward out).flatten)
            stderr := String.ofList (Utf8.decode (forward err).flatten)
            exitCode := .number (engine.number status.exitCode) } ∧
    (engine.number status.exitCode).value = some (status.exitCode : ℚ) ∧
    ∃ given, AgentChannel.stream engine endpoint command aborted (started { chunks, failure := none }) =
        .ok { chunks := given, failure := none } ∧ given.flatten = (forward out).flatten := by
  obtain ⟨hevents, hout, herr⟩ := output_events h
  refine ⟨?_, value_exitCode engine status, _,
    stream_whole engine endpoint command aborted (fun e he => (hevents e he).1) status hchunks, ?_⟩
  · rw [run_whole engine endpoint command timeoutMs hevents status hchunks, hout, herr]
  · rw [List.flatten_filter_ne_nil, ← List.flatMap_def, hout]

/-- An engine of few words. -/
def terse : Engine where
  syntaxError _ := "Unexpected token"
  numberText q := toString q.num
  valueText _ := "[object Object]"
  valueBytes _ := .ok []

def agentAt : AgentEndpoint :=
  { url := "http://10.0.0.7:8090", token := "t"
    pod := { clusterId := "c", podName := "armada-01-0", podNamespace := "jobs", nodeName := none } }

/-- What a command writes: `hi` to `stdout`, in two pieces, and between them a byte that is no text to `stderr`. -/
def hiBody : List UInt8 :=
  execBody 7 [{ stdout := [104] }, { stderr := [255] }, { stdout := [105] }] (exitEvent (.exited 0) false)

theorem exec_output_hi : ∃ given,
    AgentChannel.run terse agentAt ["sh"] none
        (started { chunks := [hiBody.take 9, [], hiBody.drop 9], failure := none }) =
      .ok { stdout := "hi", stderr := String.singleton Utf8.replacement, exitCode := .number (terse.number 0) } ∧
    AgentChannel.stream terse agentAt ["sh"] false
      (started { chunks := [hiBody.take 9, [], hiBody.drop 9], failure := none }) =
      .ok { chunks := given, failure := none } ∧
    given.flatten = [104, 105] := by
  have hchunks : [hiBody.take 9, [], hiBody.drop 9].flatten = hiBody := by simp
  obtain ⟨hrun, -, given, hstream, hgiven⟩ := exec_output terse agentAt ["sh"] none false 7
    [⟨[104], false⟩, ⟨[105], false⟩, ⟨[], true⟩] [⟨[255], true⟩] (.left (.right (.left .nil))) (.exited 0) hchunks
  exact ⟨given, hrun, hstream, hgiven⟩

/-! ## Parts of a response -/

/-- A line between the pid and the last one. -/
def IsOutput (event : ExecEvent) : Prop :=
  ∃ bytes, event = { stdout := bytes : ExecEvent } ∨ event = { stderr := bytes : ExecEvent }

/-- A last line: the exit, or why there is none. -/
def IsLast (event : ExecEvent) : Prop :=
  (∃ status timedOut, event = exitEvent status timedOut) ∨ ∃ text, event = { error := text : ExecEvent }

/-- Where `run` has a result, it has read all the events, an exit among them, to the end of the body. -/
theorem of_run_ok {endpoint : AgentEndpoint} {command : List String} {timeoutMs : Option Nat} {body : ResponseBody}
    {result : CommandResult} (h : AgentChannel.run engine endpoint command timeoutMs (started body) = .ok result) :
    ∃ read, (readNdjson engine body).values.foldlM (AgentChannel.onEvent engine)
        { out := [], err := [], exit := none } = .ok read ∧ read.exit ≠ none ∧
        (readNdjson engine body).failure = none := by
  rw [run_started] at h
  cases hread : AgentChannel.readEvents engine body with
  | error cause => simp only [hread] at h; cases h
  | ok read =>
    simp only [hread] at h
    unfold AgentChannel.readEvents at hread
    obtain ⟨read', hfold, hend⟩ := of_bind_ok hread
    cases hfailure : (readNdjson engine body).failure with
    | some cause => simp only [hfailure] at hend; cases hend
    | none =>
      simp only [hfailure] at hend
      cases hend
      refine ⟨read, hfold, fun hnone => ?_, rfl⟩
      simp only [hnone] at h
      cases h

/-- **A response that is cut short is never a success**: where `run` has a result, the whole last line has
arrived, but perhaps for its newline, it has an exit status, and the result is that of the whole response. -/
theorem cut_off (engine : Engine) (endpoint : AgentEndpoint) (command : List String) (timeoutMs : Option Nat)
    (pid : Int) {output : List ExecEvent} (houtput : ∀ event ∈ output, IsOutput event) {last : ExecEvent}
    (hlast : IsLast last) {body : ResponseBody} (hcut : body.chunks.flatten <+: execBody pid output last)
    {result : CommandResult} (h : AgentChannel.run engine endpoint command timeoutMs (started body) = .ok result) :
    (∃ status timedOut, last = exitEvent status timedOut) ∧
      (execBody pid output last).length ≤ body.chunks.flatten.length + 1 ∧
      ∀ chunks : List (List UInt8), chunks.flatten = execBody pid output last →
        AgentChannel.run engine endpoint command timeoutMs (started { chunks, failure := none }) = .ok result := by
  rw [execBody_eq] at hcut
  simp only [execBody_eq]
  have hfirst : ∀ event ∈ { pid : ExecEvent } :: output, event.error = [] ∧ event.exit = none := by
    refine List.forall_mem_cons.mpr ⟨⟨rfl, rfl⟩, fun event hevent => ?_⟩
    obtain ⟨bytes, rfl | rfl⟩ := houtput event hevent <;> exact ⟨rfl, rfl⟩
  obtain ⟨k, hvalues, hlength⟩ := reads_isPrefix engine hcut
  obtain ⟨read, hfold, hexit, hend⟩ := of_run_ok engine h
  rw [hvalues] at hfold
  -- without the last line there is no exit
  have hall : ({ pid : ExecEvent } :: output ++ [last]).take k = { pid : ExecEvent } :: output ++ [last] := by
    by_contra hpart
    have hshort : k ≤ ({ pid : ExecEvent } :: output).length := by
      by_contra hlong
      refine hpart (List.take_of_length_le ?_)
      rw [List.length_append, List.length_singleton]
      omega
    rw [List.take_append_of_le_length hshort] at hfold
    have hpart' : ∀ event ∈ ({ pid : ExecEvent } :: output).take k, event.error = [] ∧ event.exit = none :=
      fun event hevent => hfirst event (List.mem_of_mem_take hevent)
    obtain ⟨read', hread', -, -, hnone⟩ := collect_events engine hpart' { out := [], err := [], exit := none }
    rw [hread'] at hfold
    cases hfold
    exact hexit hnone
  rw [hall] at hfold hlength hvalues
  obtain ⟨read', hread', -, -, hnone⟩ := collect_events engine hfirst { out := [], err := [], exit := none }
  have hstatus : ∃ status timedOut, last = exitEvent status timedOut := by
    refine hlast.resolve_right ?_
    rintro ⟨text, rfl⟩
    rw [List.map_append, List.foldlM_append, hread', ok_bind, List.map_singleton, List.foldlM_cons] at hfold
    by_cases hempty : text = []
    · rw [onEvent_json engine read' hempty] at hfold
      cases hfold
      exact hexit hnone
    · obtain ⟨cause, hcause⟩ := @onEvent_error engine read' { error := text } hempty
      rw [hcause] at hfold
      cases hfold
  refine ⟨hstatus, hlength, fun chunks hchunks => ?_⟩
  have hwhole := reads_whole engine { chunks, failure := none } hchunks rfl
  rw [run_started] at h ⊢
  have hsame : AgentChannel.readEvents engine { chunks, failure := none } = AgentChannel.readEvents engine body := by
    simp only [AgentChannel.readEvents, hwhole, hvalues, hend]
  rw [hsame]
  exact h

/-- Without its last newline a response has the result of the whole of it. -/
theorem cut_off_hi : ∃ result,
    AgentChannel.run terse agentAt ["sh"] none (started { chunks := [hiBody.dropLast], failure := none }) =
      .ok result ∧
    AgentChannel.run terse agentAt ["sh"] none (started { chunks := hiBody.map fun b => [b], failure := none }) =
      .ok result := by
  have hevents : ∀ event ∈ [({ stdout := [104] } : ExecEvent), { stderr := [255] }, { stdout := [105] }],
    IsOutput event := by
    simp [IsOutput]
  have hhas : (AgentChannel.run terse agentAt ["sh"] none
      (started { chunks := [hiBody.dropLast], failure := none })).toBool = true := by decide +kernel
  cases hrun : AgentChannel.run terse agentAt ["sh"] none
    (started { chunks := [hiBody.dropLast], failure := none }) with
  | error cause =>
    rw [hrun] at hhas
    cases hhas
  | ok result =>
    obtain ⟨-, -, hsame⟩ := cut_off terse agentAt ["sh"] none 7 hevents (.inl ⟨_, _, rfl⟩)
      (by rw [List.flatten_singleton]; exact List.dropLast_prefix _) hrun
    exact ⟨result, rfl, hsame _ (by rw [← List.flatMap_def, List.flatMap_singleton', hiBody])⟩

end ComputeArmada.Wire
