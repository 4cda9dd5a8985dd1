import IngressControl.Event
import IngressControl.Proofs.JsonTexts
import IngressControl.Proofs.Texts

/-! Messages of an event stream. Whatever texts an event holds, its message has two lines that can
be told from everything else in the stream, and the second one reads back as the event. -/

namespace IngressControl

theorem Severity.word_injective {s t : Severity} (h : s.word = t.word) : s = t := by
  cases s <;> cases t <;> first | rfl | exact absurd h (by decide)

namespace Event

variable {e e' : Event}

/-- An event all of whose fields are texts. -/
structure Textual (e : Event) : Prop where
  reason : e.reason.IsText
  ns : e.ns.IsText
  name : e.name.IsText
  message : e.message.IsText
  timestamp : e.timestamp.IsText

/-- A textual event is shown as an object of texts under different keys. -/
theorem Textual.exists_view (h : e.Textual) : ∃ fields : List (String × String), fields ≠ [] ∧
    (fields.map Prod.fst).Nodup ∧ e.view = Json.objectOf fields := by
  obtain ⟨reason, hreason⟩ := h.reason
  obtain ⟨ns, hns⟩ := h.ns
  obtain ⟨name, hname⟩ := h.name
  obtain ⟨message, hmessage⟩ := h.message
  obtain ⟨timestamp, htimestamp⟩ := h.timestamp
  refine ⟨[("event_type", e.severity.word), ("reason", reason), ("namespace", ns), ("name", name),
    ("message", message), ("timestamp", timestamp)], List.cons_ne_nil _ _, ?_, ?_⟩
  · have hkeys : ["event_type", "reason", "namespace", "name", "message", "timestamp"].Nodup := by
      decide
    exact hkeys
  · rw [view, hreason, hns, hname, hmessage, htimestamp]
    rfl

/-- The JSON of an event reads back as its fields. -/
theorem Textual.read_write (h : e.Textual) : Json.read (Json.write e.view) = .ok e.view := by
  obtain ⟨fields, hne, hn, hview⟩ := h.exists_view
  rw [hview]
  exact Json.read_write_objectOf hne hn

/-- A textual event is written in plain ASCII. -/
theorem Textual.plain_of_mem_write (h : e.Textual) :
    ∀ c ∈ (Json.write e.view).toList, Json.Plain c := by
  obtain ⟨fields, hne, -, hview⟩ := h.exists_view
  rw [hview]
  exact fun c hc => Json.plain_of_mem_write_objectOf hne hc

/-- Different events are shown differently. -/
theorem eq_of_view_eq (h : e.view = e'.view) : e = e' := by
  obtain ⟨severity, reason, ns, name, message, timestamp⟩ := e
  obtain ⟨severity', reason', ns', name', message', timestamp'⟩ := e'
  simp only [view, Document.object.injEq, List.cons.injEq, Prod.mk.injEq, true_and, and_true,
    Document.string.injEq] at h
  obtain ⟨hword, rfl, rfl, rfl, rfl, rfl⟩ := h
  rw [Severity.word_injective hword]

def severityLine (e : Event) : List Char := ("event: " ++ e.severity.word).toList

def dataLine (e : Event) : List Char := ("data: " ++ Json.write e.view).toList

/-- An event is sent as two lines and an empty one. -/
theorem toList_stream (e : Event) :
    e.stream.toList = e.severityLine ++ '\n' :: (e.dataLine ++ '\n' :: ['\n']) := by
  simp [stream, severityLine, dataLine]

theorem plain_of_mem_severityLine (e : Event) : ∀ c ∈ e.severityLine, Json.Plain c := by
  rw [severityLine]
  apply Json.plain_of_all
  cases e.severity <;> decide

theorem Textual.plain_of_mem_dataLine (h : e.Textual) : ∀ c ∈ e.dataLine, Json.Plain c := by
  have hlabel : ∀ c ∈ "data: ".toList, Json.Plain c := Json.plain_of_all (by decide)
  intro c hc
  rw [dataLine, String.toList_append] at hc
  rcases List.mem_append.mp hc with hc | hc
  · exact hlabel c hc
  · exact h.plain_of_mem_write c hc

theorem newline_not_plain : ¬ Json.Plain '\n' := by decide

theorem newline_not_mem_severityLine (e : Event) : '\n' ∉ e.severityLine := by
  intro hn
  exact newline_not_plain (plain_of_mem_severityLine e '\n' hn)

theorem Textual.newline_not_mem_dataLine (h : e.Textual) : '\n' ∉ e.dataLine := by
  intro hn
  exact newline_not_plain (h.plain_of_mem_dataLine '\n' hn)

/-- Cut at its newlines, a message is its two lines and nothing else. -/
theorem Textual.splitOn_stream (h : e.Textual) :
    e.stream.toList.splitOn '\n' = [e.severityLine, e.dataLine, [], []] := by
  have hcut : e.stream.toList = ['\n'].intercalate [e.severityLine, e.dataLine, [], []] := by
    rw [toList_stream]
    simp [List.intercalate_cons_cons]
  have hlines : ∀ line ∈ [e.severityLine, e.dataLine, [], []], '\n' ∉ line := by
    simpa using ⟨newline_not_mem_severityLine e, h.newline_not_mem_dataLine⟩
  rw [hcut]
  exact List.splitOn_intercalate '\n' hlines (List.cons_ne_nil _ _)

/-- An event is sent with three newlines, whatever its message. -/
theorem Textual.count_stream (h : e.Textual) : e.stream.toList.count '\n' = 3 := by
  have hseverity : e.severityLine.count '\n' = 0 :=
    List.count_eq_zero.mpr (newline_not_mem_severityLine e)
  have hdata : e.dataLine.count '\n' = 0 := List.count_eq_zero.mpr h.newline_not_mem_dataLine
  rw [toList_stream, List.count_append, List.count_cons_self, List.count_append,
    List.count_cons_self, List.count_singleton_self, hseverity, hdata]

theorem Textual.ascii_stream (h : e.Textual) : ∀ c ∈ e.stream.toList, c.toNat < 128 := by
  have hplain {c : Char} (hc : Json.Plain c) : c.toNat < 128 := by
    unfold Json.Plain at hc
    omega
  have hnewline : ('\n' : Char).toNat < 128 := by decide
  intro c hc
  rw [toList_stream] at hc
  rcases List.mem_append.mp hc with hc | hc
  · exact hplain (plain_of_mem_severityLine e c hc)
  rcases List.mem_cons.mp hc with hc | hc
  · rwa [hc]
  rcases List.mem_append.mp hc with hc | hc
  · exact hplain (h.plain_of_mem_dataLine c hc)
  · have hlast : c = '\n' := by simpa using hc
    rwa [hlast]

/-- The line of data tells textual events apart. -/
theorem Textual.eq_of_dataLine_eq (h : e.Textual) (h' : e'.Textual)
    (hline : e.dataLine = e'.dataLine) : e = e' := by
  have hjson : Json.write e.view = Json.write e'.view := by
    rw [dataLine, dataLine, String.toList_append, String.toList_append] at hline
    exact String.toList_injective (List.append_cancel_left hline)
  -- both read back from the same JSON
  have hread : Json.read (Json.write e.view) = .ok e'.view := by
    rw [hjson]
    exact h'.read_write
  exact eq_of_view_eq (Except.ok.inj (h.read_write.symm.trans hread))

/-- The first newline ends a line. -/
theorem line_inj {line line' tail tail' : List Char} (hl : '\n' ∉ line) (hl' : '\n' ∉ line')
    (h : line ++ '\n' :: tail = line' ++ '\n' :: tail') : line = line' ∧ tail = tail' := by
  induction line generalizing line' with
  | nil =>
    cases line' with
    | nil => exact ⟨rfl, (List.cons.inj h).2⟩
    | cons c line' =>
      have hc : '\n' = c := (List.cons.inj h).1
      exact absurd (hc ▸ List.mem_cons_self) hl'
  | cons c line ih =>
    cases line' with
    | nil =>
      have hc : c = '\n' := (List.cons.inj h).1
      exact absurd (hc ▸ List.mem_cons_self) hl
    | cons c' line' =>
      obtain ⟨rfl, hlines⟩ := List.cons.inj h
      obtain ⟨rfl, htail⟩ := ih (fun hn => hl (List.mem_cons_of_mem c hn))
        (fun hn => hl' (List.mem_cons_of_mem c hn)) hlines
      exact ⟨rfl, htail⟩

/-- A message at the head of a stream tells its event, and where it ends. -/
theorem Textual.eq_of_stream_append (h : e.Textual) (h' : e'.Textual) {rest rest' : List Char}
    (hs : e.stream.toList ++ rest = e'.stream.toList ++ rest') : e = e' ∧ rest = rest' := by
  have hsplit (e : Event) (rest : List Char) : e.stream.toList ++ rest =
      e.severityLine ++ '\n' :: (e.dataLine ++ '\n' :: '\n' :: rest) := by
    rw [toList_stream, List.append_assoc, List.cons_append, List.append_assoc, List.cons_append,
      List.singleton_append]
  rw [hsplit, hsplit] at hs
  obtain ⟨-, hrest⟩ :=
    line_inj (newline_not_mem_severityLine e) (newline_not_mem_severityLine e') hs
  obtain ⟨hline, htail⟩ :=
    line_inj h.newline_not_mem_dataLine h'.newline_not_mem_dataLine hrest
  exact ⟨h.eq_of_dataLine_eq h' hline, (List.cons.inj htail).2⟩

theorem stream_append_ne_empty (e : Event) (rest : String) : e.stream ++ rest ≠ "" := by
  intro hs
  have hchars := congrArg String.toList hs
  rw [String.toList_append, toList_stream] at hchars
  simp at hchars

/-- What was sent tells the events that were sent, in their order, so no event can be forged. -/
theorem eq_of_join_stream {es es' : List Event} (h : ∀ e ∈ es, e.Textual)
    (h' : ∀ e ∈ es', e.Textual)
    (hs : String.join (es.map stream) = String.join (es'.map stream)) : es = es' := by
  induction es generalizing es' with
  | nil =>
    cases es' with
    | nil => rfl
    | cons e' es' =>
      rw [List.map_cons, String.join_cons] at hs
      exact absurd hs.symm (stream_append_ne_empty e' _)
  | cons e es ih =>
    cases es' with
    | nil =>
      rw [List.map_cons, String.join_cons] at hs
      exact absurd hs (stream_append_ne_empty e _)
    | cons e' es' =>
      rw [List.map_cons, List.map_cons, String.join_cons, String.join_cons] at hs
      have hchars := congrArg String.toList hs
      rw [String.toList_append, String.toList_append] at hchars
      obtain ⟨rfl, hrest⟩ :=
        (h e List.mem_cons_self).eq_of_stream_append (h' e' List.mem_cons_self) hchars
      rw [ih (fun e he => h e (List.mem_cons_of_mem _ he))
        (fun e he => h' e (List.mem_cons_of_mem _ he)) (String.toList_injective hrest)]

structure Framed (e : Event) : Prop where
  ascii : ∀ c ∈ e.stream.toList, c.toNat < 128
  newlines : e.stream.toList.count '\n' = 3
  lines : e.stream.toList.splitOn '\n' = [("event: " ++ e.severity.word).toList,
    ("data: " ++ Json.write e.view).toList, [], []]
  decodes : Json.read (Json.write e.view) = .ok (.object
    [("event_type", .string e.severity.word), ("reason", e.reason), ("namespace", e.ns),
      ("name", e.name), ("message", e.message), ("timestamp", e.timestamp)])
  /-- No other event has the message, not even at the head of a longer stream. -/
  unmistakable : ∀ e' : Event, e'.Textual → ∀ rest rest' : String,
    e.stream ++ rest = e'.stream ++ rest' → e' = e ∧ rest' = rest

/-- Whatever texts an event holds, they do not break its frame. -/
theorem Textual.framed (h : e.Textual) : e.Framed where
  ascii := h.ascii_stream
  newlines := h.count_stream
  lines := h.splitOn_stream
  decodes := h.read_write
  unmistakable := by
    intro e' h' rest rest' hs
    have hchars := congrArg String.toList hs
    rw [String.toList_append, String.toList_append] at hchars
    obtain ⟨he, hrest⟩ := h.eq_of_stream_append h' hchars
    exact ⟨he.symm, (String.toList_injective hrest).symm⟩

def forging : Event where
  severity := .warning
  reason := .string "ERROR"
  ns := .string "default"
  name := .string "web"
  message := .string "down\n\nevent: Normal\ndata: \"\\\x01é😀"
  timestamp := .string "2024-01-02T03:04:05Z"

/-- In the stream it is one message, and its end is the end of that message. -/
theorem framed_forging : forging.Textual ∧ forging.Framed ∧
    forging.stream = "event: Warning\ndata: \x7b\"event_type\": \"Warning\", " ++
      "\"reason\": \"ERROR\", \"namespace\": \"default\", \"name\": \"web\", " ++
      "\"message\": \"down\\n\\nevent: Normal\\ndata: \\\"\\\\\\u0001\\u00e9\\ud83d\\ude00\", " ++
      "\"timestamp\": \"2024-01-02T03:04:05Z\"\x7d\n\n" := by
  have htextual : forging.Textual := ⟨⟨_, rfl⟩, ⟨_, rfl⟩, ⟨_, rfl⟩, ⟨_, rfl⟩, ⟨_, rfl⟩⟩
  exact ⟨htextual, htextual.framed, by decide +kernel⟩

end Event

end IngressControl
