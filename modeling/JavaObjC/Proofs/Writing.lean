import JavaObjC.Target.SourceWriter

/-!
# What a writer asks of its sink

Every sequence of calls on a writer is a number of appends, and possibly a
first close with further calls after it. The sink is handed the renderings of
the appended classes one after the other, then it is flushed and closed as far
as it knows these calls, and never called again. No failure of the sink changes
this: it is reported, and the later calls are made all the same.
-/

namespace JavaObjC

namespace Sink

/-- The sink after more calls. -/
def after (s : Sink) (calls : List SinkCall) : Sink := { s with calls := s.calls ++ calls }

/-- The calls that close a sink, as far as it knows them. -/
def closing (s : Sink) : List SinkCall := [SinkCall.flush, .close].filter s.knows

/-- Why a call that may be unknown to the sink fails after given earlier calls. -/
def fault? (s : Sink) (past : List SinkCall) (call : SinkCall) : Option Failure :=
  if s.knows call then s.failure? past call else none

/-- Why closing a sink fails: the flush comes first, and the close is called after it even when it
fails. -/
def closingFault? (s : Sink) : Option Failure :=
  (s.fault? s.calls .flush).or
    (s.fault? (s.calls ++ [SinkCall.flush].filter s.knows) .close)

/-- Which calls a sink knows does not change. -/
@[simp] theorem knows_after (s : Sink) (calls : List SinkCall) : (s.after calls).knows = s.knows := by
  funext call
  cases call <;> rfl

/-- Calls in two parts are calls in a row. -/
theorem after_after (s : Sink) (first second : List SinkCall) :
    (s.after first).after second = s.after (first ++ second) := by
  simp [after, List.append_assoc]

@[simp] theorem after_nil (s : Sink) : s.after [] = s := by simp [after]

/-- The calls that close a sink are the same after any calls. -/
theorem closing_after (s : Sink) (calls : List SinkCall) : (s.after calls).closing = s.closing := by
  simp [closing]

/-- How a call ends that fails or not. -/
def reply : Option Failure → Except Failure Unit
  | some f => .error f
  | none => .ok ()

/-- A call is handed over once if the sink knows it, and ends as the sink says. -/
theorem take_eq (s : Sink) (call : SinkCall) :
    s.take call = (reply (s.fault? s.calls call), s.after ([call].filter s.knows)) := by
  unfold take fault?
  cases hknows : s.knows call with
  | false => simp [reply, hknows]
  | true =>
    simp only [Bool.not_true, Bool.false_eq_true, if_false, if_true, List.filter_cons, hknows,
      List.filter_nil]
    cases s.failure? s.calls call <;> rfl

/-- Closing makes the closing calls in order, whether or not the first one fails, and reports the
first failure. -/
theorem finish_eq (s : Sink) : s.finish = (reply s.closingFault?, s.after s.closing) := by
  have hcalls : s.closing = [SinkCall.flush].filter s.knows ++ [SinkCall.close].filter s.knows :=
    List.filter_append [SinkCall.flush] [SinkCall.close]
  have hfault : (s.after ([SinkCall.flush].filter s.knows)).fault?
        (s.after ([SinkCall.flush].filter s.knows)).calls .close =
      s.fault? (s.calls ++ [SinkCall.flush].filter s.knows) .close := by
    simp only [fault?, knows_after]
    rfl
  unfold finish closingFault?
  rw [take_eq]
  dsimp only
  rw [take_eq, hfault, knows_after, after_after, hcalls]
  cases s.fault? s.calls .flush <;> rfl

end Sink

namespace SourceWriter

/-- A call on a writer. -/
inductive Call where
  | append (m : Option ClassModel)
  | close

/-- The answer to a call, and the writer after it. -/
def answer (w : SourceWriter) : Call → Except Failure Unit × SourceWriter
  | .append m => w.append m
  | .close => w.close

/-- The answers to calls in order, and the writer after them. -/
def run (w : SourceWriter) : List Call → List (Except Failure Unit) × SourceWriter
  | [] => ([], w)
  | call :: rest =>
    let (reply, w) := w.answer call
    let (replies, w) := w.run rest
    (reply :: replies, w)

/-- The calls that hand over the classes among what is appended. -/
def writes (mode : RenderMode) (appended : List (Option ClassModel)) : List SinkCall :=
  appended.filterMap (Option.map fun m => .write (mode.render m))

/-- How a closed writer answers. -/
def refusal : Call → Except Failure Unit
  | .append _ => .error .writerClosed
  | .close => .ok ()

/-- How an open writer answers to an append. -/
def appendReply (mode : RenderMode) (sink : Option Sink) (m : Option ClassModel) :
    Except Failure Unit :=
  match sink, m with
  | none, _ => .error .noSink
  | some _, none => .error (.noClass "append")
  | some s, some m =>
    Sink.reply ((s.failure? s.calls (.write (mode.render m))).map
      (.within ("write " ++ mode.fileName m)))

/-- How an open writer answers to appends in order. -/
def appendReplies (mode : RenderMode) :
    Option Sink → List (Option ClassModel) → List (Except Failure Unit)
  | _, [] => []
  | sink, m :: rest =>
    appendReply mode sink m :: appendReplies mode (sink.map (·.after (writes mode [m]))) rest

/-- Calls in two parts are answered in a row. -/
theorem run_append (w : SourceWriter) (first second : List Call) :
    w.run (first ++ second) =
      ((w.run first).1 ++ ((w.run first).2.run second).1, ((w.run first).2.run second).2) := by
  induction first generalizing w with
  | nil => rfl
  | cons call rest ih => simp only [List.cons_append, run, ih]

/-- A closed writer does nothing any more. -/
theorem run_of_closed {w : SourceWriter} (h : w.isClosed = true) (calls : List Call) :
    w.run calls = (calls.map refusal, w) := by
  have hanswer : ∀ call, w.answer call = (refusal call, w) := by
    intro call
    cases call with
    | append m => simp only [answer, append, h, if_true, refusal]
    | close => simp only [answer, close, h, if_true, refusal]
  induction calls with
  | nil => rfl
  | cons call rest ih => simp only [run, hanswer, ih, List.map_cons]

/-- An append hands the rendering of a class to the sink, if there are both. -/
theorem append_of_open (mode : RenderMode) (sink : Option Sink) (m : Option ClassModel) :
    append { mode, sink } m =
      (appendReply mode sink m, { mode, sink := sink.map (·.after (writes mode [m])) }) := by
  cases sink with
  | none => rfl
  | some s =>
    cases m with
    | none => simp [append, appendReply, writes]
    | some m =>
      have htake := s.take_eq (.write (mode.render m))
      have hfault : s.fault? s.calls (.write (mode.render m)) =
          s.failure? s.calls (.write (mode.render m)) := rfl
      rw [hfault] at htake
      simp only [append, Bool.false_eq_true, if_false, htake, appendReply]
      cases s.failure? s.calls (.write (mode.render m)) <;> rfl

/-- Appends hand over their renderings in order, whichever of them fail. -/
theorem run_appends (mode : RenderMode) (sink : Option Sink) (appended : List (Option ClassModel)) :
    run { mode, sink } (appended.map .append) =
      (appendReplies mode sink appended,
        { mode, sink := sink.map (·.after (writes mode appended)) }) := by
  induction appended generalizing sink with
  | nil => cases sink <;> simp [run, appendReplies, writes]
  | cons m rest ih =>
    have hwrites : writes mode (m :: rest) = writes mode [m] ++ writes mode rest :=
      List.filterMap_append (l := [m])
    simp only [List.map_cons, run, answer, append_of_open, ih, appendReplies, Option.map_map,
      hwrites]
    cases sink with
    | none => rfl
    | some s => simp [Sink.after_after]

/-- The first close of a writer closes its sink, if it has one. -/
theorem close_of_open (mode : RenderMode) (sink : Option Sink) :
    close { mode, sink } =
      (Sink.reply (sink.bind Sink.closingFault?),
        { mode, sink := sink.map fun s => s.after s.closing, isClosed := true }) := by
  cases sink with
  | none => rfl
  | some s => simp [close, Sink.finish_eq]

/-- Calls are appends, or appends up to a first close and what follows it. -/
theorem exists_appends (calls : List Call) : ∃ appended : List (Option ClassModel),
    calls = appended.map .append ∨ ∃ later, calls = appended.map .append ++ .close :: later := by
  induction calls with
  | nil => exact ⟨[], .inl rfl⟩
  | cons call rest ih =>
    cases call with
    | close => exact ⟨[], .inr ⟨rest, rfl⟩⟩
    | append m =>
      obtain ⟨appended, rfl | ⟨later, rfl⟩⟩ := ih
      · exact ⟨m :: appended, .inl rfl⟩
      · exact ⟨m :: appended, .inr ⟨later, rfl⟩⟩

/-- The protocol between a writer and its sink, for every sink with any pattern of failures, or
none, and for every sequence of calls. Up to the first close the sink is handed exactly the
renderings of the classes that are appended, in order. The first close flushes and closes the sink
as far as the sink knows these calls, the flush first and the close even when the flush or an
append failed, and it reports the first failure of the two. From then on the writer stays as it
is: every append fails because the writer is closed, and every close succeeds, just as when there
is no writer at all. -/
theorem run_protocol (mode : RenderMode) (sink : Option Sink) (calls : List Call) :
    (∃ appended : List (Option ClassModel),
      (calls = appended.map .append ∧
        run { mode, sink } calls =
          (appendReplies mode sink appended,
            { mode, sink := sink.map (·.after (writes mode appended)) })) ∨
      ∃ later, calls = appended.map .append ++ .close :: later ∧
        run { mode, sink } calls =
          (appendReplies mode sink appended ++
              Sink.reply (sink.bind fun s => (s.after (writes mode appended)).closingFault?) ::
              later.map refusal,
            { mode, isClosed := true
              sink := sink.map fun s => s.after (writes mode appended ++ s.closing) })) ∧
    (absent mode).run calls = (calls.map refusal, absent mode) := by
  refine ⟨?_, run_of_closed rfl calls⟩
  obtain ⟨appended, rfl | ⟨later, rfl⟩⟩ := exists_appends calls
  · exact ⟨appended, .inl ⟨rfl, run_appends mode sink appended⟩⟩
  · refine ⟨appended, .inr ⟨later, rfl, ?_⟩⟩
    rw [run_append, run_appends]
    dsimp only [run, answer]
    rw [close_of_open]
    dsimp only
    rw [run_of_closed rfl later]
    cases sink with
    | none => rfl
    | some s => simp [Sink.after_after, Sink.closing_after]

-- a sink that knows both closing calls and fails everything: the second close finds nothing to do
example :
    ((run { mode := .declaration, sink := some (.faulty true true ["write", "flush", "close"]) }
      [.append none, .close, .close, .append none]).2.sink.map Sink.calls) =
        some [.flush, .close] := by
  decide

end SourceWriter

end JavaObjC
