import JavaObjC.Failure
import JavaObjC.Target.Header
import JavaObjC.Target.Implementation

/-!
# Writing rendered classes

A writer renders classes into a sink until it is closed. Closing flushes and
then closes the sink as far as the sink knows these steps, and only the first
time. A sink keeps the calls it was given, and may fail any of them, whatever
came before.
-/

namespace JavaObjC

/-- Which of its two files a class is rendered as. -/
inductive RenderMode where
  | declaration | definition
  deriving DecidableEq, Repr

namespace RenderMode

/-- The name of the mode. -/
def name : RenderMode → String
  | .declaration => "declaration"
  | .definition => "definition"

/-- The file of a class in this mode. -/
def fileName (mode : RenderMode) (m : ClassModel) : Text :=
  match mode with
  | .declaration => m.headerFile
  | .definition => m.implementationFile

/-- The text of a class in this mode. -/
def render (mode : RenderMode) (m : ClassModel) : Text :=
  match mode with
  | .declaration => m.header
  | .definition => m.implementation

end RenderMode

/-- What a sink can be asked to do. -/
inductive SinkCall where
  | write (text : Text)
  | flush
  | close
  deriving DecidableEq, Repr

namespace SinkCall

/-- The name of the call in messages. -/
def name : SinkCall → String
  | .write _ => "write"
  | .flush => "flush"
  | .close => "close"

/-- Whether the call hands over a text. -/
def isWrite : SinkCall → Bool
  | .write _ => true
  | _ => false

end SinkCall

/-- Where a writer writes to, and what it was asked to do. -/
structure Sink where
  knowsFlush : Bool := false
  knowsClose : Bool := false
  /-- Why a call fails after given earlier calls, if it does. -/
  failure? : List SinkCall → SinkCall → Option Failure := fun _ _ => none
  /-- The calls so far, in order. -/
  calls : List SinkCall := []

namespace Sink

/-- A sink that always fails the calls with certain names. -/
def faulty (knowsFlush knowsClose : Bool) (failing : List String) : Sink :=
  { knowsFlush, knowsClose
    failure? := fun _ call =>
      if failing.contains call.name then some (.sinkFailed call.name) else none }

/-- Whether the sink knows a call. Every sink can be written to. -/
def knows (s : Sink) : SinkCall → Bool
  | .write _ => true
  | .flush => s.knowsFlush
  | .close => s.knowsClose

/-- Hands a call to the sink if it knows it. -/
def take (s : Sink) (call : SinkCall) : Except Failure Unit × Sink :=
  if !s.knows call then (.ok (), s)
  else
    let after := { s with calls := s.calls ++ [call] }
    match s.failure? s.calls call with
    | some f => (.error f, after)
    | none => (.ok (), after)

/-- Flushes and closes; the first failure counts. -/
def finish (s : Sink) : Except Failure Unit × Sink :=
  let (flushed, s) := s.take .flush
  let (closed, s) := s.take .close
  match flushed with
  | .error f => (.error f, s)
  | .ok () => (closed, s)

/-- The texts that a sink takes from some calls after given earlier ones. -/
def takenAfter (s : Sink) (past : List SinkCall) : List SinkCall → Text
  | [] => []
  | call :: rest =>
    match call, s.failure? past call with
    | .write text, none => text ++ s.takenAfter (past ++ [call]) rest
    | _, _ => s.takenAfter (past ++ [call]) rest

/-- Everything that was written without a failure. -/
def written (s : Sink) : Text := s.takenAfter [] s.calls

/-- The calls that hand over no text, in order. -/
def closingCalls (s : Sink) : List SinkCall := s.calls.filter (!·.isWrite)

end Sink

/-- A writer of rendered classes. -/
structure SourceWriter where
  mode : RenderMode
  sink : Option Sink
  isClosed : Bool := false

namespace SourceWriter

/-- No writer at all. It answers as a closed one does. -/
def absent (mode : RenderMode) : SourceWriter := { mode, sink := none, isClosed := true }

/-- Renders a class into the sink. -/
def append (w : SourceWriter) (m : Option ClassModel) : Except Failure Unit × SourceWriter :=
  if w.isClosed then (.error .writerClosed, w)
  else match w.sink, m with
    | none, _ => (.error .noSink, w)
    | some _, none => (.error (.noClass "append"), w)
    | some sink, some model =>
      match sink.take (.write (w.mode.render model)) with
      | (.ok (), after) => (.ok (), { w with sink := some after })
      | (.error f, after) =>
        (.error (.within ("write " ++ w.mode.fileName model) f), { w with sink := some after })

/-- Renders a class without writing it. -/
def marshal (w : SourceWriter) (m : Option ClassModel) : Except Failure Text :=
  match m with
  | some model => .ok (w.mode.render model)
  | none => .error (.noClass "marshal")

/-- Closes the writer; only the first call does anything. -/
def close (w : SourceWriter) : Except Failure Unit × SourceWriter :=
  if w.isClosed then (.ok (), w)
  else match w.sink with
    | none => (.ok (), { w with isClosed := true })
    | some sink =>
      let (result, after) := sink.finish
      (result, { w with sink := some after, isClosed := true })

end SourceWriter

end JavaObjC
