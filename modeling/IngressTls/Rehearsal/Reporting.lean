import IngressTls.Rehearsal.Agenda
import IngressTls.Reporter

set_option autoImplicit false

/-! # Usage reports under a clock

The reporter with its ticks and the time limit of a report. The first tick comes at once. A
tick that comes more than five milliseconds late, because a report took so long, starts the
period anew; any other keeps the rhythm. That the reporter is to stop is noticed between two
reports. There is no period of zero: a reporter that is given one stops at once.
-/

namespace IngressTls.Rehearsal

/-- How a report is scripted to go. -/
structure ReportReply where
  /-- How long the answer takes, in milliseconds. -/
  delay : Nat
  /-- Whether it acknowledges the figure. -/
  acknowledges : Bool

/-- What the reporter waits for. -/
inductive ReportPhase where
  /-- The next tick. -/
  | ticking
  /-- The end of a report. -/
  | reporting (figure : Int) (acknowledges : Bool)
  /-- Nothing any more. -/
  | stopped

/-- The reporter under a clock. -/
structure ReportStage where
  /-- The reporter. -/
  reporter : Reporter
  /-- The quota. -/
  quota : Quota
  /-- The period of the ticks, in milliseconds. -/
  period : Nat
  /-- The time limit of a report, in milliseconds. -/
  limit : Nat
  /-- The instant of the next tick. -/
  tick : Nat
  /-- How the reports to come go. -/
  replies : List ReportReply
  /-- What the reporter waits for. -/
  phase : ReportPhase
  /-- Whether it is to stop. -/
  cancelled : Bool
  /-- The clock, with the end of the report under way. -/
  agenda : Agenda Unit
  /-- The reports that were begun, the last one first. -/
  reports : List (Nat × Int)

namespace ReportStage

/-- Takes a tick at the present. -/
def takeTick (s : ReportStage) : ReportStage :=
  let now := s.agenda.now
  let s := { s with tick := if s.tick + 5 < now then now + s.period else s.tick + s.period }
  match s.reporter.report? s.quota.used with
  | none => s
  | some figure =>
    let reply := s.replies.headD ⟨0, true⟩
    { s with
      replies := s.replies.tail
      reports := (now, figure) :: s.reports
      phase := .reporting figure (reply.delay ≤ s.limit && reply.acknowledges)
      agenda := s.agenda.note (min reply.delay s.limit) () }

/-- Ends the report under way. -/
def endReport (s : ReportStage) : ReportStage :=
  match s.phase with
  | .reporting figure acknowledges =>
    { s with phase := .ticking, reporter := s.reporter.answered figure acknowledges }
  | _ => s

/-- The next thing that happens by an instant. -/
def next? (s : ReportStage) (limit : Nat) : Option ReportStage :=
  match s.phase with
  | .stopped => none
  | .reporting _ _ => (s.agenda.next? limit).map fun (_, agenda) => endReport { s with agenda }
  | .ticking =>
    if s.cancelled then some { s with phase := .stopped }
    else if s.tick ≤ limit then
      some (takeTick { s with agenda := { s.agenda with now := max s.agenda.now s.tick } })
    else none

/-- Lets happen what happens by an instant, within a number of events. -/
def runTo (limit : Nat) : Nat → ReportStage → ReportStage
  | 0, s => s
  | fuel + 1, s =>
    match s.next? limit with
    | none => s
    | some s => runTo limit fuel s

/-- Moves the clock. Every tick and every report lets the clock move, or is followed by one
that does, so the time bounds the number of events. -/
def advance (s : ReportStage) (ms : Nat) : ReportStage :=
  let limit := s.agenda.now + ms
  let s := runTo limit (4 * ms + 8) s
  { s with agenda := { s.agenda with now := limit } }

/-- Starts the reporter. -/
def start (quota : Quota) (period limit : Nat) (replies : List ReportReply) : ReportStage :=
  let phase := if period = 0 then .stopped else .ticking
  advance ⟨.new, quota, period, limit, 0, replies, phase, false, .start, []⟩ 0

/-- Commits an amount of the quota for a resource, if it is not refused and the quota can be
computed. -/
def hold? (s : ReportStage) (resource : String) (amount : Int) : Option ReportStage :=
  if s.quota.reserveFits resource amount then
    match Transaction.start s.quota resource amount with
    | .error _ => some s
    | .ok (quota, t) => some { s with quota := (t.commit quota).1 }
  else none

/-- Tells the reporter to stop. -/
def cancel (s : ReportStage) : ReportStage := advance { s with cancelled := true } 0

/-- Whether the reporter has stopped. -/
def isStopped (s : ReportStage) : Bool := s.phase matches .stopped

end ReportStage

end IngressTls.Rehearsal
