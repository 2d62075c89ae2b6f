/-
  Failures as JSON text.

  Tools read the report of a failure as JSON.  The message embeds the name of the initializer, which
  is any text at all, so everything rests on printing escaping what it must and on reading undoing
  that (`Json.parse?_render`).  `report_reads_back` says for both kinds of failure what is read from
  the text of their reports: five members, and the message to the letter.  So the text says neither
  more nor less than the five of them.
-/
import BoxRuntime.Program.Failure
import BoxRuntime.Proofs.Json.Reading

namespace BoxRuntime

open Json

theorem FaultKind.name_inj {k k' : FaultKind} : k.name = k'.name ↔ k = k' := by
  cases k <;> cases k' <;> decide

namespace FailureReport

/-- A report with a code that fits into a word is made of plain values. -/
theorem isPlain_toJson {r : FailureReport} (hlow : -(intBound : Int) ≤ r.exitCode)
    (hhigh : r.exitCode ≤ maxWord) : r.toJson.isPlain := by
  simp [toJson, ofMembers, Json.text, isPlain, membersPlain, hlow, hhigh]

/-- Different reports are different objects. -/
theorem toJson_inj {r r' : FailureReport} : r.toJson = r'.toJson ↔ r = r' := by
  obtain ⟨phase, kind, exitCode, message, target⟩ := r
  obtain ⟨phase', kind', exitCode', message', target'⟩ := r'
  simp [toJson, ofMembers, Json.text]

end FailureReport

namespace ProgramFailure

/-- Every failure has such a report. -/
theorem isPlain_report (e : ProgramFailure) : e.report.toJson.isPlain := by
  have hcode : e.report.exitCode = -3 ∨ e.report.exitCode = -4 := by
    show e.fault.kind.exitCode = -3 ∨ e.fault.kind.exitCode = -4
    cases e.fault.kind <;> decide
  refine FailureReport.isPlain_toJson ?_ ?_ <;> rcases hcode with hcode | hcode <;> rw [hcode] <;>
    decide

/-- What is read from the text of a report is the report. -/
theorem parse?_report (e : ProgramFailure) : parse? e.report.toJson.render = some e.report.toJson :=
  parse?_render e.isPlain_report

/-- **Reports have the same text exactly if they are the same.**. -/
theorem render_report_inj {e e' : ProgramFailure} :
    e.report.toJson.render = e'.report.toJson.render ↔ e.report = e'.report := by
  rw [render_inj e.isPlain_report e'.isPlain_report, FailureReport.toJson_inj]

/-- **The text of a report reads back as an object of five members: the phase, the kind and the exit
code of the fault, the message to the letter and the target.  Two failures have the same text
exactly if they agree in these five.** -/
theorem report_reads_back :
    (∀ f : Fault, parse? (main f).report.toJson.render =
      some (.ofMembers [("phase", .text "runtime"), ("kind", .text f.kind.name),
        ("exit_code", .int f.exitCode), ("message", .text f.message),
        ("target", .text "wyrt::runtime")])) ∧
    (∀ (name : String) (f : Fault), parse? (init name f).report.toJson.render =
      some (.ofMembers [("phase", .text "init"), ("kind", .text f.kind.name),
        ("exit_code", .int f.exitCode),
        ("message", .text ("initializer '" ++ name ++ "' failed: " ++ f.message)),
        ("target", .text "wyrt::init")])) ∧
    ∀ e e' : ProgramFailure, e.report.toJson.render = e'.report.toJson.render ↔
      e.phase = e'.phase ∧ e.kind = e'.kind ∧ e.exitCode = e'.exitCode ∧ e.message = e'.message ∧
        e.component.target = e'.component.target := by
  refine ⟨fun f => parse?_report (main f), fun name f => parse?_report (init name f),
    fun e e' => ?_⟩
  rw [render_report_inj, report, report, FailureReport.mk.injEq, FaultKind.name_inj]

end ProgramFailure

end BoxRuntime
