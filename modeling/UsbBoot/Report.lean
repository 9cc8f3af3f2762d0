/-
How a run that failed is reported.

A report is a chain.  Ahead stand the contexts, the outermost first: what the program was
about.  Behind them stands the cause, and behind that what the cause only passes on.  The
chain is told in one line, and walked to find the exit code: what the caller can mend
differs between a wrong request, wrong settings, a device that is not there, and an
interrupted run.  Contexts and the words of others say nothing of that and are passed over.
-/
import UsbBoot.Failure

namespace UsbBoot

/-- One link of a report. -/
inductive Report.Link
  /-- The loader failed. -/
  | failure (failure : Failure)
  /-- The request makes no sense. -/
  | usage (text : String)
  /-- The settings make no sense. -/
  | settings (text : String)
  | cancelled (text : String)
  /-- Nothing but words: a context, what a failure passes on, or a cause of no kind. -/
  | plain (text : String)
  deriving DecidableEq, Repr

/-- Why a run failed: one link behind the other. -/
structure Report where
  /-- The outermost link. -/
  first : Report.Link
  /-- What lies behind it, in order. -/
  behind : List Report.Link
  deriving DecidableEq, Repr

namespace Report

def Link.text : Link → String
  | .failure cause => cause.message
  | .usage text | .settings text | .cancelled text | .plain text => text

/-- What lies behind a link by itself. -/
def Link.source? : Link → Option Link
  | .failure cause => cause.source?.map .plain
  | .usage _ | .settings _ | .cancelled _ | .plain _ => none

/-- The exit code a link calls for, if it calls for one. -/
def Link.exitCode? : Link → Option Nat
  | .usage _ => some 2
  | .settings _ => some 3
  | .cancelled _ => some 130
  | .failure .notFound | .failure (.ambiguous _) => some 4
  | .failure .cancelled => some 130
  | .failure _ => some 1
  | .plain _ => none

/-- A report without context. -/
def of (cause : Link) : Report :=
  ⟨cause, cause.source?.toList⟩

def ofFailure (failure : Failure) : Report :=
  of (.failure failure)

def chain (report : Report) : List Link :=
  report.first :: report.behind

/-- The report in one more context. -/
def within (context : String) (report : Report) : Report :=
  ⟨.plain context, report.chain⟩

def message (report : Report) : String :=
  ": ".intercalate (report.chain.map Link.text)

/-- The exit code of a run that ends with the report: that of the first link that calls for
one. -/
def exitCode (report : Report) : Nat :=
  (report.chain.findSome? Link.exitCode?).getD 1

/-! ### What counts of a chain -/

theorem exitCode_within (context : String) (report : Report) :
    (report.within context).exitCode = report.exitCode := by
  rw [exitCode, chain, within, List.findSome?_cons, Link.exitCode?, exitCode]

/-- What lies behind a cause is never asked: where there is something, the cause has a code. -/
theorem exitCode_of (cause : Link) : (of cause).exitCode = cause.exitCode?.getD 1 := by
  cases cause with
  | failure cause => cases cause <;> rfl
  | usage | settings | cancelled | plain => rfl

/-- However many contexts a report is told in, they make no difference. -/
theorem exitCode_foldr_within (contexts : List String) (report : Report) :
    (contexts.foldr within report).exitCode = report.exitCode := by
  induction contexts with
  | nil => rfl
  | cons context rest ih => rw [List.foldr_cons, exitCode_within, ih]

end Report
end UsbBoot
