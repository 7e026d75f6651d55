import FormatEdits.Proofs.Session.History
import FormatEdits.Proofs.Text.Utf8

namespace FormatEdits

namespace Formatter

open Text.Utf8 (Bytes decodeLenient)

/-- The command's executable is the one that the settings lead to, and it can be started. -/
structure Launches (host : Host) (settings : Settings) (c : Command) (s : Started) : Prop where
  found : find host settings.formatterPath = .ok c.executable
  named : Path.null ∉ c.executable
  started : start host c.executable = .ok s

/-- The command's executable is the one that the settings lead to; it can be started, it ends in
time and with success, and it has written these bytes by then. -/
structure Succeeds (host : Host) (settings : Settings) (c : Command) (s : Started)
    (bytes : Bytes) : Prop where
  found : find host settings.formatterPath = .ok c.executable
  named : Path.null ∉ c.executable
  started : start host c.executable = .ok s
  inTime : ∀ limit, settings.timeLimit = some limit → limit.endsBefore s.program.busySeconds = false
  success : statusOf s.program.ending = 0
  written : writtenBy s.program (s.leading ++ c.arguments) = bytes

variable {host : Host} {settings : Settings} {c : Command} {s : Started} {bytes : Bytes}

theorem Succeeds.launches (h : Succeeds host settings c s bytes) : Launches host settings c s :=
  ⟨h.found,h.named,h.started⟩

theorem null_not_mem_modeOption (mode : OutputMode) : Path.null ∉ Command.modeOption mode := by
  cases mode <;> decide

theorem run_of_launches (h : Launches host settings c s) (hpath : Path.null ∉ c.path)
    (limit : Option Limit) :
    run host limit c = judge limit (s.leading ++ c.arguments) s.program := by
  have hwords : c.words.any (Path.null ∈ ·) = false := by
    simp [Command.words,Command.arguments,h.named,null_not_mem_modeOption,hpath]
  rw [run,hwords,if_neg Bool.false_ne_true,h.started]

theorem filter_endsBefore_eq_none {limit : Option Binary64} {seconds : Nat}
    (h : ∀ l, limit = some l → l.endsBefore seconds = false) :
    (limit.map Limit.exact).filter (·.endsBefore seconds) = none := by
  cases limit with
  | none => rfl
  | some l => simp [Option.filter,Limit.endsBefore,h l rfl]

theorem run_of_succeeds (h : Succeeds host settings c s bytes) (hpath : Path.null ∉ c.path) :
    run host (settings.timeLimit.map .exact) c = .ok (decodeLenient bytes) := by
  rw [run_of_launches h.launches hpath]
  simp only [judge,filter_endsBefore_eq_none h.inTime,h.success,h.written,ne_eq,not_true_eq_false,
    if_false]

end Formatter

namespace Session

open Text.Utf8 (Bytes decodeLenient)

theorem outcome_of_succeeds {host : Host} {settings : Settings} {call : Call} {executable : Text}
    {s : Formatter.Started} {bytes : Bytes}
    (h : Formatter.Succeeds host settings ⟨executable,call.mode,call.path⟩ s bytes)
    (hpath : Path.null ∉ call.path) : outcome host settings call = .ok (decodeLenient bytes) := by
  rw [outcome,h.found]
  exact Formatter.run_of_succeeds h hpath

end Session

open Text.Utf8 (Bytes)

/-- A machine with a formatter on the search list, and other files. -/
def Host.running (p : Program) (others : List (Place × Entry)) : Host :=
  { files := ⟨(["bin".toList],.directory) :: (["bin".toList,"rustfmt".toList],.program p) :: others⟩
    environment := [("PATH".toList,"/bin".toList)] }

/-- A machine where a formatter on the search list writes some bytes, and a file holds them. -/
def Host.writing (bytes : Bytes) : Host :=
  { files := ⟨[(["bin".toList],.directory),
      (["bin".toList,"rustfmt".toList],.program { stdout := bytes }),
      (["saved".toList],.file bytes false)]⟩
    environment := [("PATH".toList,"/bin".toList)] }

theorem Host.nullFree_running (p : Program) {others : List (Place × Entry)}
    (h : ∀ e ∈ others, ∀ target, e.2 ≠ .link target) : (Host.running p others).NullFree := by
  have hentries : ∀ e ∈ (Host.running p others).files.entries, ∀ target, e.2 ≠ .link target := by
    simpa [Host.running] using h
  refine nullFree_of_forall ?_ ?_ (by simp [Host.running])
  · intro e he target htarget
    exact absurd htarget (hentries e he target)
  · simp only [Host.running,List.forall_mem_singleton]
    decide

theorem Host.nullFree_writing (bytes : Bytes) : (Host.writing bytes).NullFree :=
  nullFree_running { stdout := bytes } (List.forall_mem_singleton.mpr nofun)

theorem Document.readBytes_writing (bytes : Bytes) :
    Document.readBytes (Host.writing bytes) "/saved".toList = .ok bytes := rfl

theorem Formatter.launches_running (p : Program) (others : List (Place × Entry))
    (limit : Option Binary64) (mode : OutputMode) (path : Text) :
    Formatter.Launches (Host.running p others) { timeLimit := limit }
      ⟨"/bin/rustfmt".toList,mode,path⟩ ⟨p,[]⟩ := by
  let host := Host.running p others
  have hhome : Path.expandHome host "rustfmt".toList = .ok "rustfmt".toList := rfl
  have hsearch : search? host "rustfmt".toList = some "/bin/rustfmt".toList := rfl
  have hslash : ('/' ∈ "rustfmt".toList) = False := by decide
  have hnull : Path.null ∉ "/bin/rustfmt".toList := by decide
  have hfind : find host "rustfmt".toList = .ok "/bin/rustfmt".toList := by
    simp only [find,hhome,bind,Except.bind,hslash,decide_false,Bool.false_and,hsearch]
    rfl
  exact ⟨hfind,hnull,rfl⟩

theorem Formatter.succeeds_writing (bytes : Bytes) (mode : OutputMode) (path : Text) :
    Formatter.Succeeds (Host.writing bytes) {} ⟨"/bin/rustfmt".toList,mode,path⟩
      ⟨{ stdout := bytes },[]⟩ bytes := by
  have h :=
    launches_running { stdout := bytes } [(["saved".toList],.file bytes false)] none mode path
  exact ⟨h.found,h.named,h.started,nofun,rfl,rfl⟩

namespace Formatter

open Text.Utf8 (Bytes decodeLenient)

/-- How a program fails: it is stopped at the limit, or it keeps to the limit and ends with a status
other than zero. Its output has no part in this. -/
inductive EndsBadly (limit : Option Binary64) (p : Program) : Fault → Prop
  | expired {l : Binary64} (hl : limit = some l) (h : l.endsBefore p.busySeconds = true) :
      EndsBadly limit p (.expired (.exact l))
  | rejected (hl : ∀ l, limit = some l → l.endsBefore p.busySeconds = false)
      (h : statusOf p.ending ≠ 0) :
      EndsBadly limit p (.rejected (statusOf p.ending) (decodeLenient p.stderr))

/-- What a formatter itself has said about its failure; of one that was stopped nothing is kept. -/
def Fault.stderr : Fault → Text
  | .rejected _ stderr => stderr
  | _ => []

/-- Two programs that fail in the same way: both are stopped at the limit, or both keep to it and
end with one status other than zero and one text about it. They may have written different
outputs. -/
inductive FailAlike (limit : Option Binary64) (p q : Program) : Prop
  | expired {l : Binary64} (hl : limit = some l) (hp : l.endsBefore p.busySeconds = true)
      (hq : l.endsBefore q.busySeconds = true)
  | rejected (hp : ∀ l, limit = some l → l.endsBefore p.busySeconds = false)
      (hq : ∀ l, limit = some l → l.endsBefore q.busySeconds = false)
      (hstatus : statusOf p.ending ≠ 0) (hending : statusOf q.ending = statusOf p.ending)
      (hstderr : q.stderr = p.stderr)

theorem FailAlike.endsBadly {limit : Option Binary64} {p q : Program} (h : FailAlike limit p q) :
    ∃ fault, EndsBadly limit p fault ∧ EndsBadly limit q fault := by
  cases h with
  | expired hl hp hq => exact ⟨_,.expired hl hp,.expired hl hq⟩
  | rejected hp hq hstatus hending hstderr =>
    have hrejected := EndsBadly.rejected hq (hending ▸ hstatus)
    rw [hending,hstderr] at hrejected
    exact ⟨_,.rejected hp hstatus,hrejected⟩

variable {host : Host} {settings : Settings} {c : Command} {s : Started} {fault : Fault}

theorem toolStderr?_of_endsBadly {limit : Option Binary64} {p : Program}
    (h : EndsBadly limit p fault) : (Failure.formatter fault).toolStderr? = some fault.stderr := by
  cases h <;> rfl

/-- The verdict on a failing program is its failure; what it was given and what it wrote are not
looked at. -/
theorem judge_of_endsBadly {limit : Option Binary64} {p : Program} (h : EndsBadly limit p fault)
    (arguments : List Text) : judge (limit.map .exact) arguments p = .error fault := by
  cases h with
  | expired hl hlate =>
    subst hl
    simp [judge,Option.filter,Limit.endsBefore,hlate]
  | rejected hl hstatus =>
    simp only [judge,filter_endsBefore_eq_none hl,ne_eq,hstatus,not_false_eq_true,if_true]

theorem run_of_endsBadly (h : Launches host settings c s) (hpath : Path.null ∉ c.path)
    (hends : EndsBadly settings.timeLimit s.program fault) :
    run host (settings.timeLimit.map .exact) c = .error fault := by
  rw [run_of_launches h hpath]
  exact judge_of_endsBadly hends _

end Formatter

namespace Session

variable {host : Host} {settings : Settings} {executable path : Text} {mode : OutputMode}
  {s : Formatter.Started} {fault : Formatter.Fault}

theorem outcome_of_endsBadly {call : Call}
    (h : Formatter.Launches host settings ⟨executable,call.mode,call.path⟩ s)
    (hpath : Path.null ∉ call.path)
    (hends : Formatter.EndsBadly settings.timeLimit s.program fault) :
    outcome host settings call = .error fault := by
  rw [outcome,h.found]
  exact Formatter.run_of_endsBadly h hpath hends

theorem complete_of_endsBadly {call : Call}
    (h : Formatter.Launches host settings ⟨executable,call.mode,call.path⟩ s)
    (hpath : Path.null ∉ call.path)
    (hends : Formatter.EndsBadly settings.timeLimit s.program fault) (g : Generations)
    (runId : Text) : complete host settings g runId call = .error (.formatter fault) := by
  rw [complete,outcome_of_endsBadly h hpath hends]
  -- Of all faults only that a formatter was not found is no failure of the call.
  cases hends <;> rfl

theorem format_of_endsBadly (hhost : host.NullFree) (hpath : Path.null ∉ path)
    (h : Formatter.Launches host settings ⟨executable,mode,path⟩ s)
    (hends : Formatter.EndsBadly settings.timeLimit s.program fault) {value : Json}
    (hmode : modeOf settings value = .ok mode) (g : Generations) (runId : Text) :
    (format host settings g runId path value).1 = .error (.formatter fault) := by
  obtain ⟨key,hstart⟩ := start_of_nullFree hhost hpath hmode
  rw [format,hstart g]
  exact complete_of_endsBadly h hpath hends _ runId

end Session
end FormatEdits
