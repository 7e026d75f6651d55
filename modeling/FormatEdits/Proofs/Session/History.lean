import FormatEdits.Proofs.Path.NullFree
import FormatEdits.Session
import Mathlib.Data.List.Induction

namespace FormatEdits.Session

/-- What a call is started with. -/
structure Request where
  host : Host
  path : Text
  mode : Json

/-- What a call is ended with. -/
structure Ending where
  host : Host
  runId : Text
  outcome : Except Formatter.Fault Text

/-- Numbers tell the calls apart; events of different calls come in any order. -/
inductive Event
  | start (id : Nat) (request : Request)
  | finish (id : Nat) (ending : Ending)

/-- What comes of an event: a refusal, the start of a call, or its end. -/
inductive Entry
  | refused (id : Nat) (request : Request) (failure : Failure)
  | started (id : Nat) (request : Request) (call : Call)
  | finished (id : Nat) (call : Call) (ending : Ending) (result : Except Failure FormatResult)

/-- The generations of a session, and what has happened in it so far. -/
structure History where
  generations : Generations := {}
  log : List Entry := []

namespace Entry

def id : Entry → Nat
  | refused id _ _ => id
  | started id _ _ => id
  | finished id _ _ _ => id

/-- The event that came to this. -/
def event : Entry → Event
  | refused id request _ => .start id request
  | started id request _ => .start id request
  | finished id _ ending _ => .finish id ending

/-- The call that starts here, under its number. -/
def startedCall : Entry → Option (Nat × Call)
  | started id _ call => some (id,call)
  | _ => none

/-- The number of the call that ends here. -/
def finishedId : Entry → Option Nat
  | finished id _ _ _ => some id
  | _ => none

end Entry

/-- The calls that start in a stretch of a history, in their order. -/
def starts (log : List Entry) : List (Nat × Call) := log.filterMap Entry.startedCall

/-- The numbers of the calls that end there. -/
def ends (log : List Entry) : List Nat := log.filterMap Entry.finishedId

/-- The calls for one document among those that start. -/
def startsFor (key : Text) (log : List Entry) : List (Nat × Call) :=
  (starts log).filter (·.2.key = key)

namespace History

/-- The call of that number, if it is under way. -/
def pending (h : History) (id : Nat) : Option Call :=
  if id ∈ ends h.log then none else (starts h.log).lookup id

/-- A number is used for one call only; what is not under way cannot end. -/
def step (settings : Settings) (h : History) : Event → Option History
  | .start id request =>
    if id ∈ h.log.map Entry.id then none
    else match start request.host settings h.generations request.path request.mode with
      | .error failure => some { h with log := h.log ++ [.refused id request failure] }
      | .ok (call,g) => some ⟨g,h.log ++ [.started id request call]⟩
  | .finish id ending =>
    (h.pending id).map fun call =>
      { h with log := h.log ++ [.finished id call ending
          (Session.finish ending.host settings h.generations ending.runId call ending.outcome)] }

/-- The history of a session from its beginning. -/
def run (settings : Settings) (events : List Event) : Option History :=
  events.foldlM (step settings) {}

end History

theorem starts_append (before after : List Entry) :
    starts (before ++ after) = starts before ++ starts after :=
  List.filterMap_append

theorem startsFor_append (key : Text) (before after : List Entry) :
    startsFor key (before ++ after) = startsFor key before ++ startsFor key after := by
  simp [startsFor,starts_append]

theorem mem_starts {log : List Entry} {id : Nat} {call : Call} :
    (id,call) ∈ starts log ↔ ∃ request, .started id request call ∈ log := by
  simp only [starts,List.mem_filterMap]
  constructor
  · rintro ⟨e,he,hs⟩
    cases e with
    | started i request c =>
      cases hs
      exact ⟨request,he⟩
    | _ => cases hs
  · rintro ⟨request,he⟩
    exact ⟨_,he,rfl⟩

/-- A start is accepted where the mode and the path are, and takes the document's next
generation. -/
theorem start_eq_ok {host : Host} {settings : Settings} {g g' : Generations} {path : Text}
    {mode : Json} {call : Call} :
    start host settings g path mode = .ok (call,g') ↔
      modeOf settings mode = .ok call.mode ∧
        Path.normalForm host settings.resolveLinks path = .ok call.key ∧ call.path = path ∧
        call.generation = g.current call.key + 1 ∧ g' = (g.begin call.key).2 := by
  unfold start
  obtain ⟨cpath,cmode,ckey,cgeneration⟩ := call
  cases hm : modeOf settings mode with
  | error failure => simp [bind,Except.bind]
  | ok m =>
    cases hk : Path.normalForm host settings.resolveLinks path with
    | error fault => simp [bind,Except.bind,Except.mapError]
    | ok key =>
      simp only [bind,Except.bind,Except.mapError,Generations.begin,pure,Except.pure,
        Except.ok.injEq,Prod.mk.injEq,Call.mk.injEq]
      constructor
      · rintro ⟨⟨rfl,rfl,rfl,rfl⟩,rfl⟩
        exact ⟨rfl,rfl,rfl,rfl,rfl⟩
      · rintro ⟨rfl,rfl,rfl,rfl,rfl⟩
        exact ⟨⟨rfl,rfl,rfl,rfl⟩,rfl⟩

theorem start_of_nullFree {host : Host} {settings : Settings} {path : Text} {value : Json}
    {mode : OutputMode} (hhost : host.NullFree) (hpath : Path.null ∉ path)
    (hmode : modeOf settings value = .ok mode) : ∃ key, ∀ g, start host settings g path value =
      .ok (⟨path,mode,key,g.current key + 1⟩,(g.begin key).2) := by
  obtain ⟨key,hkey⟩ := Path.normalForm_of_nullFree hhost settings.resolveLinks hpath
  exact ⟨key,fun g => start_eq_ok.mpr ⟨hmode,hkey,rfl,rfl,rfl⟩⟩

namespace History

variable {settings : Settings} {h h' : History}

theorem pending_eq_some {id : Nat} {call : Call} (hp : h.pending id = some call) :
    (id,call) ∈ starts h.log ∧ id ∉ ends h.log := by
  unfold pending at hp
  split at hp
  · cases hp
  · next hends =>
    obtain ⟨before,after,hl,-⟩ := List.lookup_eq_some_iff.mp hp
    exact ⟨by simp [hl],hends⟩

/-- What an event does to a history. -/
inductive Grows (settings : Settings) (h : History) : Event → History → Prop
  | refused {id : Nat} {request : Request} {failure : Failure} (hfresh : id ∉ h.log.map Entry.id)
      (hs : start request.host settings h.generations request.path request.mode = .error failure) :
      Grows settings h (.start id request)
        { h with log := h.log ++ [.refused id request failure] }
  | started {id : Nat} {request : Request} {call : Call} {g : Generations}
      (hfresh : id ∉ h.log.map Entry.id)
      (hs : start request.host settings h.generations request.path request.mode = .ok (call,g)) :
      Grows settings h (.start id request) ⟨g,h.log ++ [.started id request call]⟩
  | finished {id : Nat} {ending : Ending} {call : Call} (hp : h.pending id = some call) :
      Grows settings h (.finish id ending) { h with log := h.log ++ [.finished id call ending
        (Session.finish ending.host settings h.generations ending.runId call ending.outcome)] }

theorem step_eq_some {e : Event} : step settings h e = some h' ↔ Grows settings h e h' := by
  constructor
  · intro hs
    cases e with
    | start id request =>
      simp only [step] at hs
      split at hs
      · cases hs
      · next hfresh =>
        split at hs
        · next failure hstart =>
          cases hs
          exact .refused hfresh hstart
        · next call g hstart =>
          cases hs
          exact .started hfresh hstart
    | finish id ending =>
      obtain ⟨call,hp,rfl⟩ := Option.map_eq_some_iff.mp hs
      exact .finished hp
  · intro hg
    cases hg with
    | refused hfresh hs =>
      simp only [step]
      rw [if_neg hfresh,hs]
    | started hfresh hs =>
      simp only [step]
      rw [if_neg hfresh,hs]
    | finished hp => simp [step,hp]

theorem run_concat (events : List Event) (e : Event) :
    run settings (events ++ [e]) = (run settings events).bind (step settings · e) := by
  simp [run,List.foldlM_append]

theorem log_grows {before after : List Event} (hrun : run settings (before ++ after) = some h') :
    ∃ h, run settings before = some h ∧ h.log <+: h'.log := by
  induction after using List.reverseRecOn generalizing h' with
  | nil => exact ⟨h',by simpa using hrun,List.prefix_rfl⟩
  | append_singleton after e ih =>
    rw [← List.append_assoc,run_concat] at hrun
    obtain ⟨m,hm,he⟩ := Option.bind_eq_some_iff.mp hrun
    obtain ⟨h,hh,hle⟩ := ih hm
    refine ⟨h,hh,hle.trans ?_⟩
    cases step_eq_some.mp he <;> exact List.prefix_append _ _

/-- What holds at the beginning and is kept by every event holds of every history. -/
theorem run_invariant {P : List Event → History → Prop} (h0 : P [] {})
    (hstep : ∀ events h e h', P events h → Grows settings h e h' → P (events ++ [e]) h')
    {events : List Event} (hrun : run settings events = some h) : P events h := by
  induction events using List.reverseRecOn generalizing h with
  | nil =>
    cases hrun
    exact h0
  | append_singleton events e ih =>
    rw [run_concat] at hrun
    obtain ⟨before,hbefore,he⟩ := Option.bind_eq_some_iff.mp hrun
    exact hstep events before e h (ih hbefore) (step_eq_some.mp he)

theorem events_of_run {events : List Event} (hrun : run settings events = some h) :
    h.log.map Entry.event = events := by
  refine run_invariant (P := fun events h => h.log.map Entry.event = events) rfl ?_ hrun
  intro events h e h' hlog hg
  cases hg <;> simp [hlog,Entry.event]

theorem lookup_starts_concat {log : List Entry} {id : Nat} (hfresh : id ∉ log.map Entry.id)
    (request : Request) (call : Call) :
    (starts (log ++ [.started id request call])).lookup id = some call := by
  rw [starts_append]
  refine List.lookup_eq_some_iff.mpr ⟨starts log,[],rfl,?_⟩
  rintro ⟨i,c⟩ hm
  obtain ⟨r,hm⟩ := mem_starts.mp hm
  have hne : id ≠ i := fun he => hfresh (he ▸ List.mem_map.mpr ⟨_,hm,rfl⟩)
  simpa using hne

theorem not_mem_ends {log : List Entry} {id : Nat} (hfresh : id ∉ log.map Entry.id) :
    id ∉ ends log := by
  intro hm
  obtain ⟨e,he,hid⟩ := List.mem_filterMap.mp hm
  cases e with
  | finished i call ending result =>
    cases hid
    exact hfresh (List.mem_map.mpr ⟨_,he,rfl⟩)
  | _ => cases hid

theorem pending_started {id : Nat} (hfresh : id ∉ h.log.map Entry.id) (g : Generations)
    (request : Request) (call : Call) :
    pending ⟨g,h.log ++ [.started id request call]⟩ id = some call := by
  have hends : id ∉ ends (h.log ++ [.started id request call]) := by
    simpa [ends,Entry.finishedId] using not_mem_ends hfresh
  rw [pending,if_neg hends,lookup_starts_concat hfresh]

theorem format_of_steps {request : Request} {id : Nat} {call : Call} {g : Generations}
    (runId : Text) (hfresh : id ∉ h.log.map Entry.id)
    (hs : start request.host settings h.generations request.path request.mode = .ok (call,g)) :
    let ending : Ending := ⟨request.host,runId,outcome request.host settings call⟩
    let formatted := format request.host settings h.generations runId request.path request.mode
    [.start id request,.finish id ending].foldlM (step settings) h =
      some ⟨formatted.2,h.log ++ [.started id request call] ++
        [.finished id call ending formatted.1]⟩ := by
  intro ending formatted
  have hstart : step settings h (.start id request) =
      some ⟨g,h.log ++ [.started id request call]⟩ := step_eq_some.mpr (.started hfresh hs)
  have hfinish : step settings _ (.finish id ending) = _ :=
    step_eq_some.mpr (.finished (pending_started hfresh g request call))
  have hformatted : formatted = (complete request.host settings g runId call,g) := by
    simp only [formatted,format,hs]
  rw [List.foldlM_cons,hstart,hformatted]
  exact congrArg (Option.bind · pure) hfinish

end History
end FormatEdits.Session
