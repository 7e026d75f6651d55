import FormatEdits.Proofs.Session.Separation

namespace FormatEdits.Session

/-- A request is refused if its mode is none, or if its path has no normal form. -/
def Request.Refused (settings : Settings) (request : Request) : Prop :=
  (∃ failure, modeOf settings request.mode = .error failure) ∨
    ∃ fault, Path.normalForm request.host settings.resolveLinks request.path = .error fault

/-- One document has one generation more, and every other document has as many as before. -/
def Advances (key : Text) (before after : Generations) : Prop :=
  ∀ other, after.current other = before.current other + if other = key then 1 else 0

theorem advances_begin (g : Generations) (key : Text) : Advances key g (g.begin key).2 := by
  intro other
  rw [Generations.current_begin]
  by_cases h : other = key
  · simp [h]
  · simp [h]

section Starts

variable {settings : Settings} {request : Request}

theorem start_of_refused (h : request.Refused settings) : ∃ failure, ∀ g,
    start request.host settings g request.path request.mode = .error failure := by
  cases hm : modeOf settings request.mode with
  | error failure => exact ⟨failure,fun g => start_eq_error.mpr (.inl hm)⟩
  | ok m =>
    rcases h with ⟨failure,hf⟩ | ⟨fault,hf⟩
    · cases hm.symm.trans hf
    · exact ⟨.path fault,fun g => start_eq_error.mpr (.inr ⟨⟨m,hm⟩,fault,hf,rfl⟩)⟩

theorem start_of_not_refused (h : ¬ request.Refused settings) (g : Generations) :
    ∃ call, start request.host settings g request.path request.mode =
        .ok (call,(g.begin call.key).2) ∧
      Path.normalForm request.host settings.resolveLinks request.path = .ok call.key := by
  obtain ⟨hmode,hpath⟩ := not_or.mp h
  cases hm : modeOf settings request.mode with
  | error failure => exact absurd ⟨failure,hm⟩ hmode
  | ok m =>
    cases hk : Path.normalForm request.host settings.resolveLinks request.path with
    | error fault => exact absurd ⟨fault,hk⟩ hpath
    | ok key =>
      let call : Call := ⟨request.path,m,key,g.current key + 1⟩
      exact ⟨call,start_eq_ok.mpr ⟨hm,hk,rfl,rfl,rfl⟩,rfl⟩

end Starts

section Runs

variable {settings : Settings} {events later : List Event} {h h₁ : History} {id : Nat}
  {request : Request} {failure : Failure}

theorem divides_of_refused (hrun : History.run settings events = some h)
    (hm : .refused id request failure ∈ h.log) : Divides [id] (fun _ => True) h.log := by
  intro i q call hs
  have hne : i ≠ id := by
    rintro rfl
    cases opened_once hrun _ hs _ hm rfl rfl rfl
  simp [hne]

/-- Without a refused call everything else goes as before. -/
theorem run_without_refused (hrun : History.run settings events = some h)
    (hm : .refused id request failure ∈ h.log) :
    ∃ r, History.run settings (events.filter (·.id ≠ id)) = some r ∧
      r.log = h.log.filter (·.id ≠ id) := by
  obtain ⟨r,hr,hreduced⟩ := run_leaving_out hrun (divides_of_refused hrun hm)
  exact ⟨r,by simpa using hr,by simpa using hreduced.log⟩

theorem refused_mem_log (hrun : History.run settings events = some h)
    (hstep : History.step settings h (.start id request) =
      some { h with log := h.log ++ [.refused id request failure] })
    (hlater : History.run settings (events ++ .start id request :: later) = some h₁) :
    .refused id request failure ∈ h₁.log := by
  rw [List.append_cons] at hlater
  obtain ⟨m,hm,hle⟩ := History.log_grows hlater
  rw [History.run_concat,hrun] at hm
  cases hstep.symm.trans hm
  exact hle.subset (by simp)

/-- Generations change by the starts of accepted calls alone. In every state that a session can
reach, a call whose mode or path is refused leaves them as they were, and without it every other
call comes to the same; any other call gives its own document one generation more, and no end of a
call changes any, whatever its formatter did. -/
theorem generations_change_by_accepted_starts_alone
    (hrun : History.run settings events = some h) (hfresh : id ∉ h.log.map Entry.id)
    (request : Request) :
    (request.Refused settings → ∃ failure,
        History.step settings h (.start id request) =
          some { h with log := h.log ++ [.refused id request failure] } ∧
        (∀ runId, format request.host settings h.generations runId request.path request.mode =
          (.error failure,h.generations)) ∧
        ∀ later h₁, History.run settings (events ++ .start id request :: later) = some h₁ →
          ∃ r, History.run settings
              ((events ++ .start id request :: later).filter (·.id ≠ id)) = some r ∧
            r.log = h₁.log.filter (·.id ≠ id)) ∧
      (¬ request.Refused settings → ∃ call h',
        History.step settings h (.start id request) = some h' ∧
        h'.log = h.log ++ [.started id request call] ∧
        Path.normalForm request.host settings.resolveLinks request.path = .ok call.key ∧
        Advances call.key h.generations h'.generations ∧
        (∀ runId, Advances call.key h.generations
          (format request.host settings h.generations runId request.path request.mode).2) ∧
        ∀ ending, ∃ h'', History.step settings h' (.finish id ending) = some h'' ∧
          h''.generations = h'.generations) ∧
      ∀ other ending h', History.step settings h (.finish other ending) = some h' →
        h'.generations = h.generations := by
  refine ⟨?_,?_,?_⟩
  · intro hrefused
    obtain ⟨failure,hs⟩ := start_of_refused hrefused
    have hstep := History.step_eq_some.mpr (.refused hfresh (hs h.generations))
    refine ⟨failure,hstep,fun runId => by rw [format,hs],?_⟩
    intro later h₁ hlater
    exact run_without_refused hlater (refused_mem_log hrun hstep hlater)
  · intro haccepted
    obtain ⟨call,hs,hkey⟩ := start_of_not_refused haccepted h.generations
    have hadvances := advances_begin h.generations call.key
    refine ⟨call,_,History.step_eq_some.mpr (.started hfresh hs),rfl,hkey,hadvances,?_,?_⟩
    · intro runId
      rw [format,hs]
      exact hadvances
    · intro ending
      have hpending := History.pending_started hfresh (h.generations.begin call.key).2 request call
      exact ⟨_,History.step_eq_some.mpr (.finished hpending),rfl⟩
  · intro other ending h' hstep
    cases History.step_eq_some.mp hstep
    rfl

end Runs

/-- While a call is under way, another one is refused for a null character in its path and a third
for its mode; a fourth, for another document, is accepted. -/
theorem generations_change_by_accepted_starts_alone_of_null :
    let inFlight : Request := ⟨{},"a.rs".toList,.null⟩
    let events : List Event := [.start 0 inFlight]
    let missing : Ending := ⟨{},['r'],.error (.notFound ['x'])⟩
    let withNull : Request := ⟨{},['a',Path.null],.null⟩
    let withoutMode : Request := ⟨{},"a.rs".toList,.string "diffs".toList⟩
    let another : Request := ⟨{},"b.rs".toList,.string "display".toList⟩
    ∃ h, History.run {} events = some h ∧ 1 ∉ h.log.map Entry.id ∧
      (withNull.Refused {} ∧ withoutMode.Refused {} ∧ ¬ another.Refused {}) ∧
      (∃ h₁ r, History.run {} (events ++ .start 1 withNull :: [.finish 0 missing]) = some h₁ ∧
        History.run {} [.start 0 inFlight,.finish 0 missing] = some r ∧
        r.log = h₁.log.filter (·.id ≠ 1)) ∧
      (∃ failure, History.step {} h (.start 1 withoutMode) =
        some { h with log := h.log ++ [.refused 1 withoutMode failure] }) ∧
      ∃ (call : Call) (h' : History), History.step {} h (.start 1 another) = some h' ∧
        call.key = "/b.rs".toList ∧ Advances call.key h.generations h'.generations := by
  intro inFlight events missing withNull withoutMode another
  obtain ⟨h,hrun⟩ : ∃ h, History.run {} events = some h := ⟨_,rfl⟩
  have hfresh : 1 ∉ h.log.map Entry.id := by
    cases hrun
    decide
  have hnull : withNull.Refused {} := .inr ⟨.embeddedNull,rfl⟩
  have hmode : withoutMode.Refused {} := .inl ⟨_,rfl⟩
  have haccepted : ¬ another.Refused {} := by
    rintro (⟨failure,hf⟩ | ⟨fault,hf⟩)
    · cases hf
    · cases hf
  obtain ⟨h₁,hlater⟩ : ∃ h₁, History.run {}
      (events ++ .start 1 withNull :: [.finish 0 missing]) = some h₁ := ⟨_,rfl⟩
  obtain ⟨-,-,-,hwithout⟩ :=
    (generations_change_by_accepted_starts_alone hrun hfresh withNull).1 hnull
  obtain ⟨r,hr,hlog⟩ := hwithout _ h₁ hlater
  obtain ⟨failure,hrefused,-⟩ :=
    (generations_change_by_accepted_starts_alone hrun hfresh withoutMode).1 hmode
  obtain ⟨call,h',hstep,-,hkey,hadvances,-⟩ :=
    (generations_change_by_accepted_starts_alone hrun hfresh another).2.1 haccepted
  refine ⟨h,hrun,hfresh,⟨hnull,hmode,haccepted⟩,⟨h₁,r,hlater,hr,hlog⟩,⟨failure,hrefused⟩,
    call,h',hstep,?_,hadvances⟩
  exact (Except.ok.inj hkey).symm

end FormatEdits.Session
