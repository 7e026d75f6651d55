import FormatEdits.Proofs.Session.Overtaking

namespace FormatEdits.Session

/-- The number of the call that the event is about. -/
def Event.id : Event → Nat
  | .start id _ => id
  | .finish id _ => id

theorem start_eq_error {host : Host} {settings : Settings} {g : Generations} {path : Text}
    {mode : Json} {failure : Failure} :
    start host settings g path mode = .error failure ↔
      modeOf settings mode = .error failure ∨
        (∃ m, modeOf settings mode = .ok m) ∧
          ∃ fault, Path.normalForm host settings.resolveLinks path = .error fault ∧
            failure = .path fault := by
  unfold start
  cases hm : modeOf settings mode with
  | error f => simp [bind,Except.bind]
  | ok m =>
    cases hk : Path.normalForm host settings.resolveLinks path with
    | error fault =>
      simp only [bind,Except.bind,Except.mapError,Except.error.injEq,reduceCtorEq,false_or,
        Except.ok.injEq,exists_eq',true_and]
      exact ⟨fun h => ⟨fault,rfl,h.symm⟩,fun ⟨_,hfault,h⟩ => hfault ▸ h.symm⟩
    | ok key => simp [bind,Except.bind,Except.mapError,pure,Except.pure]

theorem finish_congr {g g' : Generations} {call : Call}
    (hg : g'.current call.key = g.current call.key) (host : Host) (settings : Settings)
    (runId : Text) (outcome : Except Formatter.Fault Text) :
    finish host settings g' runId call outcome = finish host settings g runId call outcome := by
  cases outcome with
  | error fault => cases fault <;> rfl
  | ok output =>
    simp only [finish,Generations.isCurrent,hg]
    rfl

section LeavingOut

variable {settings : Settings} {out : List Nat}

theorem mem_ends_filter {id : Nat} (hid : id ∉ out) (log : List Entry) :
    id ∈ ends (log.filter (·.id ∉ out)) ↔ id ∈ ends log := by
  simp only [ends,List.mem_filterMap,List.mem_filter,decide_eq_true_eq]
  constructor
  · rintro ⟨e,⟨he,-⟩,hf⟩
    exact ⟨e,he,hf⟩
  · rintro ⟨e,he,hf⟩
    cases e with
    | finished i call ending result =>
      cases hf
      exact ⟨_,⟨he,hid⟩,rfl⟩
    | _ => cases hf

theorem lookup_starts_filter {id : Nat} (hid : id ∉ out) (log : List Entry) :
    (starts (log.filter (·.id ∉ out))).lookup id = (starts log).lookup id := by
  induction log with
  | nil => rfl
  | cons e log ih =>
    by_cases he : e.id ∈ out
    · have hskip : (starts (e :: log)).lookup id = (starts log).lookup id := by
        cases e with
        | started i request call =>
          have hne : (id == i) = false := beq_eq_false_iff_ne.mpr fun h => hid (h ▸ he)
          simp [starts,Entry.startedCall,List.lookup_cons,hne]
        | _ => rfl
      rw [List.filter_cons_of_neg (by simpa using he),ih,hskip]
    · rw [List.filter_cons_of_pos (by simpa using he)]
      cases e with
      | started i request call =>
        have hstarts : ∀ rest, starts (.started i request call :: rest) = (i,call) :: starts rest :=
          fun _ => rfl
        rw [hstarts,hstarts,List.lookup_cons,List.lookup_cons,ih]
      | _ => exact ih

/-- A history, and what is left of it without some calls. The documents that are watched have the
same generations in both. -/
structure Reduced (out : List Nat) (watched : Text → Prop) (h r : History) : Prop where
  log : r.log = h.log.filter (·.id ∉ out)
  current : ∀ key, watched key → r.generations.current key = h.generations.current key

/-- The calls that are left out, and no others, are for documents that are not watched. -/
def Divides (out : List Nat) (watched : Text → Prop) (log : List Entry) : Prop :=
  ∀ id request call, .started id request call ∈ log → (id ∈ out ↔ ¬ watched call.key)

variable {watched : Text → Prop} {h h' r : History} {e : Event}

theorem Reduced.fresh (hr : Reduced out watched h r) {id : Nat} (hid : id ∉ h.log.map Entry.id) :
    id ∉ r.log.map Entry.id := by
  rw [hr.log]
  intro hm
  obtain ⟨x,hx,rfl⟩ := List.mem_map.mp hm
  exact hid (List.mem_map.mpr ⟨x,(List.mem_filter.mp hx).1,rfl⟩)

theorem Reduced.pending (hr : Reduced out watched h r) {id : Nat} (hid : id ∉ out) :
    r.pending id = h.pending id := by
  unfold History.pending
  simp only [hr.log,mem_ends_filter hid,lookup_starts_filter hid]

/-- An event of a call that is left out changes nothing that is watched. -/
theorem Reduced.passes (hr : Reduced out watched h r) (hg : History.Grows settings h e h')
    (he : e.id ∈ out) (hdiv : Divides out watched h'.log) : Reduced out watched h' r := by
  have hlog : ∀ x : Entry, x.id = e.id → r.log = (h.log ++ [x]).filter (·.id ∉ out) := by
    intro x hx
    simp [hr.log,hx,he]
  cases hg with
  | refused hfresh hs => exact ⟨hlog _ rfl,hr.current⟩
  | @started id request call g hfresh hs =>
    obtain ⟨-,-,-,-,rfl⟩ := start_eq_ok.mp hs
    have hcall : ¬ watched call.key := (hdiv id request call (by simp)).mp he
    refine ⟨hlog _ rfl,?_⟩
    intro key hkey
    have hne : key ≠ call.key := fun h => hcall (h ▸ hkey)
    rw [hr.current key hkey,Generations.current_begin,if_neg hne]
  | finished hp => exact ⟨hlog _ rfl,hr.current⟩

/-- An event of any other call can follow in what is left, and comes to the same. -/
theorem Reduced.follows (hr : Reduced out watched h r) (hg : History.Grows settings h e h')
    (he : e.id ∉ out) (hdiv : Divides out watched h'.log) :
    ∃ r', History.step settings r e = some r' ∧ Reduced out watched h' r' := by
  have hlog : ∀ x : Entry, x.id = e.id → r.log ++ [x] = (h.log ++ [x]).filter (·.id ∉ out) := by
    intro x hx
    simp [hr.log,hx,he]
  cases hg with
  | @refused id request failure hfresh hs =>
    have hs' : start request.host settings r.generations request.path request.mode =
        .error failure := start_eq_error.mpr (start_eq_error.mp hs)
    exact ⟨_,History.step_eq_some.mpr (.refused (hr.fresh hfresh) hs'),hlog _ rfl,hr.current⟩
  | @started id request call g hfresh hs =>
    obtain ⟨hmode,hkey,hpath,hgeneration,rfl⟩ := start_eq_ok.mp hs
    have hcall : watched call.key := by
      by_contra hn
      exact he ((hdiv id request call (by simp)).mpr hn)
    have hsame := hr.current call.key hcall
    have hs' : start request.host settings r.generations request.path request.mode =
        .ok (call,(r.generations.begin call.key).2) :=
      start_eq_ok.mpr ⟨hmode,hkey,hpath,by rw [hsame,hgeneration],rfl⟩
    refine ⟨_,History.step_eq_some.mpr (.started (hr.fresh hfresh) hs'),hlog _ rfl,?_⟩
    intro key hw
    rw [Generations.current_begin,Generations.current_begin,hsame,hr.current key hw]
  | @finished id ending call hp =>
    obtain ⟨hstarted,-⟩ := History.pending_eq_some hp
    obtain ⟨request,hm⟩ := mem_starts.mp hstarted
    have hcall : watched call.key := by
      by_contra hn
      exact he ((hdiv id request call (List.mem_append_left _ hm)).mpr hn)
    have hp' : r.pending id = some call := (hr.pending he).trans hp
    refine ⟨_,History.step_eq_some.mpr (.finished hp'),?_,hr.current⟩
    rw [finish_congr (hr.current call.key hcall)]
    exact hlog _ rfl

/-- Calls for documents that are not watched can be left out of a run: the rest goes as before. -/
theorem run_leaving_out {events : List Event} (hrun : History.run settings events = some h)
    (hdiv : Divides out watched h.log) :
    ∃ r, History.run settings (events.filter (·.id ∉ out)) = some r ∧
      Reduced out watched h r := by
  refine History.run_invariant (P := fun events h => Divides out watched h.log →
    ∃ r, History.run settings (events.filter (·.id ∉ out)) = some r ∧
      Reduced out watched h r) ?_ ?_ hrun hdiv
  · intro _
    exact ⟨{},rfl,rfl,fun _ _ => rfl⟩
  · intro events h e h' ih hg hdiv
    have hbefore : Divides out watched h.log := by
      intro id request call hm
      refine hdiv id request call ?_
      cases hg <;> exact List.mem_append_left _ hm
    obtain ⟨r,hr,hreduced⟩ := ih hbefore
    by_cases he : e.id ∈ out
    · refine ⟨r,?_,hreduced.passes hg he hdiv⟩
      rwa [List.filter_append,List.filter_cons_of_neg (by simpa using he),List.filter_nil,
        List.append_nil]
    · obtain ⟨r',hstep,hr'⟩ := hreduced.follows hg he hdiv
      refine ⟨r',?_,hr'⟩
      rw [List.filter_append,List.filter_cons_of_pos (by simpa using he),List.filter_nil,
        History.run_concat,hr]
      exact hstep

end LeavingOut

theorem opened_once {settings : Settings} {events : List Event} {h : History}
    (hrun : History.run settings events = some h) : ∀ a ∈ h.log, ∀ b ∈ h.log,
      a.finishedId = none → b.finishedId = none → a.id = b.id → a = b := by
  refine History.run_invariant (P := fun _ h => ∀ a ∈ h.log, ∀ b ∈ h.log,
    a.finishedId = none → b.finishedId = none → a.id = b.id → a = b) (by simp) ?_ hrun
  intro events h e h' ih hg
  have hgrown : ∀ x : Entry, (x.finishedId = none → x.id ∉ h.log.map Entry.id) →
      ∀ a ∈ h.log ++ [x], ∀ b ∈ h.log ++ [x],
        a.finishedId = none → b.finishedId = none → a.id = b.id → a = b := by
    intro x hx a ha b hb haopen hbopen hid
    rcases List.mem_append.mp ha with ha | ha <;> rcases List.mem_append.mp hb with hb | hb
    · exact ih a ha b hb haopen hbopen hid
    · cases List.mem_singleton.mp hb
      exact absurd (List.mem_map.mpr ⟨a,ha,hid⟩) (hx hbopen)
    · cases List.mem_singleton.mp ha
      exact absurd (List.mem_map.mpr ⟨b,hb,hid.symm⟩) (hx haopen)
    · rw [List.mem_singleton.mp ha,List.mem_singleton.mp hb]
  cases hg with
  | refused hfresh hs => exact hgrown _ fun _ => hfresh
  | started hfresh hs => exact hgrown _ fun _ => hfresh
  | finished hp => exact hgrown _ fun hopen => by cases hopen

/-- The document that a call is started for, if its path has a normal form. -/
def Request.key? (settings : Settings) (request : Request) : Option Text :=
  (Path.normalForm request.host settings.resolveLinks request.path).toOption

/-- The numbers of the calls that are started for other documents. -/
def elsewhere (settings : Settings) (key : Text) (events : List Event) : List Nat :=
  events.filterMap fun
    | .start id request =>
      (request.key? settings).bind fun other => if other = key then none else some id
    | .finish _ _ => none

/-- Whether an entry is about a call for the document, be it one that was refused. -/
def Entry.concerns (settings : Settings) (key : Text) : Entry → Bool
  | .refused _ request _ => request.key? settings = some key
  | .started _ _ call => call.key = key
  | .finished _ call _ _ => call.key = key

theorem mem_elsewhere {settings : Settings} {key : Text} {events : List Event} {id : Nat} :
    id ∈ elsewhere settings key events ↔
      ∃ request other, .start id request ∈ events ∧ request.key? settings = some other ∧
        other ≠ key := by
  simp only [elsewhere,List.mem_filterMap]
  constructor
  · rintro ⟨e,he,hid⟩
    cases e with
    | start i request =>
      obtain ⟨other,hother,hid⟩ := Option.bind_eq_some_iff.mp hid
      split at hid
      · cases hid
      · next hne =>
        cases hid
        exact ⟨request,other,he,hother,hne⟩
    | finish i ending => cases hid
  · rintro ⟨request,other,he,hother,hne⟩
    exact ⟨_,he,by simp [hother,hne]⟩

section Separation

variable {settings : Settings} {events : List Event} {h : History}

theorem opening_of_start (hrun : History.run settings events = some h) {id : Nat}
    {request : Request} (he : .start id request ∈ events) :
    (∃ failure, .refused id request failure ∈ h.log) ∨
      ∃ call, .started id request call ∈ h.log := by
  rw [← History.events_of_run hrun] at he
  obtain ⟨x,hx,hevent⟩ := List.mem_map.mp he
  cases x with
  | refused i q failure =>
    cases hevent
    exact .inl ⟨failure,hx⟩
  | started i q call =>
    cases hevent
    exact .inr ⟨call,hx⟩
  | finished i call ending result => cases hevent

theorem key?_of_started (hrun : History.run settings events = some h) {id : Nat} {request : Request}
    {call : Call} (hm : .started id request call ∈ h.log) :
    request.key? settings = some call.key := by
  have hkey := ((coherent_of_run hrun).keyed id request call hm).2
  rw [Request.key?,hkey]
  rfl

theorem start_of_started (hrun : History.run settings events = some h) {id : Nat}
    {request : Request} {call : Call} (hm : .started id request call ∈ h.log) :
    .start id request ∈ events := by
  rw [← History.events_of_run hrun]
  exact List.mem_map.mpr ⟨_,hm,rfl⟩

theorem not_mem_elsewhere_of_started (hrun : History.run settings events = some h) {id : Nat}
    {request : Request} {call : Call} (hm : .started id request call ∈ h.log) :
    id ∉ elsewhere settings call.key events := by
  intro hid
  obtain ⟨q,other,he,hother,hne⟩ := mem_elsewhere.mp hid
  have hkey := key?_of_started hrun hm
  rcases opening_of_start hrun he with ⟨failure,hx⟩ | ⟨c,hx⟩
  · cases opened_once hrun _ hm _ hx rfl rfl rfl
  · cases opened_once hrun _ hm _ hx rfl rfl rfl
    exact hne (Option.some.inj (hother.symm.trans hkey))

/-- What concerns a document stays when the calls for all others are left out. -/
theorem not_mem_elsewhere (hrun : History.run settings events = some h) {key : Text} {e : Entry}
    (he : e ∈ h.log) (hc : e.concerns settings key = true) :
    e.id ∉ elsewhere settings key events := by
  cases e with
  | refused id request failure =>
    have hkey : request.key? settings = some key := by simpa [Entry.concerns] using hc
    intro hid
    obtain ⟨q,other,hq,hother,hne⟩ := mem_elsewhere.mp hid
    rcases opening_of_start hrun hq with ⟨f,hx⟩ | ⟨c,hx⟩
    · cases opened_once hrun _ he _ hx rfl rfl rfl
      exact hne (Option.some.inj (hother.symm.trans hkey))
    · cases opened_once hrun _ he _ hx rfl rfl rfl
  | started id request call =>
    obtain rfl : call.key = key := by simpa [Entry.concerns] using hc
    exact not_mem_elsewhere_of_started hrun he
  | finished id call ending result =>
    obtain rfl : call.key = key := by simpa [Entry.concerns] using hc
    obtain ⟨before,after,hl⟩ := List.append_of_mem he
    obtain ⟨hs,-⟩ := (coherent_of_run hrun).finished _ _ _ _ _ _ hl
    obtain ⟨request,hm⟩ := mem_starts.mp hs
    have hstarted : .started id request call ∈ h.log := by simp [hl,hm]
    exact not_mem_elsewhere_of_started hrun hstarted

theorem divides_elsewhere (hrun : History.run settings events = some h) (key : Text) :
    Divides (elsewhere settings key events) (· = key) h.log := by
  intro id request call hm
  constructor
  · rintro hid rfl
    exact not_mem_elsewhere_of_started hrun hm hid
  · intro hne
    have hstart := start_of_started hrun hm
    exact mem_elsewhere.mpr ⟨request,call.key,hstart,key?_of_started hrun hm,hne⟩

/-- Documents do not interfere: without the starts and ends of the calls for all other documents,
the calls for a document come to exactly the same, be it edits, a stale result, an advisory or a
failure. -/
theorem documents_do_not_interfere (hrun : History.run settings events = some h) (key : Text) :
    let out := elsewhere settings key events
    ∃ r, History.run settings (events.filter (·.id ∉ out)) = some r ∧
      r.log = h.log.filter (·.id ∉ out) ∧
      r.log.filter (Entry.concerns settings key) = h.log.filter (Entry.concerns settings key) := by
  intro out
  obtain ⟨r,hr,hreduced⟩ := run_leaving_out hrun (divides_elsewhere hrun key)
  refine ⟨r,hr,hreduced.log,?_⟩
  rw [hreduced.log,List.filter_filter]
  refine List.filter_congr ?_
  intro e he
  cases hc : e.concerns settings key with
  | false => rfl
  | true => simpa using not_mem_elsewhere hrun he hc

end Separation

/-- Two calls for one document, in two spellings, around a call for another; the first is overtaken,
and its formatter fails. -/
theorem documents_do_not_interfere_of_two :
    let key := "/a.rs".toList
    let first : Request := ⟨{},"a.rs".toList,.null⟩
    let other : Request := ⟨{},"b.rs".toList,.null⟩
    let second : Request := ⟨{},"./a.rs".toList,.null⟩
    let failing : Ending := ⟨{},['r'],.error (.rejected 1 ['e'])⟩
    let missing : Ending := ⟨{},['r'],.error (.notFound ['x'])⟩
    let events : List Event := [.start 0 first,.start 1 other,.start 2 second,.finish 0 failing,
      .finish 1 missing,.finish 2 missing]
    ∃ h r, History.run {} events = some h ∧
      History.run {} [.start 0 first,.start 2 second,.finish 0 failing,.finish 2 missing] = some r ∧
      generationsFor key r.log = upTo 2 ∧
      r.log.filter (Entry.concerns {} key) = h.log.filter (Entry.concerns {} key) := by
  intro key first other second failing missing events
  obtain ⟨h,hrun⟩ : ∃ h, History.run {} events = some h := ⟨_,rfl⟩
  obtain ⟨r,hr,-,hsame⟩ := documents_do_not_interfere hrun key
  have hevents : events.filter (·.id ∉ elsewhere {} key events) =
      [.start 0 first,.start 2 second,.finish 0 failing,.finish 2 missing] := by
    have hother : elsewhere {} key events = [1] := by decide +kernel
    rw [hother]
    rfl
  rw [hevents] at hr
  refine ⟨h,r,hrun,hr,?_,hsame⟩
  cases hr
  decide +kernel

end FormatEdits.Session
