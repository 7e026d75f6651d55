import FormatEdits.Proofs.Escape.Decoration
import FormatEdits.Proofs.Session.History
import Mathlib.Data.List.Nodup

namespace FormatEdits.Session

/-- The generations from one on. -/
def upTo (n : Nat) : List Int := (List.range n).map fun i : Nat => (i : Int) + 1

theorem upTo_succ (n : Nat) : upTo (n + 1) = upTo n ++ [(n : Int) + 1] := by
  simp [upTo,List.range_succ]

theorem nodup_upTo (n : Nat) : (upTo n).Nodup := by
  refine List.nodup_range.map ?_
  intro i j h
  have h : (i : Int) + 1 = j + 1 := h
  omega

theorem eq_length_of_upTo {before after : List Int} {generation : Int} {n : Nat}
    (h : before ++ generation :: after = upTo n) : generation = before.length + 1 := by
  have hget : (upTo n)[before.length]? = some generation := by
    rw [← h]
    simp
  have hlt : before.length < n := by
    have hlength := congrArg List.length h
    simp [upTo] at hlength
    omega
  simp only [upTo,List.getElem?_map,List.getElem?_range hlt] at hget
  exact (Option.some.inj hget).symm

/-- The generations of a document's calls, in the order of their starts. -/
def generationsFor (key : Text) (log : List Entry) : List Int :=
  (startsFor key log).map (·.2.generation)

theorem generationsFor_append (key : Text) (before after : List Entry) :
    generationsFor key (before ++ after) =
      generationsFor key before ++ generationsFor key after := by
  simp [generationsFor,startsFor_append]

theorem length_generationsFor (key : Text) (log : List Entry) :
    (generationsFor key log).length = (startsFor key log).length :=
  List.length_map ..

/-- A call's result as a session finds it: what its formatter printed is interpreted, and the
result is stale unless the call is its document's latest. -/
theorem finish_eq_ok {host : Host} {settings : Settings} {g : Generations} {runId : Text}
    {call : Call} {outcome : Except Formatter.Fault Text} {r : FormatResult} :
    finish host settings g runId call outcome = .ok r ↔
      (∃ executable, outcome = .error (.notFound executable) ∧
        r = { path := call.path, mode := call.mode, advisory := some settings.notFoundMessage
              info := infoOf settings runId call }) ∨
      ∃ output edits, outcome = .ok output ∧
        editsFromOutput host settings call.path output call.mode = .ok edits ∧
        r = { path := call.path, mode := call.mode
              edits := if g.isCurrent call.key call.generation then edits else []
              stale := !g.isCurrent call.key call.generation
              info := infoOf settings runId call } := by
  constructor
  · intro hr
    cases outcome with
    | error fault =>
      cases fault with
      | notFound executable => exact .inl ⟨executable,rfl,(Except.ok.inj hr).symm⟩
      | _ => cases hr
    | ok output =>
      cases he : editsFromOutput host settings call.path output call.mode with
      | error failure =>
        simp only [finish,he] at hr
        cases hr
      | ok edits =>
        simp only [finish,he] at hr
        exact .inr ⟨output,edits,rfl,he,(Except.ok.inj hr).symm⟩
  · rintro (⟨executable,rfl,rfl⟩ | ⟨output,edits,rfl,he,rfl⟩)
    · rfl
    · simp only [finish,he]
      rfl

/-- How a call's result depends on the newer calls for its document. -/
structure Judged (settings : Settings) (call : Call) (ending : Ending)
    (result : Except Failure FormatResult) (newer : List (Nat × Call)) : Prop where
  fresh : newer = [] → ∀ output edits, ending.outcome = .ok output →
    editsFromOutput ending.host settings call.path output call.mode = .ok edits →
    result = .ok { path := call.path, mode := call.mode, edits
                   info := infoOf settings ending.runId call }
  stale : newer ≠ [] → ∀ output edits, ending.outcome = .ok output →
    editsFromOutput ending.host settings call.path output call.mode = .ok edits →
    result = .ok { path := call.path, mode := call.mode, stale := true
                   info := infoOf settings ending.runId call }
  withheld : newer ≠ [] → ∀ r, result = .ok r → r.edits = []

theorem judged_finish {settings : Settings} {g : Generations} {call : Call} {ending : Ending}
    {newer : List (Nat × Call)} (hg : g.isCurrent call.key call.generation = true ↔ newer = []) :
    Judged settings call ending
      (finish ending.host settings g ending.runId call ending.outcome) newer := by
  refine ⟨?_,?_,?_⟩
  · intro hnewer output edits ho he
    exact finish_eq_ok.mpr (.inr ⟨output,edits,ho,he,by simp [hg.mpr hnewer]⟩)
  · intro hnewer output edits ho he
    have hstale := Bool.eq_false_iff.mpr (hg.not.mpr hnewer)
    exact finish_eq_ok.mpr (.inr ⟨output,edits,ho,he,by simp [hstale]⟩)
  · intro hnewer r hr
    have hstale := Bool.eq_false_iff.mpr (hg.not.mpr hnewer)
    obtain ⟨_,_,rfl⟩ | ⟨_,_,_,_,rfl⟩ := finish_eq_ok.mp hr
    · rfl
    · simp [hstale]

/-- The generation of edits that a document gets here, neither stale nor with an advisory. -/
def Entry.delivered (key : Text) : Entry → Option Int
  | .finished _ call _ (.ok r) =>
    if call.key = key ∧ r.stale = false ∧ r.advisory = none then some r.info.generation else none
  | _ => none

/-- What every history has: generations count the starts, and every end was judged by the starts
before it. -/
structure Coherent (settings : Settings) (h : History) : Prop where
  keyed : ∀ id request call, .started id request call ∈ h.log → call.path = request.path ∧
    Path.normalForm request.host settings.resolveLinks request.path = .ok call.key
  latest : ∀ key, h.generations.current key = (startsFor key h.log).length
  numbered : ∀ key, generationsFor key h.log = upTo (startsFor key h.log).length
  finished : ∀ before id call ending result after,
    h.log = before ++ .finished id call ending result :: after →
    (id,call) ∈ starts before ∧ id ∉ ends before ∧
      ∃ g : Generations, (∀ key, g.current key = (startsFor key before).length) ∧
        result = finish ending.host settings g ending.runId call ending.outcome

theorem concat_eq_append_cons {log before after : List Entry} {e x : Entry}
    (h : log ++ [e] = before ++ x :: after) :
    (before = log ∧ x = e) ∨ ∃ rest, log = before ++ x :: rest := by
  rcases List.eq_nil_or_concat' after with rfl | ⟨rest,last,rfl⟩
  · obtain ⟨rfl,he⟩ := List.append_inj' h rfl
    exact .inl ⟨rfl,(List.singleton_inj.mp he).symm⟩
  · rw [← List.cons_append,← List.append_assoc] at h
    exact .inr ⟨rest,(List.append_inj' h rfl).1⟩

theorem pairwise_of_append_cons {R : Entry → Entry → Prop} {log : List Entry}
    (h : ∀ before x after, log = before ++ x :: after → ∀ y ∈ before, R y x) : log.Pairwise R := by
  induction log using List.reverseRecOn with
  | nil => exact .nil
  | append_singleton log e ih =>
    refine List.pairwise_append.mpr ⟨ih ?_,List.pairwise_singleton R e,?_⟩
    · intro before x after hl
      exact h before x (after ++ [e]) (by simp [hl])
    · intro y hy x hx
      obtain rfl := List.mem_singleton.mp hx
      exact h log x [] rfl y hy

theorem startsFor_concat_of_none {e : Entry} (he : e.startedCall = none) (key : Text)
    (log : List Entry) : startsFor key (log ++ [e]) = startsFor key log := by
  simp [startsFor,starts,he]

theorem startsFor_concat_started (key : Text) (log : List Entry) (id : Nat) (request : Request)
    (call : Call) : startsFor key (log ++ [.started id request call]) =
      startsFor key log ++ if call.key = key then [(id,call)] else [] := by
  by_cases hk : call.key = key <;> simp [startsFor,starts,Entry.startedCall,hk]

theorem Coherent.concat {settings : Settings} {h : History} {e : Entry} (hh : Coherent settings h)
    (he : e.startedCall = none) (hf : ∀ id call ending result, e = .finished id call ending result →
      (id,call) ∈ starts h.log ∧ id ∉ ends h.log ∧
        result = finish ending.host settings h.generations ending.runId call ending.outcome) :
    Coherent settings { h with log := h.log ++ [e] } := by
  refine ⟨?_,?_,?_,?_⟩
  · intro id request call hm
    rcases List.mem_append.mp hm with hm | hm
    · exact hh.keyed id request call hm
    · obtain rfl := List.mem_singleton.mp hm
      cases he
  · intro key
    rw [startsFor_concat_of_none he]
    exact hh.latest key
  · intro key
    rw [generationsFor,startsFor_concat_of_none he]
    exact hh.numbered key
  · intro before id call ending result after hl
    rcases concat_eq_append_cons hl with ⟨rfl,hx⟩ | ⟨rest,hl⟩
    · obtain ⟨hs,hn,hr⟩ := hf id call ending result hx.symm
      exact ⟨hs,hn,h.generations,hh.latest,hr⟩
    · exact hh.finished before id call ending result rest hl

theorem Coherent.started {settings : Settings} {h : History} (hh : Coherent settings h) {id : Nat}
    {request : Request} {call : Call} {g : Generations}
    (hs : start request.host settings h.generations request.path request.mode = .ok (call,g)) :
    Coherent settings ⟨g,h.log ++ [.started id request call]⟩ := by
  obtain ⟨-,hkey,hpath,hgeneration,rfl⟩ := start_eq_ok.mp hs
  refine ⟨?_,?_,?_,?_⟩
  · intro i r c hm
    rcases List.mem_append.mp hm with hm | hm
    · exact hh.keyed i r c hm
    · cases List.mem_singleton.mp hm
      exact ⟨hpath,hkey⟩
  · intro key
    rw [Generations.current_begin,startsFor_concat_started]
    by_cases hk : key = call.key
    · subst hk
      simp [hh.latest]
    · simp [hk,Ne.symm hk,hh.latest]
  · intro key
    have hnumbered := hh.numbered key
    rw [generationsFor] at hnumbered ⊢
    rw [startsFor_concat_started]
    by_cases hk : call.key = key
    · subst hk
      simp [hnumbered,upTo_succ,hgeneration,hh.latest]
    · simp [hk,hnumbered]
  · intro before i c ending result after hl
    rcases concat_eq_append_cons hl with ⟨-,hx⟩ | ⟨rest,hl⟩
    · cases hx
    · exact hh.finished before i c ending result rest hl

theorem coherent_of_run {settings : Settings} {events : List Event} {h : History}
    (hrun : History.run settings events = some h) : Coherent settings h := by
  refine History.run_invariant (P := fun _ h => Coherent settings h) ⟨?_,?_,?_,?_⟩ ?_ hrun
  · intro id request call hm
    cases hm
  · intro key
    rfl
  · intro key
    rfl
  · intro before id call ending result after hl
    simp at hl
  · intro events h e h' hh hg
    cases hg with
    | refused hfresh hs => exact hh.concat rfl (fun _ _ _ _ he => by cases he)
    | started hfresh hs => exact hh.started hs
    | finished hp =>
      refine hh.concat rfl ?_
      intro id call ending result he
      cases he
      obtain ⟨hs,hn⟩ := History.pending_eq_some hp
      exact ⟨hs,hn,rfl⟩

namespace Coherent

variable {settings : Settings} {h : History}

/-- A call's generation counts the calls for its document up to it. -/
theorem generation_eq (hh : Coherent settings h) {before after : List Entry} {id : Nat}
    {request : Request} {call : Call} (hl : h.log = before ++ .started id request call :: after) :
    call.generation = (startsFor call.key before).length + 1 := by
  have hnumbered := hh.numbered call.key
  have hone : generationsFor call.key [.started id request call] = [call.generation] := by
    simp [generationsFor,startsFor,starts,Entry.startedCall]
  rw [hl,List.append_cons before,generationsFor_append,generationsFor_append,hone,
    List.append_assoc] at hnumbered
  have hg := eq_length_of_upTo hnumbered
  rwa [length_generationsFor] at hg

/-- An end comes behind the start of its call, and is judged by the newer calls in between. -/
theorem judged (hh : Coherent settings h) {before after : List Entry} {id : Nat} {call : Call}
    {ending : Ending} {result : Except Failure FormatResult}
    (hl : h.log = before ++ .finished id call ending result :: after) :
    ∃ earlier request between, before = earlier ++ .started id request call :: between ∧
      Judged settings call ending result (startsFor call.key between) := by
  obtain ⟨hs,-,g,hg,rfl⟩ := hh.finished _ _ _ _ _ _ hl
  obtain ⟨request,hm⟩ := mem_starts.mp hs
  obtain ⟨earlier,between,rfl⟩ := List.append_of_mem hm
  refine ⟨earlier,request,between,rfl,judged_finish ?_⟩
  rw [List.append_assoc,List.cons_append] at hl
  have hgeneration := hh.generation_eq hl
  have hcurrent := hg call.key
  rw [List.append_cons,startsFor_append,startsFor_concat_started,if_pos rfl] at hcurrent
  rw [Generations.isCurrent,beq_iff_eq,hcurrent,hgeneration,← List.length_eq_zero_iff]
  simp only [List.length_append,List.length_singleton]
  omega

theorem delivered (hh : Coherent settings h) {before after : List Entry} {e : Entry} {key : Text}
    {generation : Int} (hl : h.log = before ++ e :: after)
    (hd : e.delivered key = some generation) :
    generation = (startsFor key before).length ∧ ∃ id call, e.finishedId = some id ∧
      id ∉ ends before ∧ (id,call) ∈ startsFor key before ∧ call.generation = generation := by
  cases e with
  | refused => cases hd
  | started => cases hd
  | finished id call ending result =>
    cases result with
    | error failure => cases hd
    | ok r =>
      simp only [Entry.delivered,Option.ite_none_right_eq_some,Option.some.injEq] at hd
      obtain ⟨⟨rfl,hstale,hadvisory⟩,rfl⟩ := hd
      obtain ⟨hs,hn,g,hg,hr⟩ := hh.finished _ _ _ _ _ _ hl
      obtain ⟨_,_,rfl⟩ | ⟨_,_,_,_,rfl⟩ := finish_eq_ok.mp hr.symm
      · cases hadvisory
      · have hcurrent : g.current call.key = call.generation := by
          simpa [Generations.isCurrent] using hstale
        have hstarts : (id,call) ∈ startsFor call.key before := by
          simpa [startsFor] using hs
        exact ⟨hcurrent.symm.trans (hg call.key),id,call,rfl,hn,hstarts,rfl⟩

theorem nodup_generationsFor (hh : Coherent settings h) {before after : List Entry}
    (hl : h.log = before ++ after) (key : Text) : (generationsFor key before).Nodup := by
  have hnodup := nodup_upTo (startsFor key h.log).length
  rw [← hh.numbered key,hl,generationsFor_append] at hnodup
  exact hnodup.of_append_left

/-- Fresh results of a document are delivered in the order of their generations. -/
theorem delivered_increasing (hh : Coherent settings h) (key : Text) :
    (h.log.filterMap (Entry.delivered key)).Pairwise (· < ·) := by
  rw [List.pairwise_filterMap]
  refine pairwise_of_append_cons ?_
  intro before x after hl y hy m hm n hn
  obtain ⟨earlier,between,rfl⟩ := List.append_of_mem hy
  rw [List.append_assoc,List.cons_append] at hl
  obtain ⟨hm,i,c,hi,-,hc,hcm⟩ := hh.delivered hl hm
  rw [← List.cons_append,← List.append_assoc] at hl
  obtain ⟨hn,j,d,-,hj,hd,hdn⟩ := hh.delivered hl hn
  have hstarts := startsFor_append key earlier (y :: between)
  have hle : m ≤ n := by
    rw [hm,hn,hstarts,List.length_append]
    omega
  rcases Int.lt_or_eq_of_le hle with hlt | heq
  · exact hlt
  · -- a generation that came twice would be one call's, which ends only once
    have hc : (i,c) ∈ startsFor key (earlier ++ y :: between) := by
      rw [hstarts]
      exact List.mem_append_left _ hc
    have hsame := List.inj_on_of_nodup_map (hh.nodup_generationsFor hl key) hc hd
      (hcm.trans (heq.trans hdn.symm))
    obtain ⟨rfl,-⟩ := Prod.mk.inj hsame
    exact absurd (List.mem_filterMap.mpr ⟨y,by simp,hi⟩) hj

end Coherent

/-- However calls are interleaved, those for one document get the generations one, two, three and
so on, each is judged by the newer calls that start before it ends, and fresh results are delivered
in the order of their generations. -/
theorem results_never_overwrite_newer {settings : Settings} {events : List Event} {h : History}
    (hrun : History.run settings events = some h) :
    h.log.map Entry.event = events ∧
      (∀ id request call, .started id request call ∈ h.log → call.path = request.path ∧
        Path.normalForm request.host settings.resolveLinks request.path = .ok call.key) ∧
      (∀ key, generationsFor key h.log = upTo (startsFor key h.log).length) ∧
      (∀ before id call ending result after,
        h.log = before ++ .finished id call ending result :: after →
        ∃ earlier request between, before = earlier ++ .started id request call :: between ∧
          Judged settings call ending result (startsFor call.key between)) ∧
      ∀ key, (h.log.filterMap (Entry.delivered key)).Pairwise (· < ·) := by
  have hh := coherent_of_run hrun
  refine ⟨History.events_of_run hrun,hh.keyed,hh.numbered,?_,hh.delivered_increasing⟩
  intro before id call ending result after hl
  exact hh.judged hl

/-- Two calls for one file under different spellings overlap: the older one ends last, and its
edits are withheld. -/
theorem results_never_overwrite_newer_of_overlap :
    let key := "/a.rs".toList
    let first : Request := ⟨{},"a.rs".toList,.null⟩
    let second : Request := ⟨{},"./x/../a.rs".toList,.null⟩
    let older : Call := ⟨first.path,.diff,key,1⟩
    let newer : Call := ⟨second.path,.diff,key,2⟩
    let report := "Diff of a.rs:\nDiff at line 1\n-a⏎\n+b⏎".toList
    let ending : Ending := ⟨{},['r'],.ok report⟩
    let fresh : FormatResult :=
      { path := newer.path, edits := [⟨0,0,0,none,['b']⟩], info := infoOf {} ['r'] newer }
    let stale : FormatResult := { path := older.path, stale := true, info := infoOf {} ['r'] older }
    let before : List Entry := [.started 0 first older,.started 1 second newer,
      .finished 1 newer ending (.ok fresh)]
    let log := before ++ [.finished 0 older ending (.ok stale)]
    let events : List Event := [.start 0 first,.start 1 second,.finish 1 ending,.finish 0 ending]
    (∃ g, History.run {} events = some ⟨g,log⟩) ∧ generationsFor key log = upTo 2 ∧
      (log.filterMap (Entry.delivered key)).Pairwise (· < ·) ∧
      ∃ earlier request between, before = earlier ++ .started 0 request older :: between ∧
        Judged {} older ending (.ok stale) (startsFor key between) := by
  intro key first second older newer report ending fresh stale before log events
  let g : Generations := ⟨[(key,2)]⟩
  have hclean : Escape.Clean report := by decide
  have hcoloured : ∀ path, Report.interpretColoured {} true path report =
      Report.interpret {} true path report := by
    intro path
    rw [Report.interpretColoured,Escape.strip_of_clean hclean]
  have hnewer : editsFromOutput {} {} newer.path report .diff = .ok fresh.edits := by
    have hread : Report.interpret {} true newer.path report = .ok fresh.edits := by decide +kernel
    simp only [editsFromOutput,hcoloured,hread]
    rfl
  have holder : editsFromOutput {} {} older.path report .diff = .ok fresh.edits := by
    have hread : Report.interpret {} true older.path report = .ok fresh.edits := by decide +kernel
    simp only [editsFromOutput,hcoloured,hread]
    rfl
  have hfresh : finish {} {} g ['r'] newer (.ok report) = .ok fresh :=
    finish_eq_ok.mpr (.inr ⟨report,_,rfl,hnewer,rfl⟩)
  have hstale : finish {} {} g ['r'] older (.ok report) = .ok stale :=
    finish_eq_ok.mpr (.inr ⟨report,_,rfl,holder,rfl⟩)
  have hfirst : start {} {} {} first.path first.mode = .ok (older,⟨[(key,1)]⟩) :=
    start_eq_ok.mpr ⟨rfl,by decide +kernel,rfl,rfl,rfl⟩
  have hsecond : start {} {} ⟨[(key,1)]⟩ second.path second.mode = .ok (newer,g) :=
    start_eq_ok.mpr ⟨rfl,by decide +kernel,rfl,rfl,rfl⟩
  have hstarts : [.start 0 first,.start 1 second].foldlM (History.step {}) {} =
      some ⟨g,[.started 0 first older,.started 1 second newer]⟩ := by
    have hone : History.step {} {} (.start 0 first) = some ⟨_,_⟩ :=
      History.step_eq_some.mpr (.started List.not_mem_nil hfirst)
    have htwo : History.step {} ⟨_,[.started 0 first older]⟩ (.start 1 second) = some ⟨_,_⟩ :=
      History.step_eq_some.mpr (.started (by simp [Entry.id]) hsecond)
    simp only [List.foldlM_cons,List.foldlM_nil,hone,Option.bind_eq_bind,Option.bind_some,
      List.nil_append,htwo]
    rfl
  have hrun : History.run {} events = some ⟨g,[.started 0 first older,.started 1 second newer,
      .finished 1 newer ending (finish {} {} g ['r'] newer (.ok report)),
      .finished 0 older ending (finish {} {} g ['r'] older (.ok report))]⟩ := by
    have hevents : events =
        [.start 0 first,.start 1 second] ++ [.finish 1 ending,.finish 0 ending] := rfl
    rw [History.run,hevents,List.foldlM_append,hstarts]
    rfl
  rw [hfresh,hstale] at hrun
  obtain ⟨-,-,hnumbered,hjudged,hincreasing⟩ := results_never_overwrite_newer hrun
  exact ⟨⟨g,hrun⟩,hnumbered key,hincreasing key,hjudged before 0 older ending (.ok stale) [] rfl⟩

end FormatEdits.Session
