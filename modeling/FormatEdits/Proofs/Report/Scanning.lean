import FormatEdits.Proofs.Report.Segments
import Mathlib.Data.List.Induction

namespace FormatEdits.Report

open LineKind (headerPath? startLine?)

namespace State

variable {names : Naming} {s s' : State} {kind : LineKind}

theorem Moves.sealedHunks_eq (h : Moves names s kind s') :
    s'.sealedHunks = s.sealedHunks ∨ s'.sealedHunks = s.hunks := by
  cases h with
  | header _ => exact .inr rfl
  | opening _ => exact .inr rfl
  | body _ _ _ => exact .inl rfl
  | passedOver _ _ => exact .inl rfl

theorem Moves.sealedHunks_grow (h : Moves names s kind s') :
    s.sealedHunks <+: s'.sealedHunks := by
  rcases h.sealedHunks_eq with hs | hs
  · exact hs ▸ List.prefix_rfl
  · exact hs ▸ List.prefix_append _ _

theorem Moves.appends (h : Moves names s kind s') : s'.sealedHunks = s.sealedHunks ∨
    ∃ hunk, s.openHunk = some hunk ∧ s'.sealedHunks = s.sealedHunks ++ [hunk] := by
  rcases h.sealedHunks_eq with hs | hs
  · exact .inl hs
  · cases ho : s.openHunk with
    | none => exact .inl (by simpa [hunks,ho] using hs)
    | some hunk => exact .inr ⟨hunk,rfl,by simpa [hunks,ho] using hs⟩

/-- The line is the start of a hunk, and is read while lines are taken in. -/
def opensHunk (s : State) (kind : LineKind) : Bool := s.inTarget && (startLine? kind).isSome

theorem Moves.length_hunks (h : Moves names s kind s') :
    s'.hunks.length = s.hunks.length + if s.opensHunk kind then 1 else 0 := by
  cases h with
  | header _ => simp [hunks,opensHunk,startLine?]
  | opening hs => simp [hunks,opensHunk,startLine?,hs,Nat.add_assoc]
  | body _ hstart _ => cases ho : s.openHunk <;> simp [hunks,opensHunk,hstart,ho]
  | passedOver _ hs => simp [opensHunk,hs]

theorem Moves.inTarget_of_openHunk (h : Moves names s kind s')
    (hs : s.openHunk ≠ none → s.inTarget = true) (hopen : s'.openHunk ≠ none) :
    s'.inTarget = true := by
  cases h with
  | header _ => exact absurd rfl hopen
  | opening ht => exact ht
  | body _ _ ht => exact ht
  | passedOver _ _ => exact hs hopen

theorem Moves.inTarget_iff (h : Moves names s kind s') {before : Option Text}
    (hs : s.inTarget = true ↔ ∃ path, before = some path ∧ names path = .ok true) :
    s'.inTarget = true ↔
      ∃ path, (headerPath? kind).or before = some path ∧ names path = .ok true := by
  cases h with
  | header hn => simp [headerPath?,hn]
  | opening _ => exact hs
  | body hheader _ _ => rwa [hheader]
  | passedOver hheader _ => rwa [hheader]

theorem Moves.eq_or_header (h : Moves names s kind s') (hs : s.inTarget = false) :
    s' = s ∨ ∃ path, kind = .fileHeader path := by
  cases h with
  | header _ => exact .inr ⟨_,rfl⟩
  | opening ht => cases hs.symm.trans ht
  | body _ _ ht => cases hs.symm.trans ht
  | passedOver _ _ => exact .inl rfl

end State

open State (Moves)

/-- A scan from its beginning: the states in which lines were read, with these lines, and the state
that it has come to. -/
inductive Scans (names : Naming) : List (State × LineKind) → State → Prop
  | start : Scans names [] {}
  | read {past : List (State × LineKind)} {s s' : State} {kind : LineKind}
      (before : Scans names past s) (h : s.advance names kind = .ok s') :
      Scans names (past ++ [(s,kind)]) s'

theorem scans_of_foldlM {names : Naming} {kinds : List LineKind} {s : State}
    (h : kinds.foldlM (State.advance names) {} = .ok s) :
    ∃ past, past.map Prod.snd = kinds ∧ Scans names past s := by
  induction kinds using List.reverseRecOn generalizing s with
  | nil =>
    obtain rfl := Except.ok.inj h
    exact ⟨[],rfl,.start⟩
  | append_singleton kinds kind ih =>
    rw [List.foldlM_append] at h
    cases hbefore : kinds.foldlM (State.advance names) {} with
    | error fault => simp [hbefore,bind,Except.bind] at h
    | ok before =>
      rw [hbefore] at h
      have hread : before.advance names kind = .ok s := (bind_pure _).symm.trans h
      obtain ⟨past,rfl,hpast⟩ := ih hbefore
      exact ⟨past ++ [(before,kind)],by simp,hpast.read hread⟩

/-- The path of the last header that was read. -/
def lastHeader (past : List (State × LineKind)) : Option Text :=
  (past.filterMap fun e => headerPath? e.2).getLast?

section Points

variable {names : Naming} {past : List (State × LineKind)} {s : State}

theorem lastHeader_concat (past : List (State × LineKind)) (s : State) (kind : LineKind) :
    lastHeader (past ++ [(s,kind)]) = (headerPath? kind).or (lastHeader past) := by
  rw [lastHeader,List.filterMap_append,List.getLast?_append]
  cases h : headerPath? kind <;> simp [h,lastHeader]

/-- What the fields of a state say about the scan that has come to it. -/
structure Tallies (names : Naming) (past : List (State × LineKind)) (s : State) : Prop where
  inTarget : s.inTarget = true ↔ ∃ path, lastHeader past = some path ∧ names path = .ok true
  openHunk : s.openHunk ≠ none → s.inTarget = true
  hunks : s.hunks.length = past.countP fun e => e.1.opensHunk e.2

theorem tallies_of_scans (h : Scans names past s) : Tallies names past s := by
  induction h with
  | start => exact ⟨by simp [lastHeader],(absurd rfl ·),rfl⟩
  | @read past s s' kind _ hread ih =>
    have hmove := State.moves_of_advance hread
    refine ⟨?_,hmove.inTarget_of_openHunk ih.openHunk,?_⟩
    · rw [lastHeader_concat]
      exact hmove.inTarget_iff ih.inTarget
    · rw [hmove.length_hunks,ih.hunks,List.countP_append,List.countP_singleton]

/-- The closed hunks of each state are the first ones of every later state. -/
theorem sealedHunks_pairwise (h : Scans names past s) :
    (past.map Prod.fst ++ [s]).Pairwise fun a b => a.sealedHunks <+: b.sealedHunks := by
  induction h with
  | start => simp
  | @read past s s' kind before h ih =>
    have hstep := (State.moves_of_advance h).sealedHunks_grow
    rw [List.map_append,List.map_singleton,List.pairwise_append]
    refine ⟨ih,by simp,?_⟩
    intro a ha b hb
    rw [List.mem_singleton.mp hb]
    rcases List.mem_append.mp ha with ha | ha
    · have hearlier := (List.pairwise_append.mp ih).2.2 a ha s (by simp)
      exact hearlier.trans hstep
    · rwa [List.mem_singleton.mp ha]

/-- At every point of a scan lines are taken in exactly if there was a header and the last one names
the target; there is an open hunk only then; and the closed hunks and the open one are as many as
the hunk starts that were read while lines were taken in. A state has all hunks that any earlier one
had closed, in their places and unchanged. The next line closes the open hunk, if any, and no other
one, and where no lines are taken in it changes nothing, unless it is a header. -/
theorem scans_keep_hunks_in_order (h : Scans names past s) :
    (s.inTarget = true ↔ ∃ path, lastHeader past = some path ∧ names path = .ok true) ∧
      (s.openHunk ≠ none → s.inTarget = true) ∧
      s.sealedHunks.length + s.openHunk.toList.length =
        past.countP (fun e => e.1.opensHunk e.2) ∧
      (past.map Prod.fst ++ [s]).Pairwise (fun a b => a.sealedHunks <+: b.sealedHunks) ∧
      ∀ kind s', s.advance names kind = .ok s' →
        (s'.sealedHunks = s.sealedHunks ∨
          ∃ hunk, s.openHunk = some hunk ∧ s'.sealedHunks = s.sealedHunks ++ [hunk]) ∧
        (s.inTarget = false → s' = s ∨ ∃ path, kind = .fileHeader path) := by
  have htallies := tallies_of_scans h
  refine ⟨htallies.inTarget,htallies.openHunk,?_,sealedHunks_pairwise h,fun kind s' hnext => ?_⟩
  · rw [← htallies.hunks,State.hunks,List.length_append]
  · have hmove := State.moves_of_advance hnext
    exact ⟨hmove.appends,hmove.eq_or_header⟩

/-- Hunk starts and body lines in front of the target's block and in another one, a body line in
front of the first hunk, and two hunks of which the second one is open. -/
theorem scans_keep_hunks_in_order_of_two_blocks :
    let names := Path.names {} true "a.rs".toList
    let other : State := ⟨some "b.rs".toList,false,none,[]⟩
    let target : State := ⟨some "a.rs".toList,true,none,[]⟩
    let first : State := { target with openHunk := some ⟨3,0,[]⟩ }
    let longer : State := { target with openHunk := some ⟨3,1,[]⟩ }
    let second : State := { target with openHunk := some ⟨9,0,[]⟩, sealedHunks := [⟨3,1,[]⟩] }
    let past : List (State × LineKind) := [({},.hunkStart 1),({},.fileHeader "b.rs".toList),
      (other,.hunkStart 2),(other,.removed),(other,.fileHeader "a.rs".toList),(target,.removed),
      (target,.hunkStart 3),(first,.removed),(longer,.other),(longer,.hunkStart 9)]
    Scans names past second ∧
      (∃ path, lastHeader past = some path ∧ names path = .ok true) ∧
      past.countP (fun e => e.1.opensHunk e.2) = 2 ∧
      (past.map Prod.fst ++ [second]).Pairwise (fun a b => a.sealedHunks <+: b.sealedHunks) := by
  intro names other target first longer second past
  have hscan : Scans names past second :=
    Scans.start.read rfl |>.read rfl |>.read rfl |>.read rfl |>.read rfl |>.read rfl |>.read rfl
      |>.read rfl |>.read rfl |>.read rfl
  obtain ⟨htarget,-,hcount,hpairwise,-⟩ := scans_keep_hunks_in_order hscan
  exact ⟨hscan,htarget.mp rfl,hcount.symm,hpairwise⟩

end Points

end FormatEdits.Report
