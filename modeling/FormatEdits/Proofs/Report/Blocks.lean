import FormatEdits.Proofs.Report.Segments
import FormatEdits.Proofs.Text.Fields

namespace FormatEdits

/-- How far hunks move the lines behind them up. -/
def Hunk.totalDrift : List Hunk → Int
  | [] => 0
  | h :: hs => h.drift + totalDrift hs

namespace Edit

/-- The edit so many lines further down. -/
def moved (lines : Int) (e : Edit) : Edit :=
  { e with startLine := e.startLine + lines, endLine := e.endLine + lines }

theorem toEdit_add (shift lines : Int) (h : Hunk) :
    h.toEdit (shift + lines) = (h.toEdit shift).moved lines := by
  by_cases hr : h.removedLines = 0
  · simp [Hunk.toEdit,moved,hr]
    omega
  · simp [Hunk.toEdit,moved,hr]
    omega

theorem ofHunksFrom_add (shift lines : Int) (hs : List Hunk) :
    ofHunksFrom (shift + lines) hs = (ofHunksFrom shift hs).map (moved lines) := by
  induction hs generalizing shift with
  | nil => rfl
  | cons h hs ih =>
    rw [ofHunksFrom,ofHunksFrom,List.map_cons,toEdit_add,← ih]
    congr 2
    omega

theorem ofHunksFrom_append (shift : Int) (as bs : List Hunk) :
    ofHunksFrom shift (as ++ bs) =
      ofHunksFrom shift as ++ ofHunksFrom (shift + Hunk.totalDrift as) bs := by
  induction as generalizing shift with
  | nil => simp [ofHunksFrom,Hunk.totalDrift]
  | cons a as ih =>
    rw [List.cons_append,ofHunksFrom,ih,ofHunksFrom,Hunk.totalDrift,Int.add_assoc]
    rfl

theorem ofHunks_append (as bs : List Hunk) :
    ofHunks (as ++ bs) = ofHunks as ++ (ofHunks bs).map (moved (Hunk.totalDrift as)) := by
  rw [ofHunks,ofHunksFrom_append,ofHunksFrom_add]
  rfl

end Edit

namespace Report

open Text (joined)
open LineKind (headerPath?)

/-- The first line of a report is a header. -/
def OpensWithHeader (report : Text) : Prop :=
  ∃ line ∈ (lines report).head?, ∃ path, classify line = .ok (.fileHeader path)

theorem interpret_eq_ok {host : Host} {resolveLinks : Bool} {target report : Text}
    {es : List Edit} : interpret host resolveLinks target report = .ok es ↔
      ∃ hs, collect (Path.names host resolveLinks target) report = .ok hs ∧
        Edit.ofHunks hs = es := by
  rw [interpret]
  cases collect (Path.names host resolveLinks target) report <;> simp [Except.map]

theorem lines_append (r₁ r₂ : Text) : lines (r₁ ++ '\n' :: r₂) = lines r₁ ++ lines r₂ :=
  Text.fields_append_cons '\n' r₁ r₂

theorem OpensWithHeader.head? {report : Text} (h : OpensWithHeader report) {names : Naming}
    {kinds : List LineKind} (hkinds : (lines report).mapM (readLine names) = .ok kinds) :
    ∀ kind ∈ kinds.head?, goesOn headerPath? kind = false := by
  obtain ⟨line,hline,path,hpath⟩ := h
  obtain ⟨rest,hrest⟩ := List.head?_eq_some_iff.mp hline
  rw [hrest,List.mapM_cons,readLine_header hpath] at hkinds
  cases hn : names path with
  | error fault => simp [hn,Except.map,bind,Except.bind] at hkinds
  | ok answer =>
    cases hr : rest.mapM (readLine names) with
    | error fault => simp [hn,hr,Except.map,bind,Except.bind] at hkinds
    | ok others =>
      obtain rfl : .fileHeader path :: others = kinds := by
        simpa [hn,hr,Except.map,bind,Except.bind,pure,Except.pure] using hkinds
      simp [goesOn,headerPath?]

/-- The hunks of a report that opens with a header come after those of any report in front of it,
and the first fault is that of the whole. -/
theorem collect_append (names : Naming) (r₁ : Text) {r₂ : Text} (h : OpensWithHeader r₂) :
    collect names (r₁ ++ '\n' :: r₂) =
      (do return (← collect names r₁) ++ (← collect names r₂)) := by
  rw [collect_eq,collect_eq,collect_eq,lines_append,List.mapM_append]
  cases (lines r₁).mapM (readLine names) with
  | error fault => rfl
  | ok kinds₁ =>
    cases hkinds : (lines r₂).mapM (readLine names) with
    | error fault => rfl
    | ok kinds₂ => exact congrArg Except.ok (declaredHunks_append names kinds₁ (h.head? hkinds))

/-- The part of a report that is about one file: its header, and lines that are none. -/
structure Block where
  path : Text
  header : Text
  body : List Text
  classify_header : classify header = .ok (.fileHeader path)
  not_header : ∀ l ∈ body, ∀ other, classify l ≠ .ok (.fileHeader other)
  not_lineFeed : ∀ l ∈ header :: body, '\n' ∉ l

namespace Block

def text (b : Block) : Text := joined '\n' (b.header :: b.body)

theorem lines_text (b : Block) : lines b.text = b.header :: b.body :=
  Text.fields_joined (by simp) b.not_lineFeed

theorem opensWithHeader (b : Block) : OpensWithHeader b.text :=
  ⟨b.header,by rw [lines_text]; rfl,b.path,b.classify_header⟩

/-- The block is about another file than the target, and can be read. -/
structure Foreign (names : Naming) (b : Block) : Prop where
  names_path : names b.path = .ok false
  readable : ∀ l ∈ b.body, ∃ kind, classify l = .ok kind

theorem Foreign.not_target {names : Naming} {b : Block} (h : b.Foreign names) :
    namesTarget names b.path = false := by
  rw [namesTarget,h.names_path]

theorem mapM_readLine_of_body {ls : List Text} (hread : ∀ l ∈ ls, ∃ kind, classify l = .ok kind)
    (hfree : ∀ l ∈ ls, ∀ other, classify l ≠ .ok (.fileHeader other)) (names : Naming) :
    ∃ kinds, ls.mapM (readLine names) = .ok kinds ∧
      ∀ kind ∈ kinds, headerPath? kind = none := by
  induction ls with
  | nil => exact ⟨[],rfl,by simp⟩
  | cons l ls ih =>
    obtain ⟨kind,hkind⟩ := hread l List.mem_cons_self
    have hbody : ∀ path, kind ≠ .fileHeader path := fun path hp =>
      hfree l List.mem_cons_self path (hp ▸ hkind)
    obtain ⟨kinds,hkinds,hnone⟩ := ih (fun m hm => hread m (List.mem_cons_of_mem _ hm))
      (fun m hm => hfree m (List.mem_cons_of_mem _ hm))
    have hl : readLine names l = .ok kind :=
      readLine_of_classify hkind fun path hp => absurd hp (hbody path)
    refine ⟨kind :: kinds,by rw [List.mapM_cons,hl,hkinds]; rfl,?_⟩
    intro k hk
    rcases List.mem_cons.mp hk with rfl | hk
    · cases k with
      | fileHeader path => exact absurd rfl (hbody path)
      | _ => rfl
    · exact hnone k hk

/-- A block of another file has no hunks for the target, whatever it holds. -/
theorem Foreign.collect_text {names : Naming} {b : Block} (h : b.Foreign names) :
    collect names b.text = .ok [] := by
  obtain ⟨kinds,hkinds,hnone⟩ := mapM_readLine_of_body h.readable b.not_header names
  have hdeclared : declaredHunks names (.fileHeader b.path :: kinds) = [] := by
    rw [declaredHunks_header,h.not_target,declaredHunks,segments_eq_nil hnone]
    rfl
  rw [collect_eq,lines_text,List.mapM_cons,readLine_header b.classify_header,h.names_path,hkinds]
  exact congrArg Except.ok hdeclared

end Block

theorem collect_joined_concat (names : Naming) (front : List Text) (b : Block) :
    collect names (joined '\n' (front ++ [b.text])) = (do
      return (← collect names (joined '\n' front)) ++ (← collect names b.text)) := by
  by_cases hfront : front = []
  · subst hfront
    change collect names b.text = (collect names b.text).bind fun hb => .ok ([] ++ hb)
    cases collect names b.text <;> rfl
  · rw [Text.joined_append hfront]
    exact collect_append names _ b.opensWithHeader

/-- The hunks of blocks, one block after the other. -/
def collectBlocks (names : Naming) : List Block → Except Fault (List Hunk)
  | [] => .ok []
  | b :: bs => do return (← collect names b.text) ++ (← collectBlocks names bs)

theorem collect_joined (names : Naming) (front : List Text) (bs : List Block) :
    collect names (joined '\n' (front ++ bs.map Block.text)) = (do
      return (← collect names (joined '\n' front)) ++ (← collectBlocks names bs)) := by
  induction bs generalizing front with
  | nil =>
    rw [List.map_nil,List.append_nil]
    cases collect names (joined '\n' front) with
    | error fault => rfl
    | ok hs => exact congrArg Except.ok (List.append_nil hs).symm
  | cons b bs ih =>
    have hfront : front ++ (b :: bs).map Block.text = front ++ [b.text] ++ bs.map Block.text := by
      simp
    rw [hfront,ih,collect_joined_concat,collectBlocks]
    cases collect names (joined '\n' front) with
    | error fault => rfl
    | ok hs =>
      cases collect names b.text with
      | error fault => rfl
      | ok hb =>
        cases collectBlocks names bs with
        | error fault => rfl
        | ok rest => exact congrArg Except.ok (List.append_assoc hs hb rest)

theorem collectBlocks_filter {names : Naming} {bs : List Block}
    (h : ∀ b ∈ bs, namesTarget names b.path = false → b.Foreign names) :
    collectBlocks names (bs.filter fun b => namesTarget names b.path) = collectBlocks names bs := by
  induction bs with
  | nil => rfl
  | cons b bs ih =>
    have ih := ih fun c hc => h c (List.mem_cons_of_mem _ hc)
    rw [List.filter_cons]
    split
    · rw [collectBlocks,collectBlocks,ih]
    · next hb =>
      have hforeign : b.Foreign names := h b List.mem_cons_self (Bool.eq_false_iff.mpr hb)
      rw [ih,collectBlocks,hforeign.collect_text]
      cases collectBlocks names bs <;> rfl

/-- A part that opens with a header adds its edits to those of the part in front of it, moved by
that part's drift. Blocks of other files may stand between the blocks of the target, in any number
and order. -/
theorem interpret_append_and_foreign_blocks (host : Host) (resolveLinks : Bool) (target : Text) :
    (∀ r₁ r₂ es₁ es₂, OpensWithHeader r₂ → interpret host resolveLinks target r₁ = .ok es₁ →
        interpret host resolveLinks target r₂ = .ok es₂ →
        ∃ hs, collect (Path.names host resolveLinks target) r₁ = .ok hs ∧
          interpret host resolveLinks target (r₁ ++ '\n' :: r₂) =
            .ok (es₁ ++ es₂.map (Edit.moved (Hunk.totalDrift hs)))) ∧
      ∀ (front : List Text) (as bs : List Block),
        let ofTarget := fun b : Block => namesTarget (Path.names host resolveLinks target) b.path
        (∀ b ∈ as ++ bs, ofTarget b = false → b.Foreign (Path.names host resolveLinks target)) →
        as.filter ofTarget = bs.filter ofTarget →
        interpret host resolveLinks target (joined '\n' (front ++ as.map Block.text)) =
          interpret host resolveLinks target (joined '\n' (front ++ bs.map Block.text)) := by
  refine ⟨?_,?_⟩
  · intro r₁ r₂ es₁ es₂ hheader h₁ h₂
    obtain ⟨hs₁,hhs₁,rfl⟩ := interpret_eq_ok.mp h₁
    obtain ⟨hs₂,hhs₂,rfl⟩ := interpret_eq_ok.mp h₂
    refine ⟨hs₁,hhs₁,?_⟩
    rw [interpret,collect_append _ r₁ hheader,hhs₁,hhs₂,← Edit.ofHunks_append]
    rfl
  · intro front as bs ofTarget hforeign hsame
    have hblocks : collectBlocks (Path.names host resolveLinks target) as =
        collectBlocks (Path.names host resolveLinks target) bs :=
      calc collectBlocks _ as
        _ = collectBlocks _ (as.filter ofTarget) :=
          (collectBlocks_filter fun b hb => hforeign b (List.mem_append_left _ hb)).symm
        _ = collectBlocks _ (bs.filter ofTarget) := by rw [hsame]
        _ = collectBlocks _ bs :=
          collectBlocks_filter fun b hb => hforeign b (List.mem_append_right _ hb)
    rw [interpret,interpret,collect_joined,collect_joined,hblocks]

/-- Two hunks of the target with a drift; then a block of the target between blocks of two other
files, of which one is left out and the other one goes to the end. -/
theorem interpret_append_and_foreign_blocks_of_three_files :
    let target := "a".toList
    let names := Path.names {} false target
    let r₁ := "Diff of a:\nDiff at line 2\n-x⏎\n+y⏎\n+z⏎".toList
    let r₂ := "Diff of a:\nDiff at line 9\n-u⏎\n+v⏎".toList
    let es₁ : List Edit := [⟨1,1,0,none,"y\nz".toList⟩]
    let es₂ : List Edit := [⟨8,8,0,none,"v".toList⟩]
    (OpensWithHeader r₂ ∧ interpret {} false target r₁ = .ok es₁ ∧
        interpret {} false target r₂ = .ok es₂) ∧
      interpret {} false target (r₁ ++ '\n' :: r₂) = .ok (es₁ ++ [⟨7,7,0,none,"v".toList⟩]) ∧
      ∃ a b c : Block, (a.body = ["Diff at line 5".toList,"-o⏎".toList] ∧
          b.body = ["Diff at line 1".toList,"+o⏎".toList] ∧ c.body = []) ∧
        (namesTarget names a.path = true ∧ b.Foreign names ∧ c.Foreign names) ∧
        interpret {} false target (joined '\n' ([r₁] ++ [b,a,c].map Block.text)) =
          interpret {} false target (joined '\n' ([r₁] ++ [a,b].map Block.text)) := by
  intro target names r₁ r₂ es₁ es₂
  obtain ⟨happend,hforeign⟩ := interpret_append_and_foreign_blocks {} false target
  have hheader : OpensWithHeader r₂ := ⟨"Diff of a:".toList,rfl,"a".toList,rfl⟩
  have h₁ : interpret {} false target r₁ = .ok es₁ := rfl
  have h₂ : interpret {} false target r₂ = .ok es₂ := rfl
  obtain ⟨hs,hhs,hboth⟩ := happend r₁ r₂ es₁ es₂ hheader h₁ h₂
  obtain rfl : [⟨2,1,["y\n".toList,"z\n".toList]⟩] = hs := Except.ok.inj hhs
  obtain ⟨a,habody,ha⟩ : ∃ a : Block, a.body = ["Diff at line 5".toList,"-o⏎".toList] ∧
      namesTarget names a.path = true :=
    ⟨⟨target,"Diff of a:".toList,["Diff at line 5".toList,"-o⏎".toList],rfl,
      List.forall_mem_cons.mpr ⟨nofun,List.forall_mem_singleton.mpr nofun⟩,by decide⟩,rfl,rfl⟩
  obtain ⟨b,hbbody,hb⟩ : ∃ b : Block, b.body = ["Diff at line 1".toList,"+o⏎".toList] ∧
      b.Foreign names :=
    ⟨⟨"b".toList,"Diff of b:".toList,["Diff at line 1".toList,"+o⏎".toList],rfl,
      List.forall_mem_cons.mpr ⟨nofun,List.forall_mem_singleton.mpr nofun⟩,by decide⟩,rfl,
      rfl,List.forall_mem_cons.mpr ⟨⟨_,rfl⟩,List.forall_mem_singleton.mpr ⟨_,rfl⟩⟩⟩
  obtain ⟨c,hcbody,hc⟩ : ∃ c : Block, c.body = [] ∧ c.Foreign names :=
    ⟨⟨"c".toList,"Diff of c:".toList,[],rfl,nofun,by decide⟩,rfl,rfl,nofun⟩
  have hall : ∀ d ∈ [b,a,c] ++ [a,b], namesTarget names d.path = false → d.Foreign names := by
    simp [ha,hb,hc]
  have hsame : ([b,a,c].filter fun d => namesTarget names d.path) =
      [a,b].filter fun d => namesTarget names d.path := by
    simp [ha,hb.not_target,hc.not_target]
  exact ⟨⟨hheader,h₁,h₂⟩,hboth,a,b,c,⟨habody,hbbody,hcbody⟩,⟨ha,hb,hc⟩,
    hforeign [r₁] [b,a,c] [a,b] hall hsame⟩

end Report
end FormatEdits
